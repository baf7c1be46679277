/-
# Descriptors of a virtqueue (`kernel/driver/virtio/virtio.cpp`)

The descriptors of a queue are linked by their `next` fields: those that are free from `free_head`
on, and those of a chain as long as the NEXT flag is set.  `queue_add_chain_legacy` takes the first
descriptors of the free list, and `queue_free_chain_legacy` puts a chain in front of it.

`Follows` and `Linked` say which descriptors a list visits.  `addChain_of` and `freeChain_of` are
the two functions in these terms.
-/
import Sustcore.Outcome

namespace Sustcore

open Function Kernel List

/-- A descriptor: `next` (`none` is `INVALID_DESC`) and the NEXT flag. -/
structure VDesc where
  next : Option ℕ
  more : Bool
  deriving DecidableEq

/-- `VirtQueueLegacy`, its descriptors. -/
structure VirtQueue where
  size : ℕ
  descs : ℕ → VDesc
  freeHead : Option ℕ
  freeCount : ℕ

namespace VirtQueue

/-- The queue that `init_queue_legacy` makes. -/
def init (size : ℕ) : VirtQueue :=
  ⟨size, fun i => ⟨if i + 1 < size then some (i + 1) else none, false⟩, some 0, size⟩

/-- The first loop of `queue_add_chain_legacy`: the indices, and where the free list goes on. -/
def takeDescs (descs : ℕ → VDesc) : ℕ → Option ℕ → Result (List ℕ × Option ℕ)
  | 0, current => .ok ([], current)
  | _ + 1, none => .error .noFreeSlot
  | n + 1, some d => do
      let (rest, current) ← takeDescs descs n (descs d).next
      pure (d :: rest, current)

/-- The second loop of `queue_add_chain_legacy`. -/
def linkDescs : List ℕ → (ℕ → VDesc) → ℕ → VDesc
  | [], descs => descs
  | [d], descs => update descs d ⟨none, false⟩
  | d :: e :: rest, descs => linkDescs (e :: rest) (update descs d ⟨some e, true⟩)

/-- `queue_add_chain_legacy` with `n` buffers; the result is the list of the descriptors. -/
def addChain (n : ℕ) : Kernel VirtQueue (List ℕ) := do
  let q ← get
  if n = 0 ∨ n > q.freeCount then throw .outOfBoundary
  else
    let (taken, current) ← ofResult (takeDescs q.descs n q.freeHead)
    modify fun q =>
      { q with
        freeHead := current
        freeCount := q.freeCount - n
        descs := linkDescs taken q.descs }
    pure taken

/-- The loop of `queue_free_chain_legacy`: the number of descriptors and the last one. -/
def walkChain (descs : ℕ → VDesc) : ℕ → ℕ → Except Halt (ℕ × ℕ)
  | 0, _ => .error .outOfFuel
  | n + 1, d =>
    match (descs d).more, (descs d).next with
    | true, some e => do
        let (count, tail) ← walkChain descs n e
        pure (count + 1, tail)
    | _, _ => .ok (1, d)

/-- `queue_free_chain_legacy`. -/
def freeChain (head : Option ℕ) : Kernel VirtQueue Unit :=
  match head with
  | none => throw .invalidParam
  | some head =>
    lift fun q => do
      let (count, tail) ← walkChain q.descs q.size head
      pure { q with
        descs := update q.descs tail { q.descs tail with next := q.freeHead }
        freeHead := some head
        freeCount := q.freeCount + count }

/-! ## Lists of descriptors -/

/-- The descriptors from `head` on, by their `next` fields. -/
def Follows (descs : ℕ → VDesc) : Option ℕ → List ℕ → Prop
  | head, [] => head = none
  | head, d :: rest => head = some d ∧ Follows descs (descs d).next rest

def Linked (descs : ℕ → VDesc) : List ℕ → Prop
  | [] => False
  | [d] => (descs d).more = false
  | d :: e :: rest => descs d = ⟨some e, true⟩ ∧ Linked descs (e :: rest)

section Lists

variable {descs descs' : ℕ → VDesc}

theorem Follows.congr : ∀ {l : List ℕ} {head : Option ℕ}, (∀ d ∈ l, descs' d = descs d) →
    Follows descs head l → Follows descs' head l := by
  intro l
  induction l with
  | nil =>
    intro head _ h
    exact h
  | cons d rest ih =>
    rintro head hsame ⟨hhead, hrest⟩
    refine ⟨hhead, ?_⟩
    rw [hsame d mem_cons_self]
    exact ih (fun e he => hsame e (mem_cons_of_mem d he)) hrest

theorem Linked.congr : ∀ {l : List ℕ}, (∀ d ∈ l, descs' d = descs d) → Linked descs l →
    Linked descs' l := by
  intro l
  induction l with
  | nil =>
    intro _ h
    exact h
  | cons d rest ih =>
    intro hsame h
    cases rest with
    | nil =>
      show (descs' d).more = false
      rwa [hsame d mem_cons_self]
    | cons e rest =>
      refine ⟨?_, ih (fun x hx => hsame x (mem_cons_of_mem d hx)) h.2⟩
      rw [hsame d mem_cons_self]
      exact h.1

theorem takeDescs_of_follows : ∀ {n : ℕ} {l : List ℕ} {head : Option ℕ}, Follows descs head l →
    n ≤ l.length → ∃ current, takeDescs descs n head = .ok (l.take n, current) ∧
      Follows descs current (l.drop n) := by
  intro n
  induction n with
  | zero =>
    intro l head h _
    exact ⟨head, rfl, h⟩
  | succ n ih =>
    intro l head h hle
    cases l with
    | nil => exact absurd hle (by simp)
    | cons d rest =>
      obtain ⟨rfl, hrest⟩ := h
      obtain ⟨current, htake, hcur⟩ := ih hrest (Nat.le_of_succ_le_succ hle)
      refine ⟨current, ?_, hcur⟩
      show (takeDescs descs n (descs d).next >>= _) = _
      rw [htake]
      rfl

theorem linkDescs_of_not_mem : ∀ {l : List ℕ} {descs : ℕ → VDesc} {d : ℕ}, d ∉ l →
    linkDescs l descs d = descs d := by
  intro l
  induction l with
  | nil =>
    intro descs d _
    rfl
  | cons x rest ih =>
    intro descs d hd
    have hne : d ≠ x := fun h => hd (h ▸ mem_cons_self)
    cases rest with
    | nil => exact update_of_ne hne _ _
    | cons e rest =>
      show linkDescs (e :: rest) _ d = _
      rw [ih fun h => hd (mem_cons_of_mem x h), update_of_ne hne]

/-- The second loop makes a chain. -/
theorem linkDescs_linked : ∀ {l : List ℕ} {descs : ℕ → VDesc}, l.Nodup → l ≠ [] →
    Linked (linkDescs l descs) l := by
  intro l
  induction l with
  | nil =>
    intro descs _ hne
    exact absurd rfl hne
  | cons d rest ih =>
    intro descs hnodup _
    obtain ⟨hd, hrest⟩ := nodup_cons.mp hnodup
    cases rest with
    | nil =>
      show (update descs d ⟨none, false⟩ d).more = false
      rw [update_self]
    | cons e rest =>
      refine ⟨?_, ih hrest (cons_ne_nil _ _)⟩
      show linkDescs (e :: rest) _ d = _
      rw [linkDescs_of_not_mem hd, update_self]

/-- The loop of `queue_free_chain_legacy` counts the chain and finds its end. -/
theorem walkChain_of_linked : ∀ {l : List ℕ} {d n : ℕ}, Linked descs (d :: l) → l.length < n →
    walkChain descs n d = .ok (l.length + 1, (d :: l).getLast (cons_ne_nil d l)) := by
  intro l
  induction l with
  | nil =>
    intro d n h hn
    obtain ⟨n, rfl⟩ : ∃ k, n = k + 1 := ⟨n - 1, by simp at hn; omega⟩
    have hmore : (descs d).more = false := h
    unfold walkChain
    rw [hmore]
    rfl
  | cons e rest ih =>
    intro d n h hn
    obtain ⟨n, rfl⟩ : ∃ k, n = k + 1 := ⟨n - 1, by simp at hn; omega⟩
    obtain ⟨hd, hrest⟩ := h
    unfold walkChain
    rw [hd]
    show (walkChain descs n e >>= _) = _
    rw [ih hrest (Nat.lt_of_succ_lt_succ hn)]
    rfl

/-- A chain whose last descriptor leads to the free list is in front of it. -/
theorem follows_append : ∀ {l fl : List ℕ} {d : ℕ} {head : Option ℕ}, Linked descs (d :: l) →
    Follows descs head fl → (d :: l ++ fl).Nodup →
    Follows (update descs ((d :: l).getLast (cons_ne_nil d l))
      { descs ((d :: l).getLast (cons_ne_nil d l)) with next := head })
      (some d) (d :: l ++ fl) := by
  intro l
  induction l with
  | nil =>
    intro fl d head _ hfl hnodup
    refine ⟨rfl, ?_⟩
    show Follows (update descs d { descs d with next := head })
      (update descs d { descs d with next := head } d).next fl
    rw [update_self]
    refine hfl.congr fun e he => update_of_ne ?_ _ _
    rintro rfl
    exact (nodup_cons.mp hnodup).1 he
  | cons e rest ih =>
    intro fl d head h hfl hnodup
    obtain ⟨hd, hrest⟩ := h
    obtain ⟨hnot, hnodup'⟩ := nodup_cons.mp hnodup
    rw [getLast_cons (cons_ne_nil e rest)]
    refine ⟨rfl, ?_⟩
    have hne : d ≠ (e :: rest).getLast (cons_ne_nil e rest) := by
      intro heq
      refine hnot (mem_append_left fl ?_)
      rw [heq]
      exact getLast_mem _
    rw [update_of_ne hne, hd]
    exact ih hrest hfl hnodup'

end Lists

/-! ## The two functions -/

/-- The free list of the queue is `free`. -/
structure HasFree (q : VirtQueue) (free : List ℕ) : Prop where
  follows : Follows q.descs q.freeHead free
  count : q.freeCount = free.length

variable {q : VirtQueue} {free : List ℕ}

/-- The free list of a new queue. -/
theorem follows_init (size : ℕ) : ∀ (n k : ℕ), k + (n + 1) = size →
    Follows (init size).descs (some k) (range' k (n + 1)) := by
  intro n
  induction n with
  | zero =>
    intro k hk
    refine ⟨rfl, ?_⟩
    show (if k + 1 < size then some (k + 1) else none) = none
    rw [if_neg (by omega)]
  | succ n ih =>
    intro k hk
    refine ⟨rfl, ?_⟩
    show Follows _ (if k + 1 < size then some (k + 1) else none) _
    rw [if_pos (by omega)]
    exact ih (k + 1) (by omega)

/-- **`queue_add_chain_legacy`** makes a chain of the first free descriptors, or fails. -/
theorem addChain_of (h : q.HasFree free) (hnodup : free.Nodup) (n : ℕ) :
    addChain n q = .ok (.error .outOfBoundary, q) ∨
      ∃ d l, free.take n = d :: l ∧ ∃ q', addChain n q = .ok (.ok (d :: l), q') ∧
        q'.size = q.size ∧ q'.HasFree (free.drop n) ∧ Linked q'.descs (d :: l) ∧
        ∀ e, e ∉ d :: l → q'.descs e = q.descs e := by
  unfold addChain
  rw [get_bind]
  split
  · exact Or.inl rfl
  rename_i hn
  rw [not_or, not_lt, h.count] at hn
  obtain ⟨current, htake, hcur⟩ := takeDescs_of_follows h.follows hn.2
  have hlen : (free.take n).length = n := by
    rw [length_take]
    omega
  have hsplit : (free.take n ++ free.drop n).Nodup := by
    rwa [take_append_drop]
  obtain ⟨d, l, hdl⟩ : ∃ d l, free.take n = d :: l := by
    cases hl : free.take n with
    | nil =>
      rw [hl] at hlen
      exact absurd hlen.symm hn.1
    | cons d l => exact ⟨d, l, rfl⟩
  refine Or.inr ⟨d, l, hdl, { q with
    freeHead := current
    freeCount := q.freeCount - n
    descs := linkDescs (d :: l) q.descs }, ?_, rfl, ⟨?_, ?_⟩, ?_, ?_⟩
  · rw [htake, hdl]
    rfl
  · refine hcur.congr fun e he => linkDescs_of_not_mem fun he' => ?_
    rw [← hdl] at he'
    exact (nodup_append.mp hsplit).2.2 e he' e he rfl
  · rw [length_drop, h.count]
  · refine linkDescs_linked ?_ (cons_ne_nil d l)
    rw [← hdl]
    exact (nodup_append.mp hsplit).1
  · intro e he
    exact linkDescs_of_not_mem he

/-- **`queue_free_chain_legacy`** puts the chain in front of the free list. -/
theorem freeChain_of {d : ℕ} {l : List ℕ} (h : q.HasFree free) (hlinked : Linked q.descs (d :: l))
    (hnodup : (d :: l ++ free).Nodup) (hsize : l.length < q.size) :
    ∃ q', freeChain (some d) q = .ok (.ok (), q') ∧ q'.size = q.size ∧
      q'.HasFree (d :: l ++ free) ∧ ∀ e, e ∉ d :: l → q'.descs e = q.descs e := by
  refine ⟨{ q with
    descs := update q.descs ((d :: l).getLast (cons_ne_nil d l))
      { q.descs ((d :: l).getLast (cons_ne_nil d l)) with next := q.freeHead }
    freeHead := some d
    freeCount := q.freeCount + (l.length + 1) }, ?_, ?_⟩
  · unfold freeChain
    rw [lift_eq_ok, walkChain_of_linked hlinked hsize]
    exact ⟨rfl, rfl⟩
  · refine ⟨rfl, ⟨follows_append hlinked h.follows hnodup, ?_⟩, fun e he => ?_⟩
    · rw [h.count, length_append, length_cons, add_comm]
    · refine update_of_ne ?_ _ _
      rintro rfl
      exact he (getLast_mem _)

end VirtQueue

end Sustcore
