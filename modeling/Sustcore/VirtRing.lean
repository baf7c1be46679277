/-
# Recycling the descriptors of a virtqueue (`kernel/driver/virtio/virtio.cpp`)

The rings of a queue carry the heads of chains: `queue_submit_legacy` enters a head into the
available ring, the device fills the used ring, and `queue_pop_used_legacy` takes the next element
of it.  A chain is in flight from `queue_add_chain_legacy` to `queue_free_chain_legacy`.

`Partitioned` says that the free list and the chains in flight share out the descriptors.  Every
step keeps it, as long as only chains in flight are freed.
-/
import Sustcore.VirtQueue

namespace Sustcore

open Function Kernel List Relation VirtQueue

/-- `VirtQueueUsedElemLegacy`. -/
structure VUsedElem where
  id : ℕ
  len : ℕ

/-- `VirtQueueLegacy`: the descriptors and the two rings; `chains` are the chains in flight. -/
structure VirtRing where
  queue : VirtQueue
  availRing : ℕ → ℕ
  availIndex : ℕ
  lastAvailIndex : ℕ
  usedRing : ℕ → VUsedElem
  usedIndex : ℕ
  lastUsedIndex : ℕ
  chains : List (List ℕ)

namespace VirtRing

/-- The queue that `init_queue_legacy` makes. -/
def start (size : ℕ) : VirtRing :=
  ⟨.init size, fun _ => 0, 0, 0, fun _ => ⟨0, 0⟩, 0, 0, []⟩

/-- `queue_submit_legacy`. -/
def submit (head : ℕ) : Kernel VirtRing Unit :=
  modify fun r =>
    { r with
      availRing := update r.availRing (r.lastAvailIndex % r.queue.size) head
      lastAvailIndex := (r.lastAvailIndex + 1) % 2 ^ 16
      availIndex := (r.lastAvailIndex + 1) % 2 ^ 16 }

/-- `queue_pop_used_legacy`. -/
def popUsed : Kernel VirtRing VUsedElem := do
  let r ← get
  if r.lastUsedIndex = r.usedIndex then throw .entryNotFound
  else
    modify fun r => { r with lastUsedIndex := (r.lastUsedIndex + 1) % 2 ^ 16 }
    pure (r.usedRing (r.lastUsedIndex % r.queue.size))

/-- A call of the driver, or the device that writes the used ring. -/
inductive Step : VirtRing → VirtRing → Prop
  | add {r : VirtRing} {n : ℕ} {chain : List ℕ} {q : VirtQueue}
      (hcall : addChain n r.queue = .ok (.ok chain, q)) :
      Step r { r with queue := q, chains := chain :: r.chains }
  | addFails {r : VirtRing} {n : ℕ} {e : ErrCode} {q : VirtQueue}
      (hcall : addChain n r.queue = .ok (.error e, q)) : Step r { r with queue := q }
  | submit {r r' : VirtRing} (head : ℕ) {res : Result Unit}
      (hcall : submit head r = .ok (res, r')) : Step r r'
  | pop {r r' : VirtRing} {res : Result VUsedElem} (hcall : popUsed r = .ok (res, r')) : Step r r'
  | used {r : VirtRing} (ring : ℕ → VUsedElem) (index : ℕ) :
      Step r { r with usedRing := ring, usedIndex := index }
  | free {r : VirtRing} (head : ℕ) (rest : List ℕ) {q : VirtQueue}
      (hin : head :: rest ∈ r.chains) (hcall : freeChain (some head) r.queue = .ok (.ok (), q)) :
      Step r { r with queue := q, chains := r.chains.erase (head :: rest) }

/-- The free list `free` ends in the invalid marker and has `free_count` elements, the chains in
flight are linked by their flags, and each descriptor is in one of them exactly once. -/
structure Partitioned (size : ℕ) (r : VirtRing) (free : List ℕ) : Prop where
  size_eq : r.queue.size = size
  hasFree : r.queue.HasFree free
  linked : ∀ c ∈ r.chains, Linked r.queue.descs c
  once : (free ++ r.chains.flatten).Perm (range size)

theorem partitioned_start {size : ℕ} (hsize : 0 < size) :
    (start size).Partitioned size (range' 0 size) := by
  obtain ⟨n, rfl⟩ : ∃ n, size = n + 1 := ⟨size - 1, by omega⟩
  refine ⟨rfl, ⟨follows_init (n + 1) n 0 (by omega), ?_⟩, ?_, ?_⟩
  · show n + 1 = _
    rw [length_range']
  · intro c hc
    cases hc
  · show (range' 0 (n + 1) ++ [].flatten).Perm _
    rw [flatten_nil, append_nil, range_eq_range']

section Steps

variable {size : ℕ} {r r' : VirtRing} {free : List ℕ}

/-- The rings hold no descriptors. -/
theorem Partitioned.congr (h : r.Partitioned size free) (hqueue : r'.queue = r.queue)
    (hchains : r'.chains = r.chains) : r'.Partitioned size free := by
  refine ⟨?_, ?_, ?_, ?_⟩
  · rw [hqueue]
    exact h.size_eq
  · rw [hqueue]
    exact h.hasFree
  · rw [hqueue, hchains]
    exact h.linked
  · rw [hchains]
    exact h.once

/-- **`queue_add_chain_legacy`** moves the first free descriptors into a new chain. -/
theorem Partitioned.add (h : r.Partitioned size free) {n : ℕ} {d : ℕ} {l : List ℕ} {q : VirtQueue}
    (htake : free.take n = d :: l) (hsize : q.size = r.queue.size)
    (hfree : q.HasFree (free.drop n)) (hlinked : Linked q.descs (d :: l))
    (hkeep : ∀ e, e ∉ d :: l → q.descs e = r.queue.descs e) :
    { r with queue := q, chains := (d :: l) :: r.chains }.Partitioned size (free.drop n) := by
  have hnodup := h.once.nodup_iff.mpr nodup_range
  refine ⟨hsize.trans h.size_eq, hfree, ?_, ?_⟩
  · intro c hc
    rcases mem_cons.mp hc with rfl | hc
    · exact hlinked
    · refine (h.linked c hc).congr fun e he => hkeep e fun he' => ?_
      rw [← htake] at he'
      exact (nodup_append.mp hnodup).2.2 e (mem_of_mem_take he') e (mem_flatten.mpr ⟨c, hc, he⟩) rfl
  · show (free.drop n ++ ((d :: l) :: r.chains).flatten).Perm _
    rw [flatten_cons, ← htake, ← append_assoc]
    refine Perm.trans (perm_append_comm.append_right _) ?_
    rw [take_append_drop]
    exact h.once

theorem Partitioned.split (h : r.Partitioned size free) {c : List ℕ} (hc : c ∈ r.chains) :
    (c ++ free ++ (r.chains.erase c).flatten).Perm (range size) := by
  have hflat : r.chains.flatten.Perm (c ++ (r.chains.erase c).flatten) :=
    (perm_cons_erase hc).flatten
  refine Perm.trans ?_ ((hflat.append_left free).symm.trans h.once)
  rw [← append_assoc]
  exact perm_append_comm.append_right _

/-- **`queue_free_chain_legacy`** returns for a chain in flight, and puts its descriptors back. -/
theorem Partitioned.freed (h : r.Partitioned size free) {d : ℕ} {l : List ℕ}
    (hin : d :: l ∈ r.chains) : ∃ q, freeChain (some d) r.queue = .ok (.ok (), q) ∧
      { r with queue := q, chains := r.chains.erase (d :: l) }.Partitioned size
        (d :: l ++ free) := by
  have hsplit := h.split hin
  have hnodup := hsplit.nodup_iff.mpr nodup_range
  have hlen : l.length < r.queue.size := by
    have hlength := hsplit.length_eq
    rw [length_append, length_append, length_cons, length_range] at hlength
    rw [h.size_eq]
    omega
  obtain ⟨q, hcall, hsize, hfree, hkeep⟩ :=
    freeChain_of h.hasFree (h.linked _ hin) (nodup_append.mp hnodup).1 hlen
  refine ⟨q, hcall, hsize.trans h.size_eq, hfree, ?_, hsplit⟩
  intro c hc
  refine (h.linked c (mem_of_mem_erase hc)).congr fun e he => hkeep e fun he' => ?_
  exact (nodup_append.mp hnodup).2.2 e (mem_append_left free he') e (mem_flatten.mpr ⟨c, hc, he⟩) rfl

theorem Partitioned.step (h : r.Partitioned size free) (hstep : Step r r') :
    ∃ free', r'.Partitioned size free' := by
  have hnodup := (nodup_append.mp (h.once.nodup_iff.mpr nodup_range)).1
  cases hstep with
  | @add n chain q hcall =>
    rcases addChain_of h.hasFree hnodup n with hfail | ⟨d, l, htake, q', hok, hsize, hfree, hlinked,
      hkeep⟩
    · rw [hfail] at hcall
      cases hcall
    · rw [hok] at hcall
      cases hcall
      exact ⟨_, h.add htake hsize hfree hlinked hkeep⟩
  | @addFails n e q hcall =>
    rcases addChain_of h.hasFree hnodup n with hfail | ⟨d, l, -, q', hok, -⟩
    · rw [hfail] at hcall
      cases hcall
      exact ⟨free, h.congr rfl rfl⟩
    · rw [hok] at hcall
      cases hcall
  | submit _ hcall =>
    cases hcall
    exact ⟨free, h.congr rfl rfl⟩
  | pop hcall =>
    unfold popUsed at hcall
    rw [get_bind] at hcall
    split at hcall <;> cases hcall <;> exact ⟨free, h.congr rfl rfl⟩
  | used ring index => exact ⟨free, h.congr rfl rfl⟩
  | free d l hin hcall =>
    obtain ⟨q', hok, hfree⟩ := h.freed hin
    rw [hok] at hcall
    cases hcall
    exact ⟨_, hfree⟩

/-- **The descriptors of a queue are never lost or shared.**  In every run from a new queue in which
only chains in flight are freed, the free list and the chains in flight share out the descriptors,
and the calls of the next step return. -/
theorem descriptors_partitioned (hsize : 0 < size) (hrun : ReflTransGen Step (start size) r) :
    ∃ free, r.Partitioned size free ∧ (∀ n, ∃ res q, addChain n r.queue = .ok (res, q)) ∧
      ∀ d l, d :: l ∈ r.chains → ∃ q, freeChain (some d) r.queue = .ok (.ok (), q) := by
  have hinv : ∃ free, r.Partitioned size free := by
    induction hrun with
    | refl => exact ⟨_, partitioned_start hsize⟩
    | tail _ hstep ih =>
      obtain ⟨free, h⟩ := ih
      exact h.step hstep
  obtain ⟨free, h⟩ := hinv
  refine ⟨free, h, ?_, ?_⟩
  · intro n
    have hnodup := (nodup_append.mp (h.once.nodup_iff.mpr nodup_range)).1
    rcases addChain_of h.hasFree hnodup n with hfail | ⟨d, l, -, q, hok, -⟩
    · exact ⟨_, _, hfail⟩
    · exact ⟨_, _, hok⟩
  · intro d l hin
    obtain ⟨q, hcall, -⟩ := h.freed hin
    exact ⟨q, hcall⟩

end Steps

/-- A chain of two descriptors that is made, submitted and freed, and one of three. -/
theorem descriptors_partitioned_recycled : ∃ r, ReflTransGen Step (start 3) r ∧
    r.chains = [[0, 1, 2]] ∧ ∃ free, r.Partitioned 3 free := by
  have hrun : ReflTransGen Step (start 3) _ :=
    ReflTransGen.refl.tail (Step.add (n := 2) rfl) |>.tail (Step.submit 0 rfl)
      |>.tail (Step.used (fun _ => ⟨0, 0⟩) 1) |>.tail (Step.pop rfl)
      |>.tail (Step.free 0 [1] (by decide) rfl) |>.tail (Step.add (n := 3) rfl)
  obtain ⟨free, h, -⟩ := descriptors_partitioned (by decide) hrun
  exact ⟨_, hrun, rfl, free, h⟩

end VirtRing

end Sustcore
