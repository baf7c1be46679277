/-
# Access to user buffers (`kernel/syscall/uaccess.h`)

A `UBuffer` stands for `len` bytes at a user address.  `resolve_payload` looks up the area of the
address once and keeps the memory payload and the offset; `sync_from_user` and `commit_to_user` then
read and write the payload.  Nothing looks at the protection of the area, the end of the range is a
64-bit sum, and the count that the payload returns, which is cut at its size, is dropped.

`accesses` records the bytes of payloads that were transferred, the last access at the end; no
function reads it.  `user_access_exact` says when a call that succeeds has transferred the range and
nothing else.
-/
import Sustcore.MemoryRuns
import Sustcore.VmaTranslation
import Sustcore.World

namespace Sustcore

open Relation Kernel List Function

/-! ## What `write` leaves behind -/

section Write

variable {F : Type} {A : FrameAllocator F} {fileRead : FileRead} {h : MemoryHeap F} {p : ℕ}

variable {offset total count buflen : ℕ} {data : ℕ → UInt8}

theorem writeLoop_bytes : ∀ n consumed count
    (s s' : PayloadState F), total - consumed ≤ n → (h.put p s).Sound A →
    writeLoop A fileRead offset data total n consumed s = .ok (.ok count, s') → count = total ∧
      (∀ i, consumed ≤ i → i < total → s'.payload.byteAt fileRead s'.mem (offset + i) = data i) ∧
      ∀ x < offset + consumed,
        s'.payload.byteAt fileRead s'.mem x = s.payload.byteAt fileRead s.mem x := by
  intro n
  induction n with
  | zero =>
    intro consumed count s s' hfuel _ hcall
    obtain ⟨hcount, rfl⟩ := pure_eq_ok.mp hcall
    cases hcount
    exact ⟨rfl, fun i _ _ => by omega, fun _ _ => rfl⟩
  | succ n ih =>
    intro consumed count s s' hfuel hs hcall
    by_cases hlt : consumed < total
    · obtain ⟨-, -, ⟨⟩⟩ | ⟨u, page, hrun, hpage, hle, hrest⟩ := writeLoop_succ_eq_ok hlt hcall
      obtain ⟨hsound, hbytes⟩ := quiet_byteAt hrun hs
      have hpos := @pageChunkSize_pos (offset + consumed) _ (Nat.sub_pos_of_lt hlt)
      have hend := offsetInPage_add_chunk_le (offset + consumed) (total - consumed)
      have hchunk := @offset_add_chunk (offset + consumed) (total - consumed)
      generalize pageChunkSize (offset + consumed) (total - consumed) = chunk at *
      -- the store changes the bytes of this round only
      have hevent : PayloadEvent A fileRead
          {x | offset + consumed ≤ x ∧ x < offset + consumed + chunk} u
          { u with
            mem := memcpyFrom u.mem (page.addr + offsetInPage (offset + consumed))
              (fun i => data (consumed + i)) chunk } := by
        refine PayloadEvent.store u _ hpage hle hend ?_
        intro i hi
        rw [offvpn_mul_add_offsetInPage]
        exact ⟨by omega, by omega⟩
      obtain ⟨hcount, hdata, hkept⟩ := ih _ count _ s' (by omega) (hevent.sound hsound) hrest
      refine ⟨hcount, fun i hi hit => ?_, fun x hx => ?_⟩
      · by_cases hround : i < consumed + chunk
        · rw [hkept (offset + i) (by omega)]
          obtain ⟨hvpn, hin⟩ := hchunk (i := i - consumed) (by omega)
          rw [show offset + consumed + (i - consumed) = offset + i by omega] at hvpn hin
          have hfound : u.payload.phyPages.lookup (offsetToOffvpn (offset + i)) = some page := by
            rwa [hvpn]
          refine (byteAt_of_page hfound).trans ?_
          rw [hin]
          show memcpyFrom u.mem (page.addr + offsetInPage (offset + consumed))
            (fun i => data (consumed + i)) chunk
            (page.addr + (offsetInPage (offset + consumed) + (i - consumed))) = data i
          rw [memcpyFrom_inside ⟨by omega, by omega⟩]
          exact congrArg data (by omega)
        · exact hdata i (by omega) hit
      · rw [hkept x (by omega), hevent.byteAt_self hsound (fun hin => by
          have := hin.1
          omega), hbytes]
    · rw [writeLoop, if_neg hlt] at hcall
      obtain ⟨hcount, rfl⟩ := pure_eq_ok.mp hcall
      cases hcount
      exact ⟨rfl, fun i _ _ => by omega, fun _ _ => rfl⟩

/-- **`write` stores the data**, as far as the payload reaches. -/
theorem writePayload_bytes {s s' : PayloadState F} (hs : (h.put p s).Sound A) (hpos : buflen ≠ 0)
    (hcall : writePayload A fileRead offset (some data) buflen s = .ok (.ok count, s')) :
    MemoryPayload.boundedLength s.payload.memsz offset buflen = .ok count ∧
      ∀ i < count, s'.payload.byteAt fileRead s'.mem (offset + i) = data i := by
  unfold writePayload at hcall
  rw [if_neg hpos] at hcall
  simp only [get_bind] at hcall
  obtain ⟨total, htotal, hcall⟩ := ofResult_bind_returns hcall
  obtain ⟨rfl, hdata, -⟩ := writeLoop_bytes total 0 count s s' (Nat.sub_le total 0) hs hcall
  exact ⟨htotal, fun i hi => hdata i (Nat.zero_le i) hi⟩

/-- **`read` returns as many bytes as the payload has.** -/
theorem readPayload_length {out : List UInt8} {s s' : PayloadState F}
    (hs : (h.put p s).Sound A) (hpos : buflen ≠ 0)
    (hcall : readPayload A fileRead offset true buflen s = .ok (.ok out, s')) :
    MemoryPayload.boundedLength s.payload.memsz offset buflen = .ok out.length := by
  unfold readPayload at hcall
  rw [if_neg (by simp), if_neg hpos, get_bind] at hcall
  obtain ⟨total, htotal, hcall⟩ := ofResult_bind_returns hcall
  rw [readLoop_bytes total 0 [] out s s' (Nat.sub_le total 0) hs hcall, htotal]
  simp

end Write

/-! ## The buffer -/

/-- `UBuffer`; `kbuf` is `none` if `new char[len]` returned null. -/
structure UBuffer where
  uaddr : ℕ
  len : ℕ
  kbuf : Option (ℕ → UInt8)
  resolved : Bool
  memory : Option ℕ
  memOffset : ℕ

/-- Bytes of a payload that `read` or `write` transferred. -/
structure Access where
  memory : Option ℕ
  offset : ℕ
  count : ℕ
  deriving DecidableEq

/-- The kernel as a buffer sees it. -/
structure UState (F : Type) where
  world : World F
  buf : UBuffer
  accesses : List Access

namespace UserBuffer

variable {F : Type}

def resolvePayload : Kernel (UState F) Unit := do
  let s ← get
  if s.buf.resolved || s.buf.len == 0 then
    modify fun s => { s with buf := { s.buf with resolved := true } }
  else
    let tmm ← ofResult (s.world.tmm.elim (.error .invalidParam) .ok)
    let vma ← ofResult (tmm.locate s.buf.uaddr)
    let stop := wordAdd s.buf.uaddr s.buf.len
    if !vma.varea.within s.buf.uaddr || stop > vma.varea.stop then throw .outOfBoundary
    else
      modify fun s =>
        { s with
          buf :=
            { s.buf with
              memory := some vma.memory
              memOffset := wordAdd vma.memOffset (wordSub s.buf.uaddr vma.varea.begin)
              resolved := true } }

variable (A : FrameAllocator F) (fileRead : FileRead)

/-- A function of the payload that the buffer has resolved; there is nothing behind a null
pointer or a payload that is gone. -/
def onMemory {α : Type} (x : Kernel (PayloadState F) α) : Kernel (UState F) α := fun s =>
  match s.buf.memory with
  | none => .error .undefined
  | some p =>
    match s.world.memory.payloads p with
    | none => .error .undefined
    | some m => do
        let (res, t) ← x (s.world.memory.select m)
        pure (res, { s with world := { s.world with memory := s.world.memory.put p t } })

def syncFromUser : Kernel (UState F) Unit := do
  let s ← get
  if s.buf.kbuf.isNone || s.buf.len == 0 then pure ()
  else
    resolvePayload
    let s ← get
    let out ← onMemory (readPayload A fileRead s.buf.memOffset s.buf.kbuf.isSome s.buf.len)
    modify fun s =>
      { s with
        buf := { s.buf with kbuf := s.buf.kbuf.map fun k i => out.getD i (k i) }
        accesses := s.accesses ++ [⟨s.buf.memory, s.buf.memOffset, out.length⟩] }

def commitToUser (len : ℕ) : Kernel (UState F) Unit := do
  let s ← get
  if len > s.buf.len then throw .outOfBoundary
  else if s.buf.kbuf.isNone || len == 0 then pure ()
  else
    resolvePayload
    let s ← get
    let count ← onMemory (writePayload A fileRead s.buf.memOffset s.buf.kbuf len)
    modify fun s =>
      { s with accesses := s.accesses ++ [⟨s.buf.memory, s.buf.memOffset, count⟩] }

/-- The two directions. -/
inductive Call where
  | sync
  | commit (n : ℕ)

namespace Call

/-- The function of the buffer. -/
def run : Call → Kernel (UState F) Unit
  | sync => syncFromUser A fileRead
  | commit n => commitToUser A fileRead n

/-- How many bytes the call is about. -/
def count (b : UBuffer) : Call → ℕ
  | sync => b.len
  | commit n => n

def needs : Call → Prot
  | sync => Prot.PROT_R
  | commit _ => Prot.PROT_W

end Call

/-! ## What a call does -/

/-- The areas of the running task. -/
def areas (w : World F) : List Vma := (w.tmm.map Tmm.vmas).getD []

/-- The buffer stands for the bytes of payload `p` from offset `o` on. -/
def ResolvesTo (s : UState F) (p o : ℕ) : Prop :=
  if s.buf.resolved then s.buf.memory = some p ∧ s.buf.memOffset = o
  else ∃ v ∈ areas s.world, v.varea.within s.buf.uaddr = true ∧
    wordAdd s.buf.uaddr s.buf.len ≤ v.varea.stop ∧ v.memory = p ∧ v.offsetOf s.buf.uaddr = o

section Calls

variable {A fileRead} {s s' : UState F} {v : Vma}

theorem locate_eq_ok {t : Tmm} {vaddr : ℕ} (h : t.locate vaddr = .ok v) : v ∈ t.vmas := by
  unfold Tmm.locate at h
  split at h
  · rename_i found hfind
    cases h
    exact mem_of_find?_eq_some hfind
  · cases h

/-- **`resolve_payload`** finds the bytes and leaves everything else alone. -/
theorem resolvePayload_eq_ok (hlen : s.buf.len ≠ 0) (h : resolvePayload s = .ok (.ok (), s')) :
    s'.world = s.world ∧ s'.accesses = s.accesses ∧ s'.buf.len = s.buf.len ∧
      s'.buf.kbuf = s.buf.kbuf ∧ ∀ p, s'.buf.memory = some p → ResolvesTo s p s'.buf.memOffset := by
  unfold resolvePayload at h
  rw [get_bind] at h
  cases hres : s.buf.resolved with
  | true =>
    rw [hres, Bool.true_or, if_pos rfl] at h
    obtain ⟨-, rfl⟩ := modify_eq_ok.mp h
    refine ⟨rfl, rfl, rfl, rfl, fun p hp => ?_⟩
    rw [ResolvesTo, if_pos hres]
    exact ⟨hp, rfl⟩
  | false =>
    rw [hres, if_neg (by simpa using hlen)] at h
    obtain ⟨tmm, htmm, h⟩ := ofResult_bind_returns h
    obtain ⟨v, hv, h⟩ := ofResult_bind_returns h
    dsimp only at h
    split at h
    · cases (throw_eq_ok.mp h).1
    rename_i hin
    simp only [Bool.or_eq_true, Bool.not_eq_true', decide_eq_true_eq, not_or, not_lt,
      Bool.not_eq_false] at hin
    obtain ⟨-, rfl⟩ := modify_eq_ok.mp h
    have hareas : areas s.world = tmm.vmas := by
      unfold areas
      cases hw : s.world.tmm with
      | none =>
        rw [hw] at htmm
        cases htmm
      | some t =>
        rw [hw] at htmm
        cases htmm
        rfl
    refine ⟨rfl, rfl, rfl, rfl, fun p hp => ?_⟩
    rw [ResolvesTo, if_neg (by simp [hres]), hareas]
    exact ⟨v, locate_eq_ok hv, hin.1, hin.2, Option.some.inj hp, rfl⟩

/-- Both calls do nothing without bytes or a kernel buffer, and otherwise go on behind
`resolve_payload`. -/
theorem resolved_eq_ok {n : ℕ} {f : UState F → Kernel (UState F) Unit} (hn : n ≤ s.buf.len)
    (h : (if s.buf.kbuf.isNone || n == 0 then pure () else
      resolvePayload >>= fun _ => get >>= f) s = .ok (.ok (), s')) :
    (s' = s ∧ (n = 0 ∨ s.buf.kbuf = none)) ∨ ∃ k u, s.buf.kbuf = some k ∧ n ≠ 0 ∧
      u.world = s.world ∧ u.accesses = s.accesses ∧ u.buf.len = s.buf.len ∧
      u.buf.kbuf = s.buf.kbuf ∧ (∀ p, u.buf.memory = some p → ResolvesTo s p u.buf.memOffset) ∧
      f u u = .ok (.ok (), s') := by
  split at h
  · rename_i hnone
    rw [Bool.or_eq_true, Option.isNone_iff_eq_none, beq_iff_eq] at hnone
    exact .inl ⟨(pure_eq_ok.mp h).2, hnone.symm⟩
  rename_i hsome
  rw [Bool.or_eq_true, Option.isNone_iff_eq_none, beq_iff_eq, not_or] at hsome
  obtain ⟨k, hk⟩ := Option.ne_none_iff_exists'.mp hsome.1
  obtain ⟨⟨⟩, u, hu, h⟩ := bind_returns h
  obtain ⟨hworld, hacc, hlen, hkbuf, hto⟩ := resolvePayload_eq_ok (by omega) hu
  exact .inr ⟨k, u, hk, hsome.2, hworld, hacc, hlen, hkbuf, hto, h⟩

theorem onMemory_eq_ok {α : Type} {x : Kernel (PayloadState F) α} {r : Result α}
    (h : onMemory x s = .ok (r, s')) : ∃ p m t, s.buf.memory = some p ∧
      s.world.memory.payloads p = some m ∧ x (s.world.memory.select m) = .ok (r, t) ∧
      s' = { s with world := { s.world with memory := s.world.memory.put p t } } := by
  unfold onMemory at h
  split at h
  · cases h
  rename_i p hp
  split at h
  · cases h
  rename_i m hm
  obtain ⟨⟨res, t⟩, hx, hs'⟩ := Except.bind_eq_ok_iff.mp h
  cases hs'
  exact ⟨p, m, t, hp, hm, hx, rfl⟩

variable (fileRead) in
/-- What a call has done: `n` bytes of payload `p` from offset `o` on were transferred. -/
structure Performed (a : Call) (s s' : UState F) (k : ℕ → UInt8) (p o n : ℕ) : Prop where
  resolves : ResolvesTo s p o
  accesses : s'.accesses = s.accesses ++ [⟨some p, o, n⟩]
  payload : ∃ m, s.world.memory.payloads p = some m ∧
    MemoryPayload.boundedLength m.memsz o (a.count s.buf) = .ok n
  bytes : ∃ k', s'.buf.kbuf = some k' ∧
    (∀ i < n, s'.world.memory.byteAt fileRead p (o + i) = some (k' i)) ∧
    ∀ i, (a = .sync → n ≤ i) → k' i = k i
  others : ∀ q x, (a ≠ .sync → q = p → ¬(o ≤ x ∧ x < o + a.count s.buf)) →
    s'.world.memory.byteAt fileRead q x = s.world.memory.byteAt fileRead q x

theorem byteAt_put (h : MemoryHeap F) (p : ℕ) (t : PayloadState F) (x : ℕ) :
    (h.put p t).byteAt fileRead p x = some (t.payload.byteAt fileRead t.mem x) := by
  unfold MemoryHeap.byteAt
  rw [MemoryHeap.put_payloads_self]
  rfl

/-- **`sync_from_user`** reads the bytes into the kernel buffer, or does nothing. -/
theorem syncFromUser_eq_ok (hs : s.world.memory.Sound A)
    (h : syncFromUser A fileRead s = .ok (.ok (), s')) :
    (s' = s ∧ (s.buf.len = 0 ∨ s.buf.kbuf = none)) ∨
      ∃ k p o n, s.buf.kbuf = some k ∧ s.buf.len ≠ 0 ∧ Performed fileRead .sync s s' k p o n := by
  unfold syncFromUser at h
  rw [get_bind] at h
  rcases resolved_eq_ok le_rfl h with hnone | ⟨k, u, hk, hlen, hworld, hacc, hlen', hkbuf', hto, h⟩
  · exact .inl hnone
  obtain ⟨out, _, hread, h⟩ := bind_returns h
  obtain ⟨p, m, t, hp, hm, hcall, rfl⟩ := onMemory_eq_ok hread
  obtain ⟨-, rfl⟩ := modify_eq_ok.mp h
  rw [hworld] at hm hcall
  rw [hkbuf', hk, hlen'] at hcall
  have hself := MemoryHeap.put_select hm
  have hput : (s.world.memory.put p (s.world.memory.select m)).Sound A := by
    rwa [hself]
  have hkeep := (HeapStep.read s.world.memory hm hcall).keeps hs
  refine .inr ⟨k, p, u.buf.memOffset, out.length, hk, hlen, hto p hp, ?_, ?_, ?_, ?_⟩
  · rw [hacc, hp]
  · exact ⟨m, hm, readPayload_length hput hlen hcall⟩
  · refine ⟨fun i => out.getD i (k i), by simp only [hkbuf', hk, Option.map_some], ?_, ?_⟩
    · intro i hi
      rw [hworld]
      refine (hkeep.2 p _ (by simp)).trans ?_
      rw [← hself, byteAt_put, readPayload_bytes hput hcall (getElem?_eq_getElem hi)]
      simp only [getD_eq_getElem?_getD, getElem?_eq_getElem hi, Option.getD_some]
    · intro i hi
      exact getD_eq_default _ _ (hi rfl)
  · intro q x _
    rw [hworld]
    exact hkeep.2 q x (by simp)

/-- **`commit_to_user`** writes the kernel buffer, or does nothing. -/
theorem commitToUser_eq_ok {len : ℕ} (hs : s.world.memory.Sound A)
    (h : commitToUser A fileRead len s = .ok (.ok (), s')) :
    (s' = s ∧ (len = 0 ∨ s.buf.kbuf = none)) ∨ ∃ k p o n, s.buf.kbuf = some k ∧ len ≠ 0 ∧
        Performed fileRead (.commit len) s s' k p o n := by
  unfold commitToUser at h
  rw [get_bind] at h
  split at h
  · cases (throw_eq_ok.mp h).1
  rename_i hle
  rcases resolved_eq_ok (Nat.not_lt.mp hle) h with
    hnone | ⟨k, u, hk, hlen, hworld, hacc, -, hkbuf', hto, h⟩
  · exact .inl hnone
  obtain ⟨count, _, hwrite, h⟩ := bind_returns h
  obtain ⟨p, m, t, hp, hm, hcall, rfl⟩ := onMemory_eq_ok hwrite
  obtain ⟨-, rfl⟩ := modify_eq_ok.mp h
  rw [hworld] at hm hcall
  rw [hkbuf', hk] at hcall
  have hput : (s.world.memory.put p (s.world.memory.select m)).Sound A := by
    rwa [MemoryHeap.put_select hm]
  have hkeep := (HeapStep.write s.world.memory hm hcall).keeps hs
  obtain ⟨hcount, hdata⟩ := writePayload_bytes hput hlen hcall
  refine .inr ⟨k, p, u.buf.memOffset, count, hk, hlen, hto p hp, ?_, ⟨m, hm, hcount⟩, ?_, ?_⟩
  · rw [hacc, hp]
  · refine ⟨k, hkbuf'.trans hk, fun i hi => ?_, fun _ _ => rfl⟩
    rw [byteAt_put, hdata i hi]
  · intro q x hx
    rw [hworld]
    exact hkeep.2 q x (hx (by simp))

/-- Both directions. -/
theorem Call.run_eq_ok {a : Call} (hs : s.world.memory.Sound A)
    (h : a.run A fileRead s = .ok (.ok (), s')) :
    (s' = s ∧ (a.count s.buf = 0 ∨ s.buf.kbuf = none)) ∨
      ∃ k p o n, s.buf.kbuf = some k ∧ a.count s.buf ≠ 0 ∧ Performed fileRead a s s' k p o n := by
  cases a with
  | sync => exact syncFromUser_eq_ok hs h
  | commit n => exact commitToUser_eq_ok hs h

/-! ## When a call transfers the range and nothing else -/

/-- Offsets follow the addresses as long as they are 64-bit words. -/
theorem offsetOf_add {vaddr i : ℕ} (hbegin : v.varea.begin ≤ vaddr)
    (hstop : vaddr + i < 2 ^ 64) (hoff : v.offsetOf vaddr + i < 2 ^ 64) :
    v.offsetOf (vaddr + i) = v.offsetOf vaddr + i := by
  unfold Vma.offsetOf wordAdd wordSub at *
  omega

variable (fileRead) in
/-- The call has transferred its range through the area `v`, which allows it, and has touched no
other byte. -/
structure Exact (a : Call) (s s' : UState F) (v : Vma) : Prop where
  low : v.varea.begin ≤ s.buf.uaddr
  high : s.buf.uaddr + a.count s.buf ≤ v.varea.stop
  allowed : v.prot &&& a.needs = a.needs
  accesses : s'.accesses =
    s.accesses ++ [⟨some v.memory, v.offsetOf s.buf.uaddr, a.count s.buf⟩]
  bytes : ∃ k', s'.buf.kbuf = some k' ∧
    (∀ i < a.count s.buf, s'.world.memory.byteAt fileRead v.memory (v.offsetOf (s.buf.uaddr + i)) =
      some (k' i)) ∧
    ∀ i, (a = .sync → a.count s.buf ≤ i) → s.buf.kbuf.map (fun k => k i) = some (k' i)
  others : ∀ q x, (a ≠ .sync → q = v.memory →
      ∀ i < a.count s.buf, x ≠ v.offsetOf (s.buf.uaddr + i)) →
    s'.world.memory.byteAt fileRead q x = s.world.memory.byteAt fileRead q x

/-- The range lies in the area `v`, the area allows the call, its memory reaches as far as the
range, and a buffer that was resolved before stands for the same bytes. -/
structure Fits (a : Call) (s : UState F) (v : Vma) : Prop where
  low : v.varea.begin ≤ s.buf.uaddr
  high : s.buf.uaddr + a.count s.buf ≤ v.varea.stop
  allowed : v.prot &&& a.needs = a.needs
  resolved : s.buf.resolved = true →
    s.buf.memory = some v.memory ∧ s.buf.memOffset = v.offsetOf s.buf.uaddr
  reaches : ∀ m, s.world.memory.payloads v.memory = some m →
    v.offsetOf s.buf.uaddr + a.count s.buf ≤ m.memsz

variable {k : ℕ → UInt8}

theorem Performed.fits {a : Call} {p o n : ℕ}
    (h : Performed fileRead a s s' k p o n) (hexact : Exact fileRead a s s' v) : Fits a s v := by
  have hacc := append_cancel_left (h.accesses.symm.trans hexact.accesses)
  obtain ⟨hp, ho, hn⟩ := Access.mk.inj (cons.inj hacc).1
  cases hp
  subst ho
  obtain ⟨m, hm, hlen⟩ := h.payload
  refine ⟨hexact.low, hexact.high, hexact.allowed, fun hres => ?_, fun m' hm' => ?_⟩
  · have hto := h.resolves
    rwa [ResolvesTo, if_pos hres] at hto
  · cases hm.symm.trans hm'
    have := (MemoryPayload.boundedLength_le hlen).2
    omega

/-- The bytes that were transferred are those of the area. -/
theorem Performed.target {a : Call} {p o n : ℕ}
    (hvalid : ∀ t, s.world.tmm = some t → t.Valid) (h : Performed fileRead a s s' k p o n)
    (hpos : a.count s.buf ≠ 0) (hv : v ∈ areas s.world) (hfits : Fits a s v) :
    p = v.memory ∧ o = v.offsetOf s.buf.uaddr := by
  have hto := h.resolves
  unfold ResolvesTo at hto
  split at hto
  · rename_i hres
    obtain ⟨hmem, hoff⟩ := hfits.resolved hres
    exact ⟨Option.some.inj (hto.1.symm.trans hmem), hto.2.symm.trans hoff⟩
  obtain ⟨u, hu, hin, -, rfl, rfl⟩ := hto
  have hv' : v.varea.within s.buf.uaddr = true := by
    have := hfits.high
    exact VirArea.within_iff.mpr ⟨hfits.low, by omega⟩
  have heq : u = v := by
    unfold areas at hu hv
    cases htmm : s.world.tmm with
    | none => simp [htmm] at hu
    | some t =>
      rw [htmm] at hu hv
      exact (hvalid t htmm).unique hu hv hin hv'
  rw [heq]
  exact ⟨rfl, rfl⟩

theorem Performed.exact {a : Call} {p o n : ℕ} (hvalid : ∀ t, s.world.tmm = some t → t.Valid)
    (hsize : ∀ q m, s.world.memory.payloads q = some m → m.memsz < 2 ^ 64)
    (h : Performed fileRead a s s' k p o n) (hk : s.buf.kbuf = some k)
    (hpos : a.count s.buf ≠ 0) (hv : v ∈ areas s.world) (hfits : Fits a s v) :
    Exact fileRead a s s' v := by
  obtain ⟨rfl, rfl⟩ := h.target hvalid hpos hv hfits
  obtain ⟨m, hm, hlen⟩ := h.payload
  have hreach := hfits.reaches m hm
  have hsz := hsize v.memory m hm
  have hn : n = a.count s.buf := by
    unfold MemoryPayload.boundedLength at hlen
    rw [if_neg (by omega), if_neg (by omega)] at hlen
    exact (Except.ok.inj hlen).symm
  subst hn
  have hstop : v.varea.stop < 2 ^ 64 := by
    unfold areas at hv
    cases htmm : s.world.tmm with
    | none => simp [htmm] at hv
    | some t =>
      rw [htmm] at hv
      exact ((hvalid t htmm).begin_lt hv).2
  have hoff : ∀ i < a.count s.buf,
      v.offsetOf (s.buf.uaddr + i) = v.offsetOf s.buf.uaddr + i := by
    intro i hi
    have := hfits.high
    exact offsetOf_add hfits.low (by omega) (by omega)
  refine ⟨hfits.low, hfits.high, hfits.allowed, h.accesses, ?_, ?_⟩
  · obtain ⟨k', hk', hbytes, hrest⟩ := h.bytes
    refine ⟨k', hk', fun i hi => ?_, fun i hi => ?_⟩
    · rw [hoff i hi]
      exact hbytes i hi
    · rw [hk, Option.map_some, hrest i hi]
  · intro q x hx
    refine h.others q x fun hcommit hq hin => ?_
    refine hx hcommit hq (x - v.offsetOf s.buf.uaddr) (by omega) ?_
    rw [hoff _ (by omega)]
    omega

end Calls

end UserBuffer

open UserBuffer in
/-- **A user access that succeeds transfers exactly its range**, through one area that allows it,
if and only if there is nothing to transfer, or the range fits into such an area and its memory and
there is a kernel buffer. -/
theorem user_access_exact {F : Type} {A : FrameAllocator F} {fileRead : FileRead} (a : Call)
    {s s' : UState F} (hs : s.world.memory.Sound A)
    (hvalid : ∀ t, s.world.tmm = some t → t.Valid)
    (hsize : ∀ q m, s.world.memory.payloads q = some m → m.memsz < 2 ^ 64)
    (h : a.run A fileRead s = .ok (.ok (), s')) :
    ((a.count s.buf = 0 ∧ s' = s) ∨ ∃ v ∈ areas s.world, Exact fileRead a s s' v) ↔
      (a.count s.buf = 0 ∨ s.buf.kbuf ≠ none ∧ ∃ v ∈ areas s.world, Fits a s v) := by
  rcases Call.run_eq_ok hs h with ⟨rfl, hnone⟩ | ⟨k, p, o, n, hk, hpos, hdone⟩
  · constructor
    · rintro (⟨hzero, -⟩ | ⟨v, -, hexact⟩)
      · exact .inl hzero
      · have hlen := congrArg length hexact.accesses
        simp at hlen
    · rintro (hzero | ⟨hsome, -⟩)
      · exact .inl ⟨hzero, rfl⟩
      · exact .inl ⟨hnone.resolve_right hsome, rfl⟩
  · constructor
    · rintro (⟨hzero, -⟩ | ⟨v, hv, hexact⟩)
      · exact absurd hzero hpos
      · exact .inr ⟨by simp [hk], v, hv, hdone.fits hexact⟩
    · rintro (hzero | ⟨-, v, hv, hfits⟩)
      · exact absurd hzero hpos
      · exact .inr ⟨v, hv, hdone.exact hvalid hsize hk hpos hv hfits⟩

/-! ## An area that may only be read -/

/-- A task with an area that may only be read, and a buffer for its first byte. -/
def readOnlyByte : UState (Gfp Buddy) :=
  ⟨⟨⟨update (fun _ => none) 0 (some oneByte), ⟨fourPages, fun _ => 0⟩, fun _ => 0⟩,
      fun _ => none, fun _ => 1, 1, update (fun _ => none) 0 (some fourPageArea), some 0,
      []⟩,
    ⟨0x4000, 1, some fun _ => 7, false, none, 0⟩, []⟩

theorem readOnlyByte_sound : readOnlyByte.world.memory.Sound (gfpFrames buddyRaw) := by
  have hcreate : HeapRun (gfpFrames buddyRaw) noFile
      (MemoryHeap.init ⟨fourPages, fun _ => 0⟩ fun _ => 0) readOnlyByte.world.memory :=
    ⟨0, _, HeapStep.create _ (p := 0) (m := oneByte) rfl rfl⟩
  exact HeapRun.sound (ReflTransGen.single hcreate) (MemoryHeap.sound_init fourPages_wf _)

theorem readOnlyByte_size : ∀ q m, readOnlyByte.world.memory.payloads q = some m →
    m.memsz < 2 ^ 64 := by
  intro q m hm
  simp only [readOnlyByte, update_apply] at hm
  split at hm
  · cases hm
    decide
  · cases hm

theorem readOnlyByte_valid : ∀ t, readOnlyByte.world.tmm = some t → t.Valid := by
  intro t ht
  cases ht
  exact fourPageArea_valid

/-- The byte is read into the kernel buffer. -/
theorem user_access_exact_read : ∃ s', UserBuffer.Call.sync.run (gfpFrames buddyRaw) noFile
      readOnlyByte = .ok (.ok (), s') ∧
    ∃ v ∈ UserBuffer.areas readOnlyByte.world, UserBuffer.Exact noFile .sync readOnlyByte s' v := by
  have hcall := eq_ok_of_returned (x := UserBuffer.Call.sync.run (gfpFrames buddyRaw) noFile
    readOnlyByte) (a := ()) readOnlyByte (by decide)
  refine ⟨_, hcall, ?_⟩
  have hiff := user_access_exact .sync readOnlyByte_sound readOnlyByte_valid readOnlyByte_size hcall
  have hv : (⟨0, .data, .GROW_DOWN, ⟨0x4000, 0x8000⟩, 0, Prot.PROT_R, 0⟩ : Vma) ∈
      UserBuffer.areas readOnlyByte.world := by decide
  have hfits : UserBuffer.Fits .sync readOnlyByte
      ⟨0, .data, .GROW_DOWN, ⟨0x4000, 0x8000⟩, 0, Prot.PROT_R, 0⟩ := by
    refine ⟨by decide, by decide, by decide, fun hres => (by cases hres), fun m hm => ?_⟩
    cases hm
    decide
  rcases hiff.mpr (.inr ⟨by simp [readOnlyByte], _, hv, hfits⟩) with ⟨hzero, -⟩ | hexact
  · cases hzero
  · exact hexact

/-- **The kernel writes through an area that may only be read.** -/
theorem commit_ignores_protection : ∃ s', (UserBuffer.Call.commit 1).run (gfpFrames buddyRaw)
      noFile readOnlyByte = .ok (.ok (), s') ∧
    readOnlyByte.world.memory.byteAt noFile 0 0 = some 0 ∧
    s'.world.memory.byteAt noFile 0 0 = some 7 ∧
    ∀ v ∈ UserBuffer.areas readOnlyByte.world,
      ¬UserBuffer.Exact noFile (.commit 1) readOnlyByte s' v := by
  have hcall := eq_ok_of_returned (x := (UserBuffer.Call.commit 1).run (gfpFrames buddyRaw) noFile
    readOnlyByte) (a := ()) readOnlyByte (by decide)
  refine ⟨_, hcall, by decide, by decide, fun v hv hexact => ?_⟩
  have hprot : ∀ v ∈ UserBuffer.areas readOnlyByte.world,
      v.prot &&& Prot.PROT_W ≠ Prot.PROT_W := by decide
  exact hprot v hv hexact.allowed

end Sustcore
