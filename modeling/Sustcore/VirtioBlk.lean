/-
# The virtio block driver (`kernel/driver/virtio/virtio-blk.cpp`)

The driver has a slot for each request that it has given to the device.  A request is built as a
chain of descriptors; `_slot_by_desc` leads from the first descriptor of a chain back to its slot.
The device returns a chain through the used ring, and the driver then frees the descriptors and
completes the request.

A `BlkChain` is what the device knows of a chain.  `pending` are the chains that the device has not
returned, `used` those in the used ring.  `returned`, `reports` and the number `chain` of a slot are
history: no function reads them.  The loop of `reap_completed_requests` is cut into its rounds, so
that the device can return chains in between.

`virtio_requests_tracked`: as long as no notification fails and no request runs into its deadline,
success is only reported for requests that the device has served, the descriptors of a chain are not
used again before the device has returned it, and `_inflight_count` counts the slots in use.
-/
import Sustcore.Ledger
import Sustcore.VirtQueue

namespace Sustcore

open Relation Function Kernel VirtQueue List

inductive BlockOp where
  | READ
  | WRITE
  | FLUSH
  deriving DecidableEq

/-- What the driver reads of a `BlockRequest`; `req` is its address. -/
structure BlkIo where
  req : ℕ
  op : BlockOp
  lba : ℕ
  count : ℕ
  hasBuffer : Bool

/-- `RequestSlot`, with the status byte of its DMA buffer. -/
structure BlkSlot where
  req : Option ℕ
  descIdx : Option ℕ
  successBytes : ℕ
  deadlineNs : ℕ
  result : Result ℕ
  inUse : Bool
  completed : Bool
  timedOut : Bool
  status : UInt8
  chain : ℕ

/-- A chain that was given to the device: its number, its descriptors, and the slot and the request
it was built for. -/
structure BlkChain where
  id : ℕ
  head : ℕ
  tail : List ℕ
  slot : ℕ
  req : ℕ
  deriving DecidableEq

def BlkChain.descs (c : BlkChain) : List ℕ := c.head :: c.tail

/-- A call of `complete` of the request queue. -/
structure BlkReport where
  req : ℕ
  chain : ℕ
  result : Result ℕ

structure BlkGeometry where
  blockSize : ℕ
  sectorSize : ℕ
  capacitySectors : ℕ

/-- `VirtioBlkDriver` and its device. -/
structure VirtioBlk where
  geometry : BlkGeometry
  queue : VirtQueue
  slotCount : ℕ
  slots : ℕ → BlkSlot
  slotByDesc : ℕ → Option ℕ
  inflight : ℕ
  pending : List BlkChain
  used : List BlkChain
  returned : List BlkChain
  reports : List BlkReport
  nextChain : ℕ

def REQUEST_TIMEOUT_NS : ℕ := 30 * 1000 * 1000 * 1000

/-- A request in a slot that is not in use. -/
def BlkSlot.cleared (slot : BlkSlot) : BlkSlot :=
  { slot with
    req := none
    descIdx := none
    successBytes := 0
    deadlineNs := 0
    result := .error .futurePending
    inUse := false
    completed := false
    timedOut := false }

def BlkGeometry.blockCnt (g : BlkGeometry) : Result ℕ :=
  if g.blockSize = 0 then .error .invalidParam
  else .ok (g.capacitySectors * g.sectorSize % 2 ^ 64 / g.blockSize)

/-- The checks of `submit_request_on_slot`: how many bytes the device has to transfer. -/
def BlkGeometry.requestBytes (g : BlkGeometry) (io : BlkIo) : Result ℕ :=
  match io.op with
  | .FLUSH => .ok 0
  | _ =>
    if !io.hasBuffer then .error .nullptr
    else if g.blockSize = 0 ∨ g.sectorSize = 0 ∨ g.blockSize % g.sectorSize ≠ 0 then
      .error .invalidParam
    else do
      let total ← g.blockCnt
      if io.lba ≥ total ∨ io.count > total - io.lba then .error .outOfBoundary
      else .ok (io.count * g.blockSize % 2 ^ 64)

namespace VirtioBlk

/-- A driver after `init`. -/
def init (geometry : BlkGeometry) (size : ℕ) : VirtioBlk :=
  ⟨geometry, VirtQueue.init size, if size / 3 = 0 then 1 else size / 3,
    fun _ => ⟨none, none, 0, 0, .error .futurePending, false, false, false, 0, 0⟩, fun _ => none, 0,
    [], [], [], [], 0⟩

def onQueue {α : Type} (x : Kernel VirtQueue α) : Kernel VirtioBlk α := fun s => do
  let (res, q) ← x s.queue
  pure (res, { s with queue := q })

def setSlot (i : ℕ) (slot : BlkSlot) (s : VirtioBlk) : VirtioBlk :=
  { s with slots := update s.slots i slot }

/-- `_slot_by_desc` loses an entry. -/
def unmapDesc (d : Option ℕ) (s : VirtioBlk) : VirtioBlk :=
  match d with
  | some d =>
    if d < s.queue.size then { s with slotByDesc := update s.slotByDesc d none } else s
  | none => s

/-- What `release_slot` does with a slot in use. -/
def released (i : ℕ) (s : VirtioBlk) : VirtioBlk :=
  setSlot i (s.slots i).cleared (unmapDesc (s.slots i).descIdx
    { s with inflight :=
        if s.inflight ≠ 0 ∧ (s.slots i).req ≠ none then s.inflight - 1 else s.inflight })

def releaseSlot (i : ℕ) : Kernel VirtioBlk Unit := do
  let s ← get
  if i ≥ s.slotCount then throw .invalidParam
  else if !(s.slots i).inUse then pure ()
  else modify (released i)

/-- A call of `complete` is recorded. -/
def withReport (p : BlkReport) (s : VirtioBlk) : VirtioBlk := { s with reports := s.reports ++ [p] }

/-- The loop of `complete_finished_slots`; `env` are the results of `complete`. -/
def completeLoop (env : ℕ → Result Unit) : List ℕ → ℕ → Kernel VirtioBlk ℕ
  | [], count => pure count
  | i :: rest, count => do
      let s ← get
      match (s.slots i).req with
      | none => completeLoop env rest count
      | some r =>
        if !(s.slots i).inUse || !(s.slots i).completed then completeLoop env rest count
        else do
          modify (withReport ⟨r, (s.slots i).chain, (s.slots i).result⟩)
          ofResult (env i)
          releaseSlot i
          completeLoop env rest (count + 1)

def completeFinishedSlots (env : ℕ → Result Unit) : Kernel VirtioBlk ℕ := do
  let s ← get
  completeLoop env (range s.slotCount) 0

def allocSlot (env : ℕ → Result Unit) : Kernel VirtioBlk ℕ := do
  let _ ← completeFinishedSlots env
  let s ← get
  match (range s.slotCount).find? fun i => !(s.slots i).inUse with
  | none => throw .busy
  | some i =>
    modify fun s => setSlot i { (s.slots i).cleared with inUse := true } s
    pure i

/-- The chain is built for the request and given to the device. -/
def submitted (i : ℕ) (io : BlkIo) (now bytes d : ℕ) (l : List ℕ) (s : VirtioBlk) : VirtioBlk :=
  { setSlot i { s.slots i with
      req := some io.req
      descIdx := some d
      successBytes := bytes
      deadlineNs := (now + REQUEST_TIMEOUT_NS) % 2 ^ 64
      result := .error .futurePending
      chain := s.nextChain } s with
    slotByDesc := if d < s.queue.size then update s.slotByDesc d (some i) else s.slotByDesc
    pending := s.pending ++ [⟨s.nextChain, d, l, i, io.req⟩]
    nextChain := s.nextChain + 1 }

/-- `submit_request_on_slot`; `now` is the time and `notify` the result of the notification, which
none of the transports lets fail. -/
def submitRequestOnSlot (i : ℕ) (io : BlkIo) (now : ℕ) (notify : Result Unit) :
    Kernel VirtioBlk Unit := do
  let s ← get
  if i ≥ s.slotCount then throw .invalidParam
  else if !(s.slots i).inUse then throw .failure
  else
    match s.geometry.requestBytes io with
    | .error e => do
        releaseSlot i
        throw e
    | .ok bytes => do
        modify fun s => setSlot i { s.slots i with status := 0xFF } s
        match ← attempt (onQueue (addChain (if bytes = 0 then 2 else 3))) with
        | .error e => do
            releaseSlot i
            throw e
        | .ok [] => halt .undefined
        | .ok (d :: l) => do
            modify (submitted i io now bytes d l)
            match notify with
            | .ok () => modify fun s => { s with inflight := s.inflight + 1 }
            | .error e => do
                -- the guard
                let s ← get
                let _ ← attempt (onQueue (freeChain (s.slots i).descIdx))
                let _ ← attempt (releaseSlot i)
                throw e

def processRequest (io : BlkIo) (now : ℕ) (notify : Result Unit) (env : ℕ → Result Unit) :
    Kernel VirtioBlk Unit := do
  let i ← allocSlot env
  submitRequestOnSlot i io now notify

/-- One round of `reap_completed_requests`. -/
def reapOne : Kernel VirtioBlk Unit := do
  let s ← get
  match s.used with
  | [] => throw .entryNotFound
  | c :: rest => do
      modify fun s => { s with used := rest }
      if c.head ≥ s.queue.size then pure ()
      else
        match s.slotByDesc c.head with
        | none => pure ()
        | some i => do
            modify fun s =>
              { s with slotByDesc := update s.slotByDesc c.head none }
            if i ≥ s.slotCount then pure ()
            else if !(s.slots i).inUse || (s.slots i).descIdx != some c.head then pure ()
            else
              match ← attempt (onQueue (freeChain (some c.head))) with
              | .error e =>
                modify (setSlot i { s.slots i with
                  result := .error e, completed := true, descIdx := none })
              | .ok () =>
                modify (setSlot i { s.slots i with
                  result := if (s.slots i).status ≠ 0 then .error .ioError
                    else .ok (s.slots i).successBytes
                  completed := true
                  descIdx := none })

/-- The slot has run into its deadline. -/
def Expired (now : ℕ) (slot : BlkSlot) : Bool :=
  slot.inUse && !slot.completed && slot.req.isSome && slot.descIdx.isSome && slot.deadlineNs ≤ now

/-- The loop of `fail_timed_out_slots`. -/
def timeoutLoop (now : ℕ) : List ℕ → ℕ → Kernel VirtioBlk ℕ
  | [], count => pure count
  | i :: rest, count => do
      let s ← get
      if !Expired now (s.slots i) then timeoutLoop now rest count
      else do
        modify (unmapDesc (s.slots i).descIdx)
        let _ ← attempt (onQueue (freeChain (s.slots i).descIdx))
        modify (setSlot i { s.slots i with
          descIdx := none, result := .error .timeout, completed := true, timedOut := true })
        timeoutLoop now rest (count + 1)

def failTimedOutSlots (now : ℕ) : Kernel VirtioBlk ℕ := do
  let s ← get
  timeoutLoop now (range s.slotCount) 0

def deviceReturn (c : BlkChain) (status : UInt8) (s : VirtioBlk) : VirtioBlk :=
  { setSlot c.slot { s.slots c.slot with status := status } s with
    pending := s.pending.erase c
    used := s.used ++ [c]
    returned := s.returned ++ [c] }

/-! ## Runs -/

/-- What happens next. -/
inductive Act where
  | process (io : BlkIo) (now : ℕ) (notify : Result Unit) (env : ℕ → Result Unit)
  | reap
  | timeout (now : ℕ)
  | finish (env : ℕ → Result Unit)
  | device (c : BlkChain) (status : UInt8)

/-- One step; a chain is returned at most once. -/
inductive Step : Act → VirtioBlk → VirtioBlk → Prop
  | process {io : BlkIo} {now : ℕ} {notify : Result Unit} {env : ℕ → Result Unit}
      {s s' : VirtioBlk} {r : Result Unit}
      (hcall : processRequest io now notify env s = .ok (r, s')) :
      Step (.process io now notify env) s s'
  | reap {s s' : VirtioBlk} {r : Result Unit} (hcall : reapOne s = .ok (r, s')) : Step .reap s s'
  | timeout {now : ℕ} {s s' : VirtioBlk} {r : Result ℕ}
      (hcall : failTimedOutSlots now s = .ok (r, s')) : Step (.timeout now) s s'
  | finish {env : ℕ → Result Unit} {s s' : VirtioBlk} {r : Result ℕ}
      (hcall : completeFinishedSlots env s = .ok (r, s')) : Step (.finish env) s s'
  | device {c : BlkChain} {status : UInt8} {s : VirtioBlk} (hc : c ∈ s.pending) :
      Step (.device c status) s (deviceReturn c status s)

/-- The notification does not fail, and no slot has run into its deadline. -/
def Act.Allowed (s : VirtioBlk) : Act → Prop
  | .process _ _ notify _ => notify = .ok ()
  | .timeout now => ∀ i < s.slotCount, Expired now (s.slots i) = false
  | _ => True

/-- One step that meets the condition. -/
def AllowedStep (s s' : VirtioBlk) : Prop := ∃ a : Act, a.Allowed s ∧ Step a s s'

/-! ## What the driver knows about the device -/

/-- The chains whose descriptors the driver may not use. -/
def live (s : VirtioBlk) : List BlkChain := s.pending ++ s.used

structure Waits (s : VirtioBlk) (c : BlkChain) : Prop where
  lt : c.slot < s.slotCount
  inUse : (s.slots c.slot).inUse = true
  completed : (s.slots c.slot).completed = false
  req : (s.slots c.slot).req = some c.req
  descIdx : (s.slots c.slot).descIdx = some c.head
  chain : (s.slots c.slot).chain = c.id
  mapped : s.slotByDesc c.head = some c.slot

/-- The device has served the request of the number. -/
def Served (s : VirtioBlk) (req chain : ℕ) : Prop := ∃ c ∈ s.returned, c.id = chain ∧ c.req = req

/-- The slots that hold a request. -/
def holding (s : VirtioBlk) : Finset ℕ :=
  (Finset.range s.slotCount).filter fun i => (s.slots i).req.isSome

/-- What every step keeps; `free` is the free list. -/
structure Inv (s : VirtioBlk) (free : List ℕ) : Prop where
  hasFree : s.queue.HasFree free
  nodup : (free ++ s.live.flatMap BlkChain.descs).Nodup
  bound : ∀ d ∈ free ++ s.live.flatMap BlkChain.descs, d < s.queue.size
  linked : ∀ c ∈ s.live, VirtQueue.Linked s.queue.descs c.descs
  waits : ∀ c ∈ s.live, s.Waits c
  idle : ∀ i < s.slotCount, (s.slots i).inUse = (s.slots i).req.isSome
  waiting : ∀ i < s.slotCount, (s.slots i).inUse = true → (s.slots i).completed = false →
    ∃ c ∈ s.live, c.slot = i
  done : ∀ i < s.slotCount, (s.slots i).completed = true → (s.slots i).descIdx = none ∧
    ∀ r n, (s.slots i).req = some r → (s.slots i).result = .ok n → s.Served r (s.slots i).chain
  used : ∀ c ∈ s.used, c ∈ s.returned
  reports : ∀ p ∈ s.reports, ∀ n, p.result = .ok n → s.Served p.req p.chain
  inflight : s.inflight = s.holding.card

section Steps

variable {s t : VirtioBlk} {free : List ℕ} {i : ℕ} {c : BlkChain}

theorem Waits.congr (h : s.Waits c) (hcount : t.slotCount = s.slotCount) (status : UInt8)
    (hslot : t.slots c.slot = { s.slots c.slot with status := status })
    (hby : t.slotByDesc c.head = s.slotByDesc c.head) : t.Waits c := by
  refine ⟨hcount ▸ h.lt, ?_, ?_, ?_, ?_, ?_, hby.trans h.mapped⟩
  all_goals rw [hslot]
  · exact h.inUse
  · exact h.completed
  · exact h.req
  · exact h.descIdx
  · exact h.chain

theorem Served.mono {req chain : ℕ} (h : s.Served req chain)
    (hsub : ∀ c ∈ s.returned, c ∈ t.returned) : t.Served req chain := by
  obtain ⟨c, hc, hid⟩ := h
  exact ⟨c, hsub c hc, hid⟩

theorem mem_holding {k : ℕ} : k ∈ s.holding ↔ k < s.slotCount ∧ (s.slots k).req.isSome = true := by
  unfold holding
  rw [Finset.mem_filter, Finset.mem_range]

variable {slot : BlkSlot}

theorem card_holding (hi : i < s.slotCount) (hcount : t.slotCount = s.slotCount)
    (hslots : t.slots = update s.slots i slot) :
    t.holding.card + (s.slots i).req.isSome.toNat = s.holding.card + slot.req.isSome.toNat := by
  have hcard : ∀ u : VirtioBlk, u.holding.card =
      ∑ k ∈ Finset.range u.slotCount, (u.slots k).req.isSome.toNat := by
    intro u
    unfold holding
    rw [Finset.card_filter]
    exact Finset.sum_congr rfl fun k _ => by cases (u.slots k).req.isSome <;> rfl
  have hother : ∀ k ∈ (Finset.range s.slotCount).erase i,
      (t.slots k).req.isSome.toNat = (s.slots k).req.isSome.toNat := by
    intro k hk
    rw [hslots, update_of_ne (Finset.ne_of_mem_erase hk)]
  have hself : t.slots i = slot := by rw [hslots, update_self]
  have hmem := Finset.mem_range.mpr hi
  rw [hcard, hcard, hcount, ← Finset.add_sum_erase _ _ hmem, Finset.sum_congr rfl hother, hself,
    ← Finset.add_sum_erase _ (fun k => (s.slots k).req.isSome.toNat) hmem]
  omega

theorem Inv.split (h : s.Inv free) {others : List BlkChain} (hperm : s.live.Perm (c :: others)) :
    (c.descs ++ free ++ others.flatMap BlkChain.descs).Nodup := by
  have hflat := hperm.flatMap_right BlkChain.descs
  rw [flatMap_cons] at hflat
  have hall : (free ++ s.live.flatMap BlkChain.descs).Perm
      (c.descs ++ free ++ others.flatMap BlkChain.descs) :=
    (hflat.append_left free).trans (by
      rw [← append_assoc]
      exact perm_append_comm.append_right _)
  exact hall.nodup_iff.mp h.nodup

theorem Inv.slot_ne (h : s.Inv free) {c' : BlkChain} {others : List BlkChain}
    (hperm : s.live.Perm (c :: others)) (hc' : c' ∈ others) : c'.slot ≠ c.slot := by
  intro hslot
  have hwait := h.waits c (hperm.mem_iff.mpr mem_cons_self)
  have hwait' := h.waits c' (hperm.mem_iff.mpr (mem_cons_of_mem c hc'))
  have hhead : c'.head = c.head := by
    have hdesc := hwait'.descIdx
    rw [hslot, hwait.descIdx] at hdesc
    exact (Option.some.inj hdesc).symm
  have hapart := (nodup_append.mp (h.split hperm)).2.2
  refine hapart c.head (mem_append_left _ mem_cons_self) c.head ?_ rfl
  refine mem_flatMap.mpr ⟨c', hc', ?_⟩
  rw [← hhead]
  exact mem_cons_self

variable {now n : ℕ}

/-- A list of different descriptors is not longer than the queue. -/
theorem length_le_of_nodup {l : List ℕ} (hnodup : l.Nodup) (hbound : ∀ d ∈ l, d < n) :
    l.length ≤ n := by
  have hsub : l ⊆ range n := fun d hd => mem_range.mpr (hbound d hd)
  have := (hnodup.subperm hsub).length_le
  rwa [length_range] at this

/-! ## Slots -/

/-- **A step that changes one slot.**  The chains of the other slots stay what they were. -/
theorem Inv.slotStep (h : s.Inv free) {free' : List ℕ} (slot : BlkSlot)
    (hfree : t.queue.HasFree free') (hnodup : (free' ++ t.live.flatMap BlkChain.descs).Nodup)
    (hbound : ∀ d ∈ free' ++ t.live.flatMap BlkChain.descs, d < t.queue.size)
    (hlinked : ∀ c ∈ t.live, VirtQueue.Linked t.queue.descs c.descs)
    (hcount : t.slotCount = s.slotCount) (hslots : t.slots = update s.slots i slot)
    (hold : ∀ c ∈ t.live, c.slot ≠ i → c ∈ s.live ∧ t.slotByDesc c.head = s.slotByDesc c.head)
    (hnew : ∀ c ∈ t.live, c.slot = i → t.Waits c)
    (hkept : ∀ c ∈ s.live, c.slot ≠ i → c ∈ t.live) (hidle : slot.inUse = slot.req.isSome)
    (hwaiting : slot.inUse = true → slot.completed = false → ∃ c ∈ t.live, c.slot = i)
    (hdone : slot.completed = true → slot.descIdx = none ∧
      ∀ r n, slot.req = some r → slot.result = .ok n → t.Served r slot.chain)
    (hreturned : ∀ c ∈ s.returned, c ∈ t.returned) (hused : ∀ c ∈ t.used, c ∈ t.returned)
    (hreports : t.reports = s.reports) (hi : i < s.slotCount)
    (hinflight : t.inflight + (s.slots i).req.isSome.toNat = s.inflight + slot.req.isSome.toNat) :
    t.Inv free' := by
  have hself : t.slots i = slot := by rw [hslots, update_self]
  have hother : ∀ {k : ℕ}, k ≠ i → t.slots k = s.slots k := by
    intro k hk
    rw [hslots, update_of_ne hk]
  refine ⟨hfree, hnodup, hbound, hlinked, ?_, ?_, ?_, ?_, hused, ?_, ?_⟩
  · intro c hc
    by_cases hci : c.slot = i
    · exact hnew c hc hci
    · obtain ⟨hcs, hby⟩ := hold c hc hci
      exact (h.waits c hcs).congr hcount _ (hother hci) hby
  · intro k hk
    by_cases hki : k = i
    · rwa [hki, hself]
    · rw [hother hki]
      exact h.idle k (hcount ▸ hk)
  · intro k hk huse hopen
    by_cases hki : k = i
    · rw [hki, hself] at huse hopen
      exact hki ▸ hwaiting huse hopen
    · rw [hother hki] at huse hopen
      obtain ⟨c, hc, hck⟩ := h.waiting k (hcount ▸ hk) huse hopen
      exact ⟨c, hkept c hc (hck ▸ hki), hck⟩
  · intro k hk hc
    by_cases hki : k = i
    · rw [hki, hself] at hc ⊢
      exact hdone hc
    · rw [hother hki] at hc ⊢
      obtain ⟨hdesc, hres⟩ := h.done k (hcount ▸ hk) hc
      exact ⟨hdesc, fun r n hr hn => (hres r n hr hn).mono hreturned⟩
  · rw [hreports]
    exact fun p hp n hn => (h.reports p hp n hn).mono hreturned
  · have hcard := card_holding hi hcount hslots
    have := h.inflight
    omega

theorem Inv.replaceSlot (h : s.Inv free) (hi : i < s.slotCount)
    (hchain : ∀ c ∈ s.live, c.slot ≠ i) (slot : BlkSlot) (hidle : slot.inUse = slot.req.isSome)
    (hcomp : slot.completed = false → slot.inUse = false)
    (hdone : slot.completed = true → slot.descIdx = none ∧
      ∀ r n, slot.req = some r → slot.result = .ok n → s.Served r slot.chain)
    {n : ℕ} (hinflight : n + (s.slots i).req.isSome.toNat = s.inflight + slot.req.isSome.toNat) :
    Inv { setSlot i slot s with inflight := n } free := by
  refine h.slotStep slot h.hasFree h.nodup h.bound h.linked rfl rfl (fun c hc _ => ⟨hc, rfl⟩)
    (fun c hc hci => absurd hci (hchain c hc)) (fun c hc _ => hc) hidle ?_ hdone (fun c hc => hc)
    h.used rfl hi hinflight
  intro huse hopen
  rw [hcomp hopen] at huse
  cases huse

/-- **`release_slot`** of a slot that is done. -/
theorem Inv.released (h : s.Inv free) (hi : i < s.slotCount) (huse : (s.slots i).inUse = true)
    (hcomp : (s.slots i).completed = true) : (released i s).Inv free := by
  have hdesc := (h.done i hi hcomp).1
  have hsome : (s.slots i).req.isSome = true := by rw [← h.idle i hi, huse]
  have hreq : (s.slots i).req ≠ none := Option.isSome_iff_ne_none.mp hsome
  have hpos : s.inflight ≠ 0 := by
    rw [h.inflight]
    exact Finset.card_ne_zero_of_mem (mem_holding.mpr ⟨hi, hsome⟩)
  have hrel : VirtioBlk.released i s =
      setSlot i (s.slots i).cleared { s with inflight := s.inflight - 1 } := by
    unfold VirtioBlk.released
    rw [hdesc, if_pos ⟨hpos, hreq⟩]
    rfl
  rw [hrel]
  refine h.replaceSlot hi ?_ (s.slots i).cleared rfl (fun _ => rfl) (fun hc => by cases hc) ?_
  · intro c hc hslot
    have := (h.waits c hc).completed
    rw [hslot, hcomp] at this
    cases this
  · rw [hsome]
    exact Nat.sub_add_cancel (Nat.pos_of_ne_zero hpos)

theorem releaseSlot_of (hi : i < s.slotCount) (huse : (s.slots i).inUse = true) :
    releaseSlot i s = .ok (.ok (), VirtioBlk.released i s) := by
  unfold releaseSlot
  rw [get_bind, if_neg (by omega), huse]
  rfl

theorem unmapDesc_slotCount (d : Option ℕ) (s : VirtioBlk) :
    (unmapDesc d s).slotCount = s.slotCount := by
  unfold unmapDesc
  cases d with
  | none => rfl
  | some d =>
    dsimp only
    split
    · rfl
    · rfl

theorem released_slotCount (i : ℕ) (s : VirtioBlk) :
    (VirtioBlk.released i s).slotCount = s.slotCount := unmapDesc_slotCount _ _

theorem Inv.withReport (h : s.Inv free) {p : BlkReport}
    (hp : ∀ n, p.result = .ok n → s.Served p.req p.chain) : (s.withReport p).Inv free := by
  refine ⟨h.hasFree, h.nodup, h.bound, h.linked, fun c hc => (h.waits c hc).congr rfl _ rfl rfl,
    h.idle, h.waiting, h.done, h.used, ?_, h.inflight⟩
  intro p' hp' n hn
  rcases mem_append.mp hp' with hp' | hp'
  · exact h.reports p' hp' n hn
  · obtain rfl := mem_singleton.mp hp'
    exact hp n hn

variable {env : ℕ → Result Unit}

theorem completeLoop_inv : ∀ (l : List ℕ) (count : ℕ) (s t : VirtioBlk)
    (r : Result ℕ), (∀ i ∈ l, i < s.slotCount) → s.Inv free →
    completeLoop env l count s = .ok (r, t) → t.Inv free ∧ t.slotCount = s.slotCount := by
  intro l
  induction l with
  | nil =>
    intro count s t r _ h hcall
    obtain ⟨-, rfl⟩ := pure_eq_ok.mp hcall
    exact ⟨h, rfl⟩
  | cons i rest ih =>
    intro count s t r hl h hcall
    have hi := hl i mem_cons_self
    have hrest : ∀ k ∈ rest, k < s.slotCount := fun k hk => hl k (mem_cons_of_mem i hk)
    unfold completeLoop at hcall
    rw [get_bind] at hcall
    cases hreq : (s.slots i).req with
    | none =>
      rw [hreq] at hcall
      exact ih count s t r hrest h hcall
    | some req =>
    rw [hreq] at hcall
    dsimp only at hcall
    split at hcall
    · exact ih count s t r hrest h hcall
    rename_i hdone
    simp only [Bool.or_eq_true, Bool.not_eq_true', not_or, Bool.not_eq_false] at hdone
    obtain ⟨huse, hcomp⟩ := hdone
    rw [modify_bind] at hcall
    have hreport := h.withReport (p := ⟨req, (s.slots i).chain, (s.slots i).result⟩)
      fun n hn => (h.done i hi hcomp).2 req n hreq hn
    rcases ofResult_bind_eq_ok.mp hcall with ⟨e, -, -, rfl⟩ | ⟨_, -, hcall⟩
    · exact ⟨hreport, rfl⟩
    have hcount := released_slotCount i
      (s.withReport ⟨req, (s.slots i).chain, (s.slots i).result⟩)
    rw [bind_of_ok (releaseSlot_of
      (s := s.withReport ⟨req, (s.slots i).chain, (s.slots i).result⟩) hi huse)] at hcall
    obtain ⟨ht, htc⟩ := ih (count + 1) _ t r (fun k hk => hcount ▸ hrest k hk)
      (hreport.released hi huse hcomp) hcall
    exact ⟨ht, htc.trans hcount⟩

theorem completeFinishedSlots_inv {r : Result ℕ} (h : s.Inv free)
    (hcall : completeFinishedSlots env s = .ok (r, t)) :
    t.Inv free ∧ t.slotCount = s.slotCount := by
  unfold completeFinishedSlots at hcall
  rw [get_bind] at hcall
  exact completeLoop_inv _ _ s t r (fun i hi => mem_range.mp hi) h hcall

/-! ## A request is submitted -/

theorem Inv.slot_ne_of_idle (h : s.Inv free) (huse : (s.slots i).inUse = false) :
    ∀ c ∈ s.live, c.slot ≠ i := by
  intro c hc hslot
  have := (h.waits c hc).inUse
  rw [hslot, huse] at this
  cases this

theorem Inv.idleSlot (h : s.Inv free) (hi : i < s.slotCount) (huse : (s.slots i).inUse = false)
    (hslot : slot.inUse = false) (hreq : slot.req = none)
    (hcomp : slot.completed = false) : (setSlot i slot s).Inv free := by
  refine h.replaceSlot hi (h.slot_ne_of_idle huse) slot (by rw [hslot, hreq]; rfl)
    (fun _ => hslot) (fun hc => by rw [hcomp] at hc; cases hc) ?_
  rw [← h.idle i hi, huse, hreq]
  rfl

theorem Inv.newChain (h : s.Inv free) (hi : i < s.slotCount) (huse : (s.slots i).inUse = false)
    {q : VirtQueue} (htake : free.take n = c.descs)
    (hsize : q.size = s.queue.size) (hfree : q.HasFree (free.drop n))
    (hlinked : VirtQueue.Linked q.descs c.descs)
    (hother : ∀ e, e ∉ c.descs → q.descs e = s.queue.descs e) (hslot : c.slot = i)
    (hqueue : t.queue = q) (hcount : t.slotCount = s.slotCount)
    (hslots : ∀ k ≠ i, t.slots k = s.slots k) (hwaits : t.Waits c)
    (hby : t.slotByDesc = update s.slotByDesc c.head (some i))
    (hpending : t.pending = s.pending ++ [c]) (hused : t.used = s.used)
    (hreturned : t.returned = s.returned) (hreports : t.reports = s.reports)
    (hinflight : t.inflight = s.inflight + 1) : t.Inv (free.drop n) := by
  subst hqueue
  have hlive : t.live.Perm (c :: s.live) := by
    unfold live
    rw [hpending, hused, append_assoc]
    exact perm_middle
  have hall : (free.drop n ++ t.live.flatMap BlkChain.descs).Perm
      (free ++ s.live.flatMap BlkChain.descs) := by
    refine ((hlive.flatMap_right BlkChain.descs).append_left _).trans ?_
    rw [flatMap_cons, ← append_assoc]
    refine List.Perm.append_right _ ?_
    rw [← htake]
    refine perm_append_comm.trans ?_
    rw [take_append_drop]
  have hne := h.slot_ne_of_idle huse
  -- the descriptors were free, so they are in no other chain
  have hapart : ∀ c' ∈ s.live, ∀ d ∈ c'.descs, d ∉ c.descs := by
    intro c' hc' d hd hd'
    rw [← htake] at hd'
    exact (nodup_append.mp h.nodup).2.2 d (mem_of_mem_take hd') d
      (mem_flatMap.mpr ⟨c', hc', hd⟩) rfl
  refine h.slotStep (t.slots i) hfree (hall.nodup_iff.mpr h.nodup) ?_ ?_ hcount ?_ ?_ ?_
    (fun c' hc' _ => hlive.mem_iff.mpr (mem_cons_of_mem c hc')) ?_
    (fun _ _ => ⟨c, hlive.mem_iff.mpr mem_cons_self, hslot⟩) ?_ (hreturned ▸ fun _ hc => hc)
    (hused ▸ hreturned ▸ h.used) hreports hi ?_
  · intro d hd
    rw [hsize]
    exact h.bound d (hall.mem_iff.mp hd)
  · intro c' hc'
    rcases mem_cons.mp (hlive.mem_iff.mp hc') with rfl | hc'
    · exact hlinked
    · exact (h.linked c' hc').congr fun d hd => hother d (hapart c' hc' d hd)
  · funext k
    by_cases hki : k = i
    · rw [hki, update_self]
    · rw [update_of_ne hki, hslots k hki]
  · intro c' hc' hne'
    rcases mem_cons.mp (hlive.mem_iff.mp hc') with rfl | hc'
    · exact absurd hslot hne'
    · refine ⟨hc', ?_⟩
      rw [hby, update_of_ne]
      intro heq
      exact hapart c' hc' c'.head mem_cons_self (heq ▸ mem_cons_self)
  · intro c' hc' hslot'
    rcases mem_cons.mp (hlive.mem_iff.mp hc') with rfl | hc'
    · exact hwaits
    · exact absurd hslot' (hne c' hc')
  · rw [← hslot, hwaits.inUse, hwaits.req]
    rfl
  · intro hc
    rw [← hslot, hwaits.completed] at hc
    cases hc
  · rw [← h.idle i hi, huse, ← hslot, hwaits.req, hinflight]
    rfl

theorem setSlot_self (i : ℕ) (slot : BlkSlot) (s : VirtioBlk) :
    (setSlot i slot s).slots i = slot := by
  unfold setSlot
  exact update_self i slot s.slots

theorem released_fresh (hreq : slot.req = none) (hdesc : slot.descIdx = none)
    (s : VirtioBlk) : VirtioBlk.released i (setSlot i slot s) = setSlot i slot.cleared s := by
  unfold VirtioBlk.released
  rw [setSlot_self, hreq, hdesc, if_neg (by simp)]
  show { s with slots := update (update s.slots i slot) i slot.cleared } = _
  rw [update_idem]
  rfl

variable {r : Result Unit}

theorem Inv.givenUp (h : s.Inv free) (hi : i < s.slotCount) (huse : (s.slots i).inUse = false)
    (slot : BlkSlot) (hslot : slot.inUse = true) (hreq : slot.req = none)
    (hdesc : slot.descIdx = none) {e : ErrCode}
    (hcall : (releaseSlot i >>= fun _ => (throw e : Kernel VirtioBlk Unit))
      (setSlot i slot s) = .ok (r, t)) : t.Inv free := by
  rw [bind_of_ok (releaseSlot_of (s := setSlot i slot s) hi (by rw [setSlot_self, hslot]))]
    at hcall
  obtain ⟨-, rfl⟩ := throw_eq_ok.mp hcall
  rw [released_fresh hreq hdesc]
  exact h.idleSlot hi huse rfl rfl rfl

theorem allocSlot_cases {r : Result ℕ} (h : s.Inv free) (hcall : allocSlot env s = .ok (r, t)) :
    (∃ e, r = .error e ∧ t.Inv free) ∨ ∃ i u, r = .ok i ∧ u.Inv free ∧ i < u.slotCount ∧
      (u.slots i).inUse = false ∧
      t = setSlot i { (u.slots i).cleared with inUse := true } u := by
  unfold allocSlot at hcall
  rcases bind_eq_ok.mp hcall with ⟨e, hfin, rfl⟩ | ⟨n, u, hfin, hcall⟩
  · exact .inl ⟨e, rfl, (completeFinishedSlots_inv h hfin).1⟩
  obtain ⟨hu, -⟩ := completeFinishedSlots_inv h hfin
  rw [get_bind] at hcall
  cases hfind : (range u.slotCount).find? fun i => !(u.slots i).inUse with
  | none =>
    rw [hfind] at hcall
    obtain ⟨rfl, rfl⟩ := throw_eq_ok.mp hcall
    exact .inl ⟨_, rfl, hu⟩
  | some i =>
    rw [hfind] at hcall
    dsimp only at hcall
    rw [modify_bind] at hcall
    obtain ⟨rfl, rfl⟩ := pure_eq_ok.mp hcall
    have hidle := find?_some hfind
    have hi := mem_range.mp (mem_of_find?_eq_some hfind)
    exact .inr ⟨i, u, rfl, hu, hi, by simpa using hidle, rfl⟩

theorem onQueue_eq_ok {α : Type} {x : Kernel VirtQueue α} {r : Result α} :
    onQueue x s = .ok (r, t) ↔ ∃ q, x s.queue = .ok (r, q) ∧ t = { s with queue := q } :=
  Except.bind_part_eq_ok fun q => { s with queue := q }

/-- **`submit_request_on_slot`** with a slot that was not in use, when the notification does not
fail. -/
theorem submitRequestOnSlot_inv (h : s.Inv free) (hi : i < s.slotCount)
    (huse : (s.slots i).inUse = false) (hslot : slot.inUse = true)
    (hreq : slot.req = none) (hdesc : slot.descIdx = none) (hcomp : slot.completed = false)
    {io : BlkIo} (hcall : submitRequestOnSlot i io now (.ok ()) (setSlot i slot s) = .ok (r, t)) :
    ∃ free', t.Inv free' := by
  unfold submitRequestOnSlot at hcall
  rw [get_bind, if_neg (show ¬i ≥ (setSlot i slot s).slotCount from not_le.mpr hi),
    setSlot_self, hslot] at hcall
  cases hbytes : (setSlot i slot s).geometry.requestBytes io with
  | error e =>
    rw [hbytes] at hcall
    exact ⟨free, h.givenUp hi huse _ hslot hreq hdesc hcall⟩
  | ok bytes =>
    rw [hbytes] at hcall
    simp only [Bool.not_true, Bool.false_eq_true, if_false] at hcall
    rw [modify_bind] at hcall
    have hset : setSlot i { (setSlot i slot s).slots i with status := 0xFF } (setSlot i slot s) =
        setSlot i { slot with status := 0xFF } s := by
      rw [setSlot_self]
      show { s with slots := update (update s.slots i slot) i _ } = _
      rw [update_idem]
      rfl
    rw [hset] at hcall
    obtain ⟨res, u, hadd, hcall⟩ := attempt_bind_eq_ok.mp hcall
    obtain ⟨q, hq, rfl⟩ := onQueue_eq_ok.mp hadd
    rcases addChain_of h.hasFree (nodup_append.mp h.nodup).1
      (if bytes = 0 then 2 else 3) with hfull | ⟨d, l, htake, q', hq', hsize, hfree, hlinked, hother⟩
    · obtain ⟨rfl, rfl⟩ := ok_inj (hfull.symm.trans hq)
      exact ⟨free, h.givenUp hi huse { slot with status := 0xFF } hslot hreq hdesc hcall⟩
    obtain ⟨rfl, rfl⟩ := ok_inj (hq'.symm.trans hq)
    dsimp only at hcall
    rw [modify_bind] at hcall
    obtain ⟨-, rfl⟩ := modify_eq_ok.mp hcall
    have hd : d < q'.size := by
      rw [hsize]
      have hmem : d ∈ free.take (if bytes = 0 then 2 else 3) := by
        rw [htake]
        exact mem_cons_self
      exact h.bound d (mem_append_left _ (mem_of_mem_take hmem))
    refine ⟨free.drop (if bytes = 0 then 2 else 3),
      h.newChain (c := ⟨s.nextChain, d, l, i, io.req⟩) hi huse htake hsize hfree hlinked hother
        rfl rfl rfl ?_ ?_ ?_ rfl rfl rfl rfl rfl⟩
    · intro k hk
      simp [submitted, setSlot, hk]
    · constructor
      · exact hi
      all_goals simp [submitted, setSlot, hslot, hcomp, hd]
    · simp [submitted, setSlot, hd]

theorem processRequest_inv {io : BlkIo}
    (h : s.Inv free) (hcall : processRequest io now (.ok ()) env s = .ok (r, t)) :
    ∃ free', t.Inv free' := by
  unfold processRequest at hcall
  rcases bind_eq_ok.mp hcall with ⟨e, halloc, -⟩ | ⟨i, u, halloc, hcall⟩
  · rcases allocSlot_cases h halloc with ⟨_, _, ht⟩ | ⟨_, _, hr, _⟩
    · exact ⟨free, ht⟩
    · cases hr
  · rcases allocSlot_cases h halloc with ⟨_, hr, _⟩ | ⟨_, u, hr, hu, hi, huse, rfl⟩
    · cases hr
    · cases hr
      exact submitRequestOnSlot_inv hu hi huse rfl rfl rfl rfl hcall

/-! ## The device returns a chain -/

theorem deviceReturn_inv {status : UInt8} (h : s.Inv free) (hc : c ∈ s.pending) :
    (deviceReturn c status s).Inv free := by
  have hlive : (deviceReturn c status s).live.Perm s.live := by
    show (s.pending.erase c ++ (s.used ++ [c])).Perm (s.pending ++ s.used)
    rw [← append_assoc]
    refine perm_append_comm.trans ?_
    exact (perm_cons_erase hc).symm.append_right s.used
  have hall := (hlive.flatMap_right BlkChain.descs).append_left free
  have hw := h.waits c (mem_append_left _ hc)
  have hreturned : ∀ c' ∈ s.returned, c' ∈ s.returned ++ [c] :=
    fun c' hc' => mem_append_left [c] hc'
  -- The device only writes a status byte.
  refine h.slotStep { s.slots c.slot with status := status } h.hasFree
    (hall.nodup_iff.mpr h.nodup) (fun d hd => h.bound d (hall.mem_iff.mp hd))
    (fun c' hc' => h.linked c' (hlive.mem_iff.mp hc')) rfl rfl
    (fun c' hc' _ => ⟨hlive.mem_iff.mp hc', rfl⟩) ?_ (fun c' hc' _ => hlive.mem_iff.mpr hc')
    (h.idle c.slot hw.lt) (fun _ _ => ⟨c, hlive.mem_iff.mpr (mem_append_left _ hc), rfl⟩) ?_
    hreturned ?_ rfl hw.lt rfl
  · intro c' hc' hslot
    refine (h.waits c' (hlive.mem_iff.mp hc')).congr rfl status ?_ rfl
    rw [hslot]
    exact update_self ..
  · intro hdone
    rw [show (s.slots c.slot).completed = false from hw.completed] at hdone
    cases hdone
  · intro c' hc'
    rcases mem_append.mp hc' with hc' | hc'
    · exact hreturned c' (h.used c' hc')
    · exact mem_append_right s.returned hc'

/-! ## A chain is reaped -/

theorem Inv.reaped (h : s.Inv free) {rest : List BlkChain} (hc : s.used = c :: rest)
    {q : VirtQueue} (hsize : q.size = s.queue.size) (hfree : q.HasFree (c.descs ++ free))
    (hother : ∀ e, e ∉ c.descs → q.descs e = s.queue.descs e) (slot : BlkSlot)
    (huse : slot.inUse = true) (hcomp : slot.completed = true) (hreq : slot.req = some c.req)
    (hdesc : slot.descIdx = none) (hchain : slot.chain = c.id) (hqueue : t.queue = q)
    (hcount : t.slotCount = s.slotCount) (hslots : t.slots = update s.slots c.slot slot)
    (hby : t.slotByDesc = update s.slotByDesc c.head none)
    (hpending : t.pending = s.pending) (hused : t.used = rest)
    (hreturned : t.returned = s.returned) (hreports : t.reports = s.reports)
    (hinflight : t.inflight = s.inflight) : t.Inv (c.descs ++ free) := by
  subst hqueue
  have hlive : s.live.Perm (c :: t.live) := by
    unfold live
    rw [hc, hpending, hused]
    exact perm_middle
  have hmem : c ∈ s.live := hlive.mem_iff.mpr mem_cons_self
  have hsub : ∀ c' ∈ t.live, c' ∈ s.live := fun c' hc' => hlive.mem_iff.mpr (mem_cons_of_mem c hc')
  have hnodup := h.split hlive
  have hapart : ∀ c' ∈ t.live, ∀ d ∈ c'.descs, d ∉ c.descs := by
    intro c' hc' d hd hd'
    exact (nodup_append.mp hnodup).2.2 d (mem_append_left free hd') d
      (mem_flatMap.mpr ⟨c', hc', hd⟩) rfl
  have hw := h.waits c hmem
  refine h.slotStep slot hfree hnodup ?_ ?_ hcount hslots ?_
    (fun c' hc' hslot => absurd hslot (h.slot_ne hlive hc')) ?_ (by rw [huse, hreq]; rfl)
    (fun _ hopen => by rw [hcomp] at hopen; cases hopen) ?_ (hreturned ▸ fun _ hc => hc) ?_
    hreports hw.lt ?_
  · intro d hd
    rw [hsize]
    refine h.bound d ?_
    rcases mem_append.mp hd with hd | hd
    · rcases mem_append.mp hd with hd | hd
      · exact mem_append_right free (mem_flatMap.mpr ⟨c, hmem, hd⟩)
      · exact mem_append_left _ hd
    · obtain ⟨c', hc', hd⟩ := mem_flatMap.mp hd
      exact mem_append_right free (mem_flatMap.mpr ⟨c', hsub c' hc', hd⟩)
  · intro c' hc'
    exact (h.linked c' (hsub c' hc')).congr fun d hd => hother d (hapart c' hc' d hd)
  · intro c' hc' _
    refine ⟨hsub c' hc', ?_⟩
    rw [hby, update_of_ne]
    intro heq
    exact hapart c' hc' c'.head mem_cons_self (heq ▸ mem_cons_self)
  · intro c' hc' hne
    rcases mem_cons.mp (hlive.mem_iff.mp hc') with rfl | hc'
    · exact absurd rfl hne
    · exact hc'
  · refine fun _ => ⟨hdesc, fun r n hr _ => ?_⟩
    rw [hreq] at hr
    exact ⟨c, hreturned ▸ h.used c (hc ▸ mem_cons_self), hchain.symm, Option.some.inj hr⟩
  · intro c' hc'
    rw [hused] at hc'
    exact hreturned ▸ h.used c' (hc ▸ mem_cons_of_mem c hc')
  · rw [hinflight, hreq, hw.req]

/-- **One round of `reap_completed_requests`**: the slot that the first descriptor leads to is the
one that the chain was built for. -/
theorem reapOne_inv (h : s.Inv free) (hcall : reapOne s = .ok (r, t)) : ∃ free', t.Inv free' := by
  unfold reapOne at hcall
  rw [get_bind] at hcall
  cases hused : s.used with
  | nil =>
    rw [hused] at hcall
    obtain ⟨-, rfl⟩ := throw_eq_ok.mp hcall
    exact ⟨free, h⟩
  | cons c rest =>
    rw [hused] at hcall
    dsimp only at hcall
    have hlive : s.live.Perm (c :: (s.pending ++ rest)) := by
      unfold live
      rw [hused]
      exact perm_middle
    have hmem : c ∈ s.live := hlive.mem_iff.mpr mem_cons_self
    have hw := h.waits c hmem
    have hbound : ∀ d ∈ c.descs, d < s.queue.size := fun d hd =>
      h.bound d (mem_append_right free (mem_flatMap.mpr ⟨c, hmem, hd⟩))
    have hnodup := (nodup_append.mp (h.split hlive)).1
    have hlen : c.tail.length < s.queue.size := length_le_of_nodup (nodup_append.mp hnodup).1 hbound
    obtain ⟨q, hq, hsize, hfree, hother⟩ := freeChain_of h.hasFree (h.linked c hmem) hnodup hlen
    rw [modify_bind, if_neg (not_le.mpr (hbound c.head mem_cons_self)), hw.mapped]
      at hcall
    dsimp only at hcall
    rw [modify_bind, if_neg (not_le.mpr hw.lt), hw.inUse, hw.descIdx] at hcall
    simp only [Bool.not_true, bne_self_eq_false, Bool.or_self, Bool.false_eq_true, if_false]
      at hcall
    obtain ⟨res, u, hfreed, hcall⟩ := attempt_bind_eq_ok.mp hcall
    obtain ⟨q', hq', rfl⟩ := onQueue_eq_ok.mp hfreed
    obtain ⟨rfl, rfl⟩ := ok_inj (hq.symm.trans hq')
    obtain ⟨-, rfl⟩ := modify_eq_ok.mp hcall
    exact ⟨c.descs ++ free, h.reaped hused hsize hfree hother { s.slots c.slot with
      result := if (s.slots c.slot).status ≠ 0 then .error .ioError
        else .ok (s.slots c.slot).successBytes
      inUse := true
      completed := true
      descIdx := none } rfl rfl hw.req rfl hw.chain rfl rfl rfl rfl rfl rfl rfl rfl rfl⟩

/-! ## Deadlines -/

/-- Nothing has run into its deadline. -/
theorem timeoutLoop_of : ∀ (l : List ℕ) (count : ℕ), (∀ i ∈ l, Expired now (s.slots i) = false) →
    timeoutLoop now l count s = .ok (.ok count, s) := by
  intro l
  induction l with
  | nil =>
    intro count _
    rfl
  | cons i rest ih =>
    intro count hl
    unfold timeoutLoop
    rw [get_bind, hl i mem_cons_self]
    exact ih count fun k hk => hl k (mem_cons_of_mem i hk)

theorem failTimedOutSlots_of (h : ∀ i < s.slotCount, Expired now (s.slots i) = false) :
    failTimedOutSlots now s = .ok (.ok 0, s) := by
  unfold failTimedOutSlots
  rw [get_bind]
  exact timeoutLoop_of _ _ fun i hi => h i (mem_range.mp hi)

/-! ## Runs of the driver -/

theorem AllowedStep.inv (h : s.Inv free) (hstep : AllowedStep s t) : ∃ free', t.Inv free' := by
  obtain ⟨a, ha, hstep⟩ := hstep
  cases hstep with
  | process hcall =>
    subst ha
    exact processRequest_inv h hcall
  | reap hcall => exact reapOne_inv h hcall
  | timeout hcall =>
    rw [failTimedOutSlots_of ha] at hcall
    obtain ⟨-, rfl⟩ := ok_inj hcall
    exact ⟨free, h⟩
  | finish hcall => exact ⟨free, (completeFinishedSlots_inv h hcall).1⟩
  | device hc => exact ⟨free, deviceReturn_inv h hc⟩

end Steps

theorem inv_init (geometry : BlkGeometry) {size : ℕ} (hsize : 0 < size) :
    (init geometry size).Inv (range' 0 size) := by
  obtain ⟨n, rfl⟩ : ∃ n, size = n + 1 := ⟨size - 1, by omega⟩
  have hlive : (init geometry (n + 1)).live = [] := rfl
  refine ⟨⟨VirtQueue.follows_init (n + 1) n 0 (by omega), by simp [init, VirtQueue.init]⟩, ?_, ?_, ?_, ?_,
    fun _ _ => rfl, ?_, ?_, ?_, ?_, ?_⟩
  · rw [hlive, flatMap_nil, append_nil]
    exact nodup_range'
  · rw [hlive, flatMap_nil, append_nil]
    intro d hd
    simpa [init, VirtQueue.init] using hd
  · intro c hc
    cases hc
  · intro c hc
    cases hc
  · intro i _ huse
    cases huse
  · intro i _ hdone
    cases hdone
  · intro c hc
    cases hc
  · intro p hp
    cases hp
  · show 0 = _
    symm
    rw [Finset.card_eq_zero, Finset.eq_empty_iff_forall_notMem]
    intro k hk
    cases (mem_holding.mp hk).2

/-- **The driver never mixes up its requests**, as long as no notification fails and no request runs
into its deadline: success is reported only when the device has returned the chain that was built
for the request, chains that the device has not returned share no descriptor, and
`_inflight_count` is the number of slots that hold a request. -/
theorem virtio_requests_tracked (geometry : BlkGeometry) {size : ℕ} (hsize : 0 < size)
    {s : VirtioBlk} (hrun : ReflTransGen AllowedStep (init geometry size) s) :
    (∀ p ∈ s.reports, ∀ n, p.result = .ok n → s.Served p.req p.chain) ∧
      (s.pending.flatMap BlkChain.descs).Nodup ∧ s.inflight = s.holding.card := by
  have hinv : ∃ free, s.Inv free := by
    induction hrun with
    | refl => exact ⟨_, inv_init geometry hsize⟩
    | tail _ hstep ih =>
      obtain ⟨free, h⟩ := ih
      exact AllowedStep.inv h hstep
  obtain ⟨free, h⟩ := hinv
  refine ⟨h.reports, ?_, h.inflight⟩
  have hnodup := (nodup_append.mp h.nodup).2.1
  unfold live at hnodup
  rw [flatMap_append] at hnodup
  exact (nodup_append.mp hnodup).1

/-! ## Two runs -/

/-- The driver after a call. -/
def after {α : Type} (x : Kernel VirtioBlk α) (s : VirtioBlk) : VirtioBlk :=
  match x s with
  | .ok (_, t) => t
  | .error _ => s

variable {s : VirtioBlk}

theorem eq_ok_after {α : Type} {x : Kernel VirtioBlk α}
    (h : (x s).isOk = true) : ∃ r, x s = .ok (r, after x s) := by
  unfold after
  cases hx : x s with
  | error e =>
    rw [hx] at h
    cases h
  | ok p => exact ⟨p.1, rfl⟩

theorem step_process {io : BlkIo} {now : ℕ} {notify : Result Unit} {env : ℕ → Result Unit}
    (h : (processRequest io now notify env s).isOk = true) :
    Step (.process io now notify env) s (after (processRequest io now notify env) s) := by
  obtain ⟨r, hr⟩ := eq_ok_after h
  exact .process hr

theorem step_reap (h : (reapOne s).isOk = true) : Step .reap s (after reapOne s) := by
  obtain ⟨r, hr⟩ := eq_ok_after h
  exact .reap hr

theorem step_timeout {now : ℕ} (h : (failTimedOutSlots now s).isOk = true) :
    Step (.timeout now) s (after (failTimedOutSlots now) s) := by
  obtain ⟨r, hr⟩ := eq_ok_after h
  exact .timeout hr

theorem step_finish {env : ℕ → Result Unit} (h : (completeFinishedSlots env s).isOk = true) :
    Step (.finish env) s (after (completeFinishedSlots env) s) := by
  obtain ⟨r, hr⟩ := eq_ok_after h
  exact .finish hr

/-- A disk of eight blocks. -/
def smallDisk : BlkGeometry := ⟨512, 512, 8⟩

/-- Two requests to read a block. -/
def readA : BlkIo := ⟨100, .READ, 0, 1, true⟩

@[inherit_doc readA]
def readB : BlkIo := ⟨200, .READ, 1, 1, true⟩

/-- `complete` never fails. -/
def completeOk : ℕ → Result Unit := fun _ => .ok ()

/-- The first request has been given to the device, which has three descriptors. -/
def submittedA : VirtioBlk := after (processRequest readA 0 (.ok ()) completeOk) (init smallDisk 3)

/-- The chain of the first request. -/
def chainA : BlkChain := ⟨0, 0, [1, 2], 0, 100⟩

/-- The device has served the first request, and the driver has reported it. -/
def finishedA : VirtioBlk :=
  after (completeFinishedSlots completeOk) (after reapOne (deviceReturn chainA 0 submittedA))

/-- The first request has run into its deadline, and the second one has been submitted. -/
def submittedB : VirtioBlk :=
  after (processRequest readB REQUEST_TIMEOUT_NS (.ok ()) completeOk)
    (after (failTimedOutSlots REQUEST_TIMEOUT_NS) submittedA)

/-- The device returns the chain of the first request. -/
def finishedB : VirtioBlk :=
  after (completeFinishedSlots completeOk) (after reapOne (deviceReturn chainA 0 submittedB))

/-- The device serves a request. -/
theorem virtio_requests_tracked_one : ReflTransGen AllowedStep (init smallDisk 3) finishedA ∧
    finishedA.reports.map BlkReport.req = [100] ∧ finishedA.inflight = finishedA.holding.card := by
  have hsubmit : AllowedStep (init smallDisk 3) submittedA :=
    ⟨.process readA 0 (.ok ()) completeOk, rfl, step_process (by decide +kernel)⟩
  have hdevice : AllowedStep submittedA (deviceReturn chainA 0 submittedA) :=
    ⟨.device chainA 0, trivial, .device (by decide +kernel)⟩
  have hreap : AllowedStep _ (after reapOne (deviceReturn chainA 0 submittedA)) :=
    ⟨.reap, trivial, step_reap (by decide +kernel)⟩
  have hfinish : AllowedStep _ finishedA :=
    ⟨.finish completeOk, trivial, step_finish (by decide +kernel)⟩
  have hrun := (((ReflTransGen.single hsubmit).tail hdevice).tail hreap).tail hfinish
  exact ⟨hrun, by decide +kernel, (virtio_requests_tracked smallDisk (by decide) hrun).2.2⟩

/-- **A request is reported as successful although the device still works on it**, with the
descriptors of a chain that the driver took back at a deadline. -/
theorem virtio_requests_mixed_up :
    ReflTransGen (fun s t => ∃ a, Step a s t) (init smallDisk 3) finishedB ∧
      ¬(submittedB.pending.flatMap BlkChain.descs).Nodup ∧
      ∃ p ∈ finishedB.reports, p.result.toOption = some 512 ∧ ¬finishedB.Served p.req p.chain := by
  have hsubmit : ∃ a, Step a (init smallDisk 3) submittedA := ⟨_, step_process (by decide +kernel)⟩
  have htimeout : ∃ a, Step a submittedA (after (failTimedOutSlots REQUEST_TIMEOUT_NS) submittedA) :=
    ⟨_, step_timeout (by decide +kernel)⟩
  have hagain : ∃ a, Step a _ submittedB := ⟨_, step_process (by decide +kernel)⟩
  have hdevice : ∃ a, Step a submittedB (deviceReturn chainA 0 submittedB) :=
    ⟨_, .device (by decide +kernel)⟩
  have hreap : ∃ a, Step a _ (after reapOne (deviceReturn chainA 0 submittedB)) :=
    ⟨_, step_reap (by decide +kernel)⟩
  have hfinish : ∃ a, Step a _ finishedB := ⟨_, step_finish (by decide +kernel)⟩
  refine ⟨(((((ReflTransGen.single hsubmit).tail htimeout).tail hagain).tail hdevice).tail
    hreap).tail hfinish, by decide +kernel, ?_⟩
  unfold Served
  decide +kernel

end VirtioBlk

end Sustcore
