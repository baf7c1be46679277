/-
# The timer queue as a heap

`ExpireActionQueue.view` is the queue as a heap with an index: `shift_up` and `shift_down` are the
sifting of `IndexedHeap`, and change nothing but the places of the slots.  From this follows what
`push` (`push_spec`), `remove_at` (`removeAt_spec`), `pop_due` (`popDue_spec`) and `cancel`
(`cancel_of_current`) do to a well-formed queue: the heap is ordered, the slots in it are the
active ones and note their places, and the other slots are in the free list
(`ExpireActionQueue.WF`).
-/
import Sustcore.ExpireQueue

namespace Sustcore.Clock

open IndexedHeap Function List Set

namespace ExpireActionQueue

/-! ## The queue as a heap with an index -/

/-- The heap and the places that the slots note. -/
def view (q : ExpireActionQueue) : Heap ℕ := ⟨q.heap, fun slot => (q.slots slot).heapIndex⟩

def activeSlots (q : ExpireActionQueue) : Set ℕ :=
  { slot | slot < MAX_HEAP_ACTIONS ∧ (q.slots slot).active = true }

/-- Only the heap and the places in it have changed. -/
structure Resorted (q q' : ExpireActionQueue) : Prop where
  freeHead : q'.freeHead = q.freeHead
  heapSize : q'.heapSize = q.heapSize
  slots : ∀ slot, q'.slots slot = { q.slots slot with heapIndex := (q'.slots slot).heapIndex }

theorem Resorted.refl (q : ExpireActionQueue) : Resorted q q := ⟨rfl, rfl, fun _ => rfl⟩

variable {q q' q'' : ExpireActionQueue}

theorem Resorted.trans (h : Resorted q q') (h' : Resorted q' q'') : Resorted q q'' := by
  refine ⟨h'.freeHead.trans h.freeHead, h'.heapSize.trans h.heapSize, ?_⟩
  intro slot
  rw [h'.slots slot, h.slots slot]

theorem Resorted.time (h : Resorted q q') : q'.time = q.time := by
  funext slot
  unfold ExpireActionQueue.time
  rw [h.slots slot]

theorem heapIndex_setHeapIndex (slots : ℕ → ExpireSlot) (slot heapIndex : ℕ) :
    (fun s => (setHeapIndex slots slot heapIndex s).heapIndex) =
      update (fun s => (slots s).heapIndex) slot heapIndex := by
  funext s
  unfold setHeapIndex
  by_cases hs : s = slot
  · rw [hs, update_self, update_self]
  · rw [update_of_ne hs, update_of_ne hs]

/-- A change of one place is a change of a place only. -/
theorem setHeapIndex_eq (slots : ℕ → ExpireSlot) (slot heapIndex s : ℕ) :
    setHeapIndex slots slot heapIndex s =
      { slots s with heapIndex := (setHeapIndex slots slot heapIndex s).heapIndex } := by
  unfold setHeapIndex
  by_cases hs : s = slot
  · rw [hs, update_self]
  · rw [update_of_ne hs]

theorem view_swapHeapNodes (q : ExpireActionQueue) (lhs rhs : ℕ) :
    (q.swapHeapNodes lhs rhs).view = q.view.swap lhs rhs := by
  apply Heap.ext
  · show update (update q.heap lhs (q.heap rhs)) rhs (q.heap lhs) = _
    rw [← Equiv.comp_swap_eq_update, Equiv.swap_comm]
    rfl
  · show (fun slot => (setHeapIndex _ _ _ slot).heapIndex) = _
    rw [heapIndex_setHeapIndex, heapIndex_setHeapIndex]
    rfl

theorem resorted_swapHeapNodes (q : ExpireActionQueue) (lhs rhs : ℕ) :
    Resorted q (q.swapHeapNodes lhs rhs) := by
  refine ⟨rfl, rfl, ?_⟩
  intro slot
  show setHeapIndex (setHeapIndex q.slots _ _) _ _ slot = _
  rw [setHeapIndex_eq, setHeapIndex_eq q.slots]
  rfl

/-- **`shift_up`** sifts up. -/
theorem shiftUp_spec (q : ExpireActionQueue) (index : ℕ) :
    (q.shiftUp index).view = q.view.siftUp q.time index ∧ Resorted q (q.shiftUp index) := by
  induction index using Nat.strong_induction_on generalizing q with
  | _ index ih =>
    unfold shiftUp Heap.siftUp
    by_cases h0 : index = 0
    · rw [dif_pos h0, dif_pos h0]
      exact ⟨rfl, .refl q⟩
    rw [dif_neg h0, dif_neg h0]
    by_cases hlater : q.later (q.heap ((index - 1) / 2)) (q.heap index) = true
    · have hkey : q.time (q.view.arr index) < q.time (q.view.arr (parent index)) :=
        of_decide_eq_true hlater
      rw [if_pos hlater, if_pos hkey]
      have hswap := resorted_swapHeapNodes q ((index - 1) / 2) index
      obtain ⟨hview, hres⟩ := ih ((index - 1) / 2) (by omega) (q.swapHeapNodes _ index)
      rw [view_swapHeapNodes, hswap.time] at hview
      exact ⟨hview, hswap.trans hres⟩
    · have hkey : ¬q.time (q.view.arr index) < q.time (q.view.arr (parent index)) :=
        fun h => hlater (decide_eq_true h)
      rw [if_neg hlater, if_neg hkey]
      exact ⟨rfl, .refl q⟩

theorem smallest_eq (q : ExpireActionQueue) (index : ℕ) :
    q.smallest index = q.view.smallest q.time q.heapSize index := by
  unfold smallest Heap.smallest later
  simp only [decide_eq_true_eq, mul_comm index 2]
  rfl

/-- **`shift_down`** sifts down. -/
theorem shiftDown_spec (q : ExpireActionQueue) (index : ℕ) :
    (q.shiftDown index).view = q.view.siftDown q.time q.heapSize index ∧
      Resorted q (q.shiftDown index) := by
  induction hd : q.heapSize - index using Nat.strong_induction_on generalizing q index with
  | _ d ih =>
    unfold shiftDown Heap.siftDown
    rw [smallest_eq]
    by_cases heq : q.view.smallest q.time q.heapSize index = index
    · rw [dif_pos heq, dif_pos heq]
      exact ⟨rfl, .refl q⟩
    rw [dif_neg heq, dif_neg heq]
    obtain ⟨hgt, hlt⟩ := Heap.smallest_ne q.time heq
    set next := q.view.smallest q.time q.heapSize index
    have hswap := resorted_swapHeapNodes q index next
    obtain ⟨hview, hres⟩ := ih (q.heapSize - next) (by omega) (q.swapHeapNodes index next) next
      rfl
    rw [view_swapHeapNodes, hswap.time] at hview
    exact ⟨hview, hswap.trans hres⟩

/-! ## The invariant -/

/-- The heap is ordered by time, the slots in it are the active ones and note their places, and
the other slots are those of the free list. -/
structure WF (q : ExpireActionQueue) : Prop where
  size : q.heapSize ≤ MAX_HEAP_ACTIONS
  order : HeapOrder (q.time ∘ q.heap) q.heapSize
  indexed : Indexed q.view q.heapSize q.activeSlots
  free : ∃ l, Chain (fun slot => (q.slots slot).nextFree) INVALID_SLOT q.freeHead l ∧
    ∀ slot, slot ∈ l ↔ slot < MAX_HEAP_ACTIONS ∧ (q.slots slot).active = false

theorem init_chain (index : ℕ) (hindex : index ≤ MAX_HEAP_ACTIONS) :
    Chain (fun slot => (init.slots slot).nextFree) INVALID_SLOT
      (if index < MAX_HEAP_ACTIONS then index else INVALID_SLOT)
      (range' index (MAX_HEAP_ACTIONS - index)) := by
  induction hd : MAX_HEAP_ACTIONS - index generalizing index with
  | zero =>
    rw [if_neg (by omega)]
    rfl
  | succ d ih =>
    rw [if_pos (by omega)]
    refine ⟨rfl, ?_, ih (index + 1) (by omega) (by omega)⟩
    unfold MAX_HEAP_ACTIONS at hd
    unfold INVALID_SLOT
    omega

theorem wf_init : WF init := by
  refine ⟨Nat.zero_le _, nofun, ⟨nofun, ?_⟩, _, init_chain 0 (by decide), ?_⟩
  · rintro slot ⟨-, hactive⟩
    exact absurd hactive (by simp [init])
  · simp [init]

/-- What stays of the slots in a queue that is sorted again. -/
theorem WF.of_view (hres : Resorted q q') (hsize : q.heapSize ≤ MAX_HEAP_ACTIONS)
    (hsorted : Indexed q'.view q.heapSize q.activeSlots ∧
      HeapOrder (q.time ∘ q'.view.arr) q.heapSize)
    (hfree : ∃ l, Chain (fun slot => (q.slots slot).nextFree) INVALID_SLOT q.freeHead l ∧
      ∀ slot, slot ∈ l ↔ slot < MAX_HEAP_ACTIONS ∧ (q.slots slot).active = false) : WF q' := by
  have hactive : ∀ slot, (q'.slots slot).active = (q.slots slot).active := by
    intro slot
    rw [hres.slots slot]
  have hnext : ∀ slot, (q'.slots slot).nextFree = (q.slots slot).nextFree := by
    intro slot
    rw [hres.slots slot]
  refine ⟨?_, ?_, ?_, ?_⟩
  · rwa [hres.heapSize]
  · rw [hres.heapSize, hres.time]
    exact hsorted.2
  · have hset : q'.activeSlots = q.activeSlots := by
      unfold activeSlots
      simp only [hactive]
    rw [hres.heapSize, hset]
    exact hsorted.1
  · simp only [hactive, hnext, hres.freeHead]
    exact hfree

/-! ## Queueing an action -/

/-- What `push` did. -/
structure Pushed (q : ExpireActionQueue) (action : ExpireAction) (handle : ExpireHandle)
    (q' : ExpireActionQueue) : Prop where
  slot_lt : handle.slot < MAX_HEAP_ACTIONS
  inactive : (q.slots handle.slot).active = false
  generation : handle.generation = (q.slots handle.slot).generation
  queued : (q'.slots handle.slot).active = true ∧ (q'.slots handle.slot).action = action ∧
    (q'.slots handle.slot).generation = handle.generation
  other : ∀ slot, slot ≠ handle.slot → (q'.slots slot).active = (q.slots slot).active ∧
    (q'.slots slot).action = (q.slots slot).action ∧
    (q'.slots slot).generation = (q.slots slot).generation

variable {handle : ExpireHandle}

theorem push_spec (hq : WF q) {action : ExpireAction} (h : q.push action = .ok (handle, q')) :
    WF q' ∧ Pushed q action handle q' := by
  unfold push at h
  split at h
  · exact absurd h nofun
  rename_i hroom
  obtain ⟨hhead, hsize⟩ := not_or.mp hroom
  obtain ⟨hhandle, hq'⟩ := ok_inj h
  obtain ⟨l, hchain, hmem⟩ := hq.free
  obtain ⟨rest, hl, hrest⟩ := hchain.pop hhead
  obtain ⟨hlt, hinactive⟩ := (hmem q.freeHead).mp (by rw [hl]; exact mem_cons_self)
  have hnodup := hchain.nodup
  rw [hl] at hnodup
  have hnot := (nodup_cons.mp hnodup).1
  set slot : ExpireSlot :=
    { q.slots q.freeHead with action := action, heapIndex := q.heapSize, active := true } with hslot
  set queued : ExpireActionQueue :=
    { q with freeHead := (q.slots q.freeHead).nextFree
             slots := update q.slots q.freeHead slot
             heap := update q.heap q.heapSize q.freeHead
             heapSize := q.heapSize + 1 } with hqueued
  have hself : queued.slots q.freeHead = slot := update_self ..
  have hother : ∀ s, s ≠ q.freeHead → queued.slots s = q.slots s := fun s hs => update_of_ne hs ..
  obtain ⟨hview, hres⟩ := shiftUp_spec queued q.heapSize
  rw [hq'] at hview hres
  -- the active slots, the heap and the keys of the queue before it is sorted
  have hset : queued.activeSlots = insert q.freeHead q.activeSlots := by
    ext s
    by_cases hs : s = q.freeHead
    · rw [hs]
      simp [activeSlots, hself, hslot, hlt]
    · simp [activeSlots, hother s hs, hs]
  have hqview : queued.view = q.view.append q.heapSize q.freeHead := by
    apply Heap.ext
    · rfl
    · funext s
      show (queued.slots s).heapIndex = update q.view.pos q.freeHead q.heapSize s
      by_cases hs : s = q.freeHead
      · rw [hs, hself, update_self]
      · rw [hother s hs, update_of_ne hs]
        rfl
  have hfresh : q.freeHead ∉ q.activeSlots := by
    rintro ⟨-, hactive⟩
    rw [hinactive] at hactive
    exact absurd hactive (by simp)
  have hkeys : ∀ i, i < q.heapSize + 1 → (queued.time ∘ queued.view.arr) i =
      update (q.time ∘ q.heap) q.heapSize action.expireTime i := by
    intro i hi
    show (queued.slots (update q.heap q.heapSize q.freeHead i)).action.expireTime = _
    by_cases hin : i = q.heapSize
    · rw [hin, update_self, update_self, hself]
    rw [update_of_ne hin, update_of_ne hin, hother]
    · rfl
    · intro heq
      have hitem := (hq.indexed.item i (by omega)).1
      rw [show q.view.arr i = q.freeHead from heq] at hitem
      exact hfresh hitem
  have hsorted := IndexedHeap.siftUp_spec queued.time queued.view q.heapSize
    (Nat.lt_succ_self _) (by rw [hqview]; exact hq.indexed.append hfresh)
    (hq.order.append.congr (Nat.lt_succ_self _) hkeys)
  rw [← hview, ← hset] at hsorted
  refine ⟨WF.of_view hres (Nat.succ_le_of_lt (not_le.mp hsize)) hsorted ⟨rest, ?_, ?_⟩, ?_⟩
  · apply hrest.congr
    intro s hs
    rw [hother]
    rintro rfl
    exact hnot hs
  · intro s
    have hs := hmem s
    rw [hl] at hs
    by_cases heq : s = q.freeHead
    · rw [heq, hself]
      simp [hnot]
    · rw [hother s heq, ← hs]
      simp [heq]
  · have hslots : ∀ s, (q'.slots s).active = (queued.slots s).active ∧
        (q'.slots s).action = (queued.slots s).action ∧
        (q'.slots s).generation = (queued.slots s).generation := by
      intro s
      rw [hres.slots s]
      exact ⟨rfl, rfl, rfl⟩
    rw [← hhandle]
    refine ⟨hlt, hinactive, rfl, ?_, ?_⟩
    · obtain ⟨h1, h2, h3⟩ := hslots q.freeHead
      rw [hself] at h1 h2 h3
      exact ⟨h1, h2, h3⟩
    · intro s hs
      obtain ⟨h1, h2, h3⟩ := hslots s
      rw [hother s hs] at h1 h2 h3
      exact ⟨h1, h2, h3⟩

/-! ## Removing an action -/

/-- What `remove_at` did to the queue. -/
structure Removed (q : ExpireActionQueue) (slotId : ℕ) (q' : ExpireActionQueue) : Prop where
  active : ∀ slot, (q'.slots slot).active = true ↔ (q.slots slot).active = true ∧ slot ≠ slotId
  action : ∀ slot, (q'.slots slot).action = (q.slots slot).action
  generation : (q'.slots slotId).generation = (q.slots slotId).generation + 1
  other : ∀ slot, slot ≠ slotId → (q'.slots slot).generation = (q.slots slot).generation

/-- Actions were removed, and their slots are in the next generation. -/
structure Drained (q q' : ExpireActionQueue) : Prop where
  active : ∀ slot, (q'.slots slot).active = true → (q.slots slot).active = true
  action : ∀ slot, (q'.slots slot).action = (q.slots slot).action
  generation : ∀ slot, (q'.slots slot).generation =
    if (q.slots slot).active = true ∧ (q'.slots slot).active = false then
      (q.slots slot).generation + 1
    else (q.slots slot).generation

theorem Drained.refl (q : ExpireActionQueue) : Drained q q := by
  refine ⟨fun _ h => h, fun _ => rfl, ?_⟩
  intro slot
  rw [if_neg]
  rintro ⟨htrue, hfalse⟩
  rw [htrue] at hfalse
  exact absurd hfalse (by simp)

theorem Drained.trans (h : Drained q q') (h' : Drained q' q'') : Drained q q'' := by
  refine ⟨fun slot hs => h.active slot (h'.active slot hs), ?_, ?_⟩
  · intro slot
    rw [h'.action, h.action]
  · intro slot
    have hact := h.active slot
    have hact' := h'.active slot
    rw [h'.generation, h.generation]
    cases h0 : (q.slots slot).active <;> cases h1 : (q'.slots slot).active <;>
      cases h2 : (q''.slots slot).active <;> simp_all

theorem Removed.drained {slotId : ℕ} (h : Removed q slotId q')
    (hactive : (q.slots slotId).active = true) : Drained q q' := by
  refine ⟨fun slot hs => ((h.active slot).mp hs).1, h.action, ?_⟩
  intro slot
  by_cases hslot : slot = slotId
  · have hfalse : (q'.slots slotId).active = false := by
      rw [← Bool.not_eq_true, h.active]
      simp
    rw [hslot, if_pos ⟨hactive, hfalse⟩]
    exact h.generation
  · rw [h.other slot hslot, if_neg]
    rintro ⟨htrue, hfalse⟩
    rw [← Bool.not_eq_true, h.active] at hfalse
    exact hfalse ⟨htrue, hslot⟩

theorem unlinkAt_spec (hq : WF q) {heapIndex : ℕ} (hindex : heapIndex < q.heapSize) :
    Resorted { q with heapSize := q.heapSize - 1 } (q.unlinkAt heapIndex) ∧
      Indexed (q.unlinkAt heapIndex).view (q.heapSize - 1)
        (q.activeSlots \ {q.heap heapIndex}) ∧
      HeapOrder (q.time ∘ (q.unlinkAt heapIndex).view.arr) (q.heapSize - 1) := by
  obtain ⟨n, hn⟩ : ∃ n, q.heapSize = n + 1 := ⟨q.heapSize - 1, by omega⟩
  have hindexed := hq.indexed
  have horder := hq.order
  rw [hn] at hindexed horder
  unfold unlinkAt
  simp only [hn, Nat.add_sub_cancel]
  by_cases hlast : heapIndex = n
  · rw [if_neg (not_not.mpr hlast), hlast]
    exact ⟨.refl _, hindexed.dropLast, horder.mono (Nat.le_succ n)⟩
  rw [if_pos hlast]
  -- the queue with the last node in place of the one that is removed
  set moved : ExpireActionQueue :=
    { q with heapSize := n
             heap := update q.heap heapIndex (q.heap n)
             slots := setHeapIndex q.slots (q.heap n) heapIndex } with hmoved
  have hmovedRes : Resorted { q with heapSize := n } moved :=
    ⟨rfl, rfl, setHeapIndex_eq q.slots (q.heap n) heapIndex⟩
  have hview : moved.view = q.view.replace heapIndex n := by
    apply Heap.ext
    · rfl
    · exact heapIndex_setHeapIndex q.slots (q.heap n) heapIndex
  have hA : Indexed moved.view n (q.activeSlots \ {q.heap heapIndex}) := by
    rw [hview]
    exact hindexed.replace (by omega)
  have htime : moved.time = q.time := hmovedRes.time
  have hkeys : moved.time ∘ moved.view.arr =
      update (q.time ∘ q.heap) heapIndex (q.time (q.heap n)) := by
    rw [htime]
    exact comp_update ..
  have hat : moved.heap heapIndex = q.heap n := update_self ..
  by_cases hup : 0 < heapIndex ∧ moved.later (moved.heap ((heapIndex - 1) / 2))
      (moved.heap heapIndex) = true
  · rw [if_pos hup]
    obtain ⟨h0, hlater⟩ := hup
    have hp := parent_lt (show heapIndex ≠ 0 by omega)
    have hlt : q.time (q.heap n) < (q.time ∘ q.heap) (parent heapIndex) := by
      have hdec : moved.time (moved.heap heapIndex) <
          moved.time (moved.heap ((heapIndex - 1) / 2)) := of_decide_eq_true hlater
      rw [hat, htime, show moved.heap ((heapIndex - 1) / 2) = q.heap (parent heapIndex) from
        update_of_ne (by unfold parent at hp; omega) ..] at hdec
      exact hdec
    obtain ⟨hsview, hsres⟩ := shiftUp_spec moved heapIndex
    have hspec := IndexedHeap.siftUp_spec moved.time moved.view heapIndex (by omega) hA (by
      rw [hkeys]
      exact (horder.mono (Nat.le_succ n)).replace_up (by omega) (by omega) hlt)
    rw [← hsview, htime] at hspec
    exact ⟨hmovedRes.trans hsres, hspec⟩
  · rw [if_neg hup]
    have hle : heapIndex ≠ 0 → (q.time ∘ q.heap) (parent heapIndex) ≤ q.time (q.heap n) := by
      intro h0
      have hp := parent_lt h0
      by_contra hgt
      apply hup
      refine ⟨by omega, decide_eq_true ?_⟩
      rw [hat, htime, show moved.heap ((heapIndex - 1) / 2) = q.heap (parent heapIndex) from
        update_of_ne (by unfold parent at hp; omega) ..]
      exact not_le.mp hgt
    obtain ⟨hsview, hsres⟩ := shiftDown_spec moved heapIndex
    have hspec := IndexedHeap.siftDown_spec moved.time moved.view heapIndex
      (show heapIndex < n by omega) hA (by
        rw [hkeys]
        exact (horder.mono (Nat.le_succ n)).replace_down (by omega) hle)
    rw [show moved.view.siftDown moved.time n heapIndex =
      (moved.shiftDown heapIndex).view from hsview.symm, htime] at hspec
    exact ⟨hmovedRes.trans hsres, hspec⟩

theorem removeAt_spec (hq : WF q) {heapIndex : ℕ} (hindex : heapIndex < q.heapSize) :
    WF (q.removeAt heapIndex).2 ∧ Removed q (q.heap heapIndex) (q.removeAt heapIndex).2 ∧
      (q.removeAt heapIndex).2.heapSize + 1 = q.heapSize := by
  obtain ⟨hres, hindexed, horder⟩ := unlinkAt_spec hq hindex
  obtain ⟨⟨hlt, hactive⟩, -⟩ := hq.indexed.item heapIndex hindex
  obtain ⟨l, hchain, hmem⟩ := hq.free
  set slotId : ℕ := q.heap heapIndex with hslotId
  replace hactive : (q.slots slotId).active = true := hactive
  replace hlt : slotId < MAX_HEAP_ACTIONS := hlt
  set q' := q.unlinkAt heapIndex
  have hfreed : (q.removeAt heapIndex).2 = q'.freeSlot slotId := rfl
  rw [hfreed]
  have hself : (q'.freeSlot slotId).slots slotId =
      { q'.slots slotId with active := false, nextFree := q'.freeHead, heapIndex := 0
                             generation := (q'.slots slotId).generation + 1 } :=
    update_self ..
  have hother : ∀ s, s ≠ slotId → (q'.freeSlot slotId).slots s = q'.slots s :=
    fun s hs => update_of_ne hs ..
  have hremoved : Removed q slotId (q'.freeSlot slotId) := by
    refine ⟨?_, ?_, ?_, ?_⟩
    · intro s
      by_cases hs : s = slotId
      · rw [hs, hself]
        simp
      · rw [hother s hs, hres.slots s]
        simp [hs]
    · intro s
      by_cases hs : s = slotId
      · rw [hs, hself, hres.slots slotId]
      · rw [hother s hs, hres.slots s]
    · rw [hself, hres.slots slotId]
    · intro s hs
      rw [hother s hs, hres.slots s]
  refine ⟨⟨?_, ?_, ?_, slotId :: l, ?_, ?_⟩, hremoved, ?_⟩
  · show q'.heapSize ≤ _
    rw [hres.heapSize]
    exact (Nat.sub_le _ _).trans hq.size
  · have htime : (q'.freeSlot slotId).time = q.time := by
      funext s
      exact congrArg ExpireAction.expireTime (hremoved.action s)
    show HeapOrder (_ ∘ q'.heap) q'.heapSize
    rwa [htime, hres.heapSize]
  · have hset : (q'.freeSlot slotId).activeSlots = q.activeSlots \ {slotId} := by
      ext s
      simp only [activeSlots, mem_ofPred_eq, mem_sdiff, mem_singleton_iff,
        hremoved.active s, and_assoc]
    rw [hset, show (q'.freeSlot slotId).heapSize = q.heapSize - 1 from hres.heapSize]
    apply hindexed.congr_pos
    rintro s ⟨-, hs⟩
    rw [hother s hs]
    rfl
  · have hnot : slotId ∉ l := by
      intro hin
      rw [((hmem slotId).mp hin).2] at hactive
      exact absurd hactive (by simp)
    have hne : slotId ≠ INVALID_SLOT := by
      unfold MAX_HEAP_ACTIONS at hlt
      unfold INVALID_SLOT
      omega
    apply (hchain.push hne hnot).congr
    intro s _
    by_cases hs : s = slotId
    · rw [hs, hself, update_self]
      exact hres.freeHead
    · rw [hother s hs, hres.slots s, update_of_ne hs]
  · intro s
    rw [mem_cons, hmem s]
    have hs := hremoved.active s
    by_cases heq : s = slotId
    · rw [heq, hself]
      simp [hlt]
    · simp only [heq, false_or, ne_eq, not_false_eq_true, and_true] at hs ⊢
      rw [← Bool.not_eq_true, ← Bool.not_eq_true, hs]
  · show q'.heapSize + 1 = q.heapSize
    rw [hres.heapSize]
    show q.heapSize - 1 + 1 = q.heapSize
    omega

/-! ## `pop_due` -/

/-- At most `limit` actions were taken, none of them too early, in the order of their times; an
action that stayed is not due, or not earlier than the `limit` actions that were taken. -/
def PopsDue (q : ExpireActionQueue) (now limit : ℕ) (entries : List ExpireAction)
    (q' : ExpireActionQueue) : Prop :=
  ∃ popped : List ℕ, popped.Nodup ∧ popped.length ≤ limit ∧
    (∀ slot ∈ popped, slot ∈ q.activeSlots ∧ q.time slot ≤ now) ∧
    entries = popped.map (fun slot => (q.slots slot).action) ∧
    popped.Pairwise (fun slot slot' => q.time slot ≤ q.time slot') ∧
    (∀ slot ∈ q.activeSlots, slot ∉ popped → now < q.time slot ∨
      popped.length = limit ∧ ∀ slot' ∈ popped, q.time slot' ≤ q.time slot) ∧
    q'.activeSlots = q.activeSlots \ { slot | slot ∈ popped } ∧
    ∀ slot, (q'.slots slot).action = (q.slots slot).action

/-- Nothing was taken. -/
theorem popsDue_nil {now limit : ℕ}
    (h : ∀ slot ∈ q.activeSlots, now < q.time slot ∨ limit = 0) : PopsDue q now limit [] q := by
  refine ⟨[], nodup_nil, Nat.zero_le _, ?_, rfl, List.Pairwise.nil, ?_, ?_, fun _ => rfl⟩
  · simp
  · intro slot hslot _
    rcases h slot hslot with hlate | hfull
    · exact .inl hlate
    · exact .inr ⟨hfull.symm, by simp⟩
  · simp

theorem popsDue_cons {now limit slotId : ℕ}
    {entries : List ExpireAction} (hremoved : Removed q slotId q')
    (hactive : slotId ∈ q.activeSlots) (hdue : q.time slotId ≤ now)
    (hfirst : ∀ slot ∈ q.activeSlots, q.time slotId ≤ q.time slot)
    (h : PopsDue q' now limit entries q'') :
    PopsDue q now (limit + 1) ((q.slots slotId).action :: entries) q'' := by
  obtain ⟨popped, hnodup, hlen, hpopped, hentries, hsorted, hstay, hset, haction⟩ := h
  have htime : q'.time = q.time := by
    funext slot
    exact congrArg ExpireAction.expireTime (hremoved.action slot)
  have hset' : q'.activeSlots = q.activeSlots \ {slotId} := by
    ext slot
    simp only [activeSlots, mem_ofPred_eq, mem_sdiff, mem_singleton_iff,
      hremoved.active slot, and_assoc]
  rw [htime] at hpopped hsorted hstay
  rw [hset'] at hpopped hstay hset
  refine ⟨slotId :: popped, ?_, ?_, ?_, ?_, ?_, ?_, ?_, ?_⟩
  · refine nodup_cons.mpr ⟨?_, hnodup⟩
    intro hmem
    exact (hpopped slotId hmem).1.2 rfl
  · rw [length_cons]
    omega
  · intro slot hslot
    rcases mem_cons.mp hslot with rfl | hmem
    · exact ⟨hactive, hdue⟩
    · exact ⟨(hpopped slot hmem).1.1, (hpopped slot hmem).2⟩
  · rw [hentries, map_cons]
    simp only [hremoved.action]
  · refine pairwise_cons.mpr ⟨?_, hsorted⟩
    intro slot hslot
    exact hfirst slot (hpopped slot hslot).1.1
  · intro slot hslot hnot
    obtain ⟨hne, hnot⟩ := not_or.mp (mt mem_cons.mpr hnot)
    rcases hstay slot ⟨hslot, hne⟩ hnot with hlate | ⟨hfull, hle⟩
    · exact .inl hlate
    refine .inr ⟨by rw [length_cons, hfull], ?_⟩
    intro slot' hslot'
    rcases mem_cons.mp hslot' with rfl | hmem
    · exact hfirst slot hslot
    · exact hle slot' hmem
  · rw [hset]
    ext slot
    simp only [mem_sdiff, mem_singleton_iff, mem_ofPred_eq, mem_cons, not_or, and_assoc]
  · intro slot
    rw [haction, hremoved.action]

theorem WF.root_first (hq : WF q) (slot : ℕ) (hslot : slot ∈ q.activeSlots) :
    q.time (q.heap 0) ≤ q.time slot := by
  obtain ⟨hlt, hat⟩ := hq.indexed.position slot hslot
  have hroot := hq.order.root_le _ hlt
  rwa [show (q.time ∘ q.heap) (q.view.pos slot) = q.time slot from congrArg q.time hat] at hroot

theorem popLoop_spec (now room : ℕ) (hq : WF q) :
    WF (popLoop now room q).2 ∧ Drained q (popLoop now room q).2 ∧
      PopsDue q now room (popLoop now room q).1 (popLoop now room q).2 := by
  induction room generalizing q with
  | zero => exact ⟨hq, .refl q, popsDue_nil fun _ _ => .inr rfl⟩
  | succ room ih =>
    unfold popLoop
    by_cases hempty : q.heapSize = 0
    · rw [if_pos hempty]
      refine ⟨hq, .refl q, popsDue_nil ?_⟩
      intro slot hslot
      have hlt := (hq.indexed.position slot hslot).1
      omega
    rw [if_neg hempty]
    by_cases hlate : now < q.time (q.heap 0)
    · rw [if_pos hlate]
      refine ⟨hq, .refl q, popsDue_nil ?_⟩
      intro slot hslot
      exact .inl (hlate.trans_le (hq.root_first slot hslot))
    rw [if_neg hlate]
    obtain ⟨hwf, hremoved, -⟩ := removeAt_spec hq (show 0 < q.heapSize by omega)
    obtain ⟨hwf', hdrained, hpops⟩ := ih hwf
    have hroot := (hq.indexed.item 0 (by omega)).1
    refine ⟨hwf', (hremoved.drained hroot.2).trans hdrained, ?_⟩
    exact popsDue_cons hremoved hroot (not_lt.mp hlate) hq.root_first hpops

/-- **`pop_due`.** -/
theorem popDue_spec (hq : WF q) (now : ℕ) : WF (q.popDue now).2 ∧ Drained q (q.popDue now).2 ∧
      PopsDue q now MAX_DUE_ACTIONS (q.popDue now).1 (q.popDue now).2 :=
  popLoop_spec now MAX_DUE_ACTIONS hq

/-! ## `cancel` -/

/-- The handle is that of an active slot in its present generation. -/
def Current (q : ExpireActionQueue) (handle : ExpireHandle) : Prop :=
  handle.slot ∈ q.activeSlots ∧ (q.slots handle.slot).generation = handle.generation

theorem cancel_of_not_current (h : ¬q.Current handle) : q.cancel handle = (false, q) := by
  unfold cancel
  split
  · rfl
  rename_i hvalid
  dsimp only
  split
  · rfl
  rename_i hslot
  simp only [not_or, not_le] at hvalid hslot
  exact absurd ⟨⟨hvalid.2, by simpa using hslot.1⟩, by simpa using hslot.2⟩ h

theorem cancel_of_current (hq : WF q) (h : q.Current handle) :
    (q.cancel handle).1 = true ∧ WF (q.cancel handle).2 ∧
      Removed q handle.slot (q.cancel handle).2 := by
  obtain ⟨⟨hlt, hactive⟩, hgen⟩ := h
  obtain ⟨hplace, hat⟩ := hq.indexed.position handle.slot ⟨hlt, hactive⟩
  have hvalid : handle.valid = true := by
    unfold ExpireHandle.valid INVALID_SLOT
    unfold MAX_HEAP_ACTIONS at hlt
    simp only [decide_not, Bool.not_eq_true', decide_eq_false_iff_not]
    omega
  have hcancel : q.cancel handle = (true, (q.removeAt (q.slots handle.slot).heapIndex).2) := by
    unfold cancel
    rw [if_neg (by simp [hvalid, hlt]), if_neg (by simp [hactive, hgen])]
  obtain ⟨hwf, hremoved, -⟩ := removeAt_spec hq hplace
  rw [show q.heap (q.view.pos handle.slot) = handle.slot from hat] at hremoved
  rw [hcancel]
  exact ⟨rfl, hwf, hremoved⟩

end ExpireActionQueue

end Sustcore.Clock
