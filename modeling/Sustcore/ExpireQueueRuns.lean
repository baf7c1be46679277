/-
# Runs of the timer queue

The actions that were queued are numbered: a `Ticket` notes the handle that `push` returned for an
action, how many actions had the slot before, and whether the action is still in the queue.
`Tracked` says what the tickets and the queue have to do with each other, and holds after any
sequence of calls (`tracked_run`).

A handle is valid again for another action when its slot has been used 65536 times in between.
`timer_queue` says that `cancel` goes wrong then, and only then; everything else holds in every
run.
-/
import Sustcore.ExpireQueueHeap

namespace Sustcore.Clock

open Function ExpireActionQueue List

/-! ## Tickets -/

/-- An action that was queued: its handle, how many actions had the slot before it, and whether
it has stayed in its slot since. -/
structure Ticket where
  handle : ExpireHandle
  action : ExpireAction
  turn : ℕ
  queued : Bool
  deriving DecidableEq

/-- The queue and the tickets of all actions that were queued. -/
structure Timer where
  queue : ExpireActionQueue
  issued : List Ticket

/-- How many actions have had the slot. -/
def uses (issued : List Ticket) (slot : ℕ) : ℕ := issued.countP (·.handle.slot = slot)

/-- A ticket of a slot that is not active any more is not queued any more. -/
def Ticket.settle (q : ExpireActionQueue) (t : Ticket) : Ticket :=
  { t with queued := t.queued && (q.slots t.handle.slot).active }

theorem Ticket.settle_of_active {q : ExpireActionQueue} {t : Ticket}
    (h : t.queued = true → (q.slots t.handle.slot).active = true) : t.settle q = t := by
  unfold Ticket.settle
  cases hqueued : t.queued with
  | false => rw [Bool.false_and, ← hqueued]
  | true => rw [h hqueued, Bool.and_self, ← hqueued]

theorem Ticket.settle_of_inactive {q : ExpireActionQueue} {t : Ticket}
    (h : (q.slots t.handle.slot).active = false) : t.settle q = { t with queued := false } := by
  unfold Ticket.settle
  rw [h, Bool.and_false]

inductive TimerOp where
  | push (action : ExpireAction)
  | cancel (handle : ExpireHandle)
  | popDue (now : ℕ)

namespace Timer

def init : Timer := ⟨.init, []⟩

/-- One call. -/
def step (s : Timer) : TimerOp → Timer
  | .push action =>
    match s.queue.push action with
    | .error _ => s
    | .ok (handle, q) => ⟨q, s.issued ++ [⟨handle, action, uses s.issued handle.slot, true⟩]⟩
  | .cancel handle =>
    let q := (s.queue.cancel handle).2
    ⟨q, s.issued.map (·.settle q)⟩
  | .popDue now =>
    let q := (s.queue.popDue now).2
    ⟨q, s.issued.map (·.settle q)⟩

/-- Any sequence of calls. -/
def run (ops : List TimerOp) : Timer := ops.foldl step init

/-- What the tickets say about the queue: the generation of a slot counts its uses, and an active
slot belongs to the last of its tickets, the only one that is queued. -/
structure Tracked (s : Timer) : Prop where
  wf : s.queue.WF
  generation : ∀ slot, (s.queue.slots slot).generation =
    UInt16.ofNat (uses s.issued slot + if (s.queue.slots slot).active then 0 else 1)
  ticket : ∀ t ∈ s.issued, t.handle.slot < MAX_HEAP_ACTIONS ∧
    t.handle.generation = UInt16.ofNat (t.turn + 1) ∧ t.turn < uses s.issued t.handle.slot ∧
    (t.queued = true ↔ (s.queue.slots t.handle.slot).active = true ∧
      t.turn + 1 = uses s.issued t.handle.slot) ∧
    (t.queued = true → (s.queue.slots t.handle.slot).action = t.action)
  owner : ∀ slot, (s.queue.slots slot).active = true →
    ∃ t ∈ s.issued, t.handle.slot = slot ∧ t.queued = true
  turns : s.issued.Pairwise fun t t' => t.handle.slot = t'.handle.slot → t.turn < t'.turn

theorem tracked_init : Tracked init := by
  refine ⟨wf_init, fun _ => rfl, nofun, nofun, List.Pairwise.nil⟩

theorem uses_append (issued : List Ticket) (t : Ticket) (slot : ℕ) :
    uses (issued ++ [t]) slot = uses issued slot + if t.handle.slot = slot then 1 else 0 := by
  simp [uses]

theorem uses_settle (issued : List Ticket) (q : ExpireActionQueue) (slot : ℕ) :
    uses (issued.map (·.settle q)) slot = uses issued slot := by
  unfold uses
  rw [countP_map]
  rfl

theorem Tracked.push {s : Timer} (h : Tracked s) {action : ExpireAction} {handle : ExpireHandle}
    {q : ExpireActionQueue} (hpush : s.queue.push action = .ok (handle, q)) :
    Tracked ⟨q, s.issued ++ [⟨handle, action, uses s.issued handle.slot, true⟩]⟩ := by
  obtain ⟨hwf, hlt, hinactive, hgen, ⟨hactive, haction, hgen'⟩, hother⟩ := push_spec h.wf hpush
  have hnumber : handle.generation = UInt16.ofNat (uses s.issued handle.slot + 1) := by
    rw [hgen, h.generation, hinactive]
    rfl
  -- the tickets of the slot are not queued, since it was not active
  have hold : ∀ t ∈ s.issued, t.handle.slot = handle.slot → t.queued = false := by
    intro t ht hslot
    rw [← Bool.not_eq_true]
    intro hqueued
    have hact := ((h.ticket t ht).2.2.2.1.mp hqueued).1
    rw [hslot, hinactive] at hact
    exact absurd hact (by simp)
  refine ⟨hwf, ?_, ?_, ?_, ?_⟩
  · intro slot
    rw [uses_append]
    by_cases hslot : slot = handle.slot
    · rw [hslot, if_pos rfl, hactive, if_pos rfl, hgen', hnumber]
    · rw [(hother slot hslot).2.2, (hother slot hslot).1, if_neg (Ne.symm hslot), h.generation]
      rfl
  · intro t ht
    rcases mem_append.mp ht with hmem | hnew
    · obtain ⟨htlt, htgen, hturn, hqueued, htaction⟩ := h.ticket t hmem
      rw [uses_append]
      by_cases hslot : t.handle.slot = handle.slot
      · have hfalse := hold t hmem hslot
        refine ⟨htlt, htgen, by omega, ?_, ?_⟩
        · rw [if_pos hslot.symm]
          simp only [hfalse, Bool.false_eq_true, false_iff]
          omega
        · intro htrue
          rw [hfalse] at htrue
          exact absurd htrue (by simp)
      · obtain ⟨hact, hac, -⟩ := hother t.handle.slot hslot
        rw [if_neg (Ne.symm hslot), hact, hac]
        exact ⟨htlt, htgen, by omega, hqueued, htaction⟩
    · rw [mem_singleton.mp hnew]
      rw [uses_append, if_pos rfl]
      exact ⟨hlt, hnumber, Nat.lt_succ_self _, by simp [hactive], fun _ => haction⟩
  · intro slot hact
    by_cases hslot : slot = handle.slot
    · exact ⟨_, mem_append_right _ (mem_singleton_self _), hslot.symm, rfl⟩
    · obtain ⟨t, ht, htslot, hqueued⟩ := h.owner slot (by rw [← (hother slot hslot).1]; exact hact)
      exact ⟨t, mem_append_left _ ht, htslot, hqueued⟩
  · refine pairwise_append.mpr ⟨h.turns, pairwise_singleton _ _, ?_⟩
    intro t ht t' ht' hslot
    rw [mem_singleton.mp ht'] at hslot ⊢
    have hturn := (h.ticket t ht).2.2.1
    rwa [hslot] at hturn

theorem Tracked.drain {s : Timer} (h : Tracked s) {q : ExpireActionQueue} (hwf : q.WF)
    (hdrained : s.queue.Drained q) : Tracked ⟨q, s.issued.map (·.settle q)⟩ := by
  refine ⟨hwf, ?_, ?_, ?_, ?_⟩
  · intro slot
    have hactive := hdrained.active slot
    rw [uses_settle, hdrained.generation, h.generation]
    by_cases hbefore : (s.queue.slots slot).active = true
    · by_cases hafter : (q.slots slot).active = true
      · rw [if_neg (by simp [hafter]), if_pos hbefore, if_pos hafter]
      · rw [if_pos ⟨hbefore, by simpa using hafter⟩, if_pos hbefore, if_neg hafter, add_zero,
          UInt16.ofNat_add]
        rfl
    · rw [if_neg (fun hc => hbefore hc.1), if_neg hbefore, if_neg fun hc => hbefore (hactive hc)]
  · intro t' ht'
    obtain ⟨t, ht, rfl⟩ := mem_map.mp ht'
    obtain ⟨hlt, hgen, hturn, hqueued, haction⟩ := h.ticket t ht
    have hactive := hdrained.active t.handle.slot
    refine ⟨hlt, hgen, ?_, ?_, ?_⟩
    · rwa [uses_settle]
    · rw [uses_settle]
      show (t.queued && (q.slots t.handle.slot).active) = true ↔
        (q.slots t.handle.slot).active = true ∧ t.turn + 1 = uses s.issued t.handle.slot
      rw [Bool.and_eq_true]
      tauto
    · intro htrue
      rw [hdrained.action]
      exact haction (Bool.and_eq_true_iff.mp htrue).1
  · intro slot hact
    obtain ⟨t, ht, hslot, hqueued⟩ := h.owner slot (hdrained.active slot hact)
    refine ⟨t.settle q, mem_map_of_mem ht, hslot, ?_⟩
    show (t.queued && (q.slots t.handle.slot).active) = true
    rwa [hqueued, hslot]
  · exact pairwise_map.mpr h.turns

/-- **Step.** -/
theorem Tracked.step {s : Timer} (h : Tracked s) (op : TimerOp) : Tracked (s.step op) := by
  cases op with
  | push action =>
    cases hpush : s.queue.push action with
    | error e =>
      simp only [Timer.step, hpush]
      exact h
    | ok p =>
      simp only [Timer.step, hpush]
      exact h.push hpush
  | cancel handle =>
    by_cases hcurrent : s.queue.Current handle
    · obtain ⟨-, hwf, hremoved⟩ := cancel_of_current h.wf hcurrent
      exact h.drain hwf (hremoved.drained hcurrent.1.2)
    have hcancel := cancel_of_not_current hcurrent
    have hq : (s.queue.cancel handle).2 = s.queue := congrArg Prod.snd hcancel
    apply h.drain
    · rw [hq]
      exact h.wf
    · rw [hq]
      exact .refl _
  | popDue now =>
    obtain ⟨hwf, hdrained, -⟩ := popDue_spec h.wf now
    exact h.drain hwf hdrained

/-- **Run.** -/
theorem tracked_run (ops : List TimerOp) : Tracked (run ops) := by
  have hrun : ∀ s, Tracked s → Tracked (ops.foldl Timer.step s) := by
    induction ops with
    | nil => exact fun s h => h
    | cons op ops ih => exact fun s h => ih _ (h.step op)
  exact hrun init tracked_init

/-! ## Handles -/

/-- `cancel` with the handle of a ticket is right: if its action is in the queue, exactly this
action is removed, and otherwise nothing changes. -/
def CancelsTicket (s : Timer) (i : ℕ) (t : Ticket) : Prop :=
  (s.queue.cancel t.handle).1 = t.queued ∧
    (t.queued = true → (s.step (.cancel t.handle)).issued =
      s.issued.set i { t with queued := false }) ∧
    (t.queued = false → s.step (.cancel t.handle) = s)

variable {s : Timer} {t : Ticket}

/-- A ticket that is queued has the present handle of its slot. -/
theorem Tracked.current (h : Tracked s) (ht : t ∈ s.issued)
    (hqueued : t.queued = true) : s.queue.Current t.handle := by
  obtain ⟨hlt, hgen, -, hiff, -⟩ := h.ticket t ht
  obtain ⟨hactive, hturn⟩ := hiff.mp hqueued
  refine ⟨⟨hlt, hactive⟩, ?_⟩
  rw [h.generation, hactive, hgen, hturn]
  rfl

theorem Tracked.ticket_of_current (h : Tracked s) {handle : ExpireHandle}
    (hcurrent : s.queue.Current handle) : ∃ t ∈ s.issued, t.queued = true ∧ t.handle = handle := by
  obtain ⟨⟨hlt, hactive⟩, hgen⟩ := hcurrent
  obtain ⟨t, ht, hslot, hqueued⟩ := h.owner handle.slot hactive
  obtain ⟨-, hgent⟩ := h.current ht hqueued
  rw [hslot, hgen] at hgent
  exact ⟨t, ht, hqueued, ExpireHandle.ext hslot hgent.symm⟩

theorem Tracked.settle_self (h : Tracked s) : s.issued.map (·.settle s.queue) = s.issued := by
  have hself : ∀ t ∈ s.issued, t.settle s.queue = t := by
    intro t ht
    exact Ticket.settle_of_active fun hqueued => ((h.ticket t ht).2.2.2.1.mp hqueued).1
  exact (map_congr_left hself).trans (map_id' _)

/-- Two tickets of one slot are not queued at the same time. -/
theorem Tracked.eq_of_queued (h : Tracked s) {i j : ℕ} (hi : i < s.issued.length)
    (hj : j < s.issued.length) (hslot : s.issued[i].handle.slot = s.issued[j].handle.slot)
    (hqi : s.issued[i].queued = true) (hqj : s.issued[j].queued = true) : i = j := by
  have hti := ((h.ticket _ (getElem_mem hi)).2.2.2.1.mp hqi).2
  have htj := ((h.ticket _ (getElem_mem hj)).2.2.2.1.mp hqj).2
  rw [hslot] at hti
  rcases lt_trichotomy i j with hlt | heq | hgt
  · have hturn := pairwise_iff_getElem.mp h.turns i j hi hj hlt hslot
    omega
  · exact heq
  · have hturn := pairwise_iff_getElem.mp h.turns j i hj hi hgt hslot.symm
    omega

theorem Tracked.cancels_queued (h : Tracked s) {i : ℕ} (hi : i < s.issued.length)
    (hqueued : s.issued[i].queued = true) : s.CancelsTicket i s.issued[i] := by
  have hcurrent := h.current (getElem_mem hi) hqueued
  obtain ⟨hres, -, hremoved⟩ := cancel_of_current h.wf hcurrent
  refine ⟨hres.trans hqueued.symm, ?_, ?_⟩
  · intro _
    show s.issued.map (·.settle (s.queue.cancel s.issued[i].handle).2) = _
    apply ext_getElem
    · rw [length_map, length_set]
    · intro j hj hj'
      rw [length_map] at hj
      rw [getElem_map, getElem_set]
      by_cases hij : i = j
      · subst hij
        rw [if_pos rfl]
        apply Ticket.settle_of_inactive
        rw [← Bool.not_eq_true, hremoved.active]
        simp
      · rw [if_neg hij]
        apply Ticket.settle_of_active
        intro hqj
        -- the other ticket is in another slot
        have hslot : s.issued[j].handle.slot ≠ s.issued[i].handle.slot :=
          fun heq => hij (h.eq_of_queued hi hj heq.symm hqueued hqj)
        exact (hremoved.active _).mpr ⟨(h.current (getElem_mem hj) hqj).1.2, hslot⟩
  · intro hfalse
    rw [hqueued] at hfalse
    exact absurd hfalse (by simp)

theorem Tracked.cancels_iff_not_current (h : Tracked s) {i : ℕ}
    (hqueued : t.queued = false) : s.CancelsTicket i t ↔ ¬s.queue.Current t.handle := by
  constructor
  · rintro ⟨hres, -⟩ hcurrent
    rw [(cancel_of_current h.wf hcurrent).1, hqueued] at hres
    exact absurd hres (by simp)
  · intro hnot
    have hcancel := cancel_of_not_current hnot
    refine ⟨?_, ?_, ?_⟩
    · rw [hcancel, hqueued]
    · intro htrue
      rw [hqueued] at htrue
      exact absurd htrue (by simp)
    · intro _
      have hstep : s.step (.cancel t.handle) =
          ⟨(s.queue.cancel t.handle).2, s.issued.map (·.settle (s.queue.cancel t.handle).2)⟩ := rfl
      rw [hstep, hcancel, h.settle_self]

/-- The handle of an old ticket is a present handle again when its slot has been used a multiple
of 65536 times since. -/
theorem Tracked.current_iff (h : Tracked s) (ht : t ∈ s.issued) :
    s.queue.Current t.handle ↔ ∃ t' ∈ s.issued, t'.queued = true ∧
      t'.handle.slot = t.handle.slot ∧ (t'.turn - t.turn) % 2 ^ 16 = 0 := by
  obtain ⟨hlt, hgen, hturn, hiff, -⟩ := h.ticket t ht
  -- the two generations
  have hsame : ∀ t' ∈ s.issued, t'.queued = true → t'.handle.slot = t.handle.slot →
      (t'.handle.generation = t.handle.generation ↔ (t'.turn - t.turn) % 2 ^ 16 = 0) := by
    intro t' ht' hqueued' hslot
    obtain ⟨-, hgen', -, hiff', -⟩ := h.ticket t' ht'
    obtain ⟨hactive, hlast⟩ := hiff'.mp hqueued'
    rw [hslot] at hlast hactive
    rw [hgen, hgen', ← UInt16.toNat_inj, UInt16.toNat_ofNat', UInt16.toNat_ofNat']
    omega
  constructor
  · intro hcurrent
    obtain ⟨t', ht', hqueued', hhandle⟩ := h.ticket_of_current hcurrent
    have hslot : t'.handle.slot = t.handle.slot := by rw [hhandle]
    exact ⟨t', ht', hqueued', hslot, (hsame t' ht' hqueued' hslot).mp (by rw [hhandle])⟩
  · rintro ⟨t', ht', hqueued', hslot, hmod⟩
    have hhandle : t'.handle = t.handle :=
      ExpireHandle.ext hslot ((hsame t' ht' hqueued' hslot).mpr hmod)
    rw [← hhandle]
    exact h.current ht' hqueued'

/-- **The timer queue, after any sequence of calls.**  It is well formed; `pop_due` takes the
earliest actions that are due; a handle that was never returned cancels nothing; and the handle of
a ticket cancels its action or nothing, exactly if the ticket is queued or its slot has not been
used a multiple of 65536 times since, with the last of these actions in the queue. -/
theorem timer_queue (ops : List TimerOp) :
    (run ops).queue.WF ∧
    (∀ now, (run ops).queue.PopsDue now MAX_DUE_ACTIONS ((run ops).queue.popDue now).1
      ((run ops).queue.popDue now).2) ∧
    (∀ handle, (∀ t ∈ (run ops).issued, t.handle ≠ handle) →
      (run ops).queue.cancel handle = (false, (run ops).queue)) ∧
    ∀ i t, (run ops).issued[i]? = some t → ((run ops).CancelsTicket i t ↔
      t.queued = true ∨ ∀ t' ∈ (run ops).issued, t'.queued = true →
        t'.handle.slot = t.handle.slot → (t'.turn - t.turn) % 2 ^ 16 ≠ 0) := by
  have h := tracked_run ops
  refine ⟨h.wf, fun now => (popDue_spec h.wf now).2.2, ?_, ?_⟩
  · intro handle hnew
    apply cancel_of_not_current
    intro hcurrent
    obtain ⟨t, ht, -, hhandle⟩ := h.ticket_of_current hcurrent
    exact hnew t ht hhandle
  · intro i t hit
    obtain ⟨hi, rfl⟩ := List.getElem?_eq_some_iff.mp hit
    have ht := getElem_mem hi
    cases hqueued : (run ops).issued[i].queued with
    | true => exact ⟨fun _ => Or.inl rfl, fun _ => h.cancels_queued hi hqueued⟩
    | false =>
      rw [h.cancels_iff_not_current hqueued, h.current_iff ht]
      simp only [Bool.false_eq_true, false_or, not_exists, not_and]

/-- **Queued actions have different handles**, after any sequence of calls. -/
theorem queued_handles_distinct (ops : List TimerOp) :
    ((run ops).issued.filter (·.queued)).Pairwise fun t t' => t.handle ≠ t'.handle := by
  have h := tracked_run ops
  rw [pairwise_filter]
  refine h.turns.imp_of_mem ?_
  intro t t' ht ht' hturn hqueued hqueued' heq
  have hslot : t.handle.slot = t'.handle.slot := by rw [heq]
  have hlt := hturn hslot
  -- both have the last turn of their slot
  have hlast := ((h.ticket t ht).2.2.2.1.mp hqueued).2
  have hlast' := ((h.ticket t' ht').2.2.2.1.mp hqueued').2
  rw [hslot] at hlast
  omega

/-! ## A handle that is used again -/

/-- The action that is queued again and again. -/
def tick : ExpireAction := ⟨0, 0, 0, 0⟩

def slotsWith (generation : UInt16) (active : Bool) : ℕ → ExpireSlot :=
  update ExpireActionQueue.init.slots 0 ⟨tick, 0, 1, generation, active⟩

theorem slotsWith_zero (generation : UInt16) (active : Bool) :
    slotsWith generation active 0 = ⟨tick, 0, 1, generation, active⟩ := update_self ..

theorem update_slotsWith (generation generation' : UInt16) (active active' : Bool) :
    update (slotsWith generation active) 0 ⟨tick, 0, 1, generation', active'⟩ =
      slotsWith generation' active' := update_idem ..

def idle (generation : UInt16) : ExpireActionQueue :=
  ⟨fun _ => 0, slotsWith generation false, 0, 0⟩

def busy (generation : UInt16) : ExpireActionQueue :=
  ⟨fun _ => 0, slotsWith generation true, 1, 1⟩

theorem idle_one : idle 1 = ExpireActionQueue.init := by
  have hslots : slotsWith 1 false = ExpireActionQueue.init.slots := update_eq_self 0 _
  unfold idle
  rw [hslots]
  rfl

theorem push_idle (generation : UInt16) :
    (idle generation).push tick = .ok (⟨0, generation⟩, busy generation) := by
  have hheap : update (fun _ : ℕ => 0) 0 0 = fun _ : ℕ => 0 := update_eq_self 0 _
  unfold push idle
  dsimp only
  rw [slotsWith_zero]
  unfold shiftUp
  rw [hheap, update_slotsWith]
  rfl

theorem cancel_busy (generation : UInt16) :
    (busy generation).cancel ⟨0, generation⟩ = (true, idle (generation + 1)) := by
  have hslot : (busy generation).slots 0 = ⟨tick, 0, 1, generation, true⟩ := slotsWith_zero _ _
  have hvalid : ¬(¬(ExpireHandle.mk 0 generation).valid = true ∨ MAX_HEAP_ACTIONS ≤ 0) := by
    show ¬(¬decide ((0 : ℕ) ≠ INVALID_SLOT) = true ∨ MAX_HEAP_ACTIONS ≤ 0)
    decide
  unfold cancel
  rw [if_neg hvalid]
  rw [hslot, if_neg (by simp)]
  show (true, ((busy generation).unlinkAt 0).freeSlot 0) = _
  show (true, ExpireActionQueue.mk _ (update (slotsWith _ _) 0 ⟨tick, 0, 1, _, _⟩) _ _) = _
  rw [update_slotsWith]
  rfl

/-- `n` times an action is queued and cancelled. -/
def cycles : ℕ → List TimerOp
  | 0 => []
  | n + 1 => cycles n ++ [.push tick, .cancel ⟨0, UInt16.ofNat (n + 1)⟩]

theorem run_append (ops ops' : List TimerOp) : run (ops ++ ops') = ops'.foldl step (run ops) :=
  foldl_append

theorem run_cycles (n : ℕ) : (run (cycles n)).queue = idle (UInt16.ofNat (n + 1)) ∧
    (0 < n → (run (cycles n)).issued.head? = some ⟨⟨0, 1⟩, tick, 0, false⟩) := by
  induction n with
  | zero =>
    refine ⟨?_, fun h => absurd h (by decide)⟩
    exact idle_one.symm
  | succ n ih =>
    obtain ⟨hqueue, hhead⟩ := ih
    set s := run (cycles n) with hs
    set generation := UInt16.ofNat (n + 1) with hgeneration
    have hnext : generation + 1 = UInt16.ofNat (n + 1 + 1) := by
      rw [UInt16.ofNat_add (n + 1) 1]
      rfl
    have hpush : s.step (.push tick) =
        ⟨busy generation, s.issued ++ [⟨⟨0, generation⟩, tick, uses s.issued 0, true⟩]⟩ := by
      simp only [Timer.step, hqueue, push_idle]
    have hrun : run (cycles (n + 1)) = ⟨idle (generation + 1),
        (s.issued ++ [(⟨⟨0, generation⟩, tick, uses s.issued 0, true⟩ : Ticket)]).map
          (Ticket.settle (idle (generation + 1)))⟩ := by
      unfold cycles
      rw [run_append, foldl_cons, foldl_cons, foldl_nil, hpush, ← hgeneration]
      simp only [Timer.step, cancel_busy]
    rw [hrun]
    refine ⟨by rw [hnext], fun _ => ?_⟩
    rw [head?_map]
    cases n with
    | zero => rfl
    | succ m =>
      have hfirst := hhead (Nat.succ_pos m)
      rw [head?_append, hfirst]
      rfl

/-- When the generation of slot 0 is 1 again, the handle of the first ticket is present again. -/
theorem run_cycles_push {n : ℕ} (hn : 0 < n) (hwrap : UInt16.ofNat (n + 1) = 1) :
    (run (cycles n ++ [.push tick])).queue = busy 1 ∧
      (run (cycles n ++ [.push tick])).issued.head? = some ⟨⟨0, 1⟩, tick, 0, false⟩ := by
  obtain ⟨hqueue, hhead⟩ := run_cycles n
  rw [hwrap] at hqueue
  have hpush : run (cycles n ++ [.push tick]) = ⟨busy 1, (run (cycles n)).issued ++
      [⟨⟨0, 1⟩, tick, uses (run (cycles n)).issued 0, true⟩]⟩ := by
    rw [run_append]
    simp only [foldl_cons, foldl_nil, Timer.step, hqueue, push_idle]
  rw [hpush]
  refine ⟨rfl, ?_⟩
  rw [head?_append, hhead hn]
  rfl

/-- After 65536 uses of slot 0 another action gets the handle of the first one, and cancelling the
first action, which is long gone, removes the other. -/
theorem stale_handle_cancels :
    ∃ ops, (run ops).issued.head? = some ⟨⟨0, 1⟩, tick, 0, false⟩ ∧
      (run ops).queue.heapSize = 1 ∧ ((run ops).queue.cancel ⟨0, 1⟩).1 = true ∧
      ((run ops).queue.cancel ⟨0, 1⟩).2.heapSize = 0 := by
  obtain ⟨n, hn, hwrap⟩ : ∃ n, 0 < n ∧ UInt16.ofNat (n + 1) = 1 := ⟨65536, by decide, by decide⟩
  obtain ⟨hqueue, hhead⟩ := run_cycles_push hn hwrap
  refine ⟨cycles n ++ [.push tick], hhead, ?_, ?_, ?_⟩
  · rw [hqueue]
    rfl
  · rw [hqueue, cancel_busy]
  · rw [hqueue]
    rfl

end Timer

end Sustcore.Clock
