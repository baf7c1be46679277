/-
# One step of a buffer cache

`BioState.Inv` is what holds between any two steps: the cache is coherent with the last bytes
(`Coherent`), handlers and threads find what they point to and are counted (`Pointers`), and a
loop of `sync_all` leaves nothing dirty behind (`SweepOk`).

A step of a thread changes at most one slot, one request and the handlers.  `Inv.slotStep` says
once what such a step owes to the others; the parts of the calls are instances of it.
-/
import Sustcore.BufferCoherence

namespace Sustcore

open Function Finset Option

/-- The values of a function over a finite type, one of which is replaced. -/
theorem sum_update {ι α : Type*} [Fintype ι] [DecidableEq ι] (f : α → ℕ) (g : ι → α) (t : ι)
    (a : α) : ∑ u, f (update g t a u) + f (g t) = ∑ u, f (g u) + f a := by
  have hrest : ∑ u ∈ univ.erase t, f (update g t a u) =
      ∑ u ∈ univ.erase t, f (g u) := by
    apply sum_congr rfl
    intro u hu
    rw [update_of_ne (ne_of_mem_erase hu)]
  rw [← add_sum_erase _ _ (mem_univ t), hrest, ← add_sum_erase univ (fun u => f (g u)) (mem_univ t),
    update_self]
  ring

namespace BioState

open Bio

variable {N n T : ℕ} {s s' : BioState N n T} {last : ℕ → Block n}

/-! ## Reference counts -/

/-- The handlers for a slot: those of users and those of threads. -/
def refs (s : BioState N n T) (i : Fin N) : ℕ :=
  s.handlers.countP (fun h => h.1 == i) + ∑ t, ((s.threads t).holds i).toNat

/-- What handlers and threads refer to is there, and is counted. -/
structure Pointers (s : BioState N n T) : Prop where
  handles : ∀ i blkno, (i, blkno) ∈ s.handlers →
    ∃ b, s.buffers i = some b ∧ b.blkno = blkno ∧ b.valid = true
  finds : ∀ t, (s.threads t).Finds s.buffers
  owned : ∀ t i op, (s.threads t).pending = some (i, op) → ∃ d, s.requests i = some ⟨op, d⟩
  owner : ∀ t t' i op op', (s.threads t).pending = some (i, op) →
    (s.threads t').pending = some (i, op') → t = t'
  refcnt : ∀ i b, s.buffers i = some b → b.refcnt = s.refs i

variable {t : Fin T} {a : Activity N} {i j : Fin N} {blkno k : ℕ} {l : List (Fin N × ℕ)}

def handleCount (l : List (Fin N × ℕ)) (i : Fin N) : ℕ := l.countP fun h => h.1 == i

theorem handleCount_cons_self : handleCount ((i, blkno) :: l) i = handleCount l i + 1 := by
  simp [handleCount]

theorem handleCount_cons_ne (hj : j ≠ i) : handleCount ((i, blkno) :: l) j = handleCount l j := by
  simp [handleCount, Ne.symm hj]

theorem handleCount_erase_self (hmem : (i, blkno) ∈ l) :
    handleCount (l.erase (i, blkno)) i + 1 = handleCount l i := by
  have hpos : 0 < handleCount l i := List.countP_pos_iff.mpr ⟨_, hmem, by simp⟩
  have herase := List.countP_erase (fun h : Fin N × ℕ => h.1 == i) l (i, blkno)
  simp only [hmem, beq_self_eq_true, and_self, if_true] at herase
  unfold handleCount at hpos ⊢
  omega

theorem handleCount_erase_ne (hj : j ≠ i) :
    handleCount (l.erase (i, blkno)) j = handleCount l j := by
  unfold handleCount
  rw [List.countP_erase]
  simp [Ne.symm hj]

theorem refs_setThread (hthreads : s'.threads = update s.threads t a) (i : Fin N) :
    s'.refs i + ((s.threads t).holds i).toNat + handleCount s.handlers i =
      s.refs i + (a.holds i).toNat + handleCount s'.handlers i := by
  have hsum := sum_update (fun b : Activity N => (b.holds i).toNat) s.threads t a
  unfold refs handleCount
  rw [hthreads]
  omega

theorem refs_of_threads_eq (hthreads : s'.threads = s.threads) (i : Fin N) :
    s'.refs i + handleCount s.handlers i = s.refs i + handleCount s'.handlers i := by
  unfold refs handleCount
  rw [hthreads]
  omega

theorem refs_pos (hholds : (s.threads t).holds i = true) : 0 < s.refs i := by
  have hle : ((s.threads t).holds i).toNat ≤ ∑ u, ((s.threads u).holds i).toNat :=
    single_le_sum (f := fun u => ((s.threads u).holds i).toNat)
      (fun _ _ => Nat.zero_le _) (mem_univ t)
  rw [hholds, Bool.toNat_true] at hle
  unfold refs
  omega

theorem refs_pos_of_mem (hmem : (i, blkno) ∈ s.handlers) : 0 < s.refs i := by
  have hcount := handleCount_erase_self hmem
  unfold refs
  unfold handleCount at hcount
  omega

/-- **A step of one thread**, with what it owes to the others. -/
theorem Pointers.step (h : s.Pointers) (t : Fin T) (hthreads : s'.threads = update s.threads t a)
    (hpersist : Persist s.buffers s'.buffers) (hhandles : ∀ p ∈ s'.handlers, p ∈ s.handlers ∨
      ∃ b, s'.buffers p.1 = some b ∧ b.blkno = p.2 ∧ b.valid = true) (hfinds : a.Finds s'.buffers)
    (hkept : ∀ i, s'.requests i = s.requests i ∨ s.requests i = none ∨
      ∃ op, (s.threads t).pending = some (i, op))
    (hpending : ∀ i op, a.pending = some (i, op) → (∃ d, s'.requests i = some ⟨op, d⟩) ∧
      (s.requests i = none ∨ ∃ op', (s.threads t).pending = some (i, op')))
    (hrefs : ∀ i b, s'.buffers i = some b → b.refcnt = s'.refs i) : s'.Pointers := by
  -- A request of another thread is not touched.
  have hother : ∀ u i op, u ≠ t → (s.threads u).pending = some (i, op) →
      ¬(s.requests i = none ∨ ∃ op', (s.threads t).pending = some (i, op')) := by
    rintro u i op hu hpend (hnone | ⟨op', hpend'⟩)
    · obtain ⟨d, hd⟩ := h.owned u i op hpend
      rw [hnone] at hd
      cases hd
    · exact hu (h.owner u t i op op' hpend hpend')
  constructor
  · intro i blkno hmem
    rcases hhandles _ hmem with hold | hnew
    · obtain ⟨b, hb, hblk, hvalid⟩ := h.handles i blkno hold
      obtain ⟨b', hb', hblk', -, hvalid'⟩ := hpersist i b hb
      exact ⟨b', hb', hblk'.trans hblk, hvalid' hvalid⟩
    · exact hnew
  · intro u
    rw [hthreads]
    by_cases hu : u = t
    · rwa [hu, update_self]
    · rw [update_of_ne hu]
      exact (h.finds u).persist hpersist
  · intro u i op hpend
    rw [hthreads] at hpend
    by_cases hu : u = t
    · rw [hu, update_self] at hpend
      exact (hpending i op hpend).1
    rw [update_of_ne hu] at hpend
    rcases hkept i with hsame | hfree
    · rw [hsame]
      exact h.owned u i op hpend
    · exact absurd hfree (hother u i op hu hpend)
  · intro u u' i op op' hpend hpend'
    rw [hthreads] at hpend hpend'
    by_cases hu : u = t
    · by_cases hu' : u' = t
      · rw [hu, hu']
      · rw [hu, update_self] at hpend
        rw [update_of_ne hu'] at hpend'
        exact absurd (hpending i op hpend).2 (hother u' i op' hu' hpend')
    · rw [update_of_ne hu] at hpend
      by_cases hu' : u' = t
      · rw [hu', update_self] at hpend'
        exact absurd (hpending i op' hpend').2 (hother u i op hu hpend)
      · rw [update_of_ne hu'] at hpend'
        exact h.owner u u' i op op' hpend hpend'
  · exact hrefs

theorem Pointers.quiet (h : s.Pointers) (hthreads : s'.threads = s.threads)
    (hpersist : Persist s.buffers s'.buffers) (hhandles : ∀ p ∈ s'.handlers, p ∈ s.handlers)
    (hkept : ∀ i op d, s.requests i = some ⟨op, d⟩ → ∃ d', s'.requests i = some ⟨op, d'⟩)
    (hrefs : ∀ i b, s'.buffers i = some b → b.refcnt = s'.refs i) : s'.Pointers := by
  constructor
  · intro i blkno hmem
    obtain ⟨b, hb, hblk, hvalid⟩ := h.handles i blkno (hhandles _ hmem)
    obtain ⟨b', hb', hblk', -, hvalid'⟩ := hpersist i b hb
    exact ⟨b', hb', hblk'.trans hblk, hvalid' hvalid⟩
  · intro u
    rw [hthreads]
    exact (h.finds u).persist hpersist
  · intro u i op hpend
    rw [hthreads] at hpend
    obtain ⟨d, hd⟩ := h.owned u i op hpend
    exact hkept i op d hd
  · rw [hthreads]
    exact h.owner
  · exact hrefs

/-- A thread that waits for nothing and holds nothing goes to another such place. -/
theorem Pointers.setThread (h : s.Pointers) (t : Fin T)
    (hfinds : a.Finds s.buffers) (hpending : a.pending = none)
    (hholds : ∀ i, a.holds i = (s.threads t).holds i) : (s.setThread t a).Pointers := by
  refine h.step t rfl (persist_refl _) (fun _ => .inl) hfinds
    (fun i => .inl rfl) ?_ ?_
  · intro i op hpend
    rw [hpending] at hpend
    cases hpend
  · intro i b hb
    have hrefs := refs_setThread (rfl : (s.setThread t a).threads = update s.threads t a) i
    have hhandlers : (s.setThread t a).handlers = s.handlers := rfl
    rw [hholds i, hhandlers] at hrefs
    rw [h.refcnt i b hb]
    omega

/-! ## Loops -/

/-- The loop of a thread has left no dirty buffer behind it, except of blocks that were written
since it started. -/
def SweepOk (s : BioState N n T) (written : Fin T → Set ℕ) : Prop :=
  ∀ t k, (s.threads t).swept = some k → ∀ i b, s.buffers i = some b → b.dirty = true →
    b.blkno ∉ written t → k ≤ i.val

theorem SweepOk.step {written : Fin T → Set ℕ} (h : s.SweepOk written) (t : Fin T)
    (hthreads : s'.threads = update s.threads t a)
    (hdirty : ∀ i b, s'.buffers i = some b → b.dirty = true →
      ∃ c, s.buffers i = some c ∧ c.dirty = true ∧ c.blkno = b.blkno)
    (hswept : ∀ k, a.swept = some k → ∀ i b, s'.buffers i = some b → b.dirty = true →
      b.blkno ∉ written t → k ≤ i.val) : s'.SweepOk written := by
  intro u k hk i b hb hd hw
  rw [hthreads] at hk
  by_cases hu : u = t
  · rw [hu] at hw
    rw [hu, update_self] at hk
    exact hswept k hk i b hb hd hw
  · rw [update_of_ne hu] at hk
    obtain ⟨c, hc, hcd, hblk⟩ := hdirty i b hb hd
    rw [← hblk] at hw
    exact h u k hk i c hc hcd hw

theorem SweepOk.quiet {written : Fin T → Set ℕ} (h : s.SweepOk written)
    (hthreads : s'.threads = s.threads) (hdirty : ∀ i b, s'.buffers i = some b → b.dirty = true →
      ∃ c, s.buffers i = some c ∧ c.dirty = true ∧ c.blkno = b.blkno) : s'.SweepOk written := by
  intro u k hk i b hb hd hw
  rw [hthreads] at hk
  obtain ⟨c, hc, hcd, hblk⟩ := hdirty i b hb hd
  rw [← hblk] at hw
  exact h u k hk i c hc hcd hw

/-! ## Steps on one slot -/

/-- Everything that holds between the calls. -/
structure Inv (s : BioState N n T) (last : ℕ → Block n) (written : Fin T → Set ℕ) : Prop where
  coherent : s.Coherent last
  pointers : s.Pointers
  sweeps : s.SweepOk written

variable {written : Fin T → Set ℕ} {b b' : Buffer n}

/-- A buffer that is changed in place becomes dirty only if it was. -/
theorem dirty_update {buffers : Fin N → Option (Buffer n)}
    (hb : buffers i = some b) (hblk : b'.blkno = b.blkno)
    (hdirty : b'.dirty = true → b.dirty = true) :
    ∀ j c, update buffers i (some b') j = some c → c.dirty = true →
      ∃ c', buffers j = some c' ∧ c'.dirty = true ∧ c'.blkno = c.blkno := by
  intro j c hc hd
  rcases update_eq_cases hc with ⟨rfl, ⟨⟩⟩ | ⟨-, hc⟩
  · exact ⟨b, hb, hdirty hd, hblk.symm⟩
  · exact ⟨c, hc, hd, rfl⟩

theorem setBuffer_buffers (hb : s.buffers i = some b) (f : Buffer n → Buffer n) :
    (s.setBuffer i f).buffers = update s.buffers i (some (f b)) := by
  unfold setBuffer
  rw [hb]
  rfl

theorem setBuffer_twice (hb : s.buffers i = some b) (f g : Buffer n → Buffer n) :
    ((s.setBuffer i f).setBuffer i g).buffers = update s.buffers i (some (g (f b))) := by
  have hf := setBuffer_buffers hb f
  rw [setBuffer_buffers (hf ▸ update_self ..), hf, update_idem]

section OneSlot

variable {r' : Option Bio.BlockRequest} {last' : ℕ → Block n}

/-- **One thread changes one slot**: its buffer in place, its request and the handlers. -/
theorem Inv.slotStep (h : s.Inv last written) (hb : s.buffers i = some b)
    (hbuffers : s'.buffers = update s.buffers i (some b'))
    (hrequests : s'.requests = update s.requests i r')
    (hthreads : s'.threads = update s.threads t a) (hmapping : s'.mapping = s.mapping)
    (hdevice : s'.device = s.device) (hblk : b'.blkno = b.blkno) (hwd : b'.waitWd = b.waitWd)
    (hvalid : b.valid = true → b'.valid = true) (hdirty : b'.dirty = true → b.dirty = true)
    (hslot : SlotOk s.device last b' r')
    (hhandles : ∀ p ∈ s'.handlers, p ∈ s.handlers ∨ p = (i, b.blkno) ∧ b'.valid = true)
    (hfinds : a.Finds (update s.buffers i (some b')))
    (hrequest : r' = s.requests i ∨ s.requests i = none ∨
      ∃ op, (s.threads t).pending = some (i, op))
    (hpending : ∀ j op, a.pending = some (j, op) → j = i ∧ s.requests i = none ∧
      ∃ d, r' = some ⟨op, d⟩)
    (hcount : b'.refcnt + ((s.threads t).holds i).toNat + handleCount s.handlers i =
      b.refcnt + (a.holds i).toNat + handleCount s'.handlers i)
    (hcount' : ∀ j, j ≠ i → (s.threads t).holds j = a.holds j ∧
      handleCount s'.handlers j = handleCount s.handlers j)
    (hswept : ∀ k, a.swept = some k → ∀ j c, s.buffers j = some c → c.dirty = true →
      (j = i → b'.dirty = true) → c.blkno ∉ written t → k ≤ j.val) : s'.Inv last written := by
  have hdirty' := dirty_update hb hblk hdirty
  rw [← hbuffers] at hdirty'
  constructor
  · exact h.coherent.setSlot hb hbuffers hblk hmapping hrequests hdevice (fun _ _ => rfl)
      (fun _ _ => rfl) hslot
  · refine h.pointers.step t hthreads ?_ ?_ (hbuffers ▸ hfinds) ?_ ?_ ?_
    · rw [hbuffers]
      exact persist_update hb hblk hwd hvalid
    · intro p hmem
      rcases hhandles p hmem with hold | ⟨rfl, hv⟩
      · exact .inl hold
      · exact .inr ⟨b', by rw [hbuffers, update_self], hblk, hv⟩
    · intro j
      rw [hrequests]
      by_cases hj : j = i
      · subst hj
        rwa [update_self]
      · exact .inl (update_of_ne hj ..)
    · intro j op hpend
      obtain ⟨rfl, hnone, d, hd⟩ := hpending j op hpend
      exact ⟨⟨d, by rw [hrequests, update_self, hd]⟩, .inl hnone⟩
    · intro j c hc
      have hrefs := refs_setThread hthreads j
      rw [hbuffers] at hc
      rcases update_eq_cases hc with ⟨rfl, ⟨⟩⟩ | ⟨hj, hc⟩
      · have hold := h.pointers.refcnt j b hb
        omega
      · have hold := h.pointers.refcnt j c hc
        obtain ⟨hholds, hhand⟩ := hcount' j hj
        rw [hholds] at hrefs
        omega
  · refine h.sweeps.step t hthreads hdirty' ?_
    intro k hk j c hc hd hw
    obtain ⟨c', hc', hd', hblk'⟩ := hdirty' j c hc hd
    rw [← hblk'] at hw
    refine hswept k hk j c' hc' hd' ?_ hw
    rintro rfl
    rw [hbuffers, update_self] at hc
    rwa [some.inj hc]

/-- **One slot changes while no thread moves**; a buffer becomes dirty only with a write. -/
theorem Inv.slotQuiet {written' : Fin T → Set ℕ} (h : s.Inv last written)
    (hb : s.buffers i = some b) (hbuffers : s'.buffers = update s.buffers i (some b'))
    (hrequests : s'.requests = update s.requests i r') (hthreads : s'.threads = s.threads)
    (hmapping : s'.mapping = s.mapping) (hdevice : ∀ k, k ≠ b.blkno → s'.device k = s.device k)
    (hlast : ∀ k, k ≠ b.blkno → last' k = last k)
    (hblk : b'.blkno = b.blkno) (hwd : b'.waitWd = b.waitWd)
    (hvalid : b.valid = true → b'.valid = true) (hslot : SlotOk s'.device last' b' r')
    (hhandles : ∀ p ∈ s'.handlers, p ∈ s.handlers)
    (hkept : ∀ op d, s.requests i = some ⟨op, d⟩ → ∃ d', r' = some ⟨op, d'⟩)
    (hcount : b'.refcnt + handleCount s.handlers i = b.refcnt + handleCount s'.handlers i)
    (hcount' : ∀ j, j ≠ i → handleCount s'.handlers j = handleCount s.handlers j)
    (hwritten : ∀ t, written t ⊆ written' t)
    (hdirty : b'.dirty = true → b.dirty = true ∨ ∀ t, b.blkno ∈ written' t) :
    s'.Inv last' written' := by
  constructor
  · exact h.coherent.setSlot hb hbuffers hblk hmapping hrequests rfl hdevice hlast hslot
  · refine h.pointers.quiet hthreads ?_ hhandles ?_ ?_
    · rw [hbuffers]
      exact persist_update hb hblk hwd hvalid
    · intro j op d hd
      rw [hrequests]
      by_cases hj : j = i
      · subst hj
        rw [update_self]
        exact hkept op d hd
      · exact ⟨d, (update_of_ne hj ..).trans hd⟩
    · intro j c hc
      have hrefs := refs_of_threads_eq hthreads j
      rw [hbuffers] at hc
      rcases update_eq_cases hc with ⟨rfl, ⟨⟩⟩ | ⟨hj, hc⟩
      · have hold := h.pointers.refcnt j b hb
        omega
      · have hold := h.pointers.refcnt j c hc
        rw [hcount' j hj] at hrefs
        omega
  · intro t k hk j c hc hd hw
    rw [hthreads] at hk
    rw [hbuffers] at hc
    rcases update_eq_cases hc with ⟨rfl, ⟨⟩⟩ | ⟨-, hc⟩
    · rw [hblk] at hw
      rcases hdirty hd with hd | hin
      · exact h.sweeps t k hk j b hb hd fun hin => hw (hwritten t hin)
      · exact absurd (hin t) hw
    · exact h.sweeps t k hk j c hc hd fun hin => hw (hwritten t hin)

end OneSlot

/-- A thread moves without touching a slot. -/
theorem Inv.setThread (h : s.Inv last written) (t : Fin T)
    (hfinds : a.Finds s.buffers) (hpending : a.pending = none)
    (hholds : ∀ i, a.holds i = (s.threads t).holds i)
    (hswept : ∀ k, a.swept = some k → ∀ j c, s.buffers j = some c → c.dirty = true →
      c.blkno ∉ written t → k ≤ j.val) : (s.setThread t a).Inv last written := by
  constructor
  · exact h.coherent.of_eq rfl rfl rfl rfl
  · exact h.pointers.setThread t hfinds hpending hholds
  · refine h.sweeps.step t rfl ?_ hswept
    intro i b hb hd
    exact ⟨b, hb, hd, rfl⟩

theorem Inv.request_eq_none (h : s.Inv last written)
    (hb : s.buffers i = some b) (hinflight : b.inflight = false) : s.requests i = none := by
  have hslot := (h.coherent.slots i b hb).inflight
  rw [hinflight] at hslot
  simpa using hslot.symm

/-- What a thread has to give up before it goes on. -/
def Free (a : Activity N) : Prop := a.pending = none ∧ ∀ i, a.holds i = false

variable (h : s.Inv last written)

include h

theorem Inv.openHandler (hb : s.buffers i = some b) (hvalid : b.valid = true)
    (hfree : Free (s.threads t)) : (s.openHandler t i b.blkno).Inv last written := by
  have hslot := h.coherent.slots i b hb
  have hhandlers : (s.openHandler t i b.blkno).handlers = (i, b.blkno) :: s.handlers := rfl
  refine h.slotStep (t := t) hb (setBuffer_buffers hb _) (update_eq_self ..).symm rfl rfl rfl rfl
    rfl id id ?_ ?_ trivial (.inl rfl) nofun ?_ ?_ nofun
  · exact ⟨hslot.inflight, hslot.valid, hslot.dirty, hslot.clean, hslot.read, hslot.write⟩
  · intro p hp
    exact (List.mem_cons.mp hp).symm.imp_right fun hp => ⟨hp, hvalid⟩
  · rw [hfree.2 i, hhandlers, handleCount_cons_self]
    simp only [Activity.holds]
    omega
  · intro j hj
    exact ⟨hfree.2 j, handleCount_cons_ne hj⟩

theorem Inv.submitRead
    (hb : s.buffers i = some b) (hvalid : b.valid = false) (hinflight : b.inflight = false)
    (hfree : Free (s.threads t)) : (s.submit t i .read (.reading i b.blkno)).Inv last written := by
  have hnone := h.request_eq_none hb hinflight
  have hslot := h.coherent.slots i b hb
  refine h.slotStep (t := t) hb (setBuffer_buffers hb _) rfl rfl rfl rfl rfl rfl id id ?_
    (fun _ => .inl) ?_ (.inr (.inl hnone)) ?_ ?_ ?_ nofun
  · refine ⟨rfl, hslot.valid, hslot.dirty, hslot.clean, ?_, nofun⟩
    intro d hd
    obtain ⟨-, rfl⟩ := Bio.BlockRequest.mk.inj (some.inj hd)
    exact ⟨hvalid, nofun⟩
  · exact ⟨_, update_self .., rfl⟩
  · intro j op hpend
    obtain ⟨rfl, rfl⟩ := Prod.mk.inj (some.inj hpend)
    exact ⟨rfl, hnone, false, rfl⟩
  · rw [hfree.2 i]
    rfl
  · intro j _
    exact ⟨hfree.2 j, rfl⟩

/-- A buffer that is not in flight is opened, or read first. -/
theorem Inv.openBuffer (hb : s.buffers i = some b) (hinflight : b.inflight = false)
    (hfree : Free (s.threads t)) : (s.openBuffer t i b.blkno b).Inv last written := by
  unfold BioState.openBuffer
  cases hvalid : b.valid with
  | true => exact h.openHandler hb hvalid hfree
  | false => exact h.submitRead hb hvalid hinflight hfree

omit h in
theorem slotOk_submitWrite {device : ℕ → Block n} {r : Option Bio.BlockRequest}
    (hslot : SlotOk device last b r) (hvalid : b.valid = true) (hdirty : b.dirty = true)
    (refcnt : ℕ) :
    SlotOk device last { b with inflight := true, refcnt := refcnt }
      (some ⟨.write, false⟩) := by
  refine ⟨rfl, hslot.valid, hslot.dirty, hslot.clean, nofun, ?_⟩
  intro d hd
  obtain ⟨-, rfl⟩ := Bio.BlockRequest.mk.inj (some.inj hd)
  exact ⟨hvalid, hdirty, nofun⟩

theorem Inv.submitSync
    (hb : s.buffers i = some b) (hvalid : b.valid = true) (hdirty : b.dirty = true)
    (hinflight : b.inflight = false) (hfree : Free (s.threads t))
    (hmem : (i, b.blkno) ∈ s.handlers) :
    Inv { s.submit t i .write (.writing i (.handler b.blkno)) with
      handlers := s.handlers.erase (i, b.blkno) } last written := by
  have hnone := h.request_eq_none hb hinflight
  have hslot := h.coherent.slots i b hb
  refine h.slotStep (t := t) hb (setBuffer_buffers hb _) rfl rfl rfl rfl rfl rfl id id
    (slotOk_submitWrite hslot hvalid hdirty b.refcnt)
    (fun p hp => .inl (List.mem_of_mem_erase hp)) ?_ (.inr (.inl hnone)) ?_ ?_ ?_ nofun
  · refine ⟨_, update_self .., ?_⟩
    intro blkno hcaller
    obtain rfl := SyncCaller.handler.inj hcaller
    exact ⟨rfl, hvalid⟩
  · intro j op hpend
    obtain ⟨rfl, rfl⟩ := Prod.mk.inj (some.inj hpend)
    exact ⟨rfl, hnone, false, rfl⟩
  · have herase := handleCount_erase_self hmem
    rw [hfree.2 i]
    simp only [Activity.holds, beq_self_eq_true, Bool.toNat_true, Bool.toNat_false]
    omega
  · intro j hj
    refine ⟨?_, handleCount_erase_ne hj⟩
    rw [hfree.2 j]
    simp [Activity.holds, Ne.symm hj]

variable {caller : SyncCaller}

/-- The write of a loop, which has a handler of its own. -/
theorem Inv.submitSweep (hb : s.buffers i = some b) (hvalid : b.valid = true)
    (hdirty : b.dirty = true) (hinflight : b.inflight = false)
    (hthread : s.threads t = .sweeping i.val caller) (hcaller : IsLoop caller) :
    ((s.setBuffer i fun b => { b with refcnt := b.refcnt + 1 }).submit t i .write
      (.writing i caller)).Inv last written := by
  have hnone := h.request_eq_none hb hinflight
  have hslot := h.coherent.slots i b hb
  refine h.slotStep (t := t) hb (setBuffer_twice hb _ _) rfl rfl rfl rfl rfl rfl id id
    (slotOk_submitWrite hslot hvalid hdirty (b.refcnt + 1)) (fun _ => .inl) ?_
    (.inr (.inl hnone)) ?_ ?_ ?_ ?_
  · refine ⟨_, update_self .., ?_⟩
    intro blkno hc
    rw [hc] at hcaller
    rcases hcaller with hcaller | hcaller
    · cases hcaller
    · cases hcaller
  · intro j op hpend
    obtain ⟨rfl, rfl⟩ := Prod.mk.inj (some.inj hpend)
    exact ⟨rfl, hnone, false, rfl⟩
  · rw [hthread]
    simp only [Activity.holds, beq_self_eq_true]
    rfl
  · intro j hj
    rw [hthread]
    exact ⟨by simp [Activity.holds, Ne.symm hj], rfl⟩
  · intro k hk j c hc hd _ hw
    have hk' : k = i.val := by
      rcases hcaller with rfl | rfl
      · exact (some.inj hk).symm
      · exact (some.inj hk).symm
    have hswept : (s.threads t).swept = some i.val := by
      rw [hthread]
      rfl
    rw [hk']
    exact h.sweeps t i.val hswept j c hc hd hw

theorem Inv.endRead
    (hthread : s.threads t = .reading i blkno) (hdone : s.requests i = some ⟨.read, true⟩) :
    (((s.setRequest i none).setBuffer i fun b =>
      { b with inflight := false, valid := true }).openHandler t i blkno).Inv last written := by
  have hfinds := h.pointers.finds t
  rw [hthread] at hfinds
  obtain ⟨b, hb, rfl⟩ := hfinds
  have hslot := h.coherent.slots i b hb
  have hhandlers : (((s.setRequest i none).setBuffer i fun b =>
      { b with inflight := false, valid := true }).openHandler t i b.blkno).handlers =
      (i, b.blkno) :: s.handlers := rfl
  refine h.slotStep (t := t) hb (setBuffer_twice (s := s.setRequest i none) hb _ _) rfl rfl rfl rfl
    rfl rfl (fun _ => rfl) id ?_ ?_ trivial (.inr (.inr ⟨.read, by rw [hthread]; rfl⟩)) nofun
    ?_ ?_ nofun
  · refine ⟨rfl, ?_, fun _ => rfl, hslot.clean, nofun, nofun⟩
    intro _
    exact (hslot.read true hdone).2 rfl
  · intro p hp
    exact (List.mem_cons.mp hp).symm.imp_right fun hp => ⟨hp, rfl⟩
  · rw [hthread, hhandlers, handleCount_cons_self]
    simp only [Activity.holds]
    omega
  · intro j hj
    rw [hthread]
    exact ⟨rfl, handleCount_cons_ne hj⟩

theorem Inv.endWrite
    (hthread : s.threads t = .writing i caller) (hdone : s.requests i = some ⟨.write, true⟩) :
    (((s.setRequest i none).setBuffer i fun b =>
      { b with inflight := false, dirty := false }).setThread t (.flushing i caller)).Inv last
        written := by
  have hfinds := h.pointers.finds t
  rw [hthread] at hfinds
  obtain ⟨b, hb, hcaller⟩ := hfinds
  have hslot := h.coherent.slots i b hb
  refine h.slotStep (t := t) hb (setBuffer_buffers (s := s.setRequest i none) hb _) rfl rfl rfl rfl
    rfl rfl id nofun ?_ (fun _ => .inl) ?_ (.inr (.inr ⟨.write, by rw [hthread]; rfl⟩)) nofun
    ?_ ?_ ?_
  · refine ⟨rfl, hslot.valid, nofun, ?_, nofun, nofun⟩
    intro _
    exact (hslot.write true hdone).2.2 rfl
  · exact ⟨_, update_self .., hcaller⟩
  · rw [hthread]
    rfl
  · intro j _
    rw [hthread]
    exact ⟨rfl, rfl⟩
  · intro k hk j c hc hd hji hw
    -- The loop goes behind the slot, whose buffer is clean now.
    have hswept : k = i.val + 1 ∧ (s.threads t).swept = some i.val := by
      rw [hthread]
      cases caller with
      | handler blkno => cases hk
      | syncAll => exact ⟨(some.inj hk).symm, rfl⟩
      | tidy => exact ⟨(some.inj hk).symm, rfl⟩
    have hne : j.val ≠ i.val := by
      intro hval
      cases hji (Fin.ext hval)
    have hle := h.sweeps t i.val hswept.2 j c hc hd hw
    omega

theorem Inv.endSync_handler (hthread : s.threads t = .flushing i (.handler blkno)) :
    (s.endSync t i (.handler blkno)).Inv last written := by
  have hfinds := h.pointers.finds t
  rw [hthread] at hfinds
  obtain ⟨b, hb, hcaller⟩ := hfinds
  obtain ⟨rfl, hvalid⟩ := hcaller blkno rfl
  have hbuffers : s.buffers = update s.buffers i (some b) := by
    rw [← hb, update_eq_self]
  have hhandlers : (s.endSync t i (.handler b.blkno)).handlers = (i, b.blkno) :: s.handlers := rfl
  refine h.slotStep (t := t) hb hbuffers (update_eq_self ..).symm rfl rfl rfl rfl rfl id id
    (h.coherent.slots i b hb) ?_ trivial (.inl rfl) nofun ?_ ?_ nofun
  · intro p hp
    exact (List.mem_cons.mp hp).symm.imp_right fun hp => ⟨hp, hvalid⟩
  · rw [hthread, hhandlers, handleCount_cons_self]
    simp only [Activity.holds, beq_self_eq_true, Bool.toNat_true, Bool.toNat_false]
    omega
  · intro j hj
    rw [hthread]
    exact ⟨by simp [Activity.holds, Ne.symm hj], handleCount_cons_ne hj⟩

/-- A loop drops its handler and goes on. -/
theorem Inv.endSync_loop (hthread : s.threads t = .flushing i caller) (hcaller : IsLoop caller) :
    (s.endSync t i caller).Inv last written := by
  have hfinds := h.pointers.finds t
  rw [hthread] at hfinds
  obtain ⟨b, hb, -⟩ := hfinds
  have hslot := h.coherent.slots i b hb
  have heq : s.endSync t i caller = (s.setBuffer i fun b =>
      { b with refcnt := b.refcnt - 1 }).setThread t (.sweeping (i.val + 1) caller) := by
    rcases hcaller with rfl | rfl
    · rfl
    · rfl
  have hswept : (s.threads t).swept = some (i.val + 1) := by
    rw [hthread]
    rcases hcaller with rfl | rfl
    · rfl
    · rfl
  -- The handler of the loop is one of those that are counted.
  have hpos : 0 < b.refcnt := by
    rw [h.pointers.refcnt i b hb]
    apply refs_pos (t := t)
    rw [hthread]
    exact beq_self_eq_true i
  rw [heq]
  refine h.slotStep (t := t) hb (setBuffer_buffers hb _) (update_eq_self ..).symm rfl rfl rfl rfl
    rfl id id ?_ (fun _ => .inl) hcaller (.inl rfl) nofun ?_ ?_ ?_
  · exact ⟨hslot.inflight, hslot.valid, hslot.dirty, hslot.clean, hslot.read, hslot.write⟩
  · rw [hthread]
    show b.refcnt - 1 + (i == i).toNat + handleCount s.handlers i = b.refcnt + 0 + _
    rw [beq_self_eq_true, Bool.toNat_true, Nat.sub_add_cancel hpos]
    rfl
  · intro j hj
    rw [hthread]
    exact ⟨by simp [Activity.holds, Ne.symm hj], rfl⟩
  · intro k hk j c hc hd _ hw
    cases hk
    exact h.sweeps t (i.val + 1) hswept j c hc hd hw

/-! ## Steps without a thread -/

/-- **The device serves a request.** -/
theorem Inv.serve (i : Fin N) : (s.serve i).Inv last written := by
  unfold BioState.serve
  split
  · rename_i b hrequest hb
    have hslot := h.coherent.slots i b hb
    rw [hrequest] at hslot
    obtain ⟨hinvalid, -⟩ := hslot.read false rfl
    have hclean : b.dirty = false := by
      cases hd : b.dirty with
      | false => rfl
      | true =>
        rw [hslot.dirty hd] at hinvalid
        cases hinvalid
    refine h.slotQuiet hb (setBuffer_buffers hb _) rfl rfl rfl (fun _ _ => rfl) (fun _ _ => rfl) rfl
      rfl id ?_ (fun _ => id) ?_ rfl (fun _ _ => rfl) (fun _ => subset_rfl) .inl
    · refine ⟨hslot.inflight, ?_, hslot.dirty, hslot.clean, ?_, nofun⟩
      · intro hv
        rw [hinvalid] at hv
        cases hv
      · intro d _
        exact ⟨hinvalid, fun _ => hslot.clean hclean⟩
    · intro op d hd
      rw [hrequest] at hd
      obtain ⟨rfl, -⟩ := Bio.BlockRequest.mk.inj (some.inj hd)
      exact ⟨true, rfl⟩
  · rename_i b hrequest hb
    have hslot := h.coherent.slots i b hb
    rw [hrequest] at hslot
    obtain ⟨hvalid, hdirty, -⟩ := hslot.write false rfl
    have hbuffers : s.buffers = update s.buffers i (some b) := by
      rw [← hb, update_eq_self]
    refine h.slotQuiet hb hbuffers rfl rfl rfl (fun k hk => update_of_ne hk ..) (fun _ _ => rfl)
      rfl rfl id ?_ (fun _ => id) ?_ rfl (fun _ _ => rfl) (fun _ => subset_rfl) .inl
    · refine ⟨hslot.inflight, hslot.valid, hslot.dirty, ?_, nofun, ?_⟩
      · intro hclean
        rw [hdirty] at hclean
        cases hclean
      · intro d _
        exact ⟨hvalid, hdirty, fun _ => (update_self ..).trans (hslot.valid hvalid)⟩
    · intro op d hd
      rw [hrequest] at hd
      obtain ⟨rfl, -⟩ := Bio.BlockRequest.mk.inj (some.inj hd)
      exact ⟨true, rfl⟩
  · exact h

omit h in
/-- A write at or behind the end of the block changes nothing. -/
theorem write_of_le {offset : ℕ} (hle : n ≤ offset) (bytes : List UInt8) (block : Block n) :
    block.write offset bytes = block := by
  funext k
  unfold Block.write
  rw [if_neg (by omega)]

/-- **A write through a handler** changes the last bytes of its block, unless a `sync` of the
block is about to mark it clean. -/
theorem Inv.write (offset : ℕ) (bytes : List UInt8) (hmem : (i, blkno) ∈ s.handlers)
    (hguard : s.requests i ≠ some ⟨.write, true⟩) : (s.write i offset bytes).Inv
      (update last blkno ((last blkno).write offset bytes))
      (fun t => insert blkno (written t)) := by
  obtain ⟨b, hb, rfl, hvalid⟩ := h.pointers.handles i blkno hmem
  have hslot := h.coherent.slots i b hb
  unfold BioState.write
  by_cases hoff : n ≤ offset
  · rw [if_pos hoff, write_of_le hoff, update_eq_self]
    refine ⟨h.coherent, h.pointers, ?_⟩
    intro t k hk j c hc hd hw
    exact h.sweeps t k hk j c hc hd fun hin => hw (Set.mem_insert_of_mem _ hin)
  rw [if_neg hoff]
  refine h.slotQuiet hb (setBuffer_buffers hb _) (update_eq_self ..).symm rfl rfl (fun _ _ => rfl)
    (fun k hk => update_of_ne hk ..) rfl rfl id ?_ (fun _ => id) (fun _ d hd => ⟨d, hd⟩) rfl
    (fun _ _ => rfl) (fun _ => Set.subset_insert ..) fun _ => .inr fun _ => Set.mem_insert ..
  refine ⟨hslot.inflight, ?_, fun _ => hvalid, nofun, ?_, ?_⟩
  · intro _
    rw [update_self, hslot.valid hvalid]
  · intro d hd
    have hinvalid := (hslot.read d hd).1
    rw [hvalid] at hinvalid
    cases hinvalid
  · intro d hd
    refine ⟨hvalid, rfl, ?_⟩
    rintro rfl
    exact absurd hd hguard

theorem Inv.release (hmem : (i, blkno) ∈ s.handlers) : (s.release i blkno).Inv last written := by
  obtain ⟨b, hb, rfl, hvalid⟩ := h.pointers.handles i blkno hmem
  have hslot := h.coherent.slots i b hb
  have hpos : 0 < b.refcnt := by
    rw [h.pointers.refcnt i b hb]
    exact refs_pos_of_mem hmem
  have hhandlers : (s.release i b.blkno).handlers = s.handlers.erase (i, b.blkno) := rfl
  refine h.slotQuiet hb (setBuffer_buffers hb _) (update_eq_self ..).symm rfl rfl (fun _ _ => rfl)
    (fun _ _ => rfl) rfl rfl id ?_ (fun _ => List.mem_of_mem_erase) (fun _ d hd => ⟨d, hd⟩) ?_
    (fun j hj => handleCount_erase_ne hj) (fun _ => subset_rfl) .inl
  · exact ⟨hslot.inflight, hslot.valid, hslot.dirty, hslot.clean, hslot.read, hslot.write⟩
  · have herase := handleCount_erase_self hmem
    rw [hhandlers]
    dsimp only
    omega

omit h

/-! ## Evictions and new buffers -/

/-- The buffer of the slot may go: it is clean, and no thread waits for it. -/
def MayDrop (s : BioState N n T) (i : Fin N) : Prop :=
  ∀ b, s.buffers i = some b → b.dirty = false ∧
    ∀ t blkno, s.threads t ≠ .waiting i blkno b.waitWd

/-- **An eviction** of a buffer that may go. -/
theorem Inv.drop (h : s.Inv last written)
    (hb : s.buffers i = some b) (hidle : b.idle = true) (hmay : s.MayDrop i) :
    (s.drop i b).Inv last written := by
  obtain ⟨hclean, hwaiting⟩ := hmay b hb
  have hrefs : s.refs i = 0 := by
    rw [← h.pointers.refcnt i b hb]
    simp only [Buffer.idle, Bool.and_eq_true, beq_iff_eq] at hidle
    exact hidle.1
  have hnone : s.requests i = none := by
    simp only [Buffer.idle, Bool.and_eq_true, Bool.not_eq_true'] at hidle
    exact h.request_eq_none hb hidle.2
  -- Nobody refers to the slot.
  have hother : ∀ {j : Fin N} {c : Buffer n}, s.buffers j = some c → j ≠ i →
      (s.drop i b).buffers j = some c := by
    intro j c hc hj
    exact (update_of_ne hj ..).trans hc
  have hfinds : ∀ t, (s.threads t).Finds (s.drop i b).buffers := by
    intro t
    have hold := h.pointers.finds t
    have hholds : (s.threads t).holds i ≠ true := fun hh => by
      have hpos := refs_pos hh
      omega
    have howned := h.pointers.owned t
    cases hthread : s.threads t with
    | returned r => trivial
    | sweeping k caller =>
      rwa [hthread] at hold
    | clearing k => trivial
    | reading j blkno =>
      rw [hthread] at hold howned
      obtain ⟨c, hc, hblk⟩ := hold
      refine ⟨c, hother hc ?_, hblk⟩
      rintro rfl
      obtain ⟨d, hd⟩ := howned j .read rfl
      rw [hnone] at hd
      cases hd
    | waiting j blkno waitWd =>
      rw [hthread] at hold
      obtain ⟨c, hc, hblk, hwd⟩ := hold
      refine ⟨c, hother hc ?_, hblk, hwd⟩
      rintro rfl
      cases hb.symm.trans hc
      rw [← hwd] at hthread
      exact hwaiting t blkno hthread
    | writing j caller =>
      rw [hthread] at hold hholds
      obtain ⟨c, hc, hcaller⟩ := hold
      refine ⟨c, hother hc ?_, hcaller⟩
      rintro rfl
      exact hholds (beq_self_eq_true j)
    | flushing j caller =>
      rw [hthread] at hold hholds
      obtain ⟨c, hc, hcaller⟩ := hold
      refine ⟨c, hother hc ?_, hcaller⟩
      rintro rfl
      exact hholds (beq_self_eq_true j)
  refine ⟨h.coherent.drop hb hidle hclean, ?_, ?_⟩
  · refine ⟨?_, hfinds, h.pointers.owned, h.pointers.owner, ?_⟩
    · intro j blkno hmem
      obtain ⟨c, hc, hblk, hvalid⟩ := h.pointers.handles j blkno hmem
      refine ⟨c, hother hc ?_, hblk, hvalid⟩
      rintro rfl
      have hpos : 0 < s.refs j := refs_pos_of_mem hmem
      omega
    · intro j c hc
      obtain ⟨-, ⟨⟩⟩ | ⟨-, hc⟩ := update_eq_cases hc
      exact h.pointers.refcnt j c hc
  · refine h.sweeps.quiet rfl ?_
    intro j c hc hd
    obtain ⟨-, ⟨⟩⟩ | ⟨-, hc⟩ := update_eq_cases hc
    exact ⟨c, hc, hd, rfl⟩

theorem Pointers.refs_empty (h : s.Pointers) (hi : s.buffers i = none) : s.refs i = 0 := by
  have hhandlers : s.handlers.countP (fun h => h.1 == i) = 0 := by
    rw [List.countP_eq_zero]
    rintro ⟨j, blkno⟩ hmem hj
    obtain rfl := eq_of_beq hj
    obtain ⟨b, hb, -⟩ := h.handles j blkno hmem
    rw [hi] at hb
    cases hb
  have hthreads : ∑ t, ((s.threads t).holds i).toNat = 0 := by
    apply sum_eq_zero
    intro t _
    cases hholds : (s.threads t).holds i with
    | false => rfl
    | true =>
      obtain ⟨b, hb⟩ := (h.finds t).of_holds hholds
      rw [hi] at hb
      cases hb
  unfold refs
  rw [hhandlers, hthreads]

/-- **A new buffer** in an empty slot. -/
theorem Inv.newBuffer (h : s.Inv last written)
    (hi : s.buffers i = none) (hblk : s.mapping blkno = none) :
    (s.newBuffer i blkno).Inv last written := by
  have hold : ∀ {j : Fin N} {c : Buffer n}, s.buffers j = some c →
      (s.newBuffer i blkno).buffers j = some c := by
    intro j c hc
    have hj : j ≠ i := by
      rintro rfl
      rw [hi] at hc
      cases hc
    exact (update_of_ne hj ..).trans hc
  refine ⟨h.coherent.newBuffer hi hblk, ?_, ?_⟩
  · refine h.pointers.quiet rfl ?_ (fun _ => id) (fun j op d hd => ⟨d, hd⟩) ?_
    · intro j c hc
      exact ⟨c, hold hc, rfl, rfl, id⟩
    · intro j c hc
      rcases update_eq_cases hc with ⟨rfl, ⟨⟩⟩ | ⟨-, hc⟩
      · exact (h.pointers.refs_empty hi).symm
      · exact h.pointers.refcnt j c hc
  · refine h.sweeps.quiet rfl ?_
    intro j c hc hd
    rcases update_eq_cases hc with ⟨rfl, ⟨⟩⟩ | ⟨-, hc⟩
    · cases hd
    · exact ⟨c, hc, hd, rfl⟩

/-! ## The calls -/

/-- The rest of `get_buffer_async`, once the block has the buffer `i`. -/
def getEnsured (t : Fin T) (blkno : ℕ) (s : BioState N n T) (i : Fin N) : BioState N n T :=
  match s.buffers i with
  | none => s.setThread t (.returned (.failed .unknownError))
  | some b =>
    if b.inflight then s.setThread t (.waiting i blkno b.waitWd)
    else s.openBuffer t i blkno b

/-- **`get_buffer_async`**, if what it evicts may go. -/
theorem Inv.getBuffer (h : s.Inv last written) (blkno : ℕ) (hfree : Free (s.threads t))
    (hguard : s.mapping blkno = none → ∀ i, s.victim = some i → s.MayDrop i) :
    (s.getBuffer t blkno).Inv last written := by
  have hreturn : ∀ {s : BioState N n T} (e : ErrCode), s.Inv last written → Free (s.threads t) →
      (s.setThread t (.returned (.failed e))).Inv last written := by
    intro s e h hfree
    exact h.setThread t trivial rfl (fun i => (hfree.2 i).symm) nofun
  have hopen : ∀ {s : BioState N n T} {i : Fin N}, s.Inv last written → Free (s.threads t) →
      s.mapping blkno = some i → (s.getEnsured t blkno i).Inv last written := by
    intro s i h hfree hmap
    obtain ⟨b, hb, rfl⟩ := (h.coherent.mapped blkno i).mp hmap
    unfold getEnsured
    rw [hb]
    dsimp only
    cases hinflight : b.inflight with
    | true =>
      exact h.setThread t ⟨b, hb, rfl, rfl⟩ rfl (fun i => (hfree.2 i).symm) nofun
    | false => exact h.openBuffer hb hinflight hfree
  unfold BioState.getBuffer ensureBuffer
  cases hmap : s.mapping blkno with
  | some i => exact hopen h hfree hmap
  | none =>
    have hnew : ∀ {s : BioState N n T} {i : Fin N}, s.Inv last written → Free (s.threads t) →
        s.buffers i = none → s.mapping blkno = none →
        ((s.newBuffer i blkno).getEnsured t blkno i).Inv last written := by
      intro s i h hfree hi hnone
      exact hopen (h.newBuffer hi hnone) hfree (update_self ..)
    rcases h.coherent.findFree_cases with ⟨e, heq⟩ | ⟨i, heq, hi⟩ | ⟨i, b, hv, hb, hidle, heq⟩
    · rw [heq]
      exact hreturn e h hfree
    · rw [heq]
      exact hnew h hfree hi hmap
    · rw [heq]
      refine hnew (h.drop hb hidle (hguard hmap i hv)) hfree (update_self ..) ?_
      show update s.mapping b.blkno none blkno = none
      by_cases hblk : blkno = b.blkno
      · rw [hblk, update_self]
      · rw [update_of_ne hblk, hmap]

/-- **`sync`** of a handler. -/
theorem Inv.sync (h : s.Inv last written)
    (hfree : Free (s.threads t)) (hmem : (i, blkno) ∈ s.handlers) :
    (s.sync t i blkno).Inv last written := by
  obtain ⟨b, hb, rfl, hvalid⟩ := h.pointers.handles i blkno hmem
  have hholds : ∀ j, false = (s.threads t).holds j := fun j => (hfree.2 j).symm
  unfold BioState.sync
  rw [hb]
  dsimp only
  cases hdirty : b.dirty with
  | false =>
    rw [if_pos (by simp)]
    exact h.setThread t trivial rfl hholds nofun
  | true =>
    rw [if_neg (by simp [hvalid])]
    cases hinflight : b.inflight with
    | true =>
      exact h.setThread t trivial rfl hholds nofun
    | false =>
      exact h.submitSync hb hvalid hdirty hinflight hfree hmem

/-- **One round of `sync_all`.** -/
theorem Inv.sweep (h : s.Inv last written)
    (hthread : s.threads t = .sweeping k caller) (hcaller : IsLoop caller) :
    (s.sweep t k caller).Inv last written := by
  have hholds : ∀ i, false = (s.threads t).holds i := by
    intro i
    rw [hthread]
    rfl
  have hswept : ∀ j c, s.buffers j = some c → c.dirty = true → c.blkno ∉ written t → k ≤ j.val :=
    h.sweeps t k (by rw [hthread]; rfl)
  unfold BioState.sweep
  by_cases hk : k < N
  · rw [dif_pos hk]
    -- The slot holds no dirty buffer, so the loop goes on.
    have hskip : (∀ b, s.buffers ⟨k, hk⟩ = some b → b.dirty = false) →
        (s.setThread t (.sweeping (k + 1) caller)).Inv last written := by
      intro hclean
      refine h.setThread t hcaller rfl hholds ?_
      intro k' hk' j c hc hd hw
      cases hk'
      have hle := hswept j c hc hd hw
      have hne : j.val ≠ k := by
        rintro rfl
        rw [hclean c hc] at hd
        cases hd
      omega
    cases hb : s.buffers ⟨k, hk⟩ with
    | none =>
      apply hskip
      intro b hb'
      rw [hb] at hb'
      cases hb'
    | some b =>
      dsimp only
      have hslot := h.coherent.slots ⟨k, hk⟩ b hb
      cases hdirty : b.dirty with
      | false =>
        rw [if_pos (by simp)]
        apply hskip
        intro b' hb'
        cases hb.symm.trans hb'
        exact hdirty
      | true =>
        have hvalid := hslot.dirty hdirty
        rw [if_neg (by simp [hvalid])]
        cases hinflight : b.inflight with
        | true =>
          exact h.setThread t trivial rfl hholds nofun
        | false =>
          exact h.submitSweep hb hvalid hdirty hinflight hthread hcaller
  · rw [dif_neg hk]
    have hend : ∀ k', k' = N → ∀ j c, s.buffers j = some c → c.dirty = true →
        c.blkno ∉ written t → k' ≤ j.val := by
      intro k' hk' j c hc hd hw
      have hle := hswept j c hc hd hw
      omega
    rcases hcaller with rfl | rfl
    · refine h.setThread t trivial rfl hholds ?_
      intro k' hk'
      exact hend k' (some.inj hk').symm
    · refine h.setThread t trivial rfl hholds ?_
      intro k' hk'
      exact hend k' (some.inj hk').symm

/-- **One round of the second loop of `tidy`**, if what it clears may go. -/
theorem Inv.clearRound (h : s.Inv last written) (hthread : s.threads t = .clearing k)
    (hguard : ∀ hk : k < N, (s.buffers ⟨k, hk⟩).any Buffer.idle = true → s.MayDrop ⟨k, hk⟩) :
    (s.clearRound t k).Inv last written := by
  have hmove : ∀ {s : BioState N n T} {a : Activity N}, s.Inv last written →
      s.threads t = .clearing k → a.Finds s.buffers → a.pending = none →
      (∀ i, a.holds i = false) → a.swept = some N → (s.setThread t a).Inv last written := by
    intro s a h hthread hfinds hpending hholds hswept
    refine h.setThread t hfinds hpending ?_ ?_
    · intro i
      rw [hthread, hholds i]
      rfl
    · intro k' hk' j c hc hd hw
      have hle := h.sweeps t N (by rw [hthread]; rfl) j c hc hd hw
      rw [hswept] at hk'
      cases hk'
      exact hle
  unfold BioState.clearRound
  by_cases hk : k < N
  · rw [dif_pos hk]
    cases hidle : (s.buffers ⟨k, hk⟩).any Buffer.idle with
    | false =>
      exact hmove h hthread trivial rfl (fun _ => rfl) rfl
    | true =>
      have hmay := hguard hk hidle
      cases hb : s.buffers ⟨k, hk⟩ with
      | none =>
        rw [hb] at hidle
        cases hidle
      | some b =>
        rw [hb] at hidle
        rw [h.coherent.clearSlot hb hidle]
        exact hmove (h.drop hb hidle hmay) hthread trivial rfl (fun _ => rfl) rfl
  · rw [dif_neg hk]
    exact hmove h hthread trivial rfl (fun _ => rfl) rfl

/-- **A thread goes on.**  The buffer that it waits for is still there. -/
theorem Inv.resume (h : s.Inv last written) (t : Fin T)
    (hguard : ∀ k (hk : k < N), s.threads t = .clearing k →
      (s.buffers ⟨k, hk⟩).any Buffer.idle = true → s.MayDrop ⟨k, hk⟩) :
    ∃ s', s.resume t = .ok s' ∧ s'.Inv last written := by
  have hfinds := h.pointers.finds t
  unfold BioState.resume
  cases hthread : s.threads t with
  | returned r => exact ⟨s, rfl, h⟩
  | reading i blkno =>
    dsimp only
    by_cases hdone : s.requests i = some ⟨.read, true⟩
    · rw [if_pos hdone]
      exact ⟨_, rfl, h.endRead hthread hdone⟩
    · rw [if_neg hdone]
      exact ⟨s, rfl, h⟩
  | waiting i blkno waitWd =>
    rw [hthread] at hfinds
    obtain ⟨b, hb, rfl, rfl⟩ := hfinds
    have hfree : Free (s.threads t) := by
      rw [hthread]
      exact ⟨rfl, fun _ => rfl⟩
    simp only [hb, ne_eq]
    cases hinflight : b.inflight with
    | true =>
      exact ⟨s, rfl, h⟩
    | false => exact ⟨_, rfl, h.openBuffer hb hinflight hfree⟩
  | writing i caller =>
    dsimp only
    by_cases hdone : s.requests i = some ⟨.write, true⟩
    · rw [if_pos hdone]
      exact ⟨_, rfl, h.endWrite hthread hdone⟩
    · rw [if_neg hdone]
      exact ⟨s, rfl, h⟩
  | flushing i caller =>
    refine ⟨_, rfl, ?_⟩
    cases caller with
    | handler blkno => exact h.endSync_handler hthread
    | syncAll => exact h.endSync_loop hthread (.inl rfl)
    | tidy => exact h.endSync_loop hthread (.inr rfl)
  | sweeping k caller =>
    rw [hthread] at hfinds
    exact ⟨_, rfl, h.sweep hthread hfinds⟩
  | clearing k => exact ⟨_, rfl, h.clearRound hthread fun hk => hguard k hk hthread⟩

theorem Inv.startLoop (h : s.Inv last written) (t : Fin T)
    (hfree : Free (s.threads t)) (hcaller : IsLoop caller) :
    (s.setThread t (.sweeping 0 caller)).Inv last (update written t ∅) := by
  refine ⟨h.coherent.of_eq rfl rfl rfl rfl,
    h.pointers.setThread t hcaller rfl fun i => (hfree.2 i).symm, ?_⟩
  intro u k hk j c hc hd hw
  have hk' : (update s.threads t (.sweeping 0 caller) u).swept = some k := hk
  by_cases hu : u = t
  · rw [hu, update_self] at hk'
    cases hk'
    exact Nat.zero_le _
  · rw [update_of_ne hu] at hk' hw
    exact h.sweeps u k hk' j c hc hd hw

end BioState

end Sustcore
