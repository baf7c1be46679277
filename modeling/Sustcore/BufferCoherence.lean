/-
# What a buffer cache keeps

The bytes that were last written to each block are `last`.  A cache is coherent with them when

* the map finds a block in the slot that holds it;
* a buffer that was read holds the last bytes of its block;
* a block that has no buffer, or whose buffer is clean, has its last bytes on the device;
* a request that was carried out has moved the last bytes.

Besides this, the reference counts are the numbers of handlers (`Pointers`), so a buffer that
somebody can still reach is never evicted, except by a thread that waits for the request of
another one: it has no handler.
-/
import Sustcore.BufferCache

namespace Sustcore

open Function Option Bool

namespace Bio

variable {N n T : ℕ}

/-! ## Threads and the slots they refer to -/

/-- The thread holds a handler for the slot. -/
def Activity.holds (i : Fin N) : Activity N → Bool
  | .writing j _ => j == i
  | .flushing j _ => j == i
  | _ => false

/-- The request that the thread waits for. -/
def Activity.pending : Activity N → Option (Fin N × BlockOp)
  | .reading i _ => some (i, .read)
  | .writing i _ => some (i, .write)
  | _ => none

/-- The slots below have been written back by the loop of the thread. -/
def Activity.swept : Activity N → Option ℕ
  | .sweeping k _ => some k
  | .writing i .syncAll => some i
  | .writing i .tidy => some i
  | .flushing i .syncAll => some (i + 1)
  | .flushing i .tidy => some (i + 1)
  | .clearing _ => some N
  | .returned .syncedAll => some N
  | .returned .tidied => some N
  | _ => none

def IsLoop (caller : SyncCaller) : Prop := caller = .syncAll ∨ caller = .tidy

/-- The thread finds the buffer that it points to. -/
def Activity.Finds (buffers : Fin N → Option (Buffer n)) : Activity N → Prop
  | .reading i blkno => ∃ b, buffers i = some b ∧ b.blkno = blkno
  | .waiting i blkno waitWd => ∃ b, buffers i = some b ∧ b.blkno = blkno ∧ b.waitWd = waitWd
  | .writing i caller => ∃ b, buffers i = some b ∧
      ∀ blkno, caller = .handler blkno → b.blkno = blkno ∧ b.valid = true
  | .flushing i caller => ∃ b, buffers i = some b ∧
      ∀ blkno, caller = .handler blkno → b.blkno = blkno ∧ b.valid = true
  | .sweeping _ caller => IsLoop caller
  | _ => True

/-- A thread with a handler finds a buffer in the slot. -/
theorem Activity.Finds.of_holds {buffers : Fin N → Option (Buffer n)} {a : Activity N} {i : Fin N}
    (h : a.Finds buffers) (hholds : a.holds i = true) : ∃ b, buffers i = some b := by
  cases a with
  | writing j caller =>
    obtain ⟨b, hb, -⟩ := h
    exact ⟨b, eq_of_beq hholds ▸ hb⟩
  | flushing j caller =>
    obtain ⟨b, hb, -⟩ := h
    exact ⟨b, eq_of_beq hholds ▸ hb⟩
  | _ => cases hholds

/-- The buffers of `buffers` are still there, with the same block. -/
def Persist (buffers buffers' : Fin N → Option (Buffer n)) : Prop :=
  ∀ i b, buffers i = some b → ∃ b', buffers' i = some b' ∧ b'.blkno = b.blkno ∧
    b'.waitWd = b.waitWd ∧ (b.valid = true → b'.valid = true)

theorem Activity.Finds.persist {buffers buffers' : Fin N → Option (Buffer n)} {a : Activity N}
    (h : a.Finds buffers) (hpersist : Persist buffers buffers') : a.Finds buffers' := by
  cases a with
  | reading i blkno =>
    obtain ⟨b, hb, hblk⟩ := h
    obtain ⟨b', hb', hblk', -, -⟩ := hpersist i b hb
    exact ⟨b', hb', hblk'.trans hblk⟩
  | waiting i blkno waitWd =>
    obtain ⟨b, hb, hblk, hwd⟩ := h
    obtain ⟨b', hb', hblk', hwd', -⟩ := hpersist i b hb
    exact ⟨b', hb', hblk'.trans hblk, hwd'.trans hwd⟩
  | writing i caller =>
    obtain ⟨b, hb, hcaller⟩ := h
    obtain ⟨b', hb', hblk', -, hvalid⟩ := hpersist i b hb
    refine ⟨b', hb', fun blkno hc => ?_⟩
    exact ⟨hblk'.trans (hcaller blkno hc).1, hvalid (hcaller blkno hc).2⟩
  | flushing i caller =>
    obtain ⟨b, hb, hcaller⟩ := h
    obtain ⟨b', hb', hblk', -, hvalid⟩ := hpersist i b hb
    refine ⟨b', hb', fun blkno hc => ?_⟩
    exact ⟨hblk'.trans (hcaller blkno hc).1, hvalid (hcaller blkno hc).2⟩
  | returned r => trivial
  | sweeping k caller => exact h
  | clearing k => trivial

theorem persist_update {buffers : Fin N → Option (Buffer n)} {i : Fin N} {b b' : Buffer n}
    (hb : buffers i = some b) (hblk : b'.blkno = b.blkno) (hwd : b'.waitWd = b.waitWd)
    (hvalid : b.valid = true → b'.valid = true) : Persist buffers (update buffers i (some b')) := by
  intro j c hc
  by_cases hj : j = i
  · subst hj
    cases hb.symm.trans hc
    exact ⟨b', update_self .., hblk, hwd, hvalid⟩
  · exact ⟨c, by rw [update_of_ne hj, hc], rfl, rfl, id⟩

theorem persist_refl (buffers : Fin N → Option (Buffer n)) : Persist buffers buffers :=
  fun _ b hb => ⟨b, hb, rfl, rfl, id⟩

/-! ## Coherence -/

structure SlotOk (device last : ℕ → Block n) (b : Buffer n) (r : Option BlockRequest) : Prop where
  inflight : b.inflight = r.isSome
  valid : b.valid = true → b.data = last b.blkno
  dirty : b.dirty = true → b.valid = true
  clean : b.dirty = false → device b.blkno = last b.blkno
  read : ∀ d, r = some ⟨.read, d⟩ →
    b.valid = false ∧ (d = true → b.data = last b.blkno)
  write : ∀ d, r = some ⟨.write, d⟩ →
    b.valid = true ∧ b.dirty = true ∧ (d = true → device b.blkno = last b.blkno)

theorem SlotOk.congr {device last device' last' : ℕ → Block n} {b : Buffer n}
    {r : Option BlockRequest} (h : SlotOk device last b r)
    (hdevice : device' b.blkno = device b.blkno) (hlast : last' b.blkno = last b.blkno) :
    SlotOk device' last' b r := by
  constructor
  · exact h.inflight
  · rw [hlast]
    exact h.valid
  · exact h.dirty
  · rw [hdevice, hlast]
    exact h.clean
  · rw [hlast]
    exact h.read
  · rw [hdevice, hlast]
    exact h.write

end Bio

namespace BioState

open Bio

variable {N n T : ℕ} {s : BioState N n T} {last : ℕ → Block n}

/-- The cache and the device hold the last bytes of every block. -/
structure Coherent (s : BioState N n T) (last : ℕ → Block n) : Prop where
  mapped : ∀ blkno i, s.mapping blkno = some i ↔ ∃ b, s.buffers i = some b ∧ b.blkno = blkno
  slots : ∀ i b, s.buffers i = some b → SlotOk s.device last b (s.requests i)
  empty : ∀ i, s.buffers i = none → s.requests i = none
  uncached : ∀ blkno, s.mapping blkno = none → s.device blkno = last blkno

/-- Two slots never hold one block. -/
theorem Coherent.slot_unique (h : s.Coherent last) {i j : Fin N} {b c : Buffer n}
    (hb : s.buffers i = some b) (hc : s.buffers j = some c) (hblk : b.blkno = c.blkno) : i = j := by
  have hi := (h.mapped b.blkno i).mpr ⟨b, hb, rfl⟩
  have hj := (h.mapped b.blkno j).mpr ⟨c, hc, hblk.symm⟩
  exact some.inj (hi.symm.trans hj)

theorem Coherent.device_eq (h : s.Coherent last) {blkno : ℕ}
    (hclean : ∀ i b, s.buffers i = some b → b.dirty = true → b.blkno ≠ blkno) :
    s.device blkno = last blkno := by
  cases hmap : s.mapping blkno with
  | none => exact h.uncached blkno hmap
  | some i =>
    obtain ⟨b, hb, rfl⟩ := (h.mapped blkno i).mp hmap
    apply (h.slots i b hb).clean
    cases hdirty : b.dirty with
    | false => rfl
    | true => exact absurd rfl (hclean i b hb hdirty)

variable {i : Fin N}

/-- **A change of one slot.**  The other slots hold other blocks, so they see nothing of it. -/
theorem Coherent.setSlot (h : s.Coherent last) {b b' : Buffer n}
    {r' : Option Bio.BlockRequest} {device' last' : ℕ → Block n} {s' : BioState N n T}
    (hb : s.buffers i = some b) (hbuffers : s'.buffers = update s.buffers i (some b'))
    (hblk : b'.blkno = b.blkno) (hmapping : s'.mapping = s.mapping)
    (hrequests : s'.requests = update s.requests i r') (hdevice : s'.device = device')
    (hdevice' : ∀ blkno, blkno ≠ b.blkno → device' blkno = s.device blkno)
    (hlast' : ∀ blkno, blkno ≠ b.blkno → last' blkno = last blkno)
    (hslot : SlotOk device' last' b' r') : s'.Coherent last' := by
  constructor
  · intro blkno j
    rw [hmapping, h.mapped, hbuffers]
    by_cases hj : j = i
    · subst hj
      rw [update_self]
      constructor
      · rintro ⟨c, hc, rfl⟩
        cases hb.symm.trans hc
        exact ⟨b', rfl, hblk⟩
      · rintro ⟨c, hc, rfl⟩
        cases hc
        exact ⟨b, hb, hblk.symm⟩
    · rw [update_of_ne hj]
  · intro j c hc
    rw [hbuffers] at hc
    rw [hdevice, hrequests]
    rcases update_eq_cases hc with ⟨rfl, ⟨⟩⟩ | ⟨hj, hc⟩
    · rwa [update_self]
    rw [update_of_ne hj]
    have hne : c.blkno ≠ b.blkno := by
      intro heq
      exact hj (h.slot_unique hc hb heq)
    exact (h.slots j c hc).congr (hdevice' _ hne) (hlast' _ hne)
  · intro j hj
    rw [hbuffers] at hj
    obtain ⟨-, ⟨⟩⟩ | ⟨hji, hj⟩ := update_eq_cases hj
    rw [hrequests, update_of_ne hji]
    exact h.empty j hj
  · intro blkno hnone
    rw [hmapping] at hnone
    have hne : blkno ≠ b.blkno := by
      rintro rfl
      rw [(h.mapped b.blkno i).mpr ⟨b, hb, rfl⟩] at hnone
      cases hnone
    rw [hdevice, hdevice' _ hne, hlast' _ hne]
    exact h.uncached blkno hnone

/-- A change that the cache does not see. -/
theorem Coherent.of_eq (h : s.Coherent last) {s' : BioState N n T}
    (hbuffers : s'.buffers = s.buffers) (hmapping : s'.mapping = s.mapping)
    (hrequests : s'.requests = s.requests) (hdevice : s'.device = s.device) : s'.Coherent last := by
  constructor
  · rw [hbuffers, hmapping]
    exact h.mapped
  · rw [hbuffers, hrequests, hdevice]
    exact h.slots
  · rw [hbuffers, hrequests]
    exact h.empty
  · rw [hmapping, hdevice]
    exact h.uncached

/-! ## Eviction -/

def drop (i : Fin N) (b : Buffer n) (s : BioState N n T) : BioState N n T :=
  { s with
    mapping := update s.mapping b.blkno none
    buffers := update s.buffers i none }

theorem Coherent.clearSlot (h : s.Coherent last) {b : Buffer n}
    (hb : s.buffers i = some b) (hidle : b.idle = true) : s.clearSlot i = (.ok (), s.drop i b) := by
  have hmap : s.mapping b.blkno = some i := (h.mapped b.blkno i).mpr ⟨b, hb, rfl⟩
  unfold BioState.clearSlot BioState.drop
  rw [hb]
  simp only [hidle, hmap, if_true]

/-- **An eviction** keeps the cache coherent when the buffer is clean. -/
theorem Coherent.drop (h : s.Coherent last) {b : Buffer n}
    (hb : s.buffers i = some b) (hidle : b.idle = true) (hclean : b.dirty = false) :
    (s.drop i b).Coherent last := by
  have hslot := h.slots i b hb
  have hrequest : s.requests i = none := by
    have hinflight := hslot.inflight
    simp only [Buffer.idle, and_eq_true, not_eq_true'] at hidle
    rw [hidle.2] at hinflight
    simpa using hinflight.symm
  constructor
  · intro blkno j
    show update s.mapping b.blkno none blkno = some j ↔
      ∃ c, update s.buffers i none j = some c ∧ c.blkno = blkno
    by_cases hj : j = i
    · subst hj
      rw [update_self]
      constructor
      · intro hmap
        obtain ⟨-, ⟨⟩⟩ | ⟨hblk, hmap⟩ := update_eq_cases hmap
        obtain ⟨c, hc, rfl⟩ := (h.mapped blkno j).mp hmap
        cases hb.symm.trans hc
        exact absurd rfl hblk
      · rintro ⟨c, hc, -⟩
        cases hc
    · rw [update_of_ne hj]
      by_cases hblk : blkno = b.blkno
      · subst hblk
        rw [update_self]
        constructor
        · nofun
        · rintro ⟨c, hc, heq⟩
          exact absurd (h.slot_unique hc hb heq) hj
      · rw [update_of_ne hblk]
        exact h.mapped blkno j
  · intro j c hc
    obtain ⟨-, ⟨⟩⟩ | ⟨-, hc⟩ := update_eq_cases hc
    exact h.slots j c hc
  · intro j hj
    rcases update_eq_cases hj with ⟨rfl, -⟩ | ⟨-, hj⟩
    · exact hrequest
    · exact h.empty j hj
  · intro blkno hnone
    rcases update_eq_cases hnone with ⟨rfl, -⟩ | ⟨-, hnone⟩
    · exact hslot.clean hclean
    · exact h.uncached blkno hnone

/-- **A new buffer** for a block that has none. -/
theorem Coherent.newBuffer (h : s.Coherent last) {blkno : ℕ}
    (hi : s.buffers i = none) (hblk : s.mapping blkno = none) :
    (s.newBuffer i blkno).Coherent last := by
  constructor
  · intro k j
    show update s.mapping blkno (some i) k = some j ↔
      ∃ c, update s.buffers i (some _) j = some c ∧ c.blkno = k
    by_cases hj : j = i
    · subst hj
      rw [update_self]
      constructor
      · intro hmap
        rcases update_eq_cases hmap with ⟨hk, -⟩ | ⟨-, hmap⟩
        · exact ⟨_, rfl, hk.symm⟩
        · obtain ⟨c, hc, -⟩ := (h.mapped k j).mp hmap
          rw [hi] at hc
          cases hc
      · rintro ⟨c, hc, rfl⟩
        cases hc
        exact update_self ..
    · rw [update_of_ne hj]
      by_cases hk : k = blkno
      · subst hk
        rw [update_self]
        constructor
        · intro hij
          exact absurd (some.inj hij).symm hj
        · intro hc
          rw [(h.mapped k j).mpr hc] at hblk
          cases hblk
      · rw [update_of_ne hk]
        exact h.mapped k j
  · intro j c hc
    rcases update_eq_cases hc with ⟨rfl, ⟨⟩⟩ | ⟨-, hc⟩
    · show SlotOk s.device last _ (s.requests j)
      rw [h.empty j hi]
      exact ⟨rfl, nofun, nofun, fun _ => h.uncached blkno hblk, nofun, nofun⟩
    · exact h.slots j c hc
  · intro j hj
    obtain ⟨-, ⟨⟩⟩ | ⟨-, hj⟩ := update_eq_cases hj
    exact h.empty j hj
  · intro k hnone
    obtain ⟨-, ⟨⟩⟩ | ⟨-, hnone⟩ := update_eq_cases hnone
    exact h.uncached k hnone

theorem victim_eq_some (h : s.victim = some i) :
    s.emptySlot = none ∧ ∃ b, s.buffers i = some b ∧ b.idle = true := by
  unfold victim at h
  cases hempty : s.emptySlot with
  | some j =>
    rw [hempty] at h
    cases h
  | none =>
    rw [hempty] at h
    refine ⟨rfl, ?_⟩
    rcases or_eq_some_iff.mp h with hclean | ⟨-, hdirty⟩
    · obtain ⟨b, hb, hfound⟩ := (any_eq_true _ _).mp (Fin.find?_eq_some_iff.mp hclean).1
      exact ⟨b, hb, (and_eq_true_iff.mp hfound).1⟩
    · exact (any_eq_true _ _).mp (Fin.find?_eq_some_iff.mp hdirty).1

/-- **`find_free`** returns an empty slot, after an eviction if there was none. -/
theorem Coherent.findFree_cases (h : s.Coherent last) : (∃ e, s.findFree = (.error e, s)) ∨
    (∃ i, s.findFree = (.ok i, s) ∧ s.buffers i = none) ∨
    ∃ i b, s.victim = some i ∧ s.buffers i = some b ∧ b.idle = true ∧
      s.findFree = (.ok i, s.drop i b) := by
  unfold BioState.findFree
  cases hempty : s.emptySlot with
  | some i =>
    refine .inr (.inl ⟨i, rfl, ?_⟩)
    simpa using (Fin.find?_eq_some_iff.mp hempty).1
  | none =>
    cases hvictim : s.victim with
    | none => exact .inl ⟨_, rfl⟩
    | some i =>
      obtain ⟨-, b, hb, hidle⟩ := victim_eq_some hvictim
      refine .inr (.inr ⟨i, b, rfl, hb, hidle, ?_⟩)
      simp only [h.clearSlot hb hidle]

end BioState

end Sustcore
