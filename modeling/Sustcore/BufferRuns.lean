/-
# Reading and writing through a buffer cache

`Bio.Run.cache_transparent`: over every run of the calls of a buffer cache by any number of
threads, every handler shows the bytes that were last written to its block through any
handler, and when `sync_all` returns with success, the device holds these bytes for every block
that was not written since the call.

Three things can go wrong, and a run without them is `Guarded`:

* `find_free` evicts a dirty buffer when all buffers without handlers are dirty, and `tidy`
  clears one that was written to after its loop had passed: the bytes are lost;
* a write that comes after the device has taken the bytes of a `sync`, but before the thread of
  the `sync` runs again, is marked clean by that thread;
* a thread that waits for the request of another thread has no handler: the buffer may be
  evicted and freed before the thread runs again.
-/
import Sustcore.BufferSteps
import Sustcore.Ledger

namespace Sustcore

open Function BioState Option Relation

namespace Bio

variable {N n T : ℕ}

/-- A cache with what was written: `last` are the last bytes of each block, and `written` the
blocks that were written since the thread called `sync_all` or `tidy`. -/
structure Run (N n T : ℕ) where
  state : BioState N n T
  last : ℕ → Block n
  written : Fin T → Set ℕ

namespace Run

/-- A new cache for a device. -/
def start (device : ℕ → Block n) : Run N n T := ⟨.init device, device, fun _ => ∅⟩

/-- One step of a thread or of the device.  With `Guarded`, no buffer is dropped that is dirty
or that a thread waits for, and no write falls between the device's part of a `sync` and the end
of it. -/
inductive Step (Guarded : Prop) : Run N n T → Run N n T → Prop
  | getBuffer (r : Run N n T) (t : Fin T) (blkno : ℕ) (o : Outcome)
      (hthread : r.state.threads t = .returned o)
      (hguard : Guarded → r.state.mapping blkno = none →
        ∀ i, r.state.victim = some i → r.state.MayDrop i) :
      Step Guarded r { r with state := r.state.getBuffer t blkno }
  | serve (r : Run N n T) (i : Fin N) : Step Guarded r { r with state := r.state.serve i }
  | resume (r : Run N n T) (t : Fin T) (s : BioState N n T) (hresume : r.state.resume t = .ok s)
      (hguard : Guarded → ∀ k (hk : k < N), r.state.threads t = .clearing k →
        (r.state.buffers ⟨k, hk⟩).any Buffer.idle = true → r.state.MayDrop ⟨k, hk⟩) :
      Step Guarded r { r with state := s }
  | write (r : Run N n T) (i : Fin N) (blkno offset : ℕ) (bytes : List UInt8)
      (hmem : (i, blkno) ∈ r.state.handlers)
      (hguard : Guarded → r.state.requests i ≠ some ⟨.write, true⟩) :
      Step Guarded r ⟨r.state.write i offset bytes,
        update r.last blkno ((r.last blkno).write offset bytes),
        fun t => insert blkno (r.written t)⟩
  | release (r : Run N n T) (i : Fin N) (blkno : ℕ) (hmem : (i, blkno) ∈ r.state.handlers) :
      Step Guarded r { r with state := r.state.release i blkno }
  | sync (r : Run N n T) (t : Fin T) (i : Fin N) (blkno : ℕ) (o : Outcome)
      (hthread : r.state.threads t = .returned o) (hmem : (i, blkno) ∈ r.state.handlers) :
      Step Guarded r { r with state := r.state.sync t i blkno }
  | startLoop (r : Run N n T) (t : Fin T) (caller : SyncCaller) (o : Outcome)
      (hthread : r.state.threads t = .returned o) (hcaller : IsLoop caller) :
      Step Guarded r { r with
        state := r.state.setThread t (.sweeping 0 caller)
        written := update r.written t ∅ }

def Inv (r : Run N n T) : Prop := r.state.Inv r.last r.written

theorem inv_start (device : ℕ → Block n) : (start device : Run N n T).Inv := by
  constructor
  · exact ⟨fun _ _ => ⟨nofun, nofun⟩, nofun, fun _ _ => rfl, fun _ _ => rfl⟩
  · exact ⟨nofun, fun _ => trivial, nofun, nofun, nofun⟩
  · exact nofun

theorem free_of_returned {s : BioState N n T} {t : Fin T} {o : Outcome}
    (hthread : s.threads t = .returned o) : BioState.Free (s.threads t) := by
  rw [hthread]
  exact ⟨rfl, fun _ => rfl⟩

theorem inv_step (r r' : Run N n T) (h : r.Inv) (hstep : Step True r r') : r'.Inv := by
  cases hstep with
  | getBuffer t blkno o hthread hguard =>
    exact .getBuffer h blkno (free_of_returned hthread) (hguard trivial)
  | serve i => exact .serve h i
  | resume t s hresume hguard =>
    obtain ⟨s', hresume', hinv⟩ := BioState.Inv.resume h t (hguard trivial)
    cases hresume.symm.trans hresume'
    exact hinv
  | write i blkno offset bytes hmem hguard =>
    exact .write h offset bytes hmem (hguard trivial)
  | release i blkno hmem => exact .release h hmem
  | sync t i blkno o hthread hmem => exact .sync h (free_of_returned hthread) hmem
  | startLoop t caller o hthread hcaller =>
    exact .startLoop h t (free_of_returned hthread) hcaller

/-- **A buffer cache is transparent.**  In every state that a guarded run reaches, every
handler shows the last bytes of its block, whatever was evicted; a thread that has returned from
`sync_all` or `tidy` with success finds these bytes on the device, for every block that was not
written since its call; and no thread follows a pointer to a buffer that was freed. -/
theorem cache_transparent (device : ℕ → Block n) (r : Run N n T)
    (hrun : ReflTransGen (Step True) (start device) r) :
    (∀ i blkno, (i, blkno) ∈ r.state.handlers →
      ∃ b, r.state.buffers i = some b ∧ b.blkno = blkno ∧ b.data = r.last blkno) ∧
    (∀ t, r.state.threads t = .returned .syncedAll ∨ r.state.threads t = .returned .tidied →
      ∀ blkno, blkno ∉ r.written t → r.state.device blkno = r.last blkno) ∧
    ∀ t i blkno waitWd, r.state.threads t = .waiting i blkno waitWd →
      ∃ s, r.state.resume t = .ok s := by
  have h : r.Inv := Transition.invariant inv_step hrun (inv_start device)
  refine ⟨?_, ?_, ?_⟩
  · intro i blkno hmem
    obtain ⟨b, hb, rfl, hvalid⟩ := h.pointers.handles i blkno hmem
    exact ⟨b, hb, rfl, (h.coherent.slots i b hb).valid hvalid⟩
  · intro t hthread blkno hw
    apply h.coherent.device_eq
    rintro i b hb hd rfl
    have hswept : (r.state.threads t).swept = some N := by
      rcases hthread with hthread | hthread
      · rw [hthread]
        rfl
      · rw [hthread]
        rfl
    have hle := h.sweeps t N hswept i b hb hd hw
    omega
  · intro t i blkno waitWd hthread
    obtain ⟨s, hs, -⟩ := BioState.Inv.resume h t (by
      intro k hk hclearing
      rw [hthread] at hclearing
      cases hclearing)
    exact ⟨s, hs⟩

/-! ## Ways to lose bytes -/

/-- The state after a block was read into an empty slot. -/
def loaded (t : Fin T) (i : Fin N) (blkno : ℕ) (s : BioState N n T) : BioState N n T :=
  { s with
    buffers := update s.buffers i
      (some ⟨blkno, s.device blkno, false, true, false, 1, s.nextWd⟩)
    mapping := update s.mapping blkno (some i)
    requests := update s.requests i none
    threads := update s.threads t (.returned .obtained)
    handlers := (i, blkno) :: s.handlers
    nextWd := s.nextWd + 1 }

theorem getBuffer_new {s s' : BioState N n T} {t : Fin T} {blkno : ℕ} {i : Fin N}
    (hmap : s.mapping blkno = none) (hfind : s.findFree = (.ok i, s')) :
    s.getBuffer t blkno = (s'.newBuffer i blkno).submit t i .read (.reading i blkno) := by
  have hb : (s'.newBuffer i blkno).buffers i =
      some ⟨blkno, fun _ => 0, false, false, false, 0, s'.nextWd⟩ := update_self ..
  unfold getBuffer ensureBuffer
  rw [hmap]
  simp only [hfind, hb]
  rfl

/-- `get_buffer_async` of a block without a buffer, by one thread. -/
theorem load_run {G : Prop} (r : Run N n T) {t : Fin T} {blkno : ℕ} {o : Outcome} {i : Fin N}
    {s : BioState N n T} (hthread : r.state.threads t = .returned o)
    (hmap : r.state.mapping blkno = none) (hfind : r.state.findFree = (.ok i, s))
    (hguard : G → ∀ i, r.state.victim = some i → r.state.MayDrop i) :
    ReflTransGen (Step G) r { r with state := loaded t i blkno s } := by
  have hread : ((s.newBuffer i blkno).submit t i .read (.reading i blkno)).serve i = { s with
      buffers := update s.buffers i
        (some ⟨blkno, s.device blkno, false, false, true, 0, s.nextWd⟩)
      mapping := update s.mapping blkno (some i)
      requests := update s.requests i (some ⟨.read, true⟩)
      threads := update s.threads t (.reading i blkno)
      nextWd := s.nextWd + 1 } := by
    unfold serve submit setThread setRequest setBuffer
      newBuffer
    simp only [update_self, update_idem, map_some]
  have hresume : resume t { s with
      buffers := update s.buffers i
        (some ⟨blkno, s.device blkno, false, false, true, 0, s.nextWd⟩)
      mapping := update s.mapping blkno (some i)
      requests := update s.requests i (some ⟨.read, true⟩)
      threads := update s.threads t (.reading i blkno)
      nextWd := s.nextWd + 1 } = .ok (loaded t i blkno s) := by
    unfold resume openHandler setRequest setBuffer
      setThread loaded
    simp only [update_self, update_idem, map_some, if_true]
  have h₁ := Step.getBuffer r t blkno o hthread fun g _ => hguard g
  rw [getBuffer_new hmap hfind] at h₁
  have h₂ : Step G _ _ := Step.serve { r with
    state := (s.newBuffer i blkno).submit t i .read (.reading i blkno) } i
  rw [hread] at h₂
  refine .head h₁ (.head h₂ (.single (Step.resume _ t _ hresume ?_)))
  intro _ k hk hclearing
  have hreading : update s.threads t (.reading i blkno) t = .clearing k := hclearing
  rw [update_self] at hreading
  cases hreading

section Sample

def blank : Block 512 := fun _ => 0

/-- A block with a byte that is not zero. -/
def marked : Block 512 := blank.write 0 [1]

theorem marked_ne_blank : marked ≠ blank := by
  intro heq
  have hbyte := congrFun heq 0
  simp [marked, blank, Block.write] at hbyte

/-- The buffer of a block that was written to, without a handler. -/
def dirtyBuffer (blkno : ℕ) : Buffer 512 := ⟨blkno, marked, true, true, false, 0, blkno⟩

/-- The first `k` blocks were written to and have no handlers any more. -/
def filled (N k : ℕ) : Run N 512 1 where
  state :=
    { buffers := fun i => if i.val < k then some (dirtyBuffer i) else none
      mapping := fun blkno => if h : blkno < N ∧ blkno < k then some ⟨blkno, h.1⟩ else none
      device := fun _ => blank
      requests := fun _ => none
      threads := fun _ => .returned (if k = 0 then .idle else .obtained)
      handlers := []
      nextWd := k }
  last := fun blkno => if blkno < k then marked else blank
  written := fun _ => { blkno | blkno < k }

theorem filled_zero : filled N 0 = start fun _ => blank := by
  unfold filled start init
  simp

theorem findFree_filled {k : ℕ} (hk : k < N) :
    (filled N k).state.findFree = (.ok ⟨k, hk⟩, (filled N k).state) := by
  have hempty : (filled N k).state.emptySlot = some ⟨k, hk⟩ := by
    refine Fin.find?_eq_some_iff.mpr ⟨?_, ?_⟩
    · simp [filled]
    · intro j hj
      have hlt : j.val < k := hj
      simp [filled, hlt]
  unfold findFree
  rw [hempty]

/-- One more block is written to. -/
theorem fill_run {k : ℕ} (hk : k < N) :
    ReflTransGen (Step False) (filled N k) (filled N (k + 1)) := by
  have hmap : (filled N k).state.mapping k = none := by simp [filled]
  have hload := load_run (filled N k) (t := 0) rfl hmap (findFree_filled hk) (G := False) nofun
  have hwrite : Step False _ _ := Step.write
    { filled N k with state := loaded 0 ⟨k, hk⟩ k (filled N k).state } ⟨k, hk⟩ k 0 [1]
    List.mem_cons_self nofun
  have hrelease : Step False _ _ := Step.release
    (⟨BioState.write ⟨k, hk⟩ 0 [1] (loaded 0 ⟨k, hk⟩ k (filled N k).state),
      update (filled N k).last k (((filled N k).last k).write 0 [1]),
      fun t => insert k ((filled N k).written t)⟩ : Run N 512 1) ⟨k, hk⟩ k List.mem_cons_self
  have heq : (⟨BioState.release ⟨k, hk⟩ k
      (BioState.write ⟨k, hk⟩ 0 [1] (loaded 0 ⟨k, hk⟩ k (filled N k).state)),
      update (filled N k).last k (((filled N k).last k).write 0 [1]),
      fun t => insert k ((filled N k).written t)⟩ : Run N 512 1) = filled N (k + 1) := by
    unfold BioState.release BioState.write BioState.setBuffer loaded filled
    have hzero : ¬512 ≤ 0 := by decide
    simp only [if_neg hzero, update_self, update_idem, map_some,
      Run.mk.injEq, BioState.mk.injEq, lt_irrefl, if_false]
    refine ⟨⟨?_, ?_, trivial, ?_, ?_, ?_, trivial⟩, ?_, ?_⟩
    · funext i
      by_cases hi : i = ⟨k, hk⟩
      · rw [hi, update_self, if_pos (Nat.lt_succ_self k)]
        rfl
      have hne : i.val ≠ k := fun hval => hi (Fin.ext hval)
      rw [update_of_ne hi]
      by_cases hlt : i.val < k
      · rw [if_pos hlt, if_pos (by omega)]
      · rw [if_neg hlt, if_neg (by omega)]
    · funext blkno
      by_cases hblk : blkno = k
      · subst hblk
        rw [update_self, dif_pos ⟨hk, by omega⟩]
      · rw [update_of_ne hblk]
        by_cases hlt : blkno < N ∧ blkno < k
        · rw [dif_pos hlt, dif_pos (by omega)]
        · rw [dif_neg hlt, dif_neg (by omega)]
    · exact update_eq_self ..
    · funext u
      rw [Subsingleton.elim u 0, update_self, if_neg (Nat.succ_ne_zero k)]
    · simp
    · funext blkno
      by_cases hblk : blkno = k
      · subst hblk
        rw [update_self, if_pos (Nat.lt_succ_self blkno)]
        rfl
      · rw [update_of_ne hblk]
        by_cases hlt : blkno < k
        · rw [if_pos hlt, if_pos (by omega)]
        · rw [if_neg hlt, if_neg (by omega)]
    · ext blkno
      simp only [Set.mem_insert_iff, Set.mem_ofPred_eq]
      omega
  rw [heq] at hrelease
  exact hload.trans (.head hwrite (.single hrelease))

theorem fill_all : ∀ k, k ≤ N →
    ReflTransGen (Step False) (start fun _ => blank) (filled N k) := by
  intro k
  induction k with
  | zero =>
    intro _
    rw [filled_zero]
  | succ k ih =>
    intro hk
    exact (ih (by omega)).trans (fill_run (by omega))

/-- `find_free` of a cache in which all buffers may be evicted, but only the first is clean or
none is. -/
theorem findFree_first {s : BioState N 512 1} (hN : 0 < N) {b : Buffer 512}
    (hb : s.buffers ⟨0, hN⟩ = some b) (hidle : b.idle = true)
    (hmap : s.mapping b.blkno = some ⟨0, hN⟩)
    (hfull : ∀ i, i ≠ ⟨0, hN⟩ → s.buffers i = some (dirtyBuffer i)) :
    s.findFree = (.ok ⟨0, hN⟩, s.drop ⟨0, hN⟩ b) := by
  have hempty : s.emptySlot = none := by
    refine Fin.find?_eq_none_iff.mpr fun i => ?_
    by_cases hi : i = ⟨0, hN⟩
    · rw [hi, hb]
      rfl
    · rw [hfull i hi]
      rfl
  have hany : s.anyVictim = some ⟨0, hN⟩ := by
    refine Fin.find?_eq_some_iff.mpr ⟨?_, nofun⟩
    rwa [hb]
  have hvictim : s.victim = some ⟨0, hN⟩ := by
    unfold victim
    rw [hempty]
    cases hclean : s.cleanVictim with
    | none => simpa using hany
    | some i =>
      have hfound := (Fin.find?_eq_some_iff.mp hclean).1
      by_cases hi : i = ⟨0, hN⟩
      · rw [hi]
        rfl
      · rw [hfull i hi] at hfound
        cases hfound
  unfold findFree clearSlot drop
  simp only [hempty, hvictim, hb, hidle, hmap, if_true]

/-- All slots hold dirty buffers, so a get of one more block drops the bytes of the first. -/
theorem eviction_loses (hN : 0 < N) : ∃ r : Run N 512 1,
    ReflTransGen (Step False) (start fun _ => blank) r ∧
    (⟨0, hN⟩, 0) ∈ r.state.handlers ∧
    (∃ b, r.state.buffers ⟨0, hN⟩ = some b ∧ b.blkno = 0 ∧ b.data = blank) ∧ r.last 0 = marked := by
  have hfull := fill_all N le_rfl
  have hslot : ∀ i : Fin N, (filled N N).state.buffers i = some (dirtyBuffer i) :=
    fun i => if_pos i.isLt
  have hmap : ∀ blkno, (filled N N).state.mapping blkno =
      if h : blkno < N then some ⟨blkno, h⟩ else none := by
    intro blkno
    by_cases hlt : blkno < N
    · simp [filled]
    · simp [filled]
  have hnone : (filled N N).state.mapping N = none := by
    rw [hmap, dif_neg (lt_irrefl N)]
  have hfirst := findFree_first hN (hslot ⟨0, hN⟩) rfl
    ((hmap 0).trans (dif_pos hN)) fun i _ => hslot i
  -- The first buffer is dropped for the block `N`, whose handler ends at once.
  have hload := load_run (filled N N) (t := 0) rfl hnone hfirst (G := False) nofun
  set r₁ : Run N 512 1 := { filled N N with
    state := loaded 0 ⟨0, hN⟩ N ((filled N N).state.drop ⟨0, hN⟩ (dirtyBuffer 0)) } with hr₁
  have hrelease : Step False r₁ { r₁ with state := r₁.state.release ⟨0, hN⟩ N } :=
    Step.release r₁ ⟨0, hN⟩ N List.mem_cons_self
  -- Then the block 0 is read again, into the same slot.
  have hb : (r₁.state.release ⟨0, hN⟩ N).buffers ⟨0, hN⟩ =
      some ⟨N, blank, false, true, false, 0, N⟩ := by
    simp [hr₁, release, setBuffer, loaded, drop, filled]
  have hmapN : (r₁.state.release ⟨0, hN⟩ N).mapping N = some ⟨0, hN⟩ := update_self ..
  have hmap0 : (r₁.state.release ⟨0, hN⟩ N).mapping 0 = none := by
    show update (update (filled N N).state.mapping 0 none) N _ 0 = none
    rw [update_of_ne (by omega), update_self]
  have hothers : ∀ i : Fin N, i ≠ ⟨0, hN⟩ →
      (r₁.state.release ⟨0, hN⟩ N).buffers i = some (dirtyBuffer i) := by
    intro i hi
    simp [hr₁, release, setBuffer, loaded, drop, update_of_ne hi, hslot i]
  have hsecond := findFree_first hN hb rfl hmapN hothers
  have hagain := load_run { r₁ with state := r₁.state.release ⟨0, hN⟩ N } (t := 0) rfl hmap0 hsecond
    (G := False) nofun
  refine ⟨_, hfull.trans (hload.trans (.head hrelease hagain)), List.mem_cons_self,
    ⟨⟨0, blank, false, true, false, 1, N + 1⟩, ?_, rfl, rfl⟩, ?_⟩
  · rfl
  · exact if_pos hN

/-- **The bytes of a block are lost.**  All buffers of the cache were written to and have no
handlers; then one more block is used, and the first block is read again.  Its handler shows the
zeros of the device. -/
theorem dirty_evicted : ∃ r : Run MAX_CACHE_SIZE 512 1,
    ReflTransGen (Step False) (start fun _ => blank) r ∧
    ∃ i b, (i, 0) ∈ r.state.handlers ∧ r.state.buffers i = some b ∧ b.blkno = 0 ∧
      b.data ≠ r.last 0 := by
  obtain ⟨r, hrun, hmem, ⟨b, hb, hblk, hdata⟩, hlast⟩ :=
    eviction_loses (N := MAX_CACHE_SIZE) (by decide)
  refine ⟨r, hrun, _, b, hmem, hb, hblk, ?_⟩
  rw [hdata, hlast]
  exact marked_ne_blank.symm

theorem mayDrop_alone {s : BioState N n 1} {o : Outcome} (hthread : s.threads 0 = .returned o)
    (hclean : ∀ i, (s.buffers i).all (fun b => !b.dirty) = true) (i : Fin N) : s.MayDrop i := by
  intro b hb
  have hdirty := hclean i
  rw [hb] at hdirty
  refine ⟨by simpa using hdirty, ?_⟩
  intro t blkno hwaiting
  rw [Subsingleton.elim t 0, hthread] at hwaiting
  cases hwaiting

theorem resume_step (r : Run N n T) (t : Fin T) (hok : (r.state.resume t).isOk = true)
    (hclear : ∀ k, r.state.threads t ≠ .clearing k) :
    Step True r { r with state := Except.valueOr r.state (r.state.resume t) } :=
  .resume r t _ (Except.eq_ok_valueOr hok) fun _ k _ h => absurd h (hclear k)

theorem getBuffer_alone (r : Run N n 1) (blkno : ℕ) {o : Outcome}
    (hthread : r.state.threads 0 = .returned o)
    (hclean : ∀ i, (r.state.buffers i).all (fun b => !b.dirty) = true) :
    Step True r { r with state := r.state.getBuffer 0 blkno } :=
  .getBuffer r 0 blkno o hthread fun _ _ i _ => mayDrop_alone hthread hclean i

/-- Block 0 is written and reaches the device with `sync_all`; the next two blocks evict it, and
it is read again before another `sync_all`. -/
theorem cache_transparent_evicted : ∃ r : Run 2 1 1,
    ReflTransGen (Step True) (start fun _ _ => 0) r ∧
    (∃ b, r.state.buffers 0 = some b ∧ b.blkno = 0 ∧ b.data = fun _ => 1) ∧
    r.state.device 0 = fun _ => 1 := by
  have hread := ((ReflTransGen.single (getBuffer_alone (start fun _ _ => 0 : Run 2 1 1) 0 rfl
    (by decide))).tail (.serve _ 0)).tail (resume_step _ 0 (by decide) nofun)
  have hwritten := (hread.tail (.write _ 0 0 0 [1] List.mem_cons_self fun _ => by decide)).tail
    (.release _ 0 0 List.mem_cons_self)
  have hsync := ((hwritten.tail (.startLoop _ 0 .syncAll _ rfl (.inl rfl))).tail
    (resume_step _ 0 (by decide) nofun)).tail (.serve _ 0)
  have hdone := (((hsync.tail (resume_step _ 0 (by decide) nofun)).tail
    (resume_step _ 0 (by decide) nofun)).tail (resume_step _ 0 (by decide) nofun)).tail
      (resume_step _ 0 (by decide) nofun)
  have hother := (((hdone.tail (getBuffer_alone _ 1 rfl (by decide))).tail (.serve _ 1)).tail
    (resume_step _ 0 (by decide) nofun)).tail (.release _ 1 1 List.mem_cons_self)
  have hevict := (((hother.tail (getBuffer_alone _ 2 rfl (by decide))).tail (.serve _ 0)).tail
    (resume_step _ 0 (by decide) nofun)).tail (.release _ 0 2 List.mem_cons_self)
  have hagain := ((hevict.tail (getBuffer_alone _ 0 rfl (by decide))).tail (.serve _ 0)).tail
    (resume_step _ 0 (by decide) nofun)
  have hrun := (((hagain.tail (.startLoop _ 0 .syncAll _ rfl (.inl rfl))).tail
    (resume_step _ 0 (by decide) nofun)).tail (resume_step _ 0 (by decide) nofun)).tail
      (resume_step _ 0 (by decide) nofun)
  obtain ⟨hshows, hdevice, -⟩ := cache_transparent _ _ hrun
  obtain ⟨b, hb, hblk, hdata⟩ := hshows 0 0 List.mem_cons_self
  refine ⟨_, hrun, ⟨b, hb, hblk, hdata.trans (by decide)⟩, ?_⟩
  exact (hdevice 0 (.inl (by decide)) 0 (Set.notMem_empty 0)).trans (by decide)

end Sample

end Run

end Bio

end Sustcore
