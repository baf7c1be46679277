/-
# Lifetimes of payloads

A payload is destructed when the last capability object that points to it is destroyed.
This module follows the reference counts through whole runs: of the functions of `CHolder`
and of its space, of the creation of payloads, and of the capability objects that are not
in a holder (the one of a memory area, for example).

The counts are exact in the sense of `RefCount.lean`.  The slots are those of all holders,
and one slot for each memory payload, which holds the capability of its file.  The history
of a run is a sequence of *lifetimes* (`Lifetimes`): every payload is destructed together
with its last capability object, and then never gets another one.
-/
import Mathlib.Logic.Function.Basic
import Sustcore.CapabilityRuns
import Sustcore.RefCount

namespace Sustcore

open Relation Function List Option Set

/-! ## Histories -/

/-- The capability objects for `p` that are alive after a history, the last event first. -/
def liveCaps (p : ℕ) : List LifeEvent → ℕ
  | [] => 0
  | .made q :: l => if q = p then liveCaps p l + 1 else liveCaps p l
  | .dropped q :: l => if q = p then liveCaps p l - 1 else liveCaps p l
  | .destructed _ :: l => liveCaps p l

/-- Histories in which a payload is destructed exactly when its last capability object is
destroyed, and has no capability object after that. -/
inductive Lifetimes : List LifeEvent → Prop
  | nil : Lifetimes []
  | made {l : List LifeEvent} {p : ℕ} (h : Lifetimes l) (halive : .destructed p ∉ l) :
      Lifetimes (.made p :: l)
  | dropped {l : List LifeEvent} {p : ℕ} (h : Lifetimes l) (hmore : 1 < liveCaps p l) :
      Lifetimes (.dropped p :: l)
  | last {l : List LifeEvent} {p : ℕ} (h : Lifetimes l) (hlast : liveCaps p l = 1) :
      Lifetimes (.destructed p :: .dropped p :: l)

section Histories

variable {l : List LifeEvent} {p q : ℕ}

theorem liveCaps_made_self : liveCaps p (.made p :: l) = liveCaps p l + 1 := if_pos rfl

theorem liveCaps_made_of_ne (h : q ≠ p) : liveCaps p (.made q :: l) = liveCaps p l := if_neg h

theorem liveCaps_dropped_self : liveCaps p (.dropped p :: l) = liveCaps p l - 1 := if_pos rfl

theorem liveCaps_dropped_of_ne (h : q ≠ p) : liveCaps p (.dropped q :: l) = liveCaps p l :=
  if_neg h

theorem Lifetimes.dead (h : Lifetimes l) (hp : .destructed p ∈ l) : liveCaps p l = 0 := by
  induction h with
  | nil => cases hp
  | @made l q h halive ih =>
    have hp' : .destructed p ∈ l := by simpa using hp
    have hne : q ≠ p := by
      rintro rfl
      exact halive hp'
    rw [liveCaps_made_of_ne hne]
    exact ih hp'
  | @dropped l q h hmore ih =>
    have hp' : .destructed p ∈ l := by simpa using hp
    have hne : q ≠ p := by
      rintro rfl
      rw [ih hp'] at hmore
      omega
    rw [liveCaps_dropped_of_ne hne]
    exact ih hp'
  | @last l q h hlast ih =>
    show liveCaps p (.dropped q :: l) = 0
    by_cases hq : q = p
    · rw [← hq, liveCaps_dropped_self, hlast]
    · have hp' : .destructed p ∈ l := by simpa [Ne.symm hq] using hp
      rw [liveCaps_dropped_of_ne hq]
      exact ih hp'

theorem Lifetimes.once (h : Lifetimes l) (p : ℕ) : l.count (.destructed p) ≤ 1 := by
  induction h with
  | nil => exact Nat.zero_le 1
  | made h halive ih =>
    rwa [count_cons_of_ne (by simp)]
  | dropped h hmore ih =>
    rwa [count_cons_of_ne (by simp)]
  | @last l q h hlast ih =>
    by_cases hq : q = p
    · subst hq
      have hnot : .destructed q ∉ l := by
        intro hmem
        rw [h.dead hmem] at hlast
        cases hlast
      rw [count_cons_self, count_cons_of_ne (by simp), count_eq_zero.mpr hnot]
    · rwa [count_cons_of_ne (by simpa using hq)]

/-- `destruct` is called when the last capability object has just been destroyed. -/
theorem Lifetimes.destructed_at_last {l' : List LifeEvent} (h : Lifetimes l)
    (hp : .destructed p :: l' <:+ l) : ∃ l'', l' = .dropped p :: l'' ∧ liveCaps p l'' = 1 := by
  induction h with
  | nil => cases suffix_nil.mp hp
  | made h halive ih =>
    rcases suffix_cons_iff.mp hp with heq | hsuffix
    · cases heq
    · exact ih hsuffix
  | dropped h hmore ih =>
    rcases suffix_cons_iff.mp hp with heq | hsuffix
    · cases heq
    · exact ih hsuffix
  | last h hlast ih =>
    rcases suffix_cons_iff.mp hp with heq | hsuffix
    · obtain ⟨hq, rfl⟩ := cons.inj heq
      obtain rfl := LifeEvent.destructed.inj hq
      exact ⟨_, rfl, hlast⟩
    · rcases suffix_cons_iff.mp hsuffix with heq | hsuffix'
      · cases heq
      · exact ih hsuffix'

theorem Lifetimes.last_destructed {l' : List LifeEvent} (h : Lifetimes l)
    (hp : .dropped p :: l' <:+ l) (hlast : liveCaps p l' = 1) :
    .destructed p :: .dropped p :: l' <:+ l := by
  induction h with
  | nil => cases suffix_nil.mp hp
  | made h halive ih =>
    rcases suffix_cons_iff.mp hp with heq | hsuffix
    · cases heq
    · exact (ih hsuffix).trans (suffix_cons _ _)
  | dropped h hmore ih =>
    rcases suffix_cons_iff.mp hp with heq | hsuffix
    · obtain ⟨hq, rfl⟩ := cons.inj heq
      obtain rfl := LifeEvent.dropped.inj hq
      omega
    · exact (ih hsuffix).trans (suffix_cons _ _)
  | last h hlast' ih =>
    rcases suffix_cons_iff.mp hp with heq | hsuffix
    · cases heq
    rcases suffix_cons_iff.mp hsuffix with heq | hsuffix'
    · obtain ⟨hq, rfl⟩ := cons.inj heq
      obtain rfl := LifeEvent.dropped.inj hq
      exact suffix_refl _
    · exact (ih hsuffix').trans
        ((suffix_cons _ _).trans (suffix_cons _ _))

end Histories

/-! ## The table of references -/

section Counts

variable {F : Type}

/-- The payload is there. -/
def World.Live (w : World F) (p : ℕ) : Prop :=
  (w.memory.payloads p).isSome ∨ (w.objects p).isSome

theorem World.not_live {w : World F} {p : ℕ} (h : ¬w.Live p) :
    w.memory.payloads p = none ∧ w.objects p = none := by
  simpa [World.Live] using h

def World.fileOf (w : World F) (p : ℕ) : Option ℕ := (w.memory.payloads p).bind (·.file)

/-- Which payload each capability object refers to: those in the holders, and the one of
the file of each memory payload. -/
def refTable (caps : Loc → Option Capability) (w : World F) : Loc ⊕ ℕ → Option ℕ :=
  Sum.elim (Option.map Capability.payload ∘ caps) w.fileOf

/-- One capability object more that is not in the table. -/
abbrev withOne (outside : ℕ → ℕ) (p : ℕ) : ℕ → ℕ := update outside p (outside p + 1)

/-- **Exact counts and proper lifetimes.** -/
structure Counted (caps : Loc → Option Capability) (outside : ℕ → ℕ) (w : World F) : Prop where
  exact : RefCount.Exact (refTable caps w) outside w.refcount
  lifetimes : Lifetimes w.history
  counted : ∀ p, w.refcount p = liveCaps p w.history
  /-- Nothing is known of an address before a payload is there. -/
  unused : ∀ p, w.next ≤ p → w.refcount p = 0 ∧ ¬w.Live p ∧ .destructed p ∉ w.history
  /-- A destructed payload is gone. -/
  gone : ∀ p, .destructed p ∈ w.history → ¬w.Live p
  /-- Memory and other objects have different addresses. -/
  apart : ∀ p, (w.memory.payloads p).isSome → w.objects p = none
  /-- A file is not memory. -/
  file : ∀ p q, w.fileOf p = some q → w.memory.payloads q = none

variable {caps : Loc → Option Capability} {outside : ℕ → ℕ} {w w' : World F} {p q : ℕ}

theorem refTable_update (i : Loc) (c : Option Capability) : refTable (update caps i c) w =
      update (refTable caps w) (.inl i) (c.map Capability.payload) := by
  unfold refTable
  rw [comp_update, Sum.update_elim_inl]

/-- The table after one memory payload got another file or none. -/
theorem refTable_file {f : Option ℕ} (hfile : w'.fileOf = update w.fileOf p f) :
    refTable caps w' = update (refTable caps w) (.inr p) f := by
  unfold refTable
  rw [hfile, Sum.update_elim_inr]

/-! ## Rules -/

/-- A payload with a reference can get another one. -/
theorem Counted.usable (h : Counted caps outside w) (hp : 0 < w.refcount p) :
    p < w.next ∧ .destructed p ∉ w.history := by
  constructor
  · by_contra hle
    rw [(h.unused p (not_lt.mp hle)).1] at hp
    exact lt_irrefl _ hp
  · intro hmem
    rw [h.counted, h.lifetimes.dead hmem] at hp
    exact lt_irrefl _ hp

theorem Counted.file_usable {f : ℕ} (h : Counted caps outside w) (hf : w.fileOf p = some f) :
    f < w.next ∧ .destructed f ∉ w.history := by
  have hentry : refTable caps w (.inr p) = some f := hf
  exact h.usable (h.exact.pos hentry)

theorem Counted.usable_of_live (h : Counted caps outside w) (hp : w.Live p) :
    p < w.next ∧ .destructed p ∉ w.history := by
  constructor
  · by_contra hle
    exact (h.unused p (not_lt.mp hle)).2.1 hp
  · intro hmem
    exact h.gone p hmem hp

/-- `new Capability`: the new object is not in the table yet. -/
theorem Counted.keep (h : Counted caps outside w) (hnext : p < w.next)
    (halive : .destructed p ∉ w.history) :
    Counted caps (withOne outside p) (w.keep p) where
  exact := h.exact.make p
  lifetimes := .made h.lifetimes halive
  counted := by
    intro q
    show update w.refcount p (w.refcount p + 1) q = liveCaps q (.made p :: w.history)
    by_cases hq : q = p
    · rw [hq, update_self, liveCaps_made_self, h.counted]
    · rw [update_of_ne hq, liveCaps_made_of_ne (Ne.symm hq), h.counted]
  unused := by
    intro q hq
    have hne : q ≠ p := by
      have hq' : w.next ≤ q := hq
      omega
    obtain ⟨hzero, hlive, hdestructed⟩ := h.unused q hq
    refine ⟨?_, hlive, ?_⟩
    · show update w.refcount p (w.refcount p + 1) q = 0
      rwa [update_of_ne hne]
    · show .destructed q ∉ .made p :: w.history
      simpa using hdestructed
  gone := by
    intro q hq
    have hq' : .destructed q ∈ .made p :: w.history := hq
    exact h.gone q (by simpa using hq')
  apart := h.apart
  file := h.file

/-- A capability object is stored in an empty slot. -/
theorem Counted.fill {i : Loc} (perm : Perm) (h : Counted caps (withOne outside p) w)
    (hi : caps i = none) : Counted (update caps i (some ⟨p, perm⟩)) outside w :=
  { h with
    exact := by
      rw [refTable_update]
      refine h.exact.fill ?_
      show (caps i).map Capability.payload = none
      rw [hi]
      rfl }

theorem Counted.take {i : Loc} {c : Capability} (h : Counted caps outside w)
    (hi : caps i = some c) : Counted (update caps i none) (withOne outside c.payload) w :=
  { h with
    exact := by
      rw [refTable_update]
      refine h.exact.take ?_
      show (caps i).map Capability.payload = some c.payload
      rw [hi]
      rfl }

/-- The history after a reference that is not the last one is dropped. -/
theorem Counted.uncount (h : Counted caps (withOne outside p) w) (hmore : 1 < w.refcount p) :
    Counted caps outside { w with refcount := update w.refcount p (w.refcount p - 1)
                                  history := .dropped p :: w.history } where
  exact := h.exact.drop
  lifetimes := .dropped h.lifetimes (by rw [← h.counted]; exact hmore)
  counted := by
    intro q
    by_cases hq : q = p
    · subst hq
      simp only [update_self, liveCaps_dropped_self, h.counted]
    · simp only [update_of_ne hq, liveCaps_dropped_of_ne (Ne.symm hq), h.counted]
  unused := by
    intro q hq
    obtain ⟨hzero, hlive, hdestructed⟩ := h.unused q hq
    refine ⟨?_, hlive, by simpa using hdestructed⟩
    by_cases hqp : q = p
    · subst hqp
      simp only [update_self, hzero]
    · simp only [update_of_ne hqp, hzero]
  gone := by
    intro q hq
    exact h.gone q (by simpa using hq)
  apart := h.apart
  file := h.file

variable {memory heap heap' : MemoryHeap F} {objects : ℕ → Option PayloadType}

/-- The last reference is dropped and the payload is gone. -/
theorem Counted.destruct {outside' : ℕ → ℕ} (h : Counted caps (withOne outside p) w)
    (hlast : w.refcount p = 1)
    (hexact : RefCount.Exact (refTable caps { w with memory := memory }) outside'
      (update w.refcount p 0))
    (hmemory : memory.payloads = update w.memory.payloads p none)
    (hobjects : objects = update w.objects p none) :
    Counted caps outside' { w with refcount := update w.refcount p 0
                                   memory := memory
                                   objects := objects
                                   history := .destructed p :: .dropped p :: w.history } where
  exact := hexact
  lifetimes := .last h.lifetimes (by rw [← h.counted]; exact hlast)
  counted := by
    intro q
    show update w.refcount p 0 q = liveCaps q (.dropped p :: w.history)
    by_cases hq : q = p
    · subst hq
      rw [update_self, liveCaps_dropped_self, ← h.counted, hlast]
    · rw [update_of_ne hq, liveCaps_dropped_of_ne (Ne.symm hq), h.counted]
  unused := by
    intro q hq
    obtain ⟨hzero, hlive, hdestructed⟩ := h.unused q hq
    have hqp : q ≠ p := by
      rintro rfl
      rw [hlast] at hzero
      cases hzero
    refine ⟨?_, ?_, by simp [hqp, hdestructed]⟩
    · simp only [update_of_ne hqp, hzero]
    · unfold World.Live at hlive ⊢
      simp only [hmemory, hobjects, update_of_ne hqp]
      exact hlive
  gone := by
    intro q hq
    unfold World.Live
    simp only [hmemory, hobjects]
    by_cases hqp : q = p
    · subst hqp
      simp
    · simp only [update_of_ne hqp]
      exact h.gone q (by simpa [hqp] using hq)
  apart := by
    intro q hq
    simp only [hmemory, hobjects] at hq ⊢
    by_cases hqp : q = p
    · subst hqp
      rw [update_self]
    · rw [update_of_ne hqp] at hq ⊢
      exact h.apart q hq
  file := by
    intro q f hf
    unfold World.fileOf at hf
    simp only [hmemory] at hf ⊢
    by_cases hqp : q = p
    · rw [hqp, update_self] at hf
      cases hf
    rw [update_of_ne hqp] at hf
    by_cases hfp : f = p
    · rw [hfp, update_self]
    · rw [update_of_ne hfp]
      exact h.file q f hf

theorem exact_drop_last {T : Loc ⊕ ℕ → Option ℕ} {refs : ℕ → ℕ}
    (h : RefCount.Exact T (withOne outside p) refs) (hlast : refs p = 1) :
    RefCount.Exact T outside (update refs p 0) := by
  have hdrop := h.drop
  rwa [hlast] at hdrop

/-- **`release` of a payload that is not memory.** -/
theorem Counted.releaseObject (h : Counted caps (withOne outside p) w)
    (hp : w.memory.payloads p = none) (hrelease : World.releaseObject p w = .ok w') :
    Counted caps outside w' := by
  obtain ⟨-, ⟨hlast, rfl⟩ | ⟨hmore, rfl⟩⟩ := World.releaseObject_eq_ok hrelease
  · refine h.destruct hlast (exact_drop_last h.exact hlast) ?_ rfl
    rw [← hp, update_eq_self]
  · exact h.uncount hmore

variable {A : FrameAllocator F}

theorem destruct_payloads {m : MemoryPayload} (hdestruct : heap.destruct A p m = .ok heap') :
    heap'.payloads = update heap.payloads p none := by
  obtain ⟨⟨_, s⟩, -, hend⟩ := Except.bind_eq_ok_iff.mp hdestruct
  cases hend
  rfl

/-- **`release` keeps the counts exact**: the reference in hand is gone, and with the last
reference to a memory payload also the capability of its file. -/
theorem Counted.release (h : Counted caps (withOne outside p) w)
    (hrelease : World.release A p w = .ok w') : Counted caps outside w' := by
  cases hp : w.memory.payloads p with
  | none =>
    exact h.releaseObject hp (World.release_object A hp hrelease)
  | some m =>
    obtain ⟨-, ⟨hlast, memory, hdestruct, hfile⟩ | ⟨hmore, rfl⟩⟩ :=
      World.release_memory_eq_ok A hp hrelease
    · have hmemory := destruct_payloads hdestruct
      have hobjects : w.objects = update w.objects p none := by
        rw [← h.apart p (by rw [hp]; rfl), update_eq_self]
      have hfiles : ({ w with memory := memory } : World F).fileOf =
          update w.fileOf p none := by
        funext q
        unfold World.fileOf
        simp only [hmemory]
        by_cases hq : q = p
        · rw [hq, update_self, update_self]
          rfl
        · rw [update_of_ne hq, update_of_ne hq]
      have hexact := exact_drop_last h.exact hlast
      cases hf : m.file with
      | none =>
        rw [hf] at hfile
        cases hfile
        refine h.destruct hlast ?_ hmemory hobjects
        have hnone : w.fileOf p = none := by
          unfold World.fileOf
          rwa [hp]
        rw [refTable_file hfiles, ← hnone]
        have hsame : refTable caps w (.inr p) = w.fileOf p := rfl
        rwa [← hsame, update_eq_self]
      | some f =>
        rw [hf] at hfile
        have hsome : w.fileOf p = some f := by
          unfold World.fileOf
          rwa [hp]
        -- the capability of the file is in hand now
        have hcounted := h.destruct hlast
          (by rw [refTable_file hfiles]; exact hexact.take hsome) hmemory hobjects
        refine hcounted.releaseObject ?_ hfile
        rw [hmemory]
        by_cases hfp : f = p
        · rw [hfp, update_self]
        · rw [update_of_ne hfp]
          exact h.file p f hsome
    · exact h.uncount hmore

/-! ## New payloads -/

/-- One capability object more for a file, if there is one. -/
def withFile (outside : ℕ → ℕ) : Option ℕ → ℕ → ℕ
  | none => outside
  | some f => withOne outside f

/-- Constructs the capability of a file, if there is one. -/
def World.keepFile (file : Option ℕ) (w : World F) : World F :=
  match file with
  | none => w
  | some f => w.keep f

theorem Counted.keepFile {file : Option ℕ} (h : Counted caps outside w)
    (hfile : ∀ f, file = some f → f < w.next ∧ .destructed f ∉ w.history) :
    Counted caps (withFile outside file) (w.keepFile file) := by
  cases file with
  | none => exact h
  | some f => exact h.keep (hfile f rfl).1 (hfile f rfl).2

@[simp] theorem keepFile_memory (file : Option ℕ) : (w.keepFile file).memory = w.memory := by
  cases file with
  | none => rfl
  | some f => rfl

@[simp] theorem keepFile_next (file : Option ℕ) : (w.keepFile file).next = w.next := by
  cases file with
  | none => rfl
  | some f => rfl

/-- The memory payloads other than `p` are there as before, with their files. -/
def SameFiles (p : ℕ) (heap heap' : MemoryHeap F) : Prop :=
  ∀ q, q ≠ p → (heap'.payloads q).map (·.file) = (heap.payloads q).map (·.file)

theorem SameFiles.isSome (h : SameFiles p heap heap')
    (hq : q ≠ p) : (heap'.payloads q).isSome = (heap.payloads q).isSome := by
  rw [← isSome_map (f := (·.file)), h q hq, isSome_map]

theorem SameFiles.fileOf {w w' : World F} (h : SameFiles p w.memory w'.memory) (hq : q ≠ p) :
    w'.fileOf q = w.fileOf q := by
  have hbind : ∀ x : Option MemoryPayload, x.bind (·.file) = (x.map (·.file)).bind id := by
    intro x
    cases x with
    | none => rfl
    | some m => rfl
  unfold World.fileOf
  rw [hbind, hbind, h q hq]

/-- **A payload appears** at the next address. -/
theorem Counted.appear {file : Option ℕ} (h : Counted caps (withFile outside file) w)
    (hsame : SameFiles w.next w.memory memory)
    (hnew : (memory.payloads w.next).bind (·.file) = file)
    (hobjects : ∀ q, q ≠ w.next → objects q = w.objects q)
    (hapart : (memory.payloads w.next).isSome → objects w.next = none)
    (hfile : ∀ f, file = some f → f < w.next ∧ w.memory.payloads f = none) :
    Counted caps outside { w with memory := memory
                                  objects := objects
                                  refcount := update w.refcount w.next 0
                                  next := w.next + 1 } := by
  obtain ⟨hzero, hlive, hdestructed⟩ := h.unused w.next le_rfl
  have hrefs : update w.refcount w.next 0 = w.refcount := by
    rw [← hzero, update_eq_self]
  have hnone : w.fileOf w.next = none := by
    unfold World.fileOf
    rw [(World.not_live hlive).1]
    rfl
  have hfiles : ∀ w' : World F, w'.memory = memory →
      w'.fileOf = update w.fileOf w.next file := by
    rintro w' rfl
    funext q
    by_cases hq : q = w.next
    · rwa [hq, update_self]
    · rw [update_of_ne hq]
      exact SameFiles.fileOf hsame hq
  rw [hrefs]
  refine ⟨?_, h.lifetimes, h.counted, ?_, ?_, ?_, ?_⟩
  · rw [refTable_file (hfiles _ rfl)]
    cases file with
    | none =>
      have hsame' : refTable caps w (.inr w.next) = none := hnone
      rw [← hsame', update_eq_self]
      exact h.exact
    | some f => exact h.exact.fill hnone
  · intro q hq
    have hq' : w.next + 1 ≤ q := hq
    have hne : q ≠ w.next := by omega
    obtain ⟨hzero', hlive', hdestructed'⟩ := h.unused q (by omega)
    refine ⟨hzero', ?_, hdestructed'⟩
    unfold World.Live at hlive' ⊢
    simp only
    rwa [hsame.isSome hne, hobjects q hne]
  · intro q hq
    have hne : q ≠ w.next := by
      rintro rfl
      exact hdestructed hq
    have hgone := h.gone q hq
    unfold World.Live at hgone ⊢
    simp only
    rwa [hsame.isSome hne, hobjects q hne]
  · intro q hq
    by_cases hne : q = w.next
    · rw [hne] at hq ⊢
      exact hapart hq
    · simp only at hq ⊢
      rw [hsame.isSome hne] at hq
      rw [hobjects q hne]
      exact h.apart q hq
  · intro q f hf
    rw [hfiles _ rfl] at hf
    have hold : f ≠ w.next ∧ w.memory.payloads f = none := by
      by_cases hne : q = w.next
      · rw [hne, update_self] at hf
        obtain ⟨hlt, hobj⟩ := hfile f hf
        exact ⟨by omega, hobj⟩
      rw [update_of_ne hne] at hf
      refine ⟨?_, h.file q f hf⟩
      rintro rfl
      have hexact : RefCount.Exact (refTable caps w) _ w.refcount := h.exact
      exact hexact.unheld hzero (.inr q) hf
    have hnone' := hsame.isSome hold.1
    rw [hold.2] at hnone'
    exact Option.isNone_iff_eq_none.mp (by simpa using hnone')

/-- The rest of the kernel works on memory and tasks. -/
theorem Counted.other {tasks : ℕ → Option Tmm} {current : Option ℕ} (h : Counted caps outside w)
    (hsame : ∀ q, (memory.payloads q).map (·.file) = (w.memory.payloads q).map (·.file)) :
    Counted caps outside { w with memory := memory, tasks := tasks, current := current } := by
  have hfiles : ∀ w' : World F, w'.memory = memory → w'.fileOf = w.fileOf := by
    rintro w' rfl
    funext q
    exact SameFiles.fileOf (p := q + 1) (fun q' _ => hsame q') (by omega)
  have hsome : ∀ q, (memory.payloads q).isSome = (w.memory.payloads q).isSome := fun q =>
    SameFiles.isSome (p := q + 1) (fun q' _ => hsame q') (by omega)
  have hlive : ∀ q, World.Live { w with memory := memory, tasks := tasks, current := current } q ↔
      w.Live q := by
    intro q
    unfold World.Live
    rw [hsome q]
  refine ⟨?_, h.lifetimes, h.counted, ?_, ?_, ?_, ?_⟩
  · have htable : refTable caps { w with memory := memory, tasks := tasks, current := current } =
        refTable caps w := by
      unfold refTable
      rw [hfiles _ rfl]
    rw [htable]
    exact h.exact
  · intro q hq
    rw [hlive q]
    exact h.unused q hq
  · intro q hq
    rw [hlive q]
    exact h.gone q hq
  · intro q hq
    rw [hsome q] at hq
    exact h.apart q hq
  · intro q f hf
    rw [hfiles _ rfl] at hf
    have hnone := hsome f
    rw [h.file q f hf] at hnone
    exact Option.isNone_iff_eq_none.mp (by simpa using hnone)

/-! ## Clones -/

theorem cloneLoop_file : ∀ (entries : List (Sigma fun _ : ℕ => PhyPage))
    (s : MemoryPayload × MemoryPayload × F), (MemoryHeap.cloneLoop A entries s).1.file = s.1.file ∧
      (MemoryHeap.cloneLoop A entries s).2.1.file = s.2.1.file := by
  intro entries
  induction entries with
  | nil => exact fun s => ⟨rfl, rfl⟩
  | cons e rest ih =>
    rintro ⟨m, cloned, frames⟩
    obtain ⟨hm, hcloned⟩ := ih (m.setPage e.1 { e.2 with refcount := e.2.refcount + 1 },
      cloned.setPage e.1 { e.2 with refcount := e.2.refcount + 1 },
      A.keepPage frames e.2.addr)
    exact ⟨hm, hcloned⟩

theorem clonePayload_files {m : MemoryPayload} (fresh : ℕ)
    (hm : heap.payloads p = some m) (hprivate : m.shared = false) :
    SameFiles fresh heap (heap.clonePayload A p m fresh).2 ∧
      ∃ cloned, (heap.clonePayload A p m fresh).2.payloads fresh = some cloned ∧
        cloned.file = m.file := by
  unfold MemoryHeap.clonePayload
  rw [if_neg (by rw [hprivate]; decide)]
  obtain ⟨hfile, hcloned⟩ := cloneLoop_file (A := A) m.phyPages.entries
    (m, { m with phyPages := ∅ }, heap.frames)
  refine ⟨?_, _, update_self .., hcloned⟩
  intro q hq
  simp only [update_of_ne hq]
  by_cases hqp : q = p
  · rw [hqp, update_self, hm, map_some, map_some, hfile]
  · rw [update_of_ne hqp]

/-- **`clone_payload` keeps the counts exact**, and what it returns can get references. -/
theorem Counted.clone (h : Counted caps outside w) (hp : 0 < w.refcount p)
    (hclone : World.clonePayload A p w = (q, w')) :
    Counted caps outside w' ∧ q < w'.next ∧ .destructed q ∉ w'.history := by
  unfold World.clonePayload at hclone
  cases hm : w.memory.payloads p with
  | none =>
    rw [hm] at hclone
    obtain ⟨rfl, rfl⟩ := Prod.mk.inj hclone
    exact ⟨h, h.usable hp⟩
  | some m =>
    rw [hm] at hclone
    simp only at hclone
    split at hclone
    · obtain ⟨rfl, rfl⟩ := Prod.mk.inj hclone
      exact ⟨h, h.usable hp⟩
    rename_i hshared
    have hprivate : m.shared = false := by simpa using hshared
    have hfileOf : ∀ f, m.file = some f → w.fileOf p = some f := by
      intro f hf
      unfold World.fileOf
      rwa [hm]
    have husable := fun f hf => h.file_usable (hfileOf f hf)
    have hkept := h.keepFile husable
    -- the world in which the clone is made
    set u := w.keepFile m.file with hu
    have hmemory : u.memory = w.memory := keepFile_memory _
    change (u.next, { u with memory := (u.memory.clonePayload A p m u.next).2
                             refcount := update u.refcount u.next 0
                             next := u.next + 1 }) = _ at hclone
    obtain ⟨rfl, rfl⟩ := Prod.mk.inj hclone
    obtain ⟨hsame, cloned, hcloned, hfile⟩ := clonePayload_files (A := A) u.next
      (hmemory ▸ hm : u.memory.payloads p = some m) hprivate
    obtain ⟨-, hlive, hdestructed⟩ := hkept.unused u.next le_rfl
    refine ⟨hkept.appear hsame ?_ (fun _ _ => rfl) ?_ ?_, Nat.lt_succ_self _, hdestructed⟩
    · rwa [hcloned]
    · exact fun _ => (World.not_live hlive).2
    · intro f hf
      rw [hmemory, keepFile_next]
      exact ⟨(husable f hf).1, h.file p f (hfileOf f hf)⟩

/-! ## Events and runs -/

/-- **Every event of the holders keeps the counts exact.** -/
theorem Counted.event {s s' : CapState (World F)} (h : Counted s.caps outside s.heap)
    (hevent : CapEvent (World.payloads A) s s') : Counted s'.caps outside s'.heap := by
  -- a capability in a slot is a reference
  have hheld : ∀ {i : Loc} {c : Capability}, s.caps i = some c → 0 < s.heap.refcount c.payload := by
    intro i c hi
    have hentry : refTable s.caps s.heap (.inl i) = some c.payload := by
      show (s.caps i).map Capability.payload = some c.payload
      rw [hi]
      rfl
    exact h.exact.pos hentry
  cases hevent with
  | copy hi hj hperm hcaps hheap =>
    obtain ⟨hnext, halive⟩ := h.usable (hheld hi)
    rw [hcaps, hheap]
    exact (h.keep hnext halive).fill _ hj
  | clone hi hj hclone hcaps hheap =>
    obtain ⟨hcloned, hnext, halive⟩ := h.clone (hheld hi) hclone
    rw [hcaps, hheap]
    exact (hcloned.keep hnext halive).fill _ hj
  | scratch hi hclone hcaps hheap =>
    obtain ⟨hcloned, hnext, halive⟩ := h.clone (hheld hi) hclone
    rw [hcaps]
    exact (hcloned.keep hnext halive).release hheap
  | drop hi hcaps hheap =>
    rw [hcaps]
    exact (h.take hi).release hheap
  | @narrow i c perm hi hperm hcaps hheap =>
    have htaken := (h.take hi).fill perm (update_self i none s.caps)
    rw [update_idem] at htaken
    rwa [hcaps, hheap]
  | @move i j c hi hj hcaps hheap =>
    have hne : j ≠ i := by
      rintro rfl
      rw [hi] at hj
      cases hj
    have hfree : update s.caps i none j = none := by
      rwa [update_of_ne hne]
    have hmoved := (h.take hi).fill c.perm hfree
    rwa [hcaps, hheap, update_comm hne]
  | protect hcaps hheap =>
    obtain ⟨tasks, hw⟩ := World.protectMemoryCow_eq_ok hheap
    rw [hcaps, hw]
    exact Counted.other h fun _ => rfl
  | layout hcaps hheap =>
    rwa [hcaps, hheap]

end Counts

def World.newObject {F : Type} (type : PayloadType) (w : World F) : World F :=
  { w with objects := update w.objects w.next (some type)
           refcount := update w.refcount w.next 0
           next := w.next + 1 }

/-- A new memory payload, with its own capability for its file. -/
def World.newMemory {F : Type} (m : MemoryPayload) (w : World F) : World F :=
  let w := w.keepFile m.file
  { w with memory := { w.memory with payloads := update w.memory.payloads w.next (some m) }
           refcount := update w.refcount w.next 0
           next := w.next + 1 }

/-- The holders, with the number of capability objects for each payload that are neither in
a holder nor the one of the file of a memory payload. -/
structure LifeState (F : Type) where
  state : CapState (World F)
  outside : ℕ → ℕ

namespace LifeState

variable {F : Type} {A : FrameAllocator F}

/-- Nothing was created yet. -/
def init (frames : F) (mem : PhysMem) : LifeState F :=
  ⟨⟨fun _ => CSpace.empty, ⟨⟨fun _ => none, frames, mem⟩, fun _ => none, fun _ => 0, 0,
    fun _ => none, none, []⟩⟩, fun _ => 0⟩

def withHeap (s : LifeState F) (w : World F) : LifeState F :=
  { s with state := { s.state with heap := w } }

variable (A) in
/-- A function of `CHolder` is called, a payload is created, a capability object is made or
destroyed outside the holders, or the rest of the kernel works. -/
inductive Step : LifeState F → LifeState F → Prop
  | call (s : LifeState F) {call : CapCall} {r : Result Unit} {state : CapState (World F)}
      (hrun : call.run (World.payloads A) s.state = .ok (r, state))
      (hroot : ∀ root ∈ call.newRoots r, s.state.heap.Live root.payload) :
      Step s { s with state := state }
  | newObject (s : LifeState F) (type : PayloadType) :
      Step s (s.withHeap (s.state.heap.newObject type))
  | newMemory (s : LifeState F) (m : MemoryPayload)
      (hfile : ∀ f, m.file = some f → (s.state.heap.objects f).isSome) :
      Step s (s.withHeap (s.state.heap.newMemory m))
  | hold (s : LifeState F) {p : ℕ} (hp : s.state.heap.Live p) :
      Step s { s.withHeap (s.state.heap.keep p) with outside := withOne s.outside p }
  | letGo (s : LifeState F) {p : ℕ} {w : World F} (hp : 0 < s.outside p)
      (hrelease : World.release A p s.state.heap = .ok w) :
      Step s { s.withHeap w with outside := update s.outside p (s.outside p - 1) }
  | other (s : LifeState F) {memory : MemoryHeap F} {tasks : ℕ → Option Tmm}
      {current : Option ℕ}
      (hsame : ∀ q, (memory.payloads q).map (·.file) =
        (s.state.heap.memory.payloads q).map (·.file)) :
      Step s (s.withHeap { s.state.heap with memory := memory, tasks := tasks
                                             current := current })

def Exact (s : LifeState F) : Prop := Counted s.state.caps s.outside s.state.heap

theorem exact_init (frames : F) (mem : PhysMem) : (init frames mem).Exact where
  exact := by
    intro q
    have hempty : RefCount.holders (refTable (init frames mem).state.caps
        (init frames mem).state.heap) q = ∅ := by
      rw [eq_empty_iff_forall_notMem]
      intro i hi
      cases i with
      | inl i => cases hi
      | inr p => cases hi
    rw [hempty, encard_empty]
    rfl
  lifetimes := .nil
  counted := fun _ => rfl
  unused := fun _ _ => ⟨rfl, by unfold World.Live; simp [init], by simp [init]⟩
  gone := fun _ h => by cases h
  apart := fun _ h => by cases h
  file := fun _ _ h => by cases h

variable {s s' : LifeState F}

theorem Exact.events {state : CapState (World F)} (h : s.Exact)
    (hevents : ReflTransGen (CapEvent (World.payloads A)) s.state state) :
    Counted state.caps s.outside state.heap := by
  induction hevents with
  | refl => exact h
  | tail _ hlast ih => exact ih.event hlast

theorem Exact.newObject (h : s.Exact) (type : PayloadType) :
    (s.withHeap (s.state.heap.newObject type)).Exact := by
  obtain ⟨-, hlive, -⟩ := h.unused s.state.heap.next le_rfl
  have hnone : s.state.heap.memory.payloads s.state.heap.next = none := (World.not_live hlive).1
  have hnofile : Counted s.state.caps (withFile s.outside none) s.state.heap := h
  refine hnofile.appear (fun _ _ => rfl) ?_ ?_ ?_ (fun _ hf => by cases hf)
  · rw [hnone]
    rfl
  · intro q hq
    exact update_of_ne hq _ _
  · intro hsome
    rw [hnone] at hsome
    cases hsome

theorem Exact.newMemory (h : s.Exact) {m : MemoryPayload}
    (hfile : ∀ f, m.file = some f → (s.state.heap.objects f).isSome) :
    (s.withHeap (s.state.heap.newMemory m)).Exact := by
  have husable := fun f hf => h.usable_of_live (Or.inr (hfile f hf))
  have hkept := Counted.keepFile h husable
  obtain ⟨-, hlive, -⟩ := hkept.unused _ le_rfl
  refine hkept.appear ?_ ?_ (fun _ _ => rfl) ?_ ?_
  · intro q hq
    simp only [update_of_ne hq]
  · simp only [update_self, bind_some]
  · exact fun _ => (World.not_live hlive).2
  · intro f hf
    rw [keepFile_memory, keepFile_next]
    refine ⟨(husable f hf).1, ?_⟩
    by_contra hsome
    have hnone := h.apart f (isSome_iff_ne_none.mpr hsome)
    have hobject := hfile f hf
    rw [hnone] at hobject
    cases hobject

/-- **Every step keeps the counts exact.** -/
theorem Exact.step (h : s.Exact) (hstep : Step A s s') : s'.Exact := by
  cases hstep with
  | call hrun hroot =>
    rcases CapCall.events hrun with ⟨root, hmem, i, hi, hcaps, hheap⟩ | hevents
    · obtain ⟨hnext, halive⟩ := h.usable_of_live (hroot root hmem)
      unfold Exact
      rw [hcaps, hheap]
      exact (Counted.keep h hnext halive).fill _ hi
    · exact h.events hevents
  | newObject type => exact h.newObject type
  | newMemory m hfile => exact h.newMemory hfile
  | hold hp =>
    obtain ⟨hnext, halive⟩ := h.usable_of_live hp
    exact Counted.keep h hnext halive
  | @letGo p w hp hrelease =>
    refine Counted.release (p := p) (w := s.state.heap) ?_ hrelease
    have hback : withOne (update s.outside p (s.outside p - 1)) p = s.outside := by
      unfold withOne
      rw [update_self, update_idem, Nat.sub_add_cancel hp, update_eq_self]
    rwa [hback]
  | other hsame => exact Counted.other h hsame

/-- The capability objects that point to a payload: those in the slots of holders, those of
files of memory payloads, and the others. -/
noncomputable def pointers (s : LifeState F) (p : ℕ) : ℕ∞ :=
  {i | ∃ c, s.state.caps i = some c ∧ c.payload = p}.encard +
    {m | s.state.heap.fileOf m = some p}.encard + s.outside p

theorem holders_refTable (s : LifeState F) (p : ℕ) :
    (RefCount.holders (refTable s.state.caps s.state.heap) p).encard =
      {i | ∃ c, s.state.caps i = some c ∧ c.payload = p}.encard +
        {m | s.state.heap.fileOf m = some p}.encard := by
  have hsplit : RefCount.holders (refTable s.state.caps s.state.heap) p =
      Sum.inl '' {i | ∃ c, s.state.caps i = some c ∧ c.payload = p} ∪
        Sum.inr '' {m | s.state.heap.fileOf m = some p} := by
    ext i
    cases i with
    | inl i =>
      show (s.state.caps i).map Capability.payload = some p ↔ _
      simp
    | inr m =>
      show s.state.heap.fileOf m = some p ↔ _
      simp
  rw [hsplit, Set.encard_union_eq (by
      rw [Set.disjoint_left]
      rintro _ ⟨i, -, rfl⟩ ⟨m, -, hm⟩
      cases hm),
    Sum.inl_injective.encard_image, Sum.inr_injective.encard_image]

/-- **Payload lifetime.**  In every state of a run the reference count of a payload is the
number of capability objects that point to it; `destruct` is called when the last one is
destroyed, and only then, and at most once; a payload that was destructed is in no slot. -/
theorem payload_lifetime {frames : F} {mem : PhysMem}
    (hrun : ReflTransGen (Step A) (init frames mem) s) (p : ℕ) :
    (s.state.heap.refcount p : ℕ∞) = s.pointers p ∧
    s.state.heap.refcount p = liveCaps p s.state.heap.history ∧
    (∀ l, .destructed p :: l <:+ s.state.heap.history →
      ∃ l', l = .dropped p :: l' ∧ liveCaps p l' = 1) ∧
    (∀ l, .dropped p :: l <:+ s.state.heap.history → liveCaps p l = 1 →
      .destructed p :: .dropped p :: l <:+ s.state.heap.history) ∧
    s.state.heap.history.count (.destructed p) ≤ 1 ∧
    (.destructed p ∈ s.state.heap.history →
      ∀ i c, s.state.caps i = some c → c.payload ≠ p) := by
  have h : s.Exact := Transition.invariant (fun _ _ hexact hstep => hexact.step hstep) hrun
    (exact_init frames mem)
  refine ⟨?_, h.counted p, fun l => h.lifetimes.destructed_at_last,
    fun l => h.lifetimes.last_destructed, h.lifetimes.once p, ?_⟩
  · rw [h.exact p, pointers, ← holders_refTable]
  · intro hdestructed i c hc hp
    have hzero : s.state.heap.refcount p = 0 := by
      rw [h.counted, h.lifetimes.dead hdestructed]
    refine h.exact.unheld hzero (.inl i) ?_
    show (s.state.caps i).map Capability.payload = some p
    rw [hc, ← hp]
    rfl

def afterCall (s : LifeState (Gfp Buddy)) (call : CapCall) : LifeState (Gfp Buddy) :=
  { s with state := s.state.after (call.run buddyPayloads) }

theorem Step.afterCall {s : LifeState (Gfp Buddy)} {call : CapCall}
    (hok : (call.run buddyPayloads s.state).isOk = true)
    (hroot : ∀ r, ∀ root ∈ call.newRoots r, s.state.heap.Live root.payload) :
    Step (gfpFrames buddyRaw) s (s.afterCall call) :=
  .call s (Except.eq_ok_valueOr hok) (hroot _)

/-- An endpoint is created, gets one capability and loses it. -/
def endpointRemoved : LifeState (Gfp Buddy) :=
  (((init ⟨Buddy.preInit 0, fun _ => 0⟩ fun _ => 0).withHeap (World.newObject .endpoint
    (init (F := Gfp Buddy) ⟨Buddy.preInit 0, fun _ => 0⟩ fun _ => 0).state.heap)).afterCall
      (.insert 0 (CapIdx.make 0 0) (some 0) Perm.CLONE)).afterCall
        (.remove 0 (CapIdx.make 0 0))

/-- When the endpoint loses its capability, it is destructed and no reference is left. -/
theorem payload_lifetime_endpoint :
    .destructed 0 ∈ endpointRemoved.state.heap.history ∧
      (0 : ℕ∞) = endpointRemoved.pointers 0 := by
  have hrun : ReflTransGen (Step (gfpFrames buddyRaw))
      (init ⟨Buddy.preInit 0, fun _ => 0⟩ fun _ => 0) endpointRemoved := by
    refine ((ReflTransGen.single (.newObject _ .endpoint)).tail
      (Step.afterCall (by decide) ?_)).tail
      (Step.afterCall (by decide) ?_)
    · intro r root hroot
      cases r with
      | error e => cases hroot
      | ok _ =>
        obtain rfl : root = ⟨0, Perm.CLONE⟩ := hroot
        exact Or.inr (by decide)
    · intro r root hroot
      cases hroot
  exact ⟨by decide, (payload_lifetime hrun 0).1⟩

end LifeState

end Sustcore
