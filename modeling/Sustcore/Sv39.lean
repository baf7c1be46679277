/-
# Sv39 page tables in memory (`kernel/arch/riscv64/mem/sv39.h`)

The tables of `PageMan.lean` are functions; here they are page frames.  An entry without rights
holds the number of the frame of the next table.  `map_page` walks down from the root and takes a
frame for each missing table, `query_page` walks down to the first entry with rights, and
`unmap_page` clears the entry that `query_page` finds.

The frames of the tables form a tree (`TableTree.lean`).  As long as each frame is reached by one
path, a write to an entry changes one page only.  `sv39_refines` says that a run of `map_page` and
`unmap_page` is a run of insertions and deletions of a partial map.
-/
import Sustcore.MemoryRuns
import Sustcore.PageMan
import Sustcore.TableTree

namespace Sustcore

open TableTree Function List Option Except

/-- `PTE`, with its fields. -/
structure Sv39Pte where
  v : Bool
  rwx : BitVec 3
  u : Bool
  g : Bool
  a : Bool
  d : Bool
  rsw : BitVec 2
  ppn : BitVec 44
  rsvd : BitVec 7
  pbmt : BitVec 2
  np : Bool
  deriving DecidableEq

/-- `to_ppn`, as the field of an entry holds it. -/
def toPpn (addr : ℕ) : BitVec 44 := BitVec.ofNat 44 (addr / PAGESIZE)

def fromPpn (ppn : BitVec 44) : ℕ := ppn.toNat * PAGESIZE

namespace Sv39Pte

/-- The entry with value 0. -/
def zero : Sv39Pte := ⟨false, 0, false, false, false, false, 0, 0, 0, 0, false⟩

/-- `modify_pte<Modifier::ALL>`. -/
def modifyAll (pte : Sv39Pte) (flags : PageFlags) : Sv39Pte :=
  { pte with rwx := flags.rwx.cast, u := flags.u, g := flags.g, np := !flags.p }

/-- What `map_page` makes of the entry of a missing table. -/
def toTable (pte : Sv39Pte) (page : ℕ) : Sv39Pte :=
  { pte with
    ppn := toPpn page
    v := true
    rwx := PageRWX.P
    u := false
    g := false
    a := false
    d := false
    np := false }

/-- What `map_page` makes of the entry of the page. -/
def toLeaf (pte : Sv39Pte) (paddr : ℕ) (flags : PageFlags) : Sv39Pte :=
  { pte with
    ppn := toPpn paddr
    v := true
    a := true
    d := flags.rwx.isWritable
    rsw := 0 }.modifyAll flags

/-- The table below the entry. -/
def next (pte : Sv39Pte) : Option ℕ :=
  if pte.v && pte.rwx == PageRWX.P then some (fromPpn pte.ppn) else none

theorem next_of_invalid {pte : Sv39Pte} (h : pte.v = false) : pte.next = none := by
  unfold next
  rw [h]
  rfl

theorem next_of_valid {pte : Sv39Pte} (hv : pte.v = true) (hrwx : pte.rwx = PageRWX.P) :
    pte.next = some (fromPpn pte.ppn) := by
  unfold next
  rw [hv, hrwx]
  rfl

/-- `get_physical_address`. -/
def paddr (pte : Sv39Pte) : ℕ := fromPpn pte.ppn

def flags (pte : Sv39Pte) : PageFlags := ⟨pte.rwx, pte.u, pte.g, !pte.np⟩

end Sv39Pte

/-- `SV39PageMan`: the root, the tables in their frames, and the frame allocator. -/
structure Sv39 (F : Type) where
  root : ℕ
  tables : ℕ → ℕ → Sv39Pte
  frames : F

def levelSize : ℕ → PageSize
  | 0 => ._1G
  | 1 => ._2M
  | _ => ._4K

def makeVpn (vaddr : ℕ) : List ℕ := [vpn0 vaddr, vpn1 vaddr, vpn2 vaddr]

/-- The loop of `query_page` from the table at `pt` on. -/
def queryLoop (tables : ℕ → ℕ → Sv39Pte) : ℕ → ℕ → List ℕ → Result ((ℕ × ℕ) × PageSize)
  | _, _, [] => .error .invalidPte
  | level, pt, i :: rest =>
    if !(tables pt i).v then .error .pageNotPresent
    else if (tables pt i).rwx ≠ PageRWX.P then .ok ((pt, i), levelSize level)
    else queryLoop tables (level + 1) (fromPpn (tables pt i).ppn) rest

/-- How the loop of `map_page` ends: at the entry of the page, at an entry that is in the way, or
without memory for a table. -/
inductive Walk where
  | target (pt i : ℕ)
  | blocked
  | noMemory
  deriving DecidableEq

namespace Sv39

variable {F : Type}

def write (s : Sv39 F) (pt i : ℕ) (pte : Sv39Pte) : Sv39 F :=
  { s with tables := set s.tables pt i pte }

/-- The frame at `page` is cleared. -/
def clear (s : Sv39 F) (page : ℕ) : Sv39 F :=
  { s with tables := update s.tables page fun _ => .zero }

/-- `query_page`; the entry is given by its table and index. -/
def queryPage (s : Sv39 F) (vaddr : ℕ) : Result ((ℕ × ℕ) × PageSize) :=
  queryLoop s.tables 0 s.root (makeVpn vaddr)

def unmapPage (s : Sv39 F) (vaddr : ℕ) : Sv39 F :=
  match s.queryPage vaddr with
  | .error _ => s
  | .ok ((pt, i), _) => s.write pt i .zero

variable (A : FrameAllocator F)

/-- The loop of `map_page<_4K>` from the table at `pt` on. -/
def mapLoop : ℕ → List ℕ → Sv39 F → Except Halt (Walk × Sv39 F)
  | _, [], s => .ok (.blocked, s)
  | pt, i :: rest, s =>
    if (s.tables pt i).rwx ≠ PageRWX.P then .ok (.blocked, s)
    else if (s.tables pt i).v && (s.tables pt i).np then .ok (.blocked, s)
    else if (s.tables pt i).v then mapLoop (fromPpn (s.tables pt i).ppn) rest s
    else if rest.isEmpty then .ok (.target pt i, s)
    else do
      let (res, f) ← A.getFreePage s.frames 1
      match res with
      | .error _ => pure (.noMemory, { s with frames := f })
      | .ok page => do
          assertThat (page ≠ 0)
          let s := { s with frames := f }.clear page
          let s := s.write pt i ((s.tables pt i).toTable page)
          mapLoop (fromPpn (s.tables pt i).ppn) rest s

/-- `map_page<_4K>`. -/
def mapPage (vaddr paddr : ℕ) (flags : PageFlags) (s : Sv39 F) : Except Halt (Sv39 F) := do
  let (walk, s) ← mapLoop A s.root (makeVpn vaddr) s
  match walk with
  | .target pt i => pure (s.write pt i ((s.tables pt i).toLeaf paddr flags))
  | .blocked => pure s
  | .noMemory => pure s

/-! ## Well-formed tables -/

def table (s : Sv39 F) (path : List ℕ) : Option ℕ := reach Sv39Pte.next s.tables s.root path

/-- Each table has a frame of its own that is in use, and the last level holds pages.  The first two
levels hold tables, at least on the paths in `K`; elsewhere there may be large pages. -/
structure WellFormed (K : List ℕ → Prop) (s : Sv39 F) : Prop where
  wf : A.WF s.frames
  separated : Separated Sv39Pte.next s.tables s.root
  held : ∀ path pt, s.table path = some pt → PAGESIZE ∣ pt ∧ 0 < A.refs s.frames (pageOf pt)
  depth : ∀ path pt, s.table path = some pt → path.length ≤ 2
  upper : ∀ path pt i, s.table path = some pt → path.length < 2 → K (path ++ [i]) →
    (s.tables pt i).rwx = PageRWX.P ∧ ((s.tables pt i).v = true → (s.tables pt i).np = false)
  lower : ∀ path pt i, s.table path = some pt → path.length = 2 →
    ((s.tables pt i).v = true ↔ (s.tables pt i).rwx ≠ PageRWX.P)

/-- The tables of the page are on paths in `K`. -/
def Paged (K : List ℕ → Prop) (vaddr : ℕ) : Prop :=
  K [vpn0 vaddr] ∧ K [vpn0 vaddr, vpn1 vaddr]

/-- The entry of a page, if it is valid. -/
def found (s : Sv39 F) (slot : ℕ × ℕ × ℕ) : Option Sv39Pte :=
  (s.table [slot.1, slot.2.1]).bind fun pt =>
    if (s.tables pt slot.2.2).v then some (s.tables pt slot.2.2) else none

/-- Frames with 44-bit numbers. -/
theorem fromPpn_toPpn {addr : ℕ} (hal : PAGESIZE ∣ addr) (hlt : addr < 2 ^ 56) :
    fromPpn (toPpn addr) = addr := by
  unfold fromPpn toPpn
  simp only [PAGESIZE] at hal ⊢
  rw [BitVec.toNat_ofNat, Nat.mod_eq_of_lt (by omega)]
  exact Nat.div_mul_cancel hal

section Steps

variable {A} {K : List ℕ → Prop} {s : Sv39 F}

theorem table_root (s : Sv39 F) : s.table [] = some s.root := rfl

variable {pt i k j : ℕ}

theorem table_concat {path : List ℕ} (h : s.table path = some pt) (i : ℕ) :
    s.table (path ++ [i]) = (s.tables pt i).next := reach_concat_of h

theorem write_self (s : Sv39 F) (pt i : ℕ) (pte : Sv39Pte) :
    (s.write pt i pte).tables pt i = pte := set_self s.tables pt i pte

theorem write_of_ne {c : ℕ} {pte : Sv39Pte} (hne : ¬(c = pt ∧ k = i)) :
    (s.write pt i pte).tables c k = s.tables c k := set_of_ne hne

/-- A write to an entry of the last level. -/
theorem WellFormed.write_leaf (hs : s.WellFormed A K) {pte : Sv39Pte}
    (hpt : s.table [i, j] = some pt) (hpte : pte.v = true ↔ pte.rwx ≠ PageRWX.P) :
    (s.write pt k pte).WellFormed A K ∧ ∀ slot, (s.write pt k pte).found slot =
      if slot = (i, j, k) then (if pte.v then some pte else none) else s.found slot := by
  have hnext : ∀ e : Sv39Pte, (e.v = true ↔ e.rwx ≠ PageRWX.P) → e.next = none := by
    intro e he
    unfold Sv39Pte.next
    rw [if_neg]
    rw [Bool.and_eq_true, beq_iff_eq]
    exact fun h => he.mp h.1 h.2
  have hreach : ∀ path, (s.write pt k pte).table path = s.table path := by
    intro path
    refine congrFun (congrFun (reach_set ?_) s.root) path
    rw [hnext pte hpte, hnext _ (hs.lower _ _ k hpt rfl)]
  have hentry : ∀ {path : List ℕ} {c : ℕ} (l : ℕ), s.table path = some c →
      path ≠ [i, j] → (s.write pt k pte).tables c l = s.tables c l := by
    intro path c l hc hne
    refine write_of_ne fun h => hne ?_
    rw [h.1] at hc
    exact hs.separated _ _ _ hc hpt
  refine ⟨⟨hs.wf, ?_, ?_, ?_, ?_, ?_⟩, ?_⟩
  · intro p q a hp hq
    exact hs.separated p q a ((hreach p).symm.trans hp) ((hreach q).symm.trans hq)
  · intro path c hc
    rw [hreach] at hc
    exact hs.held path c hc
  · intro path c hc
    rw [hreach] at hc
    exact hs.depth path c hc
  · intro path c l hc hlen hk
    rw [hreach] at hc
    rw [hentry l hc fun h => by rw [h] at hlen; cases hlen.ne rfl]
    exact hs.upper path c l hc hlen hk
  · intro path c l hc hlen
    rw [hreach] at hc
    by_cases hcl : c = pt ∧ l = k
    · obtain ⟨rfl, rfl⟩ := hcl
      rwa [write_self]
    · rw [write_of_ne hcl]
      exact hs.lower path c l hc hlen
  · rintro ⟨a, b, l⟩
    unfold found
    rw [hreach]
    by_cases hab : [a, b] = [i, j]
    · obtain ⟨rfl, hb⟩ := cons.inj hab
      obtain ⟨rfl, -⟩ := cons.inj hb
      simp only [hpt, bind_some]
      by_cases hl : l = k
      · subst hl
        rw [write_self, if_pos rfl]
      · have hslot : (a, b, l) ≠ (a, b, k) := fun h => hl (by simpa using h)
        rw [write_of_ne fun h => hl h.2, if_neg hslot]
    · have hslot : (a, b, l) ≠ (i, j, k) := by
        rintro ⟨rfl, rfl, rfl⟩
        exact hab rfl
      rw [if_neg hslot]
      cases hc : s.table [a, b] with
      | none => rfl
      | some c =>
        rw [bind_some, bind_some, hentry l hc hab]

/-- The state after a frame was taken for the table below an entry. -/
def linked (s : Sv39 F) (pt i page : ℕ) (f : F) : Sv39 F :=
  let s := { s with frames := f }.clear page
  s.write pt i ((s.tables pt i).toTable page)

theorem WellFormed.link (hs : s.WellFormed A K) {path : List ℕ} {page : ℕ} {f : F}
    (hpt : s.table path = some pt) (hlen : path.length < 2) (hinvalid : (s.tables pt i).v = false)
    (hget : A.getFreePage s.frames 1 = .ok (.ok page, f)) (hphys : page < 2 ^ 56) :
    (s.linked pt i page f).WellFormed A K ∧ (s.linked pt i page f).table (path ++ [i]) = some page ∧
      fromPpn ((s.linked pt i page f).tables pt i).ppn = page ∧
      ∀ slot, (s.linked pt i page f).found slot = s.found slot := by
  obtain ⟨hwf, hal, hrefs⟩ := A.get_ok _ _ _ _ hs.wf hget
  have hnew := hrefs (pageOf page)
  rw [if_pos ⟨le_rfl, Nat.lt_succ_self _⟩] at hnew
  -- the frame is not that of a table yet
  have hfresh : ∀ q, s.table q ≠ some page := by
    intro q hq
    have := (hs.held q page hq).2
    omega
  have hpage : pt ≠ page := fun h => hfresh path (by rw [hpt, h])
  have hzero : Sv39Pte.zero.next = none := rfl
  have hnone := Sv39Pte.next_of_invalid hinvalid
  have hentry : ((s.clear page).tables pt i) = s.tables pt i := congrFun (update_of_ne hpage _ _) i
  have hppn : fromPpn (((s.tables pt i).toTable page).ppn) = page := fromPpn_toPpn hal hphys
  have hchild : ((s.tables pt i).toTable page).next = some page := congrArg some hppn
  have hreach : ∀ q, (s.linked pt i page f).table q =
      if q = path ++ [i] then some page else s.table q := by
    intro q
    show reach _ (set (s.clear page).tables pt i
      (((s.clear page).tables pt i).toTable page)) s.root q = _
    rw [hentry]
    exact reach_link hs.separated hpt hnone hfresh hzero hchild q
  have hold : ∀ {q c : ℕ} {l : List ℕ}, s.table l = some c → ¬(c = pt ∧ q = i) →
      (s.linked pt i page f).tables c q = s.tables c q := by
    intro q c l hc hne
    refine (write_of_ne hne).trans (congrFun (update_of_ne ?_ _ _) q)
    exact fun h => hfresh l (by rw [hc, h])
  have hblank : ∀ q, (s.linked pt i page f).tables page q = .zero := by
    intro q
    refine (write_of_ne fun h => hpage h.1.symm).trans ?_
    show update s.tables page (fun _ => Sv39Pte.zero) page q = _
    rw [update_self]
  have hself : (s.linked pt i page f).tables pt i = (s.tables pt i).toTable page := by
    refine (write_self _ _ _ _).trans ?_
    exact congrArg (fun e => Sv39Pte.toTable e page) hentry
  refine ⟨⟨hwf, ?_, ?_, ?_, ?_, ?_⟩, ?_, ?_, ?_⟩
  · exact hs.separated.link hpt hnone hfresh hzero hchild
  · intro q c hc
    rw [hreach] at hc
    split at hc
    · cases hc
      show PAGESIZE ∣ page ∧ 0 < A.refs f (pageOf page)
      exact ⟨hal, by omega⟩
    obtain ⟨hdvd, hpos⟩ := hs.held q c hc
    refine ⟨hdvd, ?_⟩
    show 0 < A.refs f (pageOf c)
    have hc' := hrefs (pageOf c)
    split at hc' <;> omega
  · intro q c hc
    rw [hreach] at hc
    split at hc
    · rename_i hq
      rwa [hq, length_append]
    · exact hs.depth q c hc
  · intro q c l hc hq hk
    rw [hreach] at hc
    split at hc
    · cases hc
      rw [hblank]
      exact ⟨rfl, fun h => by cases h⟩
    by_cases hcl : c = pt ∧ l = i
    · obtain ⟨rfl, rfl⟩ := hcl
      rw [hself]
      exact ⟨rfl, fun _ => rfl⟩
    · rw [hold hc hcl]
      exact hs.upper q c l hc hq hk
  · intro q c l hc hq
    rw [hreach] at hc
    split at hc
    · cases hc
      rw [hblank]
      exact ⟨fun h => (by cases h), fun h => absurd rfl h⟩
    have hcl : ¬(c = pt ∧ l = i) := by
      rintro ⟨rfl, -⟩
      have := hs.separated q path c hc hpt
      rw [this] at hq
      omega
    rw [hold hc hcl]
    exact hs.lower q c l hc hq
  · rw [hreach, if_pos rfl]
  · rwa [hself]
  · rintro ⟨a, b, l⟩
    unfold found
    rw [hreach]
    by_cases hab : [a, b] = path ++ [i]
    · rw [if_pos hab, hab, table_concat hpt, hnone, bind_some, hblank]
      rfl
    rw [if_neg hab]
    cases hc : s.table [a, b] with
    | none => rfl
    | some c =>
      have hcl : ¬(c = pt ∧ l = i) := by
        rintro ⟨rfl, -⟩
        have := hs.separated _ path c hc hpt
        rw [← this] at hlen
        exact absurd hlen (by simp)
      rw [bind_some, bind_some, hold hc hcl]

/-! ## The two walks -/

theorem WellFormed.queryLoop_upper (hs : s.WellFormed A K) {path : List ℕ}
    (hpt : s.table path = some pt) (hlen : path.length < 2) (hk : K (path ++ [i])) (level : ℕ)
    (rest : List ℕ) : queryLoop s.tables level pt (i :: rest) =
      match s.table (path ++ [i]) with
      | none => .error .pageNotPresent
      | some next => queryLoop s.tables (level + 1) next rest := by
  have hrwx := (hs.upper path pt i hpt hlen hk).1
  rw [table_concat hpt, queryLoop]
  cases hv : (s.tables pt i).v with
  | false =>
    rw [Sv39Pte.next_of_invalid hv]
    rfl
  | true =>
    rw [Sv39Pte.next_of_valid hv hrwx, if_neg (by simp), if_neg fun h => h hrwx]

/-- **`query_page`** finds the valid entry of the page. -/
theorem WellFormed.queryPage_eq (hs : s.WellFormed A K) {vaddr : ℕ} (hv : Paged K vaddr) :
    s.queryPage vaddr = match s.table [vpn0 vaddr, vpn1 vaddr] with
    | none => .error .pageNotPresent
    | some pt =>
      if (s.tables pt (vpn2 vaddr)).v then .ok ((pt, vpn2 vaddr), ._4K)
      else .error .pageNotPresent := by
  unfold queryPage makeVpn
  rw [hs.queryLoop_upper (table_root s) (by decide) hv.1, nil_append]
  cases hmid : s.table [vpn0 vaddr] with
  | none =>
    have hnone : s.table [vpn0 vaddr, vpn1 vaddr] = none := by
      refine (reach_concat s.tables [vpn0 vaddr] s.root (vpn1 vaddr)).trans ?_
      show (s.table [vpn0 vaddr]).bind _ = none
      rw [hmid, bind_none]
    rw [hnone]
  | some mid =>
    simp only
    rw [hs.queryLoop_upper hmid (by simp) hv.2, singleton_append]
    cases hlast : s.table [vpn0 vaddr, vpn1 vaddr] with
    | none => rfl
    | some pt =>
      have hlower := hs.lower _ pt (vpn2 vaddr) hlast rfl
      simp only [queryLoop]
      cases hv : (s.tables pt (vpn2 vaddr)).v with
      | false => rfl
      | true =>
        rw [if_pos (hlower.mp hv)]
        rfl

/-- How the loop of `map_page` ends for a page. -/
def Walk.Reached (s t : Sv39 F) (slot : ℕ × ℕ × ℕ) : Walk → Prop
  | .target pt i => t.table [slot.1, slot.2.1] = some pt ∧ i = slot.2.2 ∧ s.found slot = none
  | .blocked => s.found slot ≠ none
  | .noMemory => True

theorem found_of_table (hpt : s.table [i, j] = some pt) : s.found (i, j, k) =
    if (s.tables pt k).v then some (s.tables pt k) else none := by
  unfold found
  rw [hpt, bind_some]

variable (hphys : ∀ f a f', A.WF f → A.getFreePage f 1 = .ok (.ok a, f') → a < 2 ^ 56)

include hphys in
/-- **The loop of `map_page`** only adds empty tables, and ends at the entry of the page unless
there is one already. -/
theorem mapLoop_spec (hk : K [i] ∧ K [i, j]) :
    ∀ (rest path : List ℕ) (pt : ℕ) (s : Sv39 F) (w : Walk) (t : Sv39 F),
    s.WellFormed A K → path ++ rest = [i, j, k] → rest ≠ [] → s.table path = some pt →
    mapLoop A pt rest s = .ok (w, t) → w ≠ .noMemory →
      t.WellFormed A K ∧ (∀ slot, t.found slot = s.found slot) ∧ Walk.Reached s t (i, j, k) w := by
  intro rest
  induction rest with
  | nil =>
    intro path pt s w t _ _ hne
    exact absurd rfl hne
  | cons l rest ih =>
    intro path pt s w t hs hpath _ hpt hwalk hw
    have hlen : path.length + rest.length = 2 := by
      have := congrArg length hpath
      simp only [length_append, length_cons, length_nil] at this
      omega
    unfold mapLoop at hwalk
    cases rest with
    | nil =>
      -- the entry of the page
      have hpath' : path ++ [l] = [i, j] ++ [k] := hpath
      obtain ⟨rfl, hl⟩ := append_inj' hpath' rfl
      obtain ⟨rfl, -⟩ := cons.inj hl
      have hlower := hs.lower _ pt l hpt rfl
      have hfound := found_of_table (k := l) hpt
      by_cases hrwx : (s.tables pt l).rwx ≠ PageRWX.P
      · rw [if_pos hrwx] at hwalk
        cases hwalk
        refine ⟨hs, fun _ => rfl, ?_⟩
        show s.found (i, j, l) ≠ none
        rw [hfound, if_pos (hlower.mpr hrwx)]
        exact some_ne_none _
      · have hv : (s.tables pt l).v = false := by
          rw [← Bool.not_eq_true]
          exact fun h => hrwx (hlower.mp h)
        rw [if_neg hrwx, hv, if_neg (by simp), if_neg (by simp),
          if_pos isEmpty_nil] at hwalk
        cases hwalk
        refine ⟨hs, fun _ => rfl, hpt, rfl, ?_⟩
        rw [hfound, hv]
        rfl
    | cons m rest =>
      have hshort : path.length < 2 := by
        rw [length_cons] at hlen
        omega
      have hkl : K (path ++ [l]) := by
        rcases path with _ | ⟨x, _ | ⟨y, tail⟩⟩
        · obtain ⟨rfl, -⟩ := cons.inj hpath
          exact hk.1
        · obtain ⟨rfl, htail⟩ := cons.inj hpath
          obtain ⟨rfl, -⟩ := cons.inj htail
          exact hk.2
        · simp at hshort
      obtain ⟨hrwx, hnp⟩ := hs.upper path pt l hpt hshort hkl
      have hpath' : (path ++ [l]) ++ m :: rest = [i, j, k] := by
        rwa [append_assoc]
      rw [if_neg fun h => h hrwx] at hwalk
      cases hv : (s.tables pt l).v with
      | true =>
        rw [hv, hnp hv, if_neg (by simp), if_pos rfl] at hwalk
        refine ih _ _ s w t hs hpath' (by simp) ?_ hwalk hw
        rw [table_concat hpt, Sv39Pte.next_of_valid hv hrwx]
      | false =>
        rw [hv, if_neg (by simp), if_neg (by simp), if_neg (by simp)] at hwalk
        obtain ⟨⟨res, f⟩, hget, hwalk⟩ := bind_eq_ok_iff.mp hwalk
        cases res with
        | error e =>
          obtain ⟨rfl, -⟩ := ok_inj hwalk
          exact absurd rfl hw
        | ok page =>
          obtain ⟨_, -, hwalk⟩ := bind_eq_ok_iff.mp hwalk
          obtain ⟨hs', htable, hppn, hfound⟩ := hs.link hpt hshort hv hget (hphys _ _ _ hs.wf hget)
          have hrest : mapLoop A (fromPpn ((s.linked pt l page f).tables pt l).ppn)
              (m :: rest) (s.linked pt l page f) = .ok (w, t) := hwalk
          rw [hppn] at hrest
          obtain ⟨hwf, hkeep, hend⟩ := ih _ page _ w t hs' hpath' (by simp) htable hrest hw
          refine ⟨hwf, fun slot => (hkeep slot).trans (hfound slot), ?_⟩
          cases w with
          | target pt' i' => exact ⟨hend.1, hend.2.1, (hfound _).symm.trans hend.2.2⟩
          | blocked => exact fun h => hend ((hfound _).trans h)
          | noMemory => exact absurd rfl hw

/-! ## The operations -/

include hphys in
/-- **`map_page`** enters the page, unless there is an entry already. -/
theorem WellFormed.mapPage (hs : s.WellFormed A K) {vaddr paddr : ℕ} {flags : PageFlags} {w : Walk}
    {t s' : Sv39 F}
    (hv : Paged K vaddr) (hrwx : flags.rwx.cast ≠ PageRWX.P)
    (hwalk : mapLoop A s.root (makeVpn vaddr) s = .ok (w, t)) (hw : w ≠ .noMemory)
    (hmap : mapPage A vaddr paddr flags s = .ok s') : s'.WellFormed A K ∧
      (s.found (pageSlot vaddr) ≠ none → ∀ slot, s'.found slot = s.found slot) ∧
      (s.found (pageSlot vaddr) = none → ∃ pte : Sv39Pte,
        pte.flags = { flags with rwx := flags.rwx.cast } ∧ pte.paddr = fromPpn (toPpn paddr) ∧
          ∀ slot, s'.found slot = if slot = pageSlot vaddr then some pte else s.found slot) := by
  obtain ⟨ht, hkeep, hend⟩ := mapLoop_spec hphys hv (makeVpn vaddr) [] s.root s w t hs rfl
    (cons_ne_nil _ _) (table_root s) hwalk hw
  unfold Sv39.mapPage at hmap
  rw [hwalk] at hmap
  cases w with
  | target pt i =>
    obtain ⟨hpt, rfl, hnone⟩ := hend
    cases hmap
    have hvalid : ((t.tables pt (vpn2 vaddr)).toLeaf paddr flags).v = true ↔
        ((t.tables pt (vpn2 vaddr)).toLeaf paddr flags).rwx ≠ PageRWX.P :=
      ⟨fun _ => hrwx, fun _ => rfl⟩
    have hleaf := ht.write_leaf (k := vpn2 vaddr) hpt hvalid
    refine ⟨hleaf.1, fun h => absurd hnone h, fun _ =>
      ⟨(t.tables pt (vpn2 vaddr)).toLeaf paddr flags, ?_, rfl, fun slot => ?_⟩⟩
    · show PageFlags.mk _ _ _ (!!flags.p) = _
      rw [Bool.not_not]
      rfl
    · rw [← hkeep slot]
      exact hleaf.2 slot
  | blocked =>
    cases hmap
    exact ⟨ht, fun _ => hkeep, fun h => absurd h hend⟩
  | noMemory => exact absurd rfl hw

/-- **`unmap_page`** takes the entry of the page away. -/
theorem WellFormed.unmapPage (hs : s.WellFormed A K) {vaddr : ℕ} (hv : Paged K vaddr) :
    (s.unmapPage vaddr).WellFormed A K ∧ ∀ slot, (s.unmapPage vaddr).found slot =
      if slot = pageSlot vaddr then none else s.found slot := by
  have hsame : s.found (pageSlot vaddr) = none → ∀ slot, s.found slot =
      if slot = pageSlot vaddr then none else s.found slot := by
    intro hnone slot
    split
    · rename_i hslot
      rw [hslot, hnone]
    · rfl
  unfold Sv39.unmapPage
  rw [hs.queryPage_eq hv]
  cases hpt : s.table [vpn0 vaddr, vpn1 vaddr] with
  | none =>
    refine ⟨hs, hsame ?_⟩
    unfold found pageSlot
    rw [hpt]
    rfl
  | some pt =>
    simp only
    cases hv : (s.tables pt (vpn2 vaddr)).v with
    | false =>
      refine ⟨hs, hsame ?_⟩
      unfold pageSlot
      rw [found_of_table hpt, hv]
      rfl
    | true => exact hs.write_leaf hpt ⟨fun h => (by cases h), fun h => absurd rfl h⟩

/-- What `query_page` says about an address: the physical address and the flags of the entry, and
the size of its page. -/
def translate (s : Sv39 F) (vaddr : ℕ) : Option (ℕ × PageFlags × PageSize) :=
  match s.queryPage vaddr with
  | .error _ => none
  | .ok ((pt, i), size) => some ((s.tables pt i).paddr, (s.tables pt i).flags, size)

theorem WellFormed.translate_eq (hs : s.WellFormed A K) {vaddr : ℕ} (hv : Paged K vaddr) :
    s.translate vaddr = (s.found (pageSlot vaddr)).map fun pte => (pte.paddr, pte.flags, ._4K) := by
  unfold translate pageSlot
  rw [hs.queryPage_eq hv]
  cases hpt : s.table [vpn0 vaddr, vpn1 vaddr] with
  | none =>
    unfold found
    simp only [hpt]
    rfl
  | some pt =>
    rw [found_of_table hpt]
    simp only
    cases (s.tables pt (vpn2 vaddr)).v with
    | false => rfl
    | true => rfl

end Steps

/-! ## Runs -/

/-- A call of `map_page<_4K>` or `unmap_page`. -/
inductive Op where
  | map (vaddr paddr : ℕ) (flags : PageFlags)
  | unmap (vaddr : ℕ)

namespace Op

def page : Op → ℕ
  | map vaddr _ _ => vaddr
  | unmap vaddr => vaddr

/-- What a call does to a partial map: a page that is mapped already stays as it is. -/
def apply (op : Op) (m : ℕ → Option (ℕ × PageFlags)) : ℕ → Option (ℕ × PageFlags) :=
  match op with
  | map vaddr paddr flags =>
    if m vaddr = none then update m vaddr (some (paddr, flags)) else m
  | unmap vaddr => update m vaddr none

end Op

/-- An Sv39 address: the bits from 38 on are equal. -/
def Canonical (vaddr : ℕ) : Prop := vaddr < 2 ^ 38 ∨ 2 ^ 64 - 2 ^ 38 ≤ vaddr ∧ vaddr < 2 ^ 64

/-- The addresses are those of pages, the physical one has 56 bits, and the rights are a mode of
the hardware's format. -/
def Op.Legal : Op → Prop
  | .map vaddr paddr flags => PAGESIZE ∣ vaddr ∧ Canonical vaddr ∧ PAGESIZE ∣ paddr ∧
      paddr < 2 ^ 56 ∧ flags.rwx ≠ PageRWX.P ∧ flags.rwx ≠ PageRWX.W ||| PageRWX.X
  | .unmap vaddr => PAGESIZE ∣ vaddr ∧ Canonical vaddr

/-- A call with memory for the tables. -/
inductive Step : Op → Sv39 F → Sv39 F → Prop
  | map {vaddr paddr : ℕ} {flags : PageFlags} {s t s' : Sv39 F} {w : Walk}
      (hwalk : mapLoop A s.root (makeVpn vaddr) s = .ok (w, t)) (hw : w ≠ .noMemory)
      (hmap : mapPage A vaddr paddr flags s = .ok s') : Step (.map vaddr paddr flags) s s'
  | unmap {vaddr : ℕ} {s : Sv39 F} : Step (.unmap vaddr) s (s.unmapPage vaddr)

inductive Run : List Op → Sv39 F → Sv39 F → Prop
  | nil {s : Sv39 F} : Run [] s s
  | cons {op : Op} {ops : List Op} {s t s' : Sv39 F} (hstep : Step A op s t)
      (hrun : Run ops t s') : Run (op :: ops) s s'

/-- A root without entries. -/
def empty (root : ℕ) (f : F) : Sv39 F := ⟨root, fun _ _ => .zero, f⟩

section Refinement

variable {A} {K : List ℕ → Prop} {s s' : Sv39 F}

theorem pageSlot_injective {v w : ℕ} (hv : PAGESIZE ∣ v) (hw : PAGESIZE ∣ w) (hcv : Canonical v)
    (hcw : Canonical w) (h : pageSlot v = pageSlot w) : v = w := by
  unfold pageSlot vpn0 vpn1 vpn2 at h
  simp only [Prod.mk.injEq] at h
  unfold Canonical at hcv hcw
  simp only [PAGESIZE] at hv hw
  omega

/-- The tables and a partial map say the same about all pages with tables on paths in `K`. -/
structure Refines (A : FrameAllocator F) (K : List ℕ → Prop) (s : Sv39 F)
    (m : ℕ → Option (ℕ × PageFlags)) : Prop where
  wellFormed : s.WellFormed A K
  agree : ∀ v, PAGESIZE ∣ v → Canonical v → Paged K v →
    (s.found (pageSlot v)).map (fun pte => (pte.paddr, pte.flags)) = m v

variable {m : ℕ → Option (ℕ × PageFlags)}

variable (hphys : ∀ f a f', A.WF f → A.getFreePage f 1 = .ok (.ok a, f') → a < 2 ^ 56)

include hphys in
theorem Refines.step (h : Refines A K s m) {op : Op} (hlegal : op.Legal) (hpaged : Paged K op.page)
    (hstep : Step A op s s') : Refines A K s' (op.apply m) := by
  cases hstep with
  | @map vaddr paddr flags _ t _ w hwalk hw hmap =>
    obtain ⟨hal, hcan, hpal, hplt, hrwx, hwx⟩ := hlegal
    replace hpaged : Paged K vaddr := hpaged
    have hcast : flags.rwx.cast = flags.rwx := if_neg hwx
    obtain ⟨hs', hkeep, hnew⟩ := h.wellFormed.mapPage hphys hpaged (by rwa [hcast]) hwalk hw hmap
    refine ⟨hs', fun v hv hcv hkv => ?_⟩
    have hpage := h.agree vaddr hal hcan hpaged
    simp only [Op.apply]
    cases hfound : s.found (pageSlot vaddr) with
    | some pte =>
      rw [hfound] at hpage
      rw [hkeep (by rw [hfound]; simp), h.agree v hv hcv hkv, ← hpage, map_some,
        if_neg (some_ne_none _)]
    | none =>
      rw [hfound, map_none] at hpage
      obtain ⟨pte, hflags, hpaddr, hentry⟩ := hnew hfound
      rw [hentry]
      rw [if_pos hpage.symm]
      by_cases hvv : v = vaddr
      · subst hvv
        rw [if_pos rfl, update_self, map_some, hflags, hpaddr, hcast, fromPpn_toPpn hpal hplt]
      · rw [if_neg fun hslot => hvv (pageSlot_injective hv hal hcv hcan hslot), update_of_ne hvv]
        exact h.agree v hv hcv hkv
  | @unmap vaddr =>
    obtain ⟨hal, hcan⟩ := hlegal
    replace hpaged : Paged K vaddr := hpaged
    obtain ⟨hs', hentry⟩ := h.wellFormed.unmapPage hpaged
    refine ⟨hs', fun v hv hcv hkv => ?_⟩
    simp only [Op.apply]
    rw [hentry]
    by_cases hvv : v = vaddr
    · subst hvv
      rw [if_pos rfl, update_self]
      rfl
    · rw [if_neg fun hslot => hvv (pageSlot_injective hv hal hcv hcan hslot), update_of_ne hvv]
      exact h.agree v hv hcv hkv

include hphys in
theorem Refines.run {ops : List Op} (hrun : Run A ops s s') : ∀ {m : ℕ → Option (ℕ × PageFlags)},
    (∀ op ∈ ops, op.Legal ∧ Paged K op.page) → Refines A K s m →
      Refines A K s' (ops.foldl (fun m op => op.apply m) m) := by
  induction hrun with
  | nil =>
    intro m _ h
    exact h
  | cons hstep _ ih =>
    intro m hlegal h
    obtain ⟨hop, hpaged⟩ := hlegal _ mem_cons_self
    exact ih (fun op hop => hlegal op (mem_cons_of_mem _ hop)) (h.step hphys hop hpaged hstep)

theorem Refines.translate (h : Refines A K s m) {v : ℕ} (hv : PAGESIZE ∣ v) (hcv : Canonical v)
    (hkv : Paged K v) : s.translate v = (m v).map fun x => (x.1, x.2, ._4K) := by
  rw [h.wellFormed.translate_eq hkv, ← h.agree v hv hcv hkv, Option.map_map]
  rfl

theorem refines_root (hwf : A.WF s.frames) (hal : PAGESIZE ∣ s.root)
    (hroot : 0 < A.refs s.frames (pageOf s.root)) (hnext : ∀ i, (s.tables s.root i).next = none)
    (hfree : ∀ i, K [i] → s.tables s.root i = .zero) : Refines A K s fun _ => none := by
  have hnone : ∀ i rest, s.table (i :: rest) = none := by
    intro i rest
    show ((s.tables s.root i).next).bind _ = none
    rw [hnext, bind_none]
  have htable : ∀ path pt, s.table path = some pt → path = [] ∧ pt = s.root := by
    intro path pt h
    cases path with
    | nil => exact ⟨rfl, (some.inj h).symm⟩
    | cons i rest => cases (hnone i rest).symm.trans h
  refine ⟨⟨hwf, ?_, ?_, ?_, ?_, ?_⟩, fun v _ _ _ => ?_⟩
  · intro p q a hp hq
    rw [(htable p a hp).1, (htable q a hq).1]
  · intro path pt h
    obtain ⟨rfl, rfl⟩ := htable path pt h
    exact ⟨hal, hroot⟩
  · intro path pt h
    rw [(htable path pt h).1]
    exact Nat.zero_le 2
  · intro path pt i h _ hk
    obtain ⟨rfl, rfl⟩ := htable path pt h
    rw [hfree i hk]
    exact ⟨rfl, fun h => by cases h⟩
  · intro path pt i h hlen
    rw [(htable path pt h).1] at hlen
    cases hlen
  · unfold found
    rw [hnone]
    rfl

end Refinement

end Sv39

open Sv39 in
/-- **Sv39 page tables refine a partial map.**  After a run from an empty root, `query_page` finds
exactly the pages that are mapped, with the address and the flags they were mapped with; and a
further call changes what it says about the page of the call only. -/
theorem sv39_refines {F : Type} {A : FrameAllocator F}
    (hphys : ∀ f a f', A.WF f → A.getFreePage f 1 = .ok (.ok a, f') → a < 2 ^ 56) {root : ℕ} {f : F}
    (hwf : A.WF f) (hal : PAGESIZE ∣ root) (hroot : 0 < A.refs f (pageOf root)) {ops : List Op}
    {s : Sv39 F} (hlegal : ∀ op ∈ ops, op.Legal) (hrun : Run A ops (empty root f) s) :
    (∀ v, PAGESIZE ∣ v → Canonical v → s.translate v =
      (ops.foldl (fun m op => op.apply m) (fun _ => none) v).map fun x => (x.1, x.2, ._4K)) ∧
    ∀ op s', op.Legal → Step A op s s' → ∀ v, PAGESIZE ∣ v → Canonical v → v ≠ op.page →
      s'.translate v = s.translate v := by
  have hpaged : ∀ v, Paged (fun _ => True) v := fun _ => ⟨trivial, trivial⟩
  have h := Refines.run hphys hrun (fun op hop => ⟨hlegal op hop, hpaged _⟩)
    (refines_root hwf hal hroot (fun _ => rfl) fun _ _ => rfl)
  refine ⟨fun v hv hcv => h.translate hv hcv (hpaged v), ?_⟩
  intro op s' hop hstep v hv hcv hne
  rw [(h.step hphys hop (hpaged _) hstep).translate hv hcv (hpaged v),
    h.translate hv hcv (hpaged v)]
  congr 1
  cases op with
  | map vaddr paddr flags =>
    unfold Op.apply
    simp only
    split
    · exact update_of_ne hne _ _
    · rfl
  | unmap vaddr => exact update_of_ne hne _ _

/-! ## One page -/

namespace Sv39

/-- An empty root table in the first of four pages. -/
def oneRoot : Sv39 (Gfp Buddy) :=
  empty 0x10000 (valueOr (.ok 0, ⟨fourPages, fun _ => 0⟩)
    ((gfpFrames buddyRaw).getFreePage ⟨fourPages, fun _ => 0⟩ 1)).2

theorem oneRoot_held : (gfpFrames buddyRaw).WF oneRoot.frames ∧ PAGESIZE ∣ 0x10000 ∧
    0 < (gfpFrames buddyRaw).refs oneRoot.frames (pageOf 0x10000) := by
  have hget := eq_ok_of_returned
    (x := (gfpFrames buddyRaw).getFreePage ⟨fourPages, fun _ => 0⟩ 1) (a := 0x10000)
    ⟨fourPages, fun _ => 0⟩ (by decide)
  obtain ⟨hwf, hal, hrefs⟩ := (gfpFrames buddyRaw).get_ok _ _ _ _ fourPages_wf hget
  have hone := hrefs (pageOf 0x10000)
  rw [if_pos ⟨le_rfl, Nat.lt_succ_self _⟩] at hone
  exact ⟨hwf, hal, lt_of_lt_of_eq one_pos hone.2.symm⟩

/-- The tables after `map_page`. -/
def withPage (vaddr paddr : ℕ) (flags : PageFlags) (s : Sv39 (Gfp Buddy)) : Sv39 (Gfp Buddy) :=
  valueOr s (mapPage (gfpFrames buddyRaw) vaddr paddr flags s)

theorem withPage_step {vaddr paddr : ℕ} {flags : PageFlags} {s : Sv39 (Gfp Buddy)}
    (hwalk : (mapLoop (gfpFrames buddyRaw) s.root (makeVpn vaddr) s).isOk = true)
    (hw : (valueOr (Walk.noMemory, s)
      (mapLoop (gfpFrames buddyRaw) s.root (makeVpn vaddr) s)).1 ≠ .noMemory)
    (hmap : (mapPage (gfpFrames buddyRaw) vaddr paddr flags s).isOk = true) :
    Step (gfpFrames buddyRaw) (.map vaddr paddr flags) s (s.withPage vaddr paddr flags) :=
  Step.map (eq_ok_valueOr hwalk) hw (eq_ok_valueOr hmap)

theorem gfpFrames_physical (f : Gfp Buddy) (a : ℕ) (f' : Gfp Buddy)
    (hwf : (gfpFrames buddyRaw).WF f)
    (hget : (gfpFrames buddyRaw).getFreePage f 1 = .ok (.ok a, f')) : a < 2 ^ 56 := by
  obtain ⟨hwf', -, hrefs⟩ := (gfpFrames buddyRaw).get_ok _ _ _ _ hwf hget
  have hone := hrefs (pageOf a)
  rw [if_pos ⟨le_rfl, Nat.lt_succ_self _⟩] at hone
  have hlow := Gfp.WF.tracked hwf' (pageOf a) (by
    show 0 < (gfpFrames buddyRaw).refs f' (pageOf a)
    omega)
  simp only [MAX_TRACKED_PAGES, PAGESIZE, pageOf] at hlow
  omega

/-- A page that user code can read and write. -/
def userPage : PageFlags := ⟨PageRWX.RW, true, false, true⟩

end Sv39

open Sv39 in
/-- Two pages are mapped and one of them is unmapped; the other one is found. -/
theorem sv39_refines_two :
    let s := ((oneRoot.withPage 0x1000 0x5000 userPage).withPage 0x2000 0x6000 userPage).unmapPage
      0x1000
    s.translate 0x1000 = none ∧ s.translate 0x2000 = some (0x6000, userPage, ._4K) := by
  obtain ⟨hwf, hal, hroot⟩ := oneRoot_held
  have hrun : Run (gfpFrames buddyRaw)
      [.map 0x1000 0x5000 userPage, .map 0x2000 0x6000 userPage, .unmap 0x1000] oneRoot _ :=
    .cons (withPage_step (by decide) (by decide) (by decide))
      (.cons (withPage_step (by decide +kernel) (by decide +kernel) (by decide +kernel))
        (.cons .unmap .nil))
  have hlegal : ∀ op ∈ [Op.map 0x1000 0x5000 userPage, .map 0x2000 0x6000 userPage, .unmap 0x1000],
      op.Legal := by
    have hlow : ∀ {v}, v < 2 ^ 38 → Canonical v := fun h => .inl h
    refine forall_mem_cons.mpr ⟨?_, forall_mem_cons.mpr ⟨?_, forall_mem_cons.mpr ⟨?_, nofun⟩⟩⟩
    · exact ⟨by decide, hlow (by decide), by decide, by decide, by decide, by decide⟩
    · exact ⟨by decide, hlow (by decide), by decide, by decide, by decide, by decide⟩
    · exact ⟨by decide, hlow (by decide)⟩
  have h := (sv39_refines gfpFrames_physical hwf hal hroot hlegal hrun).1
  exact ⟨(h 0x1000 (by decide) (.inl (by decide))).trans rfl,
    (h 0x2000 (by decide) (.inl (by decide))).trans rfl⟩

open Sv39 in
/-- **Addresses that differ above bit 38 share their entry**, and a page that may be written and
executed but not read is not found. -/
theorem sv39_aliases :
    (∃ s, Run (gfpFrames buddyRaw) [.map 0x1000 0x5000 userPage] oneRoot s ∧
      s.translate (2 ^ 39 + 0x1000) = some (0x5000, userPage, ._4K)) ∧
    ∃ s, Run (gfpFrames buddyRaw) [.map 0x1000 0x5000 ⟨0b110, true, false, true⟩] oneRoot s ∧
      s.translate 0x1000 = none :=
  ⟨⟨_, Run.cons (withPage_step (by decide) (by decide) (by decide)) Run.nil, by decide +kernel⟩,
    ⟨_, Run.cons (withPage_step (by decide) (by decide) (by decide)) Run.nil, by decide +kernel⟩⟩

end Sustcore
