/-
# Changing the flags of a range (`kernel/arch/riscv64/mem/sv39.h`)

`modify_range_flags` asks `query_page` for the entry of an address, changes the entry and goes on
behind the page that it maps.  It returns at the first address without an entry, and subtracts the
size of the page from the number of pages that are left, whatever this number is.

A range is counted in pages from the one of its first byte.  If it starts where a page starts, the
call changes the page of every address up to the first hole or to the end of the count, and up to
the first hole if a page lies across this end (`Passed`).  `modify_range_flags_exact` says which
tables and ranges this is right for.
-/
import Sustcore.Sv39

namespace Sustcore

open Option List

/-- `PageModifier`: the flags that are changed. -/
structure PageModifier where
  rwx : BitVec 3
  u : Bool
  g : Bool
  p : Bool

/-- `PageModifier::ALL`. -/
def PageModifier.ALL : PageModifier := ⟨0b111, true, true, true⟩

def PageSize.psize : PageSize → ℕ
  | ._4K => 0x1000
  | ._2M => 0x200000
  | ._1G => 0x40000000

def Sv39Pte.modifyPte (m : PageModifier) (flags : PageFlags) (pte : Sv39Pte) : Sv39Pte :=
  { pte with
    rwx := (pte.rwx &&& ~~~m.rwx) ||| (flags.rwx.cast &&& m.rwx)
    u := if m.u then flags.u else pte.u
    g := if m.g then flags.g else pte.g
    np := if m.p then !flags.p else pte.np }

namespace Sv39

variable {F : Type} (m : PageModifier) (flags : PageFlags)

/-- The entry at a place is changed. -/
def modifyAt (place : ℕ × ℕ) (s : Sv39 F) : Sv39 F :=
  s.write place.1 place.2 ((s.tables place.1 place.2).modifyPte m flags)

/-- One round of the loop of `modify_range_flags`: the entry of the page at `va`, if there is one,
and where the loop goes on. -/
def visit (s : Sv39 F) (va remcnt : ℕ) : Option ((ℕ × ℕ) × ℕ × ℕ) :=
  if remcnt = 0 then none
  else
    match s.queryPage va with
    | .error _ => none
    | .ok (place, size) => some (place, (va + size.psize) % 2 ^ 64,
        (remcnt + 2 ^ 64 - size.psize / PAGESIZE) % 2 ^ 64)

/-- The loop; with `none` it has not come to its end. -/
def modifyLoop : ℕ → ℕ → ℕ → Sv39 F → Option (Sv39 F)
  | 0, _, _, _ => none
  | fuel + 1, va, remcnt, s =>
    match s.visit va remcnt with
    | none => some s
    | some (place, va, remcnt) => modifyLoop fuel va remcnt (s.modifyAt m flags place)

def modifyRangeFlags (fuel vstart size : ℕ) (s : Sv39 F) : Option (Sv39 F) :=
  modifyLoop m flags fuel (pageAlignDown vstart) (pageAlignUp size / PAGESIZE) s

/-- The page of the address has a byte of the range. -/
def InRange (vstart size vaddr : ℕ) : Prop :=
  0 < size ∧ vstart / PAGESIZE ≤ vaddr / PAGESIZE ∧ pageAlignDown vaddr < vstart + size

instance (vstart size vaddr : ℕ) : Decidable (InRange vstart size vaddr) :=
  inferInstanceAs (Decidable (_ ∧ _))

/-- The address is mapped by an entry. -/
def Found (s : Sv39 F) (vaddr : ℕ) (place : ℕ × ℕ) : Prop :=
  ∃ size, s.queryPage vaddr = .ok (place, size)

/-- The call ends; every address finds the entry that it found before, with the new flags if its
page is in the range, and as it was if it is not. -/
def ChangesExactly (vstart size : ℕ) (s : Sv39 F) : Prop :=
  ∃ fuel s', s.modifyRangeFlags m flags fuel vstart size = some s' ∧ ∀ vaddr, Canonical vaddr →
    s'.queryPage vaddr = s.queryPage vaddr ∧
    ∀ place, s.Found vaddr place → s'.tables place.1 place.2 =
      if InRange vstart size vaddr then (s.tables place.1 place.2).modifyPte m flags
      else s.tables place.1 place.2

/-! ## Tables and ranges

The pages that are counted are those from `a`, the page of the first byte, to `b`. -/

/-- The end of the pages that are counted. -/
def countEnd (vstart size : ℕ) : ℕ := pageAlignDown vstart + pageAlignUp size

/-- There is no hole from the start of the range to the address. -/
def Unbroken (s : Sv39 F) (a x : ℕ) : Prop := ∀ y, a ≤ y → y ≤ x → ∃ place, s.Found y place

/-- No page lies across the address. -/
def Boundary (s : Sv39 F) (x : ℕ) : Prop :=
  ∀ place size, s.queryPage x = .ok (place, size) → size.psize ∣ x

/-- A page lies across the end of the count, and there is no hole before it. -/
def Across (s : Sv39 F) (a b : ℕ) : Prop := a < b ∧ s.Unbroken a b ∧ ¬s.Boundary b

/-- No page lies across the start of the range. -/
def StartsPage (s : Sv39 F) (a b : ℕ) : Prop := a < b → s.Boundary a

/-- Before the first hole, and before the end of the count if no page lies across it. -/
def Passed (s : Sv39 F) (a b x : ℕ) : Prop := a ≤ x ∧ s.Unbroken a x ∧ (x < b ∨ s.Across a b)

/-- The entry has the flags already. -/
def HasFlags (s : Sv39 F) (place : ℕ × ℕ) : Prop :=
  (s.tables place.1 place.2).modifyPte m flags = s.tables place.1 place.2

/-- The entry keeps some right. -/
def KeepsRights (s : Sv39 F) (place : ℕ × ℕ) : Prop :=
  ((s.tables place.1 place.2).modifyPte m flags).rwx ≠ PageRWX.P

/-- No page loses all its rights. -/
def LeavesRights (a b : ℕ) (s : Sv39 F) : Prop :=
  ∀ x place, s.Passed a b x → s.Found x place → s.KeepsRights m flags place

/-- The mapped pages of the range are those before the first hole, and they are in the range as a
whole, entries in `done` apart.  If a page lies across the end of the count, there is a hole. -/
structure Tiles (s : Sv39 F) (a b : ℕ) (range : ℕ → Prop) (done : ℕ × ℕ → Prop) : Prop where
  ends : s.Across a b → ∃ x, ∀ place, ¬s.Found x place
  reached : ∀ vaddr place, Canonical vaddr → range vaddr → s.Found vaddr place →
    done place ∨ ∃ x, s.Passed a b x ∧ s.Found x place
  inside : ∀ x vaddr place, s.Passed a b x → s.Found x place → Canonical vaddr →
    s.Found vaddr place → done place ∨ range vaddr

/-! ## The entries that are found -/

theorem queryLoop_eq_ok {tables : ℕ → ℕ → Sv39Pte} {l : List ℕ} {level pt pt' i : ℕ}
    {size : PageSize} (h : queryLoop tables level pt l = .ok ((pt', i), size)) :
    (tables pt' i).rwx ≠ PageRWX.P := by
  induction l generalizing level pt with
  | nil => cases h
  | cons j rest ih =>
    unfold queryLoop at h
    split at h
    · cases h
    split at h
    · rename_i hrwx
      cases h
      exact hrwx
    · exact ih h

/-- Only the valid bits, the frames and whether there are rights matter for the walks. -/
theorem queryLoop_congr {tables tables' : ℕ → ℕ → Sv39Pte}
    (h : ∀ pt i, (tables' pt i).v = (tables pt i).v ∧ (tables' pt i).ppn = (tables pt i).ppn ∧
      ((tables' pt i).rwx = PageRWX.P ↔ (tables pt i).rwx = PageRWX.P)) (l : List ℕ)
    (level pt : ℕ) : queryLoop tables' level pt l = queryLoop tables level pt l := by
  induction l generalizing level pt with
  | nil => rfl
  | cons i rest ih =>
    obtain ⟨hv, hppn, hrwx⟩ := h pt i
    unfold queryLoop
    rw [hv, hppn, ih]
    simp only [ne_eq, hrwx]

variable {m flags} {s s' : Sv39 F} {place : ℕ × ℕ} {fuel va remcnt a b x y vstart size : ℕ}
  {psz : PageSize}

theorem queryPage_mod (s : Sv39 F) (h : x % 2 ^ 39 = y % 2 ^ 39) :
    s.queryPage x = s.queryPage y := by
  unfold queryPage makeVpn vpn0 vpn1 vpn2
  rw [show x / 2 ^ 30 % 512 = y / 2 ^ 30 % 512 by omega,
    show x / 2 ^ 21 % 512 = y / 2 ^ 21 % 512 by omega,
    show x / 2 ^ 12 % 512 = y / 2 ^ 12 % 512 by omega]

/-- Every entry that is found is found from a canonical address. -/
theorem exists_canonical (s : Sv39 F) (va : ℕ) :
    ∃ vaddr, Canonical vaddr ∧ s.queryPage vaddr = s.queryPage va := by
  by_cases hlow : va % 2 ^ 39 < 2 ^ 38
  · exact ⟨va % 2 ^ 39, .inl hlow, s.queryPage_mod (by omega)⟩
  · exact ⟨va % 2 ^ 39 + (2 ^ 64 - 2 ^ 39), .inr (by omega), s.queryPage_mod (by omega)⟩

/-- **A page**: all its addresses find its entry. -/
theorem queryPage_page (h : s.queryPage x = .ok (place, psz)) (hxy : y / psz.psize = x / psz.psize) :
    s.queryPage y = .ok (place, psz) := by
  simp only [queryPage, makeVpn, queryLoop] at h ⊢
  split_ifs at h with hv0 hr0 hv1 hr1 hv2 hr2
  · cases h
    have h0 : vpn0 y = vpn0 x := congrArg (· % 512) hxy
    rw [h0, if_neg hv0, if_pos hr0]
  · cases h
    replace hxy : y / 2 ^ 21 = x / 2 ^ 21 := hxy
    have h0 : vpn0 y = vpn0 x := by unfold vpn0; omega
    have h1 : vpn1 y = vpn1 x := congrArg (· % 512) hxy
    rw [h0, if_neg hv0, if_neg hr0, h1, if_neg hv1, if_pos hr1]
  · cases h
    replace hxy : y / 2 ^ 12 = x / 2 ^ 12 := hxy
    have h0 : vpn0 y = vpn0 x := by unfold vpn0; omega
    have h1 : vpn1 y = vpn1 x := by unfold vpn1; omega
    have h2 : vpn2 y = vpn2 x := congrArg (· % 512) hxy
    rw [h0, if_neg hv0, if_neg hr0, h1, if_neg hv1, if_neg hr1, h2, if_neg hv2, if_pos hr2]

theorem page_div (hx : psz.psize ∣ x) (hle : x ≤ y) (hlt : y < x + psz.psize) :
    y / psz.psize = x / psz.psize := by
  cases psz <;> simp only [PageSize.psize] at hx hlt ⊢ <;> omega

theorem psize_pos (psz : PageSize) : 0 < psz.psize := by
  cases psz <;> decide

theorem Boundary.next (hx : s.Boundary x) (hfound : s.queryPage x = .ok (place, psz)) :
    s.Boundary (x + psz.psize) := by
  intro place' psz' hnext
  have hdvd := hx place psz hfound
  by_contra hnot
  -- a larger page at the boundary would be the page of `x` too
  have hsame : x / psz'.psize = (x + psz.psize) / psz'.psize := by
    cases psz <;> cases psz' <;> simp only [PageSize.psize] at hdvd hnot ⊢ <;> omega
  have heq := (queryPage_page hnext hsame).symm.trans hfound
  cases heq
  exact hnot (dvd_add hdvd dvd_rfl)

theorem Boundary.mod (hx : s.Boundary x) (h : x % 2 ^ 76 = y % 2 ^ 76) : s.Boundary y := by
  intro place psz hfound
  have hdvd := hx place psz ((s.queryPage_mod (by omega)).trans hfound)
  cases psz <;> simp only [PageSize.psize] at hdvd ⊢ <;> omega

theorem Boundary.page_le (hy : s.Boundary y) (hx : s.Boundary x) (hlt : x < y)
    (hfound : s.queryPage x = .ok (place, psz)) : x + psz.psize ≤ y := by
  have hdvd := hx place psz hfound
  by_contra hnot
  have hy' := queryPage_page hfound (page_div hdvd hlt.le (not_le.mp hnot))
  have hdvd' := hy place psz hy'
  cases psz <;> simp only [PageSize.psize] at hdvd hdvd' hnot <;> omega

/-! ## The entries that are changed -/

theorem modifyPte_twice (pte : Sv39Pte) :
    (pte.modifyPte m flags).modifyPte m flags = pte.modifyPte m flags := by
  have hbits : ∀ x y z : BitVec 3,
      ((x &&& ~~~y) ||| (z &&& y)) &&& ~~~y ||| (z &&& y) = (x &&& ~~~y) ||| (z &&& y) := by
    decide
  obtain ⟨rwx, u, g, p⟩ := m
  unfold Sv39Pte.modifyPte
  simp only [hbits]
  cases u <;> cases g <;> cases p <;> rfl

theorem modifyAt_self : (s.modifyAt m flags place).tables place.1 place.2 =
    (s.tables place.1 place.2).modifyPte m flags := write_self ..

theorem modifyAt_of_ne {pt i : ℕ} (hne : (pt, i) ≠ place) :
    (s.modifyAt m flags place).tables pt i = s.tables pt i :=
  write_of_ne fun h => hne (Prod.ext h.1 h.2)

/-- The entries of the addresses from `a` to `x`. -/
def entries (s : Sv39 F) (a x : ℕ) : Set (ℕ × ℕ) := {place | ∃ y, a ≤ y ∧ y < x ∧ s.Found y place}

theorem entries_next (hle : a ≤ x) (hx : s.Boundary x)
    (hfound : s.queryPage x = .ok (place, psz)) :
    s.entries a (x + psz.psize) = insert place (s.entries a x) := by
  have hpos := psize_pos psz
  ext p
  constructor
  · rintro ⟨y, hy, hlt, size, hsize⟩
    by_cases hxy : y < x
    · exact .inr ⟨y, hy, hxy, size, hsize⟩
    · have hpage := page_div (hx place psz hfound) (not_lt.mp hxy) hlt
      cases hsize.symm.trans (queryPage_page hfound hpage)
      exact .inl rfl
  · rintro (rfl | ⟨y, hy, hlt, hp⟩)
    · exact ⟨x, hle, by omega, psz, hfound⟩
    · exact ⟨y, hy, by omega, hp⟩

open Classical in
variable (m flags) in
/-- Some entries are changed. -/
noncomputable def changed (places : Set (ℕ × ℕ)) (s : Sv39 F) : Sv39 F :=
  { s with tables := fun pt i =>
      if (pt, i) ∈ places then (s.tables pt i).modifyPte m flags else s.tables pt i }

variable {places : Set (ℕ × ℕ)}

theorem changed_insert : (s.changed m flags places).modifyAt m flags place =
    s.changed m flags (insert place places) := by
  have htables : ∀ pt i, ((s.changed m flags places).modifyAt m flags place).tables pt i =
      (s.changed m flags (insert place places)).tables pt i := by
    intro pt i
    by_cases heq : (pt, i) = place
    · subst heq
      rw [modifyAt_self]
      simp only [changed, Set.mem_insert_iff, true_or, if_true]
      split_ifs
      · exact modifyPte_twice _
      · rfl
    · rw [modifyAt_of_ne heq]
      have hmem : (pt, i) ∈ insert place places ↔ (pt, i) ∈ places := by
        simp [heq]
      simp only [changed]
      split_ifs with hin hin' hin'
      · rfl
      · exact absurd (hmem.mpr hin) hin'
      · exact absurd (hmem.mp hin') hin
      · rfl
  exact congrArg (fun t => (⟨s.root, t, s.frames⟩ : Sv39 F))
    (funext fun pt => funext fun i => htables pt i)

/-- Changes that leave rights do not show in the walks. -/
theorem queryPage_changed (hkeeps : ∀ place ∈ places, s.KeepsRights m flags place)
    (hfound : ∀ place ∈ places, ∃ x, s.Found x place) (vaddr : ℕ) :
    (s.changed m flags places).queryPage vaddr = s.queryPage vaddr := by
  apply queryLoop_congr
  intro pt i
  simp only [changed]
  split_ifs with hmem
  · obtain ⟨x, size, hx⟩ := hfound _ hmem
    exact ⟨rfl, rfl, iff_of_false (hkeeps _ hmem) (queryLoop_eq_ok hx)⟩
  · exact ⟨rfl, rfl, Iff.rfl⟩

/-! ## The loop -/

theorem modifyLoop_found (hrem : remcnt ≠ 0) (hfound : s.queryPage va = .ok (place, psz)) :
    s.modifyLoop m flags (fuel + 1) va remcnt =
      (s.modifyAt m flags place).modifyLoop m flags fuel ((va + psz.psize) % 2 ^ 64)
        ((remcnt + 2 ^ 64 - psz.psize / PAGESIZE) % 2 ^ 64) := by
  conv_lhs => unfold modifyLoop visit
  rw [if_neg hrem, hfound]

theorem modifyLoop_stop (h : remcnt = 0 ∨ ∀ place, ¬s.Found va place) :
    s.modifyLoop m flags (fuel + 1) va remcnt = some s := by
  unfold modifyLoop visit
  by_cases hrem : remcnt = 0
  · rw [if_pos hrem]
  · rw [if_neg hrem]
    cases hquery : s.queryPage va with
    | error e => rfl
    | ok found => exact absurd ⟨_, hquery⟩ (h.resolve_left hrem found.1)

/-- A loop that has come to its end is not changed by more fuel, and an entry is changed by it once
or not at all. -/
theorem modifyLoop_end (h : s.modifyLoop m flags fuel va remcnt = some s') :
    (∀ k, s.modifyLoop m flags (fuel + k) va remcnt = some s') ∧
    ∀ pt i, s'.tables pt i = s.tables pt i ∨
      (s.tables pt i).rwx ≠ PageRWX.P ∧ s'.tables pt i = (s.tables pt i).modifyPte m flags := by
  induction fuel generalizing s va remcnt with
  | zero => cases h
  | succ fuel ih =>
    by_cases hstop : remcnt = 0 ∨ ∀ place, ¬s.Found va place
    · rw [modifyLoop_stop hstop] at h
      cases h
      refine ⟨fun k => ?_, fun _ _ => .inl rfl⟩
      rw [Nat.add_right_comm]
      exact modifyLoop_stop hstop
    obtain ⟨hrem, hfound⟩ := not_or.mp hstop
    obtain ⟨place, psz, hfound⟩ := not_forall_not.mp hfound
    rw [modifyLoop_found hrem hfound] at h
    obtain ⟨hmore, htables⟩ := ih h
    refine ⟨fun k => ?_, fun pt i => ?_⟩
    · rw [Nat.add_right_comm, modifyLoop_found hrem hfound]
      exact hmore k
    · by_cases heq : (pt, i) = place
      · subst heq
        have hentry := htables pt i
        rw [modifyAt_self, modifyPte_twice] at hentry
        exact .inr ⟨queryLoop_eq_ok hfound, hentry.elim id And.right⟩
      · have hentry := htables pt i
        rwa [modifyAt_of_ne heq] at hentry

theorem pageAlignUp_lt (size : ℕ) : pageAlignUp size < 2 ^ 64 :=
  (Nat.div_mul_le_self _ _).trans_lt (Nat.mod_lt _ (by decide))

theorem count_next {r n x : ℕ} (hn : n ≤ 2 ^ 18) :
    ((r + 2 ^ 64 - n) % 2 ^ 64 * PAGESIZE + (x + n * PAGESIZE)) % 2 ^ 76 =
      (r * PAGESIZE + x) % 2 ^ 76 := by
  have h : PAGESIZE = 4096 := rfl
  rw [h]
  omega

/-- The loop at `x`, when it has changed the entries before. -/
noncomputable def loopAt (m : PageModifier) (flags : PageFlags) (s : Sv39 F) (a fuel x remcnt : ℕ) :
    Option (Sv39 F) :=
  (s.changed m flags (s.entries a x)).modifyLoop m flags fuel (x % 2 ^ 64) remcnt

/-- There are as many pages left as there are from `x` to the end of the count. -/
def Left (b x remcnt : ℕ) : Prop :=
  remcnt < 2 ^ 64 ∧ (remcnt * PAGESIZE + x) % 2 ^ 76 = b % 2 ^ 76

/-- The pages before `x` are passed and keep a right. -/
def PassedTo (m : PageModifier) (flags : PageFlags) (s : Sv39 F) (a b x : ℕ) : Prop :=
  ∀ y, a ≤ y → y < x → s.Passed a b y ∧ ∀ place, s.Found y place → s.KeepsRights m flags place

theorem PassedTo.queryPage (h : PassedTo m flags s a b x) (vaddr : ℕ) :
    (s.changed m flags (s.entries a x)).queryPage vaddr = s.queryPage vaddr := by
  apply queryPage_changed
  · rintro p ⟨y, hy, hlt, hp⟩
    exact (h y hy hlt).2 p hp
  · rintro p ⟨y, -, -, hp⟩
    exact ⟨y, hp⟩

/-- **One round of the loop.** -/
theorem loopAt_next (hle : a ≤ x) (hleft : Left b x remcnt) (hx : s.Boundary x)
    (hpassed : PassedTo m flags s a b x) (hne : x % 2 ^ 76 ≠ b % 2 ^ 76)
    (hfound : s.queryPage x = .ok (place, psz)) :
    ∃ remcnt', Left b (x + psz.psize) remcnt' ∧ ∀ fuel,
      loopAt m flags s a (fuel + 1) x remcnt = loopAt m flags s a fuel (x + psz.psize) remcnt' := by
  obtain ⟨hlt, hrem⟩ := hleft
  have hnonzero : remcnt ≠ 0 := by
    rintro rfl
    rw [Nat.zero_mul, Nat.zero_add] at hrem
    exact hne hrem
  have hquery : (s.changed m flags (s.entries a x)).queryPage (x % 2 ^ 64) = .ok (place, psz) := by
    rw [hpassed.queryPage, ← hfound]
    exact s.queryPage_mod (by omega)
  obtain ⟨n, hn, hpages⟩ : ∃ n ≤ 2 ^ 18, psz.psize = n * PAGESIZE := by
    cases psz
    · exact ⟨1, by decide, rfl⟩
    · exact ⟨2 ^ 9, by decide, rfl⟩
    · exact ⟨2 ^ 18, by decide, rfl⟩
  refine ⟨(remcnt + 2 ^ 64 - psz.psize / PAGESIZE) % 2 ^ 64, ⟨Nat.mod_lt _ (by decide), ?_⟩, ?_⟩
  · rw [hpages, Nat.mul_div_cancel n (by decide), ← hrem]
    exact count_next hn
  · intro fuel
    unfold loopAt
    rw [modifyLoop_found hnonzero hquery, changed_insert, entries_next hle hx hfound,
      show (x % 2 ^ 64 + psz.psize) % 2 ^ 64 = (x + psz.psize) % 2 ^ 64 by omega]

/-- An address before the end of the loop is not the end of the count. -/
theorem Passed.ne_end (h : s.Passed a b x) (hb : b < a + 2 ^ 64) (hx : s.Boundary x) :
    x % 2 ^ 76 ≠ b % 2 ^ 76 := by
  intro heq
  obtain ⟨hle, -, hlt | ⟨-, -, hnot⟩⟩ := h
  · omega
  · exact hnot (hx.mod heq)

/-- **The loop** comes to `e` if there is no hole and no page across `e`. -/
theorem loopAt_advance {e : ℕ} (hb : b < a + 2 ^ 64) (hpassed : PassedTo m flags s a b e)
    (he : x < e → s.Boundary e) (hx : x < e → s.Boundary x) (hax : a ≤ x) (hle : x ≤ e)
    (hleft : Left b x remcnt) :
    ∃ k remcnt', Left b e remcnt' ∧ ∀ fuel,
      loopAt m flags s a (fuel + k) x remcnt = loopAt m flags s a fuel e remcnt' := by
  -- by induction on the distance to `e`
  induction hd : e - x using Nat.strong_induction_on generalizing x remcnt with
  | _ d ih =>
  by_cases heq : x = e
  · subst heq
    exact ⟨0, remcnt, hleft, fun _ => rfl⟩
  have hlt : x < e := by omega
  have hp := (hpassed x hax hlt).1
  obtain ⟨place, psz, hfound⟩ := hp.2.1 x hax le_rfl
  have hpos := psize_pos psz
  obtain ⟨remcnt₁, hleft₁, hstep⟩ := loopAt_next hax hleft (hx hlt)
    (fun y hy hyx => hpassed y hy (hyx.trans hlt)) (hp.ne_end hb (hx hlt)) hfound
  obtain ⟨k, remcnt', hleft', hrest⟩ := ih (e - (x + psz.psize)) (by omega) (fun _ => he hlt)
    (fun _ => (hx hlt).next hfound) (by omega) ((he hlt).page_le (hx hlt) hlt hfound) hleft₁ rfl
  refine ⟨k + 1, remcnt', hleft', fun fuel => ?_⟩
  rw [← Nat.add_assoc, hstep, hrest]

/-- A page across the end of the count, and no hole: the loop goes round and round. -/
theorem loopAt_endless (hb : b < a + 2 ^ 64) (hpassed : ∀ e, PassedTo m flags s a b e)
    (hx : s.Boundary x) (hle : a ≤ x) (hleft : Left b x remcnt) :
    loopAt m flags s a fuel x remcnt = none := by
  induction fuel generalizing x remcnt with
  | zero => rfl
  | succ fuel ih =>
    have hp := (hpassed (x + 1) x hle (Nat.lt_succ_self x)).1
    obtain ⟨place, psz, hfound⟩ := hp.2.1 x hle le_rfl
    obtain ⟨remcnt', hleft', hstep⟩ :=
      loopAt_next hle hleft hx (hpassed x) (hp.ne_end hb hx) hfound
    rw [hstep]
    exact ih (hx.next hfound) (by omega) hleft'

theorem modifyRangeFlags_start (m : PageModifier) (flags : PageFlags) (s : Sv39 F) (size : ℕ)
    (hv : vstart < 2 ^ 64) :
    ∃ remcnt, Left (countEnd vstart size) (pageAlignDown vstart) remcnt ∧ ∀ fuel,
      s.modifyRangeFlags m flags fuel vstart size =
        loopAt m flags s (pageAlignDown vstart) fuel (pageAlignDown vstart) remcnt := by
  refine ⟨pageAlignUp size / PAGESIZE, ⟨?_, ?_⟩, fun fuel => ?_⟩
  · exact (Nat.div_le_self _ _).trans_lt (pageAlignUp_lt size)
  · unfold countEnd pageAlignUp
    rw [Nat.mul_div_cancel _ (by decide), Nat.add_comm]
  · have hnone : s.entries (pageAlignDown vstart) (pageAlignDown vstart) = ∅ := by
      apply Set.eq_empty_of_forall_notMem
      rintro p ⟨y, hle, hlt, -⟩
      omega
    have hsame : s.changed m flags ∅ = s := by
      simp [changed]
    have hlt : pageAlignDown vstart < 2 ^ 64 := (Nat.div_mul_le_self _ _).trans_lt hv
    unfold loopAt
    rw [hnone, hsame, Nat.mod_eq_of_lt hlt]
    rfl

section

variable {e : ℕ} (hto : PassedTo m flags s a b e)

include hto

theorem PassedTo.unbroken (hfound : ∃ place, s.Found e place) : s.Unbroken a e := by
  intro y hy hye
  rcases Nat.lt_or_eq_of_le hye with hlt | rfl
  · exact (hto y hy hlt).1.2.1 y hy le_rfl
  · exact hfound

variable (hle : a ≤ e)

include hle

theorem PassedTo.stop (hab : a ≤ b) (hp : ¬s.Passed a b e) :
    (e = b ∧ ¬s.Across a b) ∨ ∀ place, ¬s.Found e place := by
  by_cases hhole : ∃ place, s.Found e place
  · obtain ⟨hge, hnot⟩ := not_or.mp fun h => hp ⟨hle, hto.unbroken hhole, h⟩
    refine .inl ⟨le_antisymm (not_lt.mp fun hlt => ?_) (not_lt.mp hge), hnot⟩
    exact hnot ((hto b hab hlt).1.2.2.resolve_left (lt_irrefl b))
  · exact .inr (not_exists.mp hhole)

theorem PassedTo.passed_iff (hp : ¬s.Passed a b e) : s.Passed a b x ↔ a ≤ x ∧ x < e := by
  refine ⟨fun hx => ⟨hx.1, ?_⟩, fun ⟨hx, hlt⟩ => (hto x hx hlt).1⟩
  by_contra hge
  exact hp ⟨hle, fun y hy hye => hx.2.1 y hy (hye.trans (not_lt.mp hge)),
    hx.2.2.imp_left (not_lt.mp hge).trans_lt⟩

variable (hbound : b < a + 2 ^ 64) (hstart : s.StartsPage a b) (hleft : Left b a remcnt)

include hbound hstart hleft

/-- There is a hole at `e`, or the count ends. -/
theorem loopAt_stops (hab : a ≤ b) (hp : ¬s.Passed a b e) : ∃ fuel,
    loopAt m flags s a fuel a remcnt =
      some (s.changed m flags {place | ∃ x, s.Passed a b x ∧ s.Found x place}) := by
  have hstop := hto.stop hle hab hp
  have hset : s.entries a e = {place | ∃ x, s.Passed a b x ∧ s.Found x place} := by
    ext p
    simp only [entries, hto.passed_iff hle hp, and_assoc, Set.mem_ofPred_eq]
  have hbounds : a < e → s.Boundary a ∧ s.Boundary e := by
    intro hlt
    refine ⟨hstart ((hto a le_rfl hlt).1.2.2.elim id And.left), ?_⟩
    rcases hstop with ⟨rfl, hnot⟩ | hnone
    · by_contra hcut
      obtain ⟨place, hcut'⟩ := not_forall.mp hcut
      obtain ⟨psz, hcut'⟩ := not_forall.mp hcut'
      exact hnot ⟨hlt, hto.unbroken ⟨place, psz, (Classical.not_imp.mp hcut').1⟩, hcut⟩
    · intro place psz hfound
      exact absurd ⟨psz, hfound⟩ (hnone place)
  obtain ⟨k, remcnt', ⟨hlt, hrem⟩, hloop⟩ := loopAt_advance hbound hto (fun h => (hbounds h).2)
    (fun h => (hbounds h).1) le_rfl hle hleft
  refine ⟨1 + k, ?_⟩
  rw [hloop, ← hset]
  apply modifyLoop_stop
  rcases hstop with ⟨rfl, -⟩ | hnone
  · replace hrem : (remcnt' * 4096 + e) % 2 ^ 76 = _ := hrem
    exact .inl (by omega)
  · refine .inr fun p ⟨psz, hfound⟩ => hnone p ⟨psz, ?_⟩
    rw [hto.queryPage] at hfound
    rw [← hfound]
    exact s.queryPage_mod (by omega)

/-- The page at `e` loses its rights, and no later round gives them back. -/
theorem loopAt_lost (hp : s.Passed a b e) (hfound : s.queryPage e = .ok (place, psz))
    (hlost : ¬s.KeepsRights m flags place)
    (hend : loopAt m flags s a fuel a remcnt = some s') :
    (s'.tables place.1 place.2).rwx = PageRWX.P := by
  have hlt : a < b := hp.2.2.elim hle.trans_lt And.left
  have he : s.Boundary e := by
    intro p size' hsize
    cases hfound.symm.trans hsize
    by_contra hdvd
    rcases Nat.lt_or_eq_of_le hle with hlt' | heq
    · have hdiv : (e - 1) / psz.psize = e / psz.psize := by
        cases psz <;> simp only [PageSize.psize] at hdvd ⊢ <;> omega
      have hprev := queryPage_page hfound hdiv
      exact hlost ((hto (e - 1) (by omega) (by omega)).2 place ⟨psz, hprev⟩)
    · exact hdvd (heq ▸ hstart hlt place psz (heq ▸ hfound))
  obtain ⟨k, remcnt', hleft', hloop⟩ := loopAt_advance hbound hto (fun _ => he)
    (fun _ => hstart hlt) le_rfl hle hleft
  obtain ⟨remcnt'', -, hstep⟩ := loopAt_next hle hleft' he hto (hp.ne_end hbound he) hfound
  have hrest := (modifyLoop_end hend).1 (k + 1)
  replace hrest : loopAt m flags s a (fuel + (k + 1)) a remcnt = some s' := hrest
  rw [← Nat.add_assoc, Nat.add_right_comm, hloop, hstep] at hrest
  have hentry : (s.changed m flags (s.entries a (e + psz.psize))).tables place.1 place.2 =
      (s.tables place.1 place.2).modifyPte m flags := by
    rw [entries_next hle he hfound]
    exact if_pos (Set.mem_insert _ _)
  rcases (modifyLoop_end hrest).2 place.1 place.2 with hsame | ⟨hright, -⟩
  · rw [hsame, hentry]
    exact not_not.mp hlost
  · rw [hentry] at hright
    exact absurd hright hlost

end

/-- The first address at which the loop does not go on. -/
theorem exists_first_stop (h : ¬∀ e, PassedTo m flags s a b e) : ∃ e, a ≤ e ∧
    PassedTo m flags s a b e ∧
      ¬(s.Passed a b e ∧ ∀ place, s.Found e place → s.KeepsRights m flags place) := by
  classical
  have hexists : ∃ e, a ≤ e ∧
      ¬(s.Passed a b e ∧ ∀ place, s.Found e place → s.KeepsRights m flags place) := by
    by_contra hnot
    refine h fun e y hy _ => ?_
    by_contra hbad
    exact hnot ⟨y, hy, hbad⟩
  obtain ⟨hle, hbad⟩ := Nat.find_spec hexists
  refine ⟨Nat.find hexists, hle, fun y hy hlt => ?_, hbad⟩
  by_contra hnot
  exact Nat.find_min hexists hlt ⟨hy, hnot⟩

/-- **The ways the call can end**: it changes the pages that are passed; it takes all rights from a
page; or it does not end. -/
theorem modifyRangeFlags_cases (m : PageModifier) (flags : PageFlags) (hv : vstart < 2 ^ 64)
    (ha : a = pageAlignDown vstart) (hb : b = countEnd vstart size) (hstart : s.StartsPage a b) :
    (∃ fuel, s.modifyRangeFlags m flags fuel vstart size =
        some (s.changed m flags {place | ∃ x, s.Passed a b x ∧ s.Found x place}) ∧
      s.LeavesRights m flags a b ∧ (s.Across a b → ∃ x, ∀ place, ¬s.Found x place)) ∨
    (¬s.LeavesRights m flags a b ∧ ∀ fuel s', s.modifyRangeFlags m flags fuel vstart size = some s' →
      ∃ x place, s.Found x place ∧ (s'.tables place.1 place.2).rwx = PageRWX.P) ∨
    (s.Across a b ∧ (∀ x, ∃ place, s.Found x place) ∧
      ∀ fuel, s.modifyRangeFlags m flags fuel vstart size = none) := by
  obtain ⟨remcnt, hleft, hcall⟩ := modifyRangeFlags_start m flags s size hv
  rw [← ha, ← hb] at hleft
  simp only [← ha] at hcall
  have hbound : b < a + 2 ^ 64 := by
    rw [ha, hb]
    exact Nat.add_lt_add_left (pageAlignUp_lt size) _
  have hab : a ≤ b := by
    rw [ha, hb]
    exact Nat.le_add_right _ _
  simp only [hcall]
  by_cases hgood : ∀ e, PassedTo m flags s a b e
  · -- no hole, and no end of the count
    have hpassed : ∀ y, a ≤ y → s.Passed a b y := fun y hy => (hgood (y + 1) y hy (by omega)).1
    have hacross : s.Across a b := (hpassed b hab).2.2.resolve_left (lt_irrefl b)
    refine .inr (.inr ⟨hacross, fun x => ?_, fun fuel => ?_⟩)
    · obtain ⟨place, psz, hfound⟩ := (hpassed (x + a * 2 ^ 39) (by omega)).2.1 _ (by omega) le_rfl
      exact ⟨place, psz, (s.queryPage_mod (by omega)).trans hfound⟩
    · exact loopAt_endless hbound hgood (hstart hacross.1) le_rfl hleft
  obtain ⟨e, hle, hto, hbad⟩ := exists_first_stop hgood
  by_cases hp : s.Passed a b e
  · obtain ⟨place, hlost⟩ := not_forall.mp fun hkeeps => hbad ⟨hp, hkeeps⟩
    obtain ⟨⟨psz, hfound⟩, hlost⟩ := Classical.not_imp.mp hlost
    refine .inr (.inl ⟨fun hrights => hlost (hrights e place hp ⟨psz, hfound⟩), ?_⟩)
    exact fun fuel s' hend => ⟨e, place, ⟨psz, hfound⟩,
      loopAt_lost hto hle hbound hstart hleft hp hfound hlost hend⟩
  · obtain ⟨fuel, hloop⟩ := loopAt_stops hto hle hbound hstart hleft hab hp
    refine .inl ⟨fuel, hloop, fun x place hx => ?_, fun hacross => ⟨e, ?_⟩⟩
    · exact (hto x hx.1 ((hto.passed_iff hle hp).mp hx).2).2 place
    · exact (hto.stop hle hab hp).resolve_left fun h => h.2 hacross

/-- **A range that starts where a page starts.** -/
theorem changesExactly_iff (hv : vstart < 2 ^ 64)
    (ha : a = pageAlignDown vstart) (hb : b = countEnd vstart size) (hstart : s.StartsPage a b) :
    s.ChangesExactly m flags vstart size ↔
      s.LeavesRights m flags a b ∧ s.Tiles a b (InRange vstart size) (s.HasFlags m flags) := by
  rcases modifyRangeFlags_cases m flags hv ha hb hstart with ⟨fuel, hcall, hrights, hends⟩ |
    ⟨hlost, hcall⟩ | ⟨hacross, hmapped, hcall⟩
  · constructor
    · rintro ⟨fuel', s', hcall', hexact⟩
      have hsame := (modifyLoop_end hcall).1 fuel'
      rw [Nat.add_comm, (modifyLoop_end hcall').1 fuel] at hsame
      obtain rfl := some.inj hsame
      have hiff : ∀ vaddr place, Canonical vaddr → s.Found vaddr place →
          s.HasFlags m flags place ∨
            (InRange vstart size vaddr ↔ ∃ x, s.Passed a b x ∧ s.Found x place) := by
        intro vaddr place hcanonical hplace
        have hentry := (hexact vaddr hcanonical).2 place hplace
        by_cases hflags : s.HasFlags m flags place
        · exact .inl hflags
        · refine .inr ?_
          simp only [changed] at hentry
          split_ifs at hentry with hmem hin hin
          · exact iff_of_true hin hmem
          · exact absurd hentry hflags
          · exact absurd hentry.symm hflags
          · exact iff_of_false hin hmem
      refine ⟨hrights, hends, ?_, ?_⟩
      · intro vaddr place hcanonical hin hplace
        exact (hiff vaddr place hcanonical hplace).imp_right fun h => h.mp hin
      · intro x vaddr place hp hx hcanonical hplace
        exact (hiff vaddr place hcanonical hplace).imp_right fun h => h.mpr ⟨x, hp, hx⟩
    · rintro ⟨-, htiles⟩
      refine ⟨fuel, _, hcall, fun vaddr hcanonical => ⟨?_, ?_⟩⟩
      · refine queryPage_changed ?_ ?_ vaddr
        · rintro p ⟨x, hp, hx⟩
          exact hrights x p hp hx
        · rintro p ⟨x, -, hx⟩
          exact ⟨x, hx⟩
      · intro place hplace
        simp only [changed]
        split_ifs with hmem hin hin
        · rfl
        · obtain ⟨x, hp, hx⟩ := hmem
          exact (htiles.inside x vaddr _ hp hx hcanonical hplace).resolve_right hin
        · rcases htiles.reached vaddr _ hcanonical hin hplace with hflags | hreached
          · exact hflags.symm
          · exact absurd hreached hmem
        · rfl
  · refine iff_of_false ?_ fun h => hlost h.1
    rintro ⟨fuel, s', hcall', hexact⟩
    obtain ⟨x, place, ⟨psz, hfound⟩, hgone⟩ := hcall fuel s' hcall'
    obtain ⟨vaddr, hcanonical, halias⟩ := s.exists_canonical x
    have hquery := (hexact vaddr hcanonical).1
    rw [halias, hfound] at hquery
    exact queryLoop_eq_ok hquery hgone
  · refine iff_of_false ?_ ?_
    · rintro ⟨fuel, s', hcall', -⟩
      cases (hcall fuel).symm.trans hcall'
    · rintro ⟨-, htiles⟩
      obtain ⟨x, hx⟩ := htiles.ends hacross
      obtain ⟨place, hplace⟩ := hmapped x
      exact hx place hplace

/-! ## All flags -/

/-- A change of one flag that leaves the rights. -/
def userBit : PageModifier := ⟨0, true, false, false⟩

theorem modifyPte_userBit (pte : Sv39Pte) :
    pte.modifyPte userBit flags = { pte with u := flags.u } := by
  have hbits : ∀ x z : BitVec 3, (x &&& ~~~0) ||| (z &&& 0) = x := by decide
  unfold Sv39Pte.modifyPte userBit
  simp only [hbits]
  rfl

theorem leavesRights_userBit (flags : PageFlags) (s : Sv39 F) (a b : ℕ) :
    s.LeavesRights userBit flags a b := by
  rintro x place - ⟨psz, hfound⟩
  unfold KeepsRights
  rw [modifyPte_userBit]
  exact queryLoop_eq_ok hfound

/-- For every entry there is such a change that shows. -/
theorem exists_not_hasFlags (s : Sv39 F) (place : ℕ × ℕ) :
    ∃ flags, ¬s.HasFlags userBit flags place := by
  refine ⟨⟨0, !(s.tables place.1 place.2).u, false, false⟩, ?_⟩
  unfold HasFlags
  rw [modifyPte_userBit]
  intro heq
  exact Bool.not_ne_self _ (congrArg Sv39Pte.u heq)

theorem startsPage_of_changesExactly (hcanonical : Canonical vstart)
    (h : ∀ flags, s.ChangesExactly userBit flags vstart size) :
    s.StartsPage (pageAlignDown vstart) (countEnd vstart size) := by
  intro hlt place psz hfound
  by_contra hdvd
  obtain ⟨flags, hflags⟩ := s.exists_not_hasFlags place
  obtain ⟨fuel, s', hcall, hexact⟩ := h flags
  set first := pageAlignDown vstart with hfirst
  -- the page before the range
  have hprev : (first - 4096) / psz.psize = first / psz.psize ∧ Canonical (first - 4096) ∧
      first - 4096 < first := by
    have haligned : first % 4096 = 0 := Nat.mul_mod_left _ _
    have hle : first ≤ vstart := Nat.div_mul_le_self _ _
    have hnext : vstart < first + 4096 := Nat.lt_div_mul_add (by decide)
    unfold Canonical at hcanonical ⊢
    cases psz <;> simp only [PageSize.psize] at hdvd ⊢ <;> omega
  obtain ⟨hdiv, hprevious, hless⟩ := hprev
  have hentry := (hexact _ hprevious).2 place ⟨psz, queryPage_page hfound hdiv⟩
  have hout : ¬InRange vstart size (first - 4096) := by
    rintro ⟨-, hge, -⟩
    have hge' : first ≤ first - 4096 :=
      (Nat.mul_le_mul_right PAGESIZE hge).trans (Nat.div_mul_le_self _ _)
    omega
  have hrem : pageAlignUp size / PAGESIZE ≠ 0 := by
    have hpos : 0 < pageAlignUp size := Nat.pos_of_lt_add_right hlt
    unfold pageAlignUp at hpos ⊢
    rw [Nat.mul_div_cancel _ (by decide)]
    exact (Nat.pos_of_mul_pos_right hpos).ne'
  rw [if_neg hout] at hentry
  cases fuel with
  | zero => cases hcall
  | succ fuel =>
    replace hcall : s.modifyLoop userBit flags (fuel + 1) first (pageAlignUp size / PAGESIZE) =
      some s' := hcall
    rw [modifyLoop_found hrem hfound] at hcall
    have hafter := (modifyLoop_end hcall).2 place.1 place.2
    rw [modifyAt_self, modifyPte_twice] at hafter
    exact hflags ((hafter.elim id And.right).symm.trans hentry)

/-- **Exactly the range.**  If no page lies across the start of the range, a call changes the flags
of the pages of the range and of no other page exactly if no page loses its rights and, pages that
have the flags already apart, the mapped pages of the range are those before its first hole and none
of them lies across its end.  For any range the calls with all flags that leave rights are right
exactly if no page lies across its start and the rest holds of every page. -/
theorem modify_range_flags_exact (s : Sv39 F) {vstart : ℕ} (hv : Canonical vstart) (size : ℕ) :
    let a := pageAlignDown vstart
    let b := countEnd vstart size
    (s.StartsPage a b → ∀ m flags, s.ChangesExactly m flags vstart size ↔
      s.LeavesRights m flags a b ∧ s.Tiles a b (InRange vstart size) (s.HasFlags m flags)) ∧
    ((∀ m flags, s.LeavesRights m flags a b → s.ChangesExactly m flags vstart size) ↔
      s.StartsPage a b ∧ s.Tiles a b (InRange vstart size) fun _ => False) := by
  intro a b
  have hlt : vstart < 2 ^ 64 := by
    unfold Canonical at hv
    omega
  refine ⟨fun hstart m flags => changesExactly_iff hlt rfl rfl hstart, ?_, ?_⟩
  · intro h
    have hchanges := fun flags => h userBit flags (leavesRights_userBit flags s a b)
    have hstart := startsPage_of_changesExactly hv hchanges
    have htiles := fun flags => ((changesExactly_iff hlt rfl rfl hstart).mp (hchanges flags)).2
    refine ⟨hstart, (htiles ⟨0, false, false, false⟩).ends, ?_, ?_⟩
    · intro vaddr place hvaddr hin hplace
      obtain ⟨flags, hflags⟩ := s.exists_not_hasFlags place
      exact .inr (((htiles flags).reached vaddr place hvaddr hin hplace).resolve_left hflags)
    · intro x vaddr place hp hx hvaddr hplace
      obtain ⟨flags, hflags⟩ := s.exists_not_hasFlags place
      exact .inr (((htiles flags).inside x vaddr place hp hx hvaddr hplace).resolve_left hflags)
  · rintro ⟨hstart, htiles⟩ m flags hrights
    refine (changesExactly_iff hlt rfl rfl hstart).mpr ⟨hrights, htiles.ends, ?_, ?_⟩
    · intro vaddr place hvaddr hin hplace
      exact (htiles.reached vaddr place hvaddr hin hplace).imp_left False.elim
    · intro x vaddr place hp hx hvaddr hplace
      exact (htiles.inside x vaddr place hp hx hvaddr hplace).imp_left False.elim

/-! ## A page that is too large, and a hole -/

/-- Two pages of 1 GiB with a hole between them. -/
def gigapages : Sv39 Unit :=
  ⟨0x10000, fun pt i => if pt = 0x10000 ∧ (i = 0 ∨ i = 2) then
    Sv39Pte.zero.toLeaf 0x40000000 ⟨PageRWX.RW, true, false, true⟩ else .zero, ()⟩

theorem gigapages_queryPage (x : ℕ) : gigapages.queryPage x =
    if vpn0 x = 0 ∨ vpn0 x = 2 then .ok ((0x10000, vpn0 x), ._1G) else .error .pageNotPresent := by
  by_cases h : vpn0 x = 0 ∨ vpn0 x = 2
  · have hentry : gigapages.tables 0x10000 (vpn0 x) =
        Sv39Pte.zero.toLeaf 0x40000000 ⟨PageRWX.RW, true, false, true⟩ := if_pos ⟨rfl, h⟩
    unfold queryPage makeVpn queryLoop
    rw [if_pos h, show gigapages.root = 0x10000 from rfl, hentry]
    rfl
  · have hentry : gigapages.tables 0x10000 (vpn0 x) = .zero := if_neg fun hin => h hin.2
    unfold queryPage makeVpn queryLoop
    rw [if_neg h, show gigapages.root = 0x10000 from rfl, hentry]
    rfl

theorem modify_range_flags_exact_gigapage :
    gigapages.ChangesExactly .ALL ⟨PageRWX.RO, true, false, true⟩ 0 0x40000000 := by
  have hfound : ∀ {x place}, gigapages.Found x place →
      (vpn0 x = 0 ∨ vpn0 x = 2) ∧ place = (0x10000, vpn0 x) := by
    rintro x place ⟨size, hsize⟩
    rw [gigapages_queryPage] at hsize
    split_ifs at hsize with h
    cases hsize
    exact ⟨h, rfl⟩
  have hvpn : ∀ x < 0x40000000, vpn0 x = 0 := by
    intro x hx
    unfold vpn0
    omega
  have hend : ¬gigapages.Across 0 0x40000000 := by
    rintro ⟨-, hunbroken, -⟩
    obtain ⟨place, hplace⟩ := hunbroken 0x40000000 (Nat.zero_le _) le_rfl
    exact absurd (hfound hplace).1 (by decide)
  have h := (@modify_range_flags_exact Unit gigapages 0 (.inl (by decide)) 0x40000000).2
  rw [show pageAlignDown 0 = 0 from rfl,
    show countEnd 0 0x40000000 = 0x40000000 by decide] at h
  refine h.mpr ⟨fun _ _ _ _ => dvd_zero _, fun h => absurd h hend, ?_, ?_⟩ _ _ ?_
  · rintro vaddr place - ⟨-, -, hlt⟩ hplace
    replace hlt : vaddr / 4096 * 4096 < 0 + 0x40000000 := hlt
    refine .inr ⟨vaddr, ⟨Nat.zero_le _, fun y _ hy => ⟨(0x10000, vpn0 y), ._1G, ?_⟩, .inl (by omega)⟩,
      hplace⟩
    exact (gigapages_queryPage y).trans (if_pos (.inl (hvpn y (by omega))))
  · intro x vaddr place hx hplace hcanonical hplace'
    have hsame : vpn0 vaddr = vpn0 x :=
      congrArg Prod.snd ((hfound hplace').2.symm.trans (hfound hplace).2)
    rw [hvpn x (hx.2.2.resolve_right hend)] at hsame
    refine .inr ⟨by decide, Nat.zero_le _, ?_⟩
    show vaddr / 4096 * 4096 < 0 + 0x40000000
    unfold vpn0 at hsame
    unfold Canonical at hcanonical
    omega
  · have hrights : ∀ x : BitVec 3, (x &&& ~~~0b111) ||| (PageRWX.RO.cast &&& 0b111) ≠ PageRWX.P := by
      decide
    exact fun _ _ _ _ => hrights _

/-- **A call for the first page of a large page changes the whole of it, and a call for a range
with a hole does not reach the page behind the hole.** -/
theorem flags_changed_elsewhere :
    (∃ s, gigapages.modifyRangeFlags .ALL ⟨PageRWX.RO, true, false, true⟩ 2 0 0x1000 = some s ∧
      ¬InRange 0 0x1000 0x1000 ∧ s.queryPage 0x1000 = .ok ((0x10000, 0), ._1G) ∧
      (gigapages.tables 0x10000 0).flags.rwx = PageRWX.RW ∧
      (s.tables 0x10000 0).flags.rwx = PageRWX.RO) ∧
    gigapages.modifyRangeFlags .ALL ⟨PageRWX.RO, true, false, true⟩ 1 0x40000000 0x80000000 =
      some gigapages ∧ InRange 0x40000000 0x80000000 0x80000000 ∧
      gigapages.queryPage 0x80000000 = .ok ((0x10000, 2), ._1G) ∧
      (gigapages.tables 0x10000 2).flags.rwx = PageRWX.RW :=
  ⟨⟨_, rfl, by decide, rfl, rfl, rfl⟩, rfl, by decide, rfl, rfl⟩

end Sv39

end Sustcore
