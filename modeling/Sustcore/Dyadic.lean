/-
# Dyadic blocks and canonical block families

General facts about the intervals `[a, a + 2 ^ m)` whose base `a` is a multiple of
`2 ^ m`: two of them are nested or disjoint, each has exactly one buddy of its own
size with which it fills a block of twice the size, and a family of disjoint blocks
that contains no two buddies is determined by the set of points it covers
(`Canonical.eq_of_cover_eq`).

Nothing here is about a particular allocator.
-/
import Mathlib

namespace Dyadic

open Set

/-! ## Blocks -/

/-- The block of order `m` at base `a`. -/
def block (m a : ℕ) : Set ℕ := Set.Ico a (a + 2 ^ m)

variable {m a x b top : ℕ}

@[simp] theorem mem_block : x ∈ block m a ↔ a ≤ x ∧ x < a + 2 ^ m := Iff.rfl

theorem base_mem_block (m a : ℕ) : a ∈ block m a :=
  ⟨le_rfl, Nat.lt_add_of_pos_right (Nat.two_pow_pos m)⟩

/-- Membership in an aligned block only depends on the quotient by the block size. -/
theorem mem_block_iff_div (ha : 2 ^ m ∣ a) : x ∈ block m a ↔ x / 2 ^ m = a / 2 ^ m := by
  obtain ⟨i, rfl⟩ := ha
  have hpos : 0 < 2 ^ m := Nat.two_pow_pos m
  rw [mem_block, Nat.mul_div_cancel_left i hpos, Nat.div_eq_iff hpos]
  have hcomm : 2 ^ m * i = i * 2 ^ m := Nat.mul_comm _ _
  omega

/-- **Nested or disjoint.** An aligned block that meets a larger aligned block lies
inside it. -/
theorem block_subset_of_mem {n : ℕ} (hmn : m ≤ n) (ha : 2 ^ m ∣ a) (hb : 2 ^ n ∣ b)
    (hxa : x ∈ block m a) (hxb : x ∈ block n b) : block m a ⊆ block n b := by
  intro y hy
  rw [mem_block_iff_div ha] at hxa hy
  rw [mem_block_iff_div hb] at hxb ⊢
  have hsplit : ∀ z, z / 2 ^ n = z / 2 ^ m / 2 ^ (n - m) := by
    intro z
    rw [Nat.div_div_eq_div_mul, ← Nat.pow_add, Nat.add_sub_cancel' hmn]
  rw [hsplit y, hy, ← hxa, ← hsplit x, hxb]

/-- Aligned blocks of one order that share a point are the same block. -/
theorem base_eq_of_mem (ha : 2 ^ m ∣ a) (hb : 2 ^ m ∣ b)
    (hxa : x ∈ block m a) (hxb : x ∈ block m b) : a = b := by
  rw [mem_block_iff_div ha] at hxa
  rw [mem_block_iff_div hb] at hxb
  rw [← Nat.div_mul_cancel ha, ← Nat.div_mul_cancel hb, ← hxa, hxb]

/-! ## Buddies -/

/-- The address of the buddy of the block of order `m` at `a`. -/
def buddy (m a : ℕ) : ℕ := a ^^^ 2 ^ m

private theorem mul_two_pow_xor (i m : ℕ) : (2 ^ m * i) ^^^ 2 ^ m = 2 ^ m * (i ^^^ 1) := by
  have h := Nat.shiftLeft_xor_distrib (a := i) (b := 1) (i := m)
  rw [Nat.shiftLeft_eq, Nat.shiftLeft_eq, Nat.shiftLeft_eq, Nat.one_mul] at h
  rw [Nat.mul_comm (2 ^ m) i, ← h, Nat.mul_comm]

private theorem xor_one_cases (i : ℕ) :
    (2 ∣ i ∧ i ^^^ 1 = i + 1) ∨ (¬ 2 ∣ i ∧ i ^^^ 1 = i - 1) := by
  rcases Nat.even_or_odd' i with ⟨j, rfl | rfl⟩
  · refine .inl ⟨Nat.dvd_mul_right 2 j, ?_⟩
    rw [Nat.xor_one_of_even (by simp)]
  · refine .inr ⟨by omega, ?_⟩
    rw [Nat.xor_one_of_odd (by simp)]

/-- **The buddy, spelled out.** The block at `a` is the lower or the upper half of a
block of order `m + 1`, and its buddy is the other half. -/
theorem buddy_cases (ha : 2 ^ m ∣ a) : (2 ^ (m + 1) ∣ a ∧ buddy m a = a + 2 ^ m) ∨
      (2 ^ m ≤ a ∧ 2 ^ (m + 1) ∣ a - 2 ^ m ∧ buddy m a = a - 2 ^ m) := by
  obtain ⟨i, rfl⟩ := ha
  unfold buddy
  rw [mul_two_pow_xor]
  rcases xor_one_cases i with ⟨⟨j, rfl⟩, hx⟩ | ⟨hodd, hx⟩
  · refine .inl ⟨⟨j, by rw [pow_succ]; ring⟩, ?_⟩
    rw [hx]
    ring
  obtain ⟨j, rfl⟩ : ∃ j, i = 2 * j + 1 := ⟨i / 2, by omega⟩
  refine .inr ⟨?_, ⟨j, ?_⟩, ?_⟩
  · exact Nat.le_mul_of_pos_right _ (by omega)
  · rw [Nat.mul_add, Nat.mul_one, Nat.add_sub_cancel]
    ring
  · rw [hx, Nat.add_sub_cancel, Nat.mul_add, Nat.mul_one, Nat.add_sub_cancel]

theorem buddy_dvd (ha : 2 ^ m ∣ a) : 2 ^ m ∣ buddy m a := by
  have hstep : 2 ^ m ∣ 2 ^ (m + 1) := pow_dvd_pow 2 (Nat.le_succ m)
  rcases buddy_cases ha with ⟨-, hb⟩ | ⟨-, hd, hb⟩
  · rw [hb]
    exact dvd_add ha (dvd_refl _)
  · rw [hb]
    exact hstep.trans hd

theorem buddy_ne (ha : 2 ^ m ∣ a) : buddy m a ≠ a := by
  rcases buddy_cases ha with ⟨-, hb⟩ | ⟨hle, -, hb⟩ <;> omega

theorem buddy_buddy (m a : ℕ) : buddy m (buddy m a) = a := by
  unfold buddy
  rw [Nat.xor_assoc, Nat.xor_self, Nat.xor_zero]

/-- The two halves start where the doubled block starts. -/
theorem min_buddy_dvd (ha : 2 ^ m ∣ a) : 2 ^ (m + 1) ∣ min (buddy m a) a := by
  rcases buddy_cases ha with ⟨hd, hb⟩ | ⟨hle, hd, hb⟩
  · rwa [hb, Nat.min_eq_right (Nat.le_add_right _ _)]
  · rwa [hb, Nat.min_eq_left (Nat.sub_le _ _)]

/-- **Merging.** A block and its buddy fill the doubled block. -/
theorem block_union_buddy (ha : 2 ^ m ∣ a) :
    block m a ∪ block m (buddy m a) = block (m + 1) (min (buddy m a) a) := by
  ext x
  rw [mem_union, mem_block, mem_block, mem_block]
  rcases buddy_cases ha with ⟨-, hb⟩ | ⟨hle, -, hb⟩ <;> rw [hb] <;> omega

/-- **Splitting.** The lower and the upper half of a block of order `m + 1`. -/
theorem block_succ (m a : ℕ) : block (m + 1) a = block m a ∪ block m (a + 2 ^ m) := by
  ext x
  rw [mem_union, mem_block, mem_block, mem_block]
  omega

theorem block_halves_disjoint (m a : ℕ) : Disjoint (block m a) (block m (a + 2 ^ m)) := by
  rw [disjoint_left]
  intro x hx hx'
  rw [mem_block] at hx hx'
  omega

/-- No multiple of the block size lies strictly between a block and its buddy. -/
theorem not_between_buddy {c : ℕ} (ha : 2 ^ m ∣ a) (hc : 2 ^ m ∣ c) :
    ¬ (min (buddy m a) a < c ∧ c < max (buddy m a) a) := by
  rintro ⟨hlo, hhi⟩
  have hmem : ∀ b, 2 ^ m ∣ b → b < c → c < b + 2 ^ m → False := by
    intro b hb hbc hcb
    exact ne_of_lt hbc (base_eq_of_mem hb hc ⟨hbc.le, hcb⟩ (base_mem_block m c))
  rcases buddy_cases ha with ⟨-, hb⟩ | ⟨hle, -, hb⟩
  · exact hmem a ha (by omega) (by omega)
  · exact hmem (buddy m a) (buddy_dvd ha) (by omega) (by omega)

/-! ## Canonical families -/

/-- A family of blocks, `F m` the bases of its blocks of order `m`, is *canonical*
below the order `top`: the blocks are aligned, have orders up to `top`, are pairwise
disjoint, and no two blocks of one order below `top` are buddies. -/
structure Canonical (top : ℕ) (F : ℕ → Set ℕ) : Prop where
  order_le : ∀ m a, a ∈ F m → m ≤ top
  aligned : ∀ m a, a ∈ F m → 2 ^ m ∣ a
  disjoint : ∀ m n a b, a ∈ F m → b ∈ F n → (m, a) ≠ (n, b) →
    Disjoint (block m a) (block n b)
  no_buddy : ∀ m a, m < top → a ∈ F m → buddy m a ∉ F m

def cover (F : ℕ → Set ℕ) : Set ℕ := {x | ∃ m a, a ∈ F m ∧ x ∈ block m a}

variable {F : ℕ → Set ℕ}

/-- **Maximality.** Every aligned block that a canonical family covers lies inside one
block of the family. -/
theorem Canonical.exists_block_superset (hF : Canonical top F) :
    ∀ j a, j ≤ top → 2 ^ j ∣ a → block j a ⊆ cover F →
      ∃ m b, b ∈ F m ∧ j ≤ m ∧ block j a ⊆ block m b := by
  intro j
  induction j with
  | zero =>
    intro a _ ha hsub
    obtain ⟨m, b, hb, hmem⟩ := hsub (base_mem_block 0 a)
    exact ⟨m, b, hb, Nat.zero_le m,
      block_subset_of_mem (Nat.zero_le m) ha (hF.aligned m b hb) (base_mem_block 0 a) hmem⟩
  | succ j ih =>
    intro a hj ha hsub
    have hstep : 2 ^ j ∣ 2 ^ (j + 1) := pow_dvd_pow 2 (Nat.le_succ j)
    rw [block_succ] at hsub
    obtain ⟨m, b, hb, hjm, hlow⟩ := ih a (by omega) (hstep.trans ha)
      (subset_union_left.trans hsub)
    obtain ⟨n, c, hc, hjn, hup⟩ := ih (a + 2 ^ j) (by omega)
      (dvd_add (hstep.trans ha) (dvd_refl _)) (subset_union_right.trans hsub)
    have hin : a ∈ block (j + 1) a := base_mem_block (j + 1) a
    have hin' : a + 2 ^ j ∈ block (j + 1) a := by
      rw [block_succ]
      exact .inr (base_mem_block j _)
    rcases lt_or_ge j m with hm | hm
    · exact ⟨m, b, hb, hm, block_subset_of_mem hm ha (hF.aligned m b hb) hin
        (hlow (base_mem_block j a))⟩
    rcases lt_or_ge j n with hn | hn
    · exact ⟨n, c, hc, hn, block_subset_of_mem hn ha (hF.aligned n c hc) hin'
        (hup (base_mem_block j _))⟩
    -- both halves are themselves blocks of the family, and they are buddies
    obtain rfl : m = j := by omega
    obtain rfl : n = m := by omega
    have hba : b = a := base_eq_of_mem (hF.aligned _ b hb) (hstep.trans ha)
      (hlow (base_mem_block _ a)) (base_mem_block _ a)
    have hca : c = a + 2 ^ n := base_eq_of_mem (hF.aligned _ c hc)
      (dvd_add (hstep.trans ha) (dvd_refl _)) (hup (base_mem_block _ _))
      (base_mem_block _ _)
    subst hba hca
    exfalso
    refine hF.no_buddy n b (by omega) hb ?_
    rcases buddy_cases (hF.aligned n b hb) with ⟨-, hbud⟩ | ⟨hle, hd, -⟩
    · rwa [hbud]
    -- the upper-half case contradicts the alignment of the doubled block
    have h1 : 2 ^ (n + 1) ∣ b - (b - 2 ^ n) := Nat.dvd_sub ha hd
    rw [Nat.sub_sub_self hle] at h1
    exact absurd (Nat.le_of_dvd (Nat.two_pow_pos n) h1)
      (Nat.not_le.mpr (Nat.pow_lt_pow_right (by omega) (by omega)))

private theorem Canonical.subset_of_cover_eq {top : ℕ} {F G : ℕ → Set ℕ}
    (hF : Canonical top F) (hG : Canonical top G) (hcov : cover F = cover G) (m a : ℕ)
    (ha : a ∈ F m) : a ∈ G m := by
  have hsub : block m a ⊆ cover G := fun x hx => hcov ▸ ⟨m, a, ha, hx⟩
  obtain ⟨n, b, hb, hmn, hab⟩ := hG.exists_block_superset m a (hF.order_le m a ha)
    (hF.aligned m a ha) hsub
  have hsub' : block n b ⊆ cover F := fun x hx => hcov ▸ ⟨n, b, hb, hx⟩
  obtain ⟨k, c, hc, hnk, hbc⟩ := hF.exists_block_superset n b (hG.order_le n b hb)
    (hG.aligned n b hb) hsub'
  have hmem : a ∈ block k c := hbc (hab (base_mem_block m a))
  have heq : (m, a) = (k, c) := by
    by_contra hne
    exact disjoint_left.mp (hF.disjoint m k a c ha hc hne) (base_mem_block m a) hmem
  obtain ⟨rfl, rfl⟩ := Prod.mk.inj heq
  obtain rfl : n = m := by omega
  rw [base_eq_of_mem (hF.aligned n a ha) (hG.aligned n b hb) (base_mem_block n a)
    (hab (base_mem_block n a))]
  exact hb

/-- **Uniqueness.** A canonical family is determined by the set it covers. -/
theorem Canonical.eq_of_cover_eq {G : ℕ → Set ℕ} (hF : Canonical top F)
    (hG : Canonical top G) (hcov : cover F = cover G) : F = G := by
  funext m
  ext a
  exact ⟨hF.subset_of_cover_eq hG hcov m a, hG.subset_of_cover_eq hF hcov.symm m a⟩

end Dyadic
