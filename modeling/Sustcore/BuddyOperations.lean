/-
# The entry points of the buddy allocator

For `get_free_page`, `get_free_pages_in_order`, `put_page`, `put_page_in_order` and
`add_memory_range`, with arbitrary arguments:

* what a call that returns has done (`getPages_eq_ok`, `putPages_eq_ok`, …), from which
  every later fact about them is derived;
* how they change the page counts (`getPages_keeps`, `putPages_keeps`, …);
* that the fuel they start with is never used up (`getFreePage_ne_outOfFuel`, …).
-/
import Sustcore.BuddyDescriptors

namespace Sustcore

open Except

/-! ## Inversions -/

variable {n fuel a k remain addr : ℕ} {s s' : Buddy}

theorem expandPool_eq_ok {r : Result Unit} (h : expandPool fuel s = .ok (r, s')) :
    (r = .ok () ∧ s' = s) ∨ ∃ m, fuel = m + 1 ∧ addNewPoolWith (fetchOrder m) s = .ok (r, s') := by
  have hsame : (ok ((.ok () : Result Unit), s) : Except Halt _) = .ok (r, s') →
      r = .ok () ∧ s' = s := by
    intro heq
    cases heq
    exact ⟨rfl, rfl⟩
  unfold expandPool at h
  split at h
  · exact .inl (hsame h)
  split at h
  · cases fuel with
    | zero => cases h
    | succ m => exact .inr ⟨m, rfl, h⟩
  · exact .inl (hsame h)

variable {r : Result ℕ}

theorem finishGet_eq_ok (h : finishGet fuel s a n = .ok (r, s')) : n ≤ s.freePages ∧
      (∃ res, expandPool fuel { s with freePages := s.freePages - n } = .ok (res, s')) ∧
      (r = .ok a ∨ ∃ e, r = .error e) := by
  obtain ⟨_, hle, h⟩ := bind_eq_ok_iff.mp h
  rw [assertThat_eq_ok_iff, decide_eq_true_iff] at hle
  obtain ⟨⟨res, v⟩, hexp, h⟩ := bind_eq_ok_iff.mp h
  cases res with
  | error e =>
    cases h
    exact ⟨hle, ⟨_, hexp⟩, .inr ⟨e, rfl⟩⟩
  | ok x =>
    cases h
    exact ⟨hle, ⟨_, hexp⟩, .inl rfl⟩

/-- **What `get_free_page` can do**: refuse without any effect, or take a block, give its
rest back, count the pages and see to the pools. -/
theorem getPages_eq_ok (h : getPages fuel s n = .ok (r, s')) :
    (∃ e, r = .error e ∧ ((s' = s ∧ (n = 0 ∨ 2 ^ MAX_BUDDY_ORDER < n)) ∨
        fetchOrder fuel s (pages2order n) = .ok (.error e, s'))) ∨
      ∃ a t u res, 0 < n ∧ n ≤ 2 ^ MAX_BUDDY_ORDER ∧
        fetchOrder fuel s (pages2order n) = .ok (.ok a, t) ∧
        (n < 2 ^ pages2order n ∧ addMemoryRangeWith (putOrder fuel) t (a + n * PAGESIZE)
            (2 ^ pages2order n - n) = .ok u ∨ 2 ^ pages2order n ≤ n ∧ u = t) ∧ n ≤ u.freePages ∧
        expandPool fuel { u with freePages := u.freePages - n } = .ok (res, s') ∧
        (r = .ok a ∨ ∃ e, r = .error e) := by
  unfold getPages at h
  split at h
  · rename_i hn
    cases h
    exact .inl ⟨_, rfl, .inl ⟨rfl, .inl hn⟩⟩
  split at h
  · rename_i hmax
    cases h
    exact .inl ⟨_, rfl, .inl ⟨rfl, .inr hmax⟩⟩
  obtain ⟨⟨res, t⟩, hfetch, h⟩ := bind_eq_ok_iff.mp h
  cases res with
  | error e =>
    cases h
    exact .inl ⟨e, rfl, .inr hfetch⟩
  | ok a =>
    simp only at h
    split at h
    · rename_i hlt
      obtain ⟨u, hu, h⟩ := bind_eq_ok_iff.mp h
      obtain ⟨hle, ⟨res, hexp⟩, hr⟩ := finishGet_eq_ok h
      exact .inr ⟨a, t, u, res, by omega, by omega, hfetch, .inl ⟨hlt, hu⟩, hle, hexp, hr⟩
    · obtain ⟨hle, ⟨res, hexp⟩, hr⟩ := finishGet_eq_ok h
      exact .inr ⟨a, t, t, res, by omega, by omega, hfetch, .inr ⟨by omega, rfl⟩, hle, hexp, hr⟩

theorem getOrder_eq_ok (h : getOrder fuel s k = .ok (r, s')) :
    (r = .error .invalidParam ∧ s' = s) ∨ fetchOrder fuel s k = .ok (r, s') := by
  unfold getOrder at h
  split at h
  · cases h
    exact .inl ⟨rfl, rfl⟩
  · exact .inr h

theorem putPages_eq_ok (h : putPages fuel s a n = .ok s') :
    ((a = 0 ∨ n = 0) ∧ s' = s) ∨ (a ≠ 0 ∧ PAGESIZE ∣ a ∧
      addMemoryRangeWith (putOrder fuel) { s with freePages := s.freePages + n } a n = .ok s') := by
  unfold putPages at h
  split at h
  · rename_i h0
    exact .inl ⟨h0, (ok.inj h).symm⟩
  · rename_i h0
    obtain ⟨_, hal, h⟩ := bind_eq_ok_iff.mp h
    rw [assertThat_eq_ok_iff, decide_eq_true_iff] at hal
    exact .inr ⟨fun ha => h0 (.inl ha), Nat.dvd_of_mod_eq_zero hal, h⟩

/-! ## Page counts -/

theorem Buddy.Desc.setFreePages (h : s.Desc) (n : ℕ) : ({ s with freePages := n } : Buddy).Desc :=
  ⟨h.order_eq, h.live, h.inj, h.nodup⟩

theorem listedPages_setFreePages (s : Buddy) (n : ℕ) :
    ({ s with freePages := n } : Buddy).listedPages = s.listedPages :=
  listedPages_congr rfl

theorem weight_setFreePages (s : Buddy) (n : ℕ) :
    ({ s with freePages := n } : Buddy).weight = s.weight := by
  rw [weight_eq, weight_eq, listedPages_setFreePages]

/-- The order of a request is large enough for it. -/
theorem le_two_pow_pages2order (h : n ≤ 2 ^ MAX_BUDDY_ORDER) : n ≤ 2 ^ pages2order n := by
  have hsearch : ∀ m order, n ≤ 2 ^ (order + m) → n ≤ 2 ^ pages2orderFrom n m order := by
    intro m
    induction m with
    | zero => intro order hle; exact hle
    | succ m ih =>
      intro order hle
      unfold pages2orderFrom
      split
      · rename_i hfit
        exact hfit
      · apply ih
        rwa [show order + 1 + m = order + (m + 1) from by omega]
  unfold pages2order
  split_ifs with h1 h2 h3
  · omega
  · omega
  · omega
  · exact hsearch _ 3 (h.trans (Nat.pow_le_pow_right (by omega) (by norm_num)))

/-- The order chosen by `add_memory_range` fits the rest of the range. -/
theorem fitOrder_spec : ∀ n order, 2 ^ order ≤ remain →
    2 ^ fitOrder remain addr n order ≤ remain := by
  intro n
  induction n with
  | zero => intro order hle; exact hle
  | succ n ih =>
    intro order hle
    unfold fitOrder
    split
    · rename_i h
      exact ih (order + 1) h.1
    · exact hle

variable {put : Buddy → ℕ → ℕ → Except Halt Buddy}

theorem addMemoryLoop_succ_eq_ok (h : addMemoryLoop put (n + 1) remain addr s = .ok s') :
    (remain = 0 ∧ s' = s) ∨ ∃ order t, 2 ^ order ≤ remain ∧ put s addr order = .ok t ∧
      addMemoryLoop put n (remain - 2 ^ order) (addr + 2 ^ order * PAGESIZE) t = .ok s' := by
  rw [addMemoryLoop] at h
  split at h
  · rename_i h0
    exact .inl ⟨h0, (ok.inj h).symm⟩
  obtain ⟨t, ht, h⟩ := bind_eq_ok_iff.mp h
  refine .inr ⟨_, t, ?_, ht, h⟩
  apply fitOrder_spec
  omega

theorem addMemoryLoop_keeps {grow : Prop}
    (hp : PutKeeps grow put) : ∀ n remain addr s s', remain ≤ n → s.Desc → addr ≠ 0 →
      addMemoryLoop put n remain addr s = .ok s' →
        s.Keeps grow s' ∧ s'.weight = s.weight + remain := by
  intro n
  induction n with
  | zero =>
    intro remain addr s s' hle hd _ h
    cases h
    obtain rfl : remain = 0 := by omega
    exact ⟨Buddy.Keeps.refl hd, (add_zero _).symm⟩
  | succ n ih =>
    intro remain addr s s' hle hd hne h
    rcases addMemoryLoop_succ_eq_ok h with ⟨rfl, rfl⟩ | ⟨order, t, hfit, ht, hrest⟩
    · exact ⟨Buddy.Keeps.refl hd, (add_zero _).symm⟩
    obtain ⟨hkeep, hw⟩ := hp s addr order t hd ht
    rw [if_neg hne] at hw
    have hpos : 0 < 2 ^ order := Nat.two_pow_pos order
    obtain ⟨hkeep', hw'⟩ := ih _ _ t s' (by omega) hkeep.desc (by omega) hrest
    refine ⟨hkeep.trans hkeep', ?_⟩
    omega

/-- **`get_free_page` counts**: a refused request changes nothing; any other one lowers the
counter and the weight by `n`, also if it ends with an error. -/
theorem getPages_keeps (hd : s.Desc) (h : getPages fuel s n = .ok (r, s')) :
    s'.Desc ∧ s.pools.length ≤ s'.pools.length ∧ (¬0 < fuel → s'.pools.length = s.pools.length) ∧
      (s' = s ∨ s'.freePages + n = s.freePages ∧ s'.weight + n = s.weight) := by
  rcases getPages_eq_ok h with ⟨e, -, ⟨hs, -⟩ | hfetch⟩ |
    ⟨a, t, u, res, hn, hmax, hfetch, hrest, hle, hexp, -⟩
  · subst hs
    exact ⟨hd, le_rfl, fun _ => rfl, .inl rfl⟩
  · obtain ⟨-, -, herr⟩ := fetchOrder_keeps fuel s _ _ s' hd hfetch
    rw [herr e rfl]
    exact ⟨hd, le_rfl, fun _ => rfl, .inl rfl⟩
  · obtain ⟨hkeep, hok, -⟩ := fetchOrder_keeps fuel s _ _ t hd hfetch
    have hw : t.weight + 2 ^ pages2order n = s.weight := hok a rfl
    have hu : s.Keeps (0 < fuel) u ∧ u.weight + n = s.weight := by
      rcases hrest with ⟨hlt, hadd⟩ | ⟨hge, rfl⟩
      · have hbytes : 0 < n * PAGESIZE := mul_pos hn (by decide)
        have hne : a + n * PAGESIZE ≠ 0 := by omega
        obtain ⟨hkeep', hw'⟩ := addMemoryLoop_keeps (putOrder_keeps fuel) _ _ _ t u le_rfl
          hkeep.desc hne hadd
        refine ⟨hkeep.trans hkeep', ?_⟩
        omega
      · have hle2 : n ≤ 2 ^ pages2order n := le_two_pow_pages2order hmax
        exact ⟨hkeep, by omega⟩
    obtain ⟨hkeepu, hwu⟩ := hu
    have hfree := hkeepu.freePages_eq
    have hw0 := weight_setFreePages u (u.freePages - n)
    have hd0 := hkeepu.desc.setFreePages (u.freePages - n)
    rcases expandPool_eq_ok hexp with ⟨-, rfl⟩ | ⟨m, rfl, hadd⟩
    · exact ⟨hd0, hkeepu.pools_le, hkeepu.pools_eq, .inr ⟨by show u.freePages - n + n = _; omega, by omega⟩⟩
    · obtain ⟨hkeep', hw'⟩ := addNewPoolWith_keeps (fetchOrder_keeps m) hd0 hadd
      have hfree' : s'.freePages = u.freePages - n := hkeep'.freePages_eq
      exact ⟨hkeep'.desc, hkeepu.pools_le.trans hkeep'.pools_le, fun h0 => absurd (Nat.succ_pos m) h0,
        .inr ⟨by omega, by omega⟩⟩

/-- **`put_page` counts** the pages it puts. -/
theorem putPages_keeps (hd : s.Desc) (h : putPages fuel s a n = .ok s') :
    s'.Desc ∧ s.pools.length ≤ s'.pools.length ∧ (¬0 < fuel → s'.pools.length = s.pools.length) ∧
      ∃ m, s'.freePages = s.freePages + m ∧ s'.weight = s.weight + m := by
  rcases putPages_eq_ok h with ⟨-, rfl⟩ | ⟨hne, -, hadd⟩
  · exact ⟨hd, le_rfl, fun _ => rfl, 0, (add_zero _).symm, (add_zero _).symm⟩
  · obtain ⟨hkeep, hw⟩ := addMemoryLoop_keeps (putOrder_keeps fuel) n n a _ s' le_rfl
      (hd.setFreePages _) hne hadd
    exact ⟨hkeep.desc, hkeep.pools_le, hkeep.pools_eq, n, hkeep.freePages_eq, hw⟩

/-! ## The fuel is never used up -/

theorem addMemoryLoop_total {grow : Prop} {bound : ℕ}
    (hp : PutKeeps grow put) (ht : PutTotal put bound) : ∀ n remain addr s, s.Desc →
      s.listedPages + remain < bound → addMemoryLoop put n remain addr s ≠ .error .outOfFuel := by
  intro n
  induction n with
  | zero => intro remain addr s _ _ h; cases h
  | succ n ih =>
    intro remain addr s hd hlt h
    rw [addMemoryLoop] at h
    split at h
    · cases h
    rcases bind_eq_error_iff.mp h with h | ⟨t, hput, h⟩
    · exact ht s _ _ hd (by omega) h
    obtain ⟨hkeep, hw⟩ := hp s _ _ t hd hput
    have hle := hkeep.listedPages_le hw
    have hfit : 2 ^ fitOrder remain addr MAX_BUDDY_ORDER 0 ≤ remain := by
      apply fitOrder_spec
      omega
    have hpos : 0 < 2 ^ fitOrder remain addr MAX_BUDDY_ORDER 0 := Nat.two_pow_pos _
    refine ih _ _ t hkeep.desc ?_ h
    split at hle <;> omega

theorem putPage_ne_outOfFuel (hd : s.Desc) (a n : ℕ) : s.putPage a n ≠ .error .outOfFuel := by
  intro h
  unfold Buddy.putPage putPages at h
  split at h
  · cases h
  rcases bind_eq_error_iff.mp h with h | ⟨_, -, h⟩
  · exact assertThat_ne_outOfFuel _ h
  · refine addMemoryLoop_total (putOrder_keeps _) (putOrder_total _) n n a _
      (hd.setFreePages _) ?_ h
    exact Nat.lt_succ_self _

theorem addMemoryRange_ne_outOfFuel (hd : s.Desc) (a n : ℕ) :
    s.addMemoryRange a n ≠ .error .outOfFuel :=
  addMemoryLoop_total (putOrder_keeps _) (putOrder_total _) n n a s hd (Nat.lt_succ_self _)

theorem putPageInOrder_ne_outOfFuel (hd : s.Desc) (a k : ℕ) :
    s.putPageInOrder a k ≠ .error .outOfFuel :=
  putOrder_total _ s a k hd (Nat.lt_succ_self _)

theorem fetchOrder_total (hd : s.Desc) (hle : s.listedPages ≤ fuel) :
    fetchOrder fuel s k ≠ .error .outOfFuel :=
  fetchFrameOrderWith_total (putOrder_keeps fuel) (putOrder_total fuel) s k hd hle

theorem getFreePagesInOrder_ne_outOfFuel (hd : s.Desc) (k : ℕ) :
    s.getFreePagesInOrder k ≠ .error .outOfFuel := by
  unfold Buddy.getFreePagesInOrder getOrder
  split
  · exact nofun
  · exact fetchOrder_total hd (Nat.le_succ _)

/-- The pool expansion at the end has one nested expansion less. -/
theorem expandPool_total (hd : s.Desc) (hlt : s.listedPages < fuel) :
    expandPool fuel s ≠ .error .outOfFuel := by
  intro h
  unfold expandPool at h
  split at h
  · cases h
  split at h
  · cases fuel with
    | zero => omega
    | succ fuel =>
      rcases bind_eq_error_iff.mp h with h | ⟨⟨res, t⟩, -, h⟩
      · exact fetchOrder_total hd (by omega) h
      · cases res <;> cases h
  · cases h

theorem finishGet_total (hd : s.Desc) (hlt : s.listedPages < fuel) :
    finishGet fuel s a n ≠ .error .outOfFuel := by
  intro h
  rcases bind_eq_error_iff.mp h with h | ⟨_, -, h⟩
  · exact assertThat_ne_outOfFuel _ h
  rcases bind_eq_error_iff.mp h with h | ⟨⟨res, t⟩, -, h⟩
  · exact expandPool_total (hd.setFreePages _) (by rwa [listedPages_setFreePages]) h
  · cases res <;> cases h

theorem getFreePage_ne_outOfFuel (hd : s.Desc) (n : ℕ) : s.getFreePage n ≠ .error .outOfFuel := by
  intro h
  unfold Buddy.getFreePage getPages at h
  split at h
  · cases h
  split at h
  · cases h
  rename_i hn hmax
  rcases bind_eq_error_iff.mp h with h | ⟨⟨res, t⟩, hfetch, h⟩
  · exact fetchOrder_total hd (Nat.le_succ _) h
  cases res with
  | error e => cases h
  | ok a =>
    -- the pages that are taken are off the lists
    obtain ⟨hkeep, hok, -⟩ := fetchOrder_keeps _ s _ _ t hd hfetch
    have hw := hok a rfl
    have hpools := hkeep.pools_le
    have hle : n ≤ 2 ^ pages2order n := le_two_pow_pages2order (by omega)
    rw [weight_eq, weight_eq] at hw
    simp only at h
    split at h
    · have hbytes : 0 < n * PAGESIZE := mul_pos (by omega) (by decide)
      rcases bind_eq_error_iff.mp h with h | ⟨u, hadd, h⟩
      · exact addMemoryLoop_total (putOrder_keeps _) (putOrder_total _) _ _ _ t hkeep.desc
          (by omega) h
      · obtain ⟨hkeep', hw'⟩ := addMemoryLoop_keeps (putOrder_keeps _) _ _ _ t u le_rfl
          hkeep.desc (by omega) hadd
        have hlisted := hkeep'.listedPages_le hw'
        exact finishGet_total hkeep'.desc (by omega) h
    · exact finishGet_total hkeep.desc (by omega) h

end Sustcore
