/-
# What the kernel's heap promises

The records say which blocks are handed out.  `malloc_contract` is about every state that calls of
`malloc` and `free` lead to, with anything the rest of the kernel does to its own memory in between.

A call of `malloc` goes wrong in two ways.  The power of two above a request of more than `2^63`
bytes does not fit a word; it wraps around to zero, and the caller gets a block of eight bytes.  And
when there is memory for the block but none for its record, the record is constructed at the null
pointer.  Whether there is memory is told from the slabs and the page allocator before the call.
-/
import Sustcore.SlubMallocInvariant

namespace Sustcore.SlubMalloc

open Slab Relation Kernel List

variable {F : Type} {P : PageAllocator F} {h h' : Heap F}

/-! ## The invariant -/

def Heap.addrs (h : Heap F) : Set ℕ := {a | a ∈ h.records.map AllocRecord.addr}

def AllocRecord.block (r : AllocRecord) : ℕ × ℕ := (r.ptr, r.size)

def Heap.blocks (h : Heap F) : Set (ℕ × ℕ) := {b | b ∈ h.records.map AllocRecord.block}

/-- **The invariant of the heap.** -/
structure Heap.Inv (P : PageAllocator F) (h : Heap F) : Prop where
  mem : MemInv P h h.addrs h.blocks
  addrs : (h.records.map AllocRecord.addr).Nodup
  ptrs : (h.records.map AllocRecord.ptr).Nodup

/-- Two blocks do not overlap. -/
def AllocRecord.Apart (b b' : AllocRecord) : Prop :=
  b.ptr + b.size ≤ b'.ptr ∨ b'.ptr + b'.size ≤ b.ptr

variable {b r : AllocRecord}

theorem Heap.Inv.apart (hi : h.Inv P) {b' : AllocRecord} (hb : b ∈ h.records)
    (hb' : b' ∈ h.records) (hne : b ≠ b') : b.Apart b' := by
  have hblock : b.block ≠ b'.block := by
    intro heq
    have hptr : b.ptr = b'.ptr := congrArg Prod.fst heq
    exact hne (inj_on_of_nodup_map hi.ptrs hb hb' hptr)
  exact hi.mem.disjoint (mem_map_of_mem hb) (mem_map_of_mem hb') hblock

theorem Heap.Inv.same (hi : h.Inv P) {t : Heap F} (hrec : t.records = h.records)
    (hm : MemInv P t h.addrs h.blocks) : t.Inv P := by
  refine ⟨?_, by rw [hrec]; exact hi.addrs, by rw [hrec]; exact hi.ptrs⟩
  unfold Heap.addrs Heap.blocks
  rwa [hrec]

theorem Heap.Inv.push (hi : h.Inv P) {t : Heap F} (hrec : t.records = h.records)
    (haddr : r.addr ∉ h.addrs) (hblock : r.block ∉ h.blocks)
    (hm : MemInv P t (insert r.addr h.addrs) (insert r.block h.blocks)) :
    Heap.Inv P { t with records := t.records ++ [r] } := by
  have hmem : ∀ {α : Type} (f : AllocRecord → α),
      {x | x ∈ (t.records ++ [r]).map f} = insert (f r) {x | x ∈ h.records.map f} := by
    intro α f
    ext x
    rw [hrec]
    simp only [map_append, map_cons, map_nil, mem_append, mem_singleton, Set.mem_ofPred_eq]
    exact or_comm
  refine ⟨?_, ?_, ?_⟩
  · unfold Heap.addrs Heap.blocks
    rw [hmem, hmem]
    exact hm.setRecords _
  · rw [hrec, map_append]
    refine nodup_append.mpr ⟨hi.addrs, nodup_singleton _, ?_⟩
    rintro a ha b hb rfl
    obtain rfl := mem_singleton.mp hb
    exact haddr ha
  · rw [hrec, map_append]
    refine nodup_append.mpr ⟨hi.ptrs, nodup_singleton _, ?_⟩
    rintro a ha b hb rfl
    obtain rfl := mem_singleton.mp hb
    obtain ⟨r', hr', heq⟩ := mem_map.mp ha
    -- blocks of one address would overlap
    have hne : r'.block ≠ r.block := by
      intro hsame
      exact hblock (hsame ▸ mem_map_of_mem hr')
    have hin : r'.block ∈ insert r.block h.blocks := .inr (mem_map_of_mem hr')
    have hpos := (hm.size _ hin).pos
    have hpos' := (hm.size _ (Set.mem_insert r.block h.blocks)).pos
    have hptr : r'.block.1 = r.block.1 := heq
    rcases hm.disjoint hin (Set.mem_insert _ _) hne with hd | hd
    · omega
    · omega

/-- The record that `remove_record` finds by its address. -/
theorem eraseP_key {α β : Type} [DecidableEq α] [DecidableEq β] {f : α → β} {r : α} :
    ∀ {l : List α}, (l.map f).Nodup → r ∈ l →
      l.eraseP (fun x => decide (f x = f r)) = l.erase r := by
  intro l
  induction l with
  | nil =>
    intro _ hr
    cases hr
  | cons x l ih =>
    intro hnodup hr
    by_cases hx : x = r
    · rw [eraseP_cons_of_pos (by simp [hx]), hx, erase_cons_head]
    have hin : r ∈ l := by
      rcases mem_cons.mp hr with rfl | hin
      · exact absurd rfl hx
      · exact hin
    have hne : f x ≠ f r := fun heq => hx (inj_on_of_nodup_map hnodup mem_cons_self hr heq)
    rw [eraseP_cons_of_neg (by simp [hne]), erase_cons_tail (by simp [hx])]
    congr 1
    exact ih (nodup_cons.mp hnodup).2 hin

theorem Heap.Inv.drop (hi : h.Inv P) {t : Heap F} (hr : r ∈ h.records)
    (hrec : t.records = h.records.erase r)
    (hm : MemInv P t (h.addrs \ {r.addr}) (h.blocks \ {r.block})) : t.Inv P := by
  have hnodup : h.records.Nodup := hi.ptrs.of_map _
  have hmem : ∀ {α : Type} (f : AllocRecord → α),
      (∀ x ∈ h.records, f x = f r → x = r) →
      {x | x ∈ t.records.map f} = {x | x ∈ h.records.map f} \ {f r} := by
    intro α f hinj
    ext y
    simp only [hrec, mem_map]
    constructor
    · rintro ⟨x, hx, rfl⟩
      obtain ⟨hne, hx⟩ := hnodup.mem_erase_iff.mp hx
      exact ⟨⟨x, hx, rfl⟩, fun heq => hne (hinj x hx heq)⟩
    · rintro ⟨⟨x, hx, rfl⟩, hne⟩
      refine ⟨x, hnodup.mem_erase_iff.mpr ⟨?_, hx⟩, rfl⟩
      rintro rfl
      exact hne rfl
  have hsub : t.records.Sublist h.records := hrec ▸ erase_sublist
  refine ⟨?_, (hsub.map _).nodup hi.addrs, (hsub.map _).nodup hi.ptrs⟩
  unfold Heap.addrs Heap.blocks
  rw [hmem _ fun x hx heq => inj_on_of_nodup_map hi.addrs hx hr heq,
    hmem _ fun x hx heq => inj_on_of_nodup_map hi.ptrs hx hr (congrArg Prod.fst heq)]
  exact hm

/-! ## Requests -/

variable (P)

/-- The contract of a request, for what it ends with: it fails and changes no block, or there is a
new block, of the size asked for or more, that overlaps no other.  The page allocator may stop the
machine. -/
def Contract (h : Heap F) (sz : ℕ) : Except Halt (Result (Option ℕ) × Heap F) → Prop
  | .error e => ∃ frames n, P.WF frames ∧ P.getFreePage frames n = .error e
  | .ok (r, h') => h'.Inv P ∧ ((r = .ok none ∧ h'.records = h.records) ∨
      ∃ b, r = .ok (some b.ptr) ∧ h'.records = h.records ++ [b] ∧ sz ≤ b.size ∧
        ∀ b' ∈ h.records, b.Apart b')

/-- A request meets its contract. -/
def Fits (h : Heap F) (sz : ℕ) : Prop :=
  Contract P h sz (malloc P sz h)

/-- The slabs of the records are full, and the page allocator has the pages that the block needs,
but then no page for the record. -/
def RecordMissing (h : Heap F) (sz : ℕ) : Prop :=
  ∃ f, P.Serves h.frames (h.blockPages (roundedSize sz)) f ∧ P.Refuses f h.recordPages

/-- The slabs and the page allocator have a block and a record. -/
def Supplied (h : Heap F) (sz : ℕ) : Prop :=
  ∃ f f', P.Serves h.frames (h.blockPages (roundedSize sz)) f ∧ P.Serves f h.recordPages f'

variable {P} {sz : ℕ}

/-- The assertion of `malloc` on the size holds. -/
theorem roundedSize_sizeOk (hsz : sz < 2 ^ 64) : ∃ n, roundedSize sz = 2 ^ n ∧ SizeOk (2 ^ n) := by
  obtain ⟨⟨n, hn, heq⟩, hlow, -⟩ := roundedSize_spec hsz
  refine ⟨n, heq, ?_⟩
  rw [heq] at hlow
  by_cases hlt : 2 ^ n < KMAX
  · exact .inl (cacheOfSize_two_pow hlow hlt)
  · exact .inr ⟨Nat.not_lt.mp hlt, Nat.pow_le_pow_right two_pos hn⟩

theorem malloc_eq (hsz : sz < 2 ^ 64) : malloc P sz = (do
    match ← allocBlock P (roundedSize sz) with
    | none => pure none
    | some ptr => do
        let added ← addRecord P ptr (roundedSize sz)
        if !added then do
          freeInner P ptr (roundedSize sz)
          halt .assertFailed
        else pure (some ptr) : Kernel (Heap F) (Option ℕ)) := by
  obtain ⟨n, heq, hok⟩ := roundedSize_sizeOk hsz
  have hassert : (containsSmallSize (roundedSize sz) || decide (roundedSize sz ≥ KMAX)) = true := by
    rw [heq, Bool.or_eq_true, decide_eq_true_iff]
    rcases hok with ⟨k, hk⟩ | ⟨hbig, -⟩
    · refine .inl ?_
      unfold containsSmallSize
      rw [hk]
      rfl
    · exact .inr hbig
  unfold malloc
  dsimp only
  rw [hassert]
  exact if_neg (by decide)

/-- **The ways a request can end**: the page allocator stops the machine; there is no block; there
is a block and no record; there is a block. -/
theorem Heap.Inv.malloc_cases (hi : h.Inv P) (hsz : sz < 2 ^ 64) :
    (∃ e frames n, malloc P sz h = .error e ∧ P.WF frames ∧ P.getFreePage frames n = .error e ∧
      ¬RecordMissing P h sz ∧ ¬Supplied P h sz) ∨
    (∃ t, malloc P sz h = .ok (.ok none, t) ∧ t.records = h.records ∧ t.Inv P ∧
      ¬RecordMissing P h sz ∧ ¬Supplied P h sz) ∨
    (malloc P sz h = .error .undefined ∧ RecordMissing P h sz) ∨
    ∃ b t, malloc P sz h = .ok (.ok (some b.ptr), t) ∧ t.records = h.records ++ [b] ∧ t.Inv P ∧
      b.size = roundedSize sz ∧ ¬RecordMissing P h sz ∧ Supplied P h sz ∧
      ∀ b' ∈ h.records, b.Apart b' := by
  obtain ⟨n, heq, hok⟩ := roundedSize_sizeOk hsz
  have hwf : ∀ {t : Heap F} {A B}, MemInv P t A B → P.WF t.frames :=
    fun hm => (hm.cache .records).frames
  rw [malloc_eq hsz]
  unfold RecordMissing Supplied
  rw [heq]
  -- the block
  cases hblock : allocBlock P (2 ^ n) h with
  | error e =>
    rw [bind_eq_halt.mpr (.inl hblock)]
    obtain ⟨hasked, hstop⟩ := hi.mem.allocBlock_stops hok hblock
    have hnot : ∀ f, ¬P.Serves h.frames (h.blockPages (2 ^ n)) f := by
      rintro f (⟨hzero, -⟩ | ⟨-, a, hget⟩)
      · exact hasked hzero
      · cases hstop.symm.trans hget
    exact .inl ⟨e, _, _, rfl, hwf hi.mem, hstop, fun ⟨f, hf, _⟩ => hnot f hf,
      fun ⟨f, _, hf, _⟩ => hnot f hf⟩
  | ok out =>
  obtain ⟨o, t⟩ := out
  obtain ⟨hrec, ⟨rfl, hm, hrefused⟩ | ⟨ptr, rfl, hnot, hm, hserved, hpages⟩⟩ :=
    hi.mem.allocBlock hok hblock
  · rw [bind_of_ok hblock]
    exact .inr (.inl ⟨t, rfl, hrec, hi.same hrec hm, fun ⟨_, hf, _⟩ => hf.not_refuses hrefused,
      fun ⟨_, _, hf, _⟩ => hf.not_refuses hrefused⟩)
  rw [bind_of_ok hblock]
  dsimp only
  -- its record
  cases hnew : newRecord P t with
  | error e =>
    have hadd : addRecord P ptr (2 ^ n) t = .error e := bind_eq_halt.mpr (.inl hnew)
    rw [bind_eq_halt.mpr (.inl hadd)]
    obtain ⟨hone, hstop⟩ := hm.newRecord_stops hnew
    rw [← hpages, hone]
    refine .inl ⟨e, _, 1, rfl, hwf hm, hstop, ?_, ?_⟩
    · rintro ⟨f, hf, -, e', f', hget⟩
      obtain rfl := hserved.unique hf
      cases hstop.symm.trans hget
    · rintro ⟨f, f', hf, ⟨hzero, -⟩ | ⟨-, a, hget⟩⟩
      · exact one_ne_zero hzero
      · obtain rfl := hserved.unique hf
        cases hstop.symm.trans hget
  | ok out =>
  obtain ⟨o, t'⟩ := out
  obtain ⟨hrec', ⟨rfl, hm', hrefused⟩ | ⟨addr, rfl, hnot', hm', hserved'⟩⟩ := hm.newRecord hnew
  · have hadd : addRecord P ptr (2 ^ n) t = .error .undefined :=
      bind_eq_halt.mpr (.inr ⟨none, t', hnew, rfl⟩)
    rw [bind_eq_halt.mpr (.inl hadd)]
    exact .inr (.inr (.inl ⟨rfl, t.frames, hserved, hpages ▸ hrefused⟩))
  have hadd : addRecord P ptr (2 ^ n) t =
      .ok (.ok true, { t' with records := t'.records ++ [⟨addr, ptr, 2 ^ n⟩] }) := by
    unfold addRecord
    rw [bind_of_ok hnew]
    rfl
  have hinv := hi.push (r := ⟨addr, ptr, 2 ^ n⟩) (hrec'.trans hrec) hnot' hnot hm'
  have hrecords : t'.records ++ [⟨addr, ptr, 2 ^ n⟩] = h.records ++ [⟨addr, ptr, 2 ^ n⟩] := by
    rw [hrec', hrec]
  rw [bind_of_ok hadd]
  rw [hpages] at hserved'
  refine .inr (.inr (.inr ⟨⟨addr, ptr, 2 ^ n⟩, _, rfl, hrecords, hinv, rfl, ?_,
    ⟨_, _, hserved, hserved'⟩, ?_⟩))
  · rintro ⟨f, hf, hrefused⟩
    obtain rfl := hserved.unique hf
    exact hserved'.not_refuses hrefused
  · intro b' hb'
    apply hinv.apart
    · exact mem_append_right _ (mem_singleton_self _)
    · rw [hrecords]
      exact mem_append_left _ hb'
    · rintro rfl
      exact hnot (show AllocRecord.block ⟨addr, ptr, 2 ^ n⟩ ∈ h.blocks from
        mem_map_of_mem hb')

/-- The contract holds unless there is no record, or the size of a block that there is has wrapped
around. -/
theorem Heap.Inv.fits_iff (hi : h.Inv P) (hsz : sz < 2 ^ 64) :
    Fits P h sz ↔ ¬RecordMissing P h sz ∧ (Supplied P h sz → sz ≤ 2 ^ 63) := by
  obtain ⟨-, -, hfits⟩ := roundedSize_spec hsz
  unfold Fits
  rcases hi.malloc_cases hsz with ⟨e, frames, n, hcall, hwf, hstop, hgood, hnone⟩ |
    ⟨t, hcall, hrec, hinv, hgood, hnone⟩ | ⟨hcall, hwrong⟩ |
    ⟨b, t, hcall, hrec, hinv, hsize, hgood, hsupplied, hapart⟩
  · rw [hcall]
    exact ⟨fun _ => ⟨hgood, fun hs => absurd hs hnone⟩, fun _ => ⟨frames, n, hwf, hstop⟩⟩
  · rw [hcall]
    exact ⟨fun _ => ⟨hgood, fun hs => absurd hs hnone⟩, fun _ => ⟨hinv, .inl ⟨rfl, hrec⟩⟩⟩
  · rw [hcall]
    refine ⟨?_, fun hgood => absurd hwrong hgood.1⟩
    rintro ⟨frames, n, -, hstop⟩
    exact absurd hstop (P.get_defined frames n)
  · rw [hcall, ← hfits, ← hsize]
    constructor
    · rintro ⟨-, ⟨hnone, -⟩ | ⟨b', -, hrec', hle, -⟩⟩
      · cases hnone
      · rw [hrec, append_cancel_left_eq] at hrec'
        obtain ⟨rfl, -⟩ := hrec'
        exact ⟨hgood, fun _ => hle⟩
    · rintro ⟨-, hle⟩
      exact ⟨hinv, .inr ⟨b, rfl, hrec, hle hsupplied, hapart⟩⟩

/-- What a request of more than `2^63` bytes gets. -/
theorem Heap.Inv.malloc_oversized (hi : h.Inv P) (hbig : 2 ^ 63 < sz) (hsz : sz < 2 ^ 64) {ptr : ℕ}
    (hcall : malloc P sz h = .ok (.ok (some ptr), h')) :
    ∃ b, h'.records = h.records ++ [b] ∧ b.ptr = ptr ∧ b.size = KMIN := by
  have hrounded : roundedSize sz = KMIN := by
    unfold roundedSize
    rw [up2pow_of_gt (.inr hbig) hsz]
    rfl
  rcases hi.malloc_cases hsz with ⟨e, _, _, hcall', -⟩ | ⟨t, hcall', -⟩ | ⟨hcall', -⟩ |
    ⟨b, t, hcall', hrec, -, hsize, -⟩
  · cases hcall.symm.trans hcall'
  · cases hcall.symm.trans hcall'
  · cases hcall.symm.trans hcall'
  · obtain ⟨hptr, rfl⟩ := ok_inj (hcall.symm.trans hcall')
    cases hptr
    exact ⟨b, hrec, rfl, hsize.trans hrounded⟩

theorem Heap.Inv.malloc (hi : h.Inv P) (hsz : sz < 2 ^ 64) {r : Result (Option ℕ)}
    (hcall : malloc P sz h = .ok (r, h')) : h'.Inv P := by
  rcases hi.malloc_cases hsz with ⟨e, _, _, hcall', -⟩ | ⟨t, hcall', -, hinv, -⟩ | ⟨hcall', -⟩ |
    ⟨b, t, hcall', -, hinv, -⟩
  · cases hcall.symm.trans hcall'
  · obtain ⟨-, rfl⟩ := ok_inj (hcall.symm.trans hcall')
    exact hinv
  · cases hcall.symm.trans hcall'
  · obtain ⟨-, rfl⟩ := ok_inj (hcall.symm.trans hcall')
    exact hinv

/-! ## Giving blocks back -/

theorem Heap.Inv.getRecord (hi : h.Inv P) (hb : b ∈ h.records) : h.getRecord b.ptr = some b := by
  unfold Heap.getRecord
  cases hfind : h.records.find? fun r => decide (r.ptr = b.ptr) with
  | none =>
    have hnone := find?_eq_none.mp hfind b hb
    exact absurd (decide_eq_true rfl) hnone
  | some r =>
    have hptr : r.ptr = b.ptr := of_decide_eq_true (by simpa using find?_some hfind)
    rw [inj_on_of_nodup_map hi.ptrs (mem_of_find?_eq_some hfind) hb hptr]

variable (P) in
/-- What a block leaves behind when it is given back: a free object of its slab, or pages without
reference.  No other page has changed. -/
def GivenBack (h h' : Heap F) (b : AllocRecord) : Prop :=
  (∀ k, cacheOfSize b.size = some k → h'.frames = h.frames ∧ ∃ state l,
    slabOf b.ptr ∈ h'.caches k state ∧
      Chain h'.word 0 (h'.header (slabOf b.ptr)).freelist l ∧ b.ptr ∈ l) ∧
  (KMAX ≤ b.size → ∀ q, P.refs h'.frames q = if InRun b.block q then 0 else P.refs h.frames q)

/-- **`free`** of a block that is handed out. -/
theorem Heap.Inv.free (hi : h.Inv P) (hb : b ∈ h.records) {r : Result Unit}
    (hcall : SlubMalloc.free P b.ptr h = .ok (r, h')) :
    r = .ok () ∧ h'.records = h.records.erase b ∧ h'.Inv P ∧ GivenBack P h h' b := by
  have hblock : b.block ∈ h.blocks := mem_map_of_mem hb
  have haddr : b.addr ∈ h.addrs := mem_map_of_mem hb
  unfold SlubMalloc.free at hcall
  rw [get_bind, hi.getRecord hb] at hcall
  rcases bind_eq_ok.mp hcall with ⟨e, hfree, -⟩ | ⟨_, t, hfree, hrest⟩
  · cases (hi.mem.freeInner hblock hfree).1
  obtain ⟨-, hrec, hsmall, hlarge, hm⟩ := hi.mem.freeInner hblock hfree
  obtain ⟨s, hdelete, hframes, hm'⟩ := (hm.setRecords
    (t.records.eraseP fun r' => decide (r'.addr = b.addr))).deleteRecord haddr
  obtain ⟨rfl, rfl⟩ := ok_inj (hrest.symm.trans hdelete)
  have hrecords : (Heap.setSlub { t with
      records := t.records.eraseP fun r' => decide (r'.addr = b.addr) } .records s).records =
        h.records.erase b := by
    rw [hrec]
    exact eraseP_key hi.addrs hb
  have hinv := Heap.Inv.drop hi hb hrecords hm'
  refine ⟨rfl, hrecords, hinv, ?_, ?_⟩
  · intro k hk
    obtain ⟨hfr, hobj, state, hslab⟩ := hsmall k hk
    obtain ⟨hne, hsize⟩ := cacheOfSize_eq_some hk
    replace hslab : slabOf b.ptr ∈ Function.update t.caches .records s.lists k state := by
      rwa [Function.update_of_ne hne]
    obtain ⟨l, hchain, hl, -⟩ := ((hinv.mem.cache k).slab state _ hslab).1.chain
    refine ⟨hframes.trans hfr, state, l, hslab, hchain, (hl _).mpr ⟨hobj, ?_⟩⟩
    -- it is the block of no record
    rw [mem_objectsOf hne]
    intro hin
    obtain ⟨r', hr', heq⟩ := mem_map.mp hin
    rw [hrecords, ((hi.ptrs.of_map _).mem_erase_iff)] at hr'
    exact hr'.1 (inj_on_of_nodup_map hi.ptrs hr'.2 hb (congrArg Prod.fst heq))
  · intro hbig q
    show P.refs s.frames q = _
    rw [hframes]
    exact hlarge hbig q

theorem Heap.Inv.free_stops (hi : h.Inv P) (hb : b ∈ h.records) {e : Halt}
    (hcall : SlubMalloc.free P b.ptr h = .error e) :
    P.putPages h.frames (b.ptr - KPA_OFFSET) (getPages b.size) = .error e := by
  have hblock : b.block ∈ h.blocks := mem_map_of_mem hb
  unfold SlubMalloc.free at hcall
  rw [get_bind, hi.getRecord hb] at hcall
  rcases bind_eq_halt.mp hcall with hfree | ⟨_, t, hfree, hrest⟩
  · exact hi.mem.freeInner_stops hblock hfree
  obtain ⟨-, -, -, -, hm⟩ := hi.mem.freeInner hblock hfree
  obtain ⟨s, hdelete, -⟩ := (hm.setRecords
    (t.records.eraseP fun r' => decide (r'.addr = b.addr))).deleteRecord
    (mem_map_of_mem hb : b.addr ∈ h.addrs)
  cases hrest.symm.trans hdelete

/-! ## Runs -/

variable (P)

/-- One step of the kernel: a call of `malloc` or `free`, or what others do to the page allocator
and to memory that is neither a slab's own nor in a run. -/
inductive Step : Heap F → Heap F → Prop
  | malloc (h : Heap F) {sz : ℕ} {r : Result (Option ℕ)} {h' : Heap F} (hsz : sz < 2 ^ 64)
      (hcall : malloc P sz h = .ok (r, h')) : Step h h'
  | free (h : Heap F) {ptr : ℕ} {r : Result Unit} {h' : Heap F}
      (hcall : free P ptr h = .ok (r, h')) : Step h h'
  | other (h : Heap F) {frames : F} {header : ℕ → SlabHeader} {word : ℕ → ℕ} (hwf : P.WF frames)
      (hslabs : ∀ k state, ∀ slab ∈ h.caches k state,
        P.refs frames (pageAt slab) = P.refs h.frames (pageAt slab))
      (hruns : ∀ b ∈ h.records, KMAX ≤ b.size → ∀ q, InRun b.block q →
        P.refs frames q = P.refs h.frames q)
      (hheader : ∀ k state, ∀ slab ∈ h.caches k state, header slab = h.header slab)
      (hword : ∀ a, word a ≠ h.word a → ∀ k,
        SlabWorld.Writable k.cls ⟨h.slub k, objectsOf h.addrs h.blocks k⟩ a) :
      Step h ⟨frames, header, word, h.caches, h.records⟩

/-- A heap that has served no request. -/
def Heap.init (frames : F) (header : ℕ → SlabHeader) (word : ℕ → ℕ) : Heap F :=
  ⟨frames, header, word, fun _ _ => [], []⟩

variable {P}

theorem Heap.inv_init {frames : F} (hwf : P.WF frames) (header : ℕ → SlabHeader) (word : ℕ → ℕ) :
    (Heap.init frames header word).Inv P := by
  refine ⟨⟨nofun, ?_, nofun, nofun, nofun⟩, nodup_nil, nodup_nil⟩
  intro k
  have hempty : objectsOf (Heap.init frames header word).addrs (Heap.init frames header word).blocks
      k = ∅ := by
    apply Set.eq_empty_of_forall_notMem
    intro p hp
    by_cases hk : k = .records
    · rw [hk] at hp
      cases hp
    · rw [mem_objectsOf hk] at hp
      cases hp
  rw [hempty]
  exact Slab.inv_init hwf header word

/-- **Step.** -/
theorem Heap.Inv.step (hi : h.Inv P) (hstep : Step P h h') : h'.Inv P := by
  cases hstep with
  | malloc hsz hcall => exact hi.malloc hsz hcall
  | @free ptr _ _ hcall =>
    cases hfind : h.getRecord ptr with
    | none =>
      unfold SlubMalloc.free at hcall
      rw [get_bind, hfind] at hcall
      obtain ⟨-, rfl⟩ := pure_eq_ok.mp hcall
      exact hi
    | some b =>
      have hb := mem_of_find?_eq_some hfind
      have hptr : b.ptr = ptr := of_decide_eq_true (by simpa using find?_some hfind)
      rw [← hptr] at hcall
      exact (hi.free hb hcall).2.2.1
  | other hwf hslabs hruns hheader hword =>
    refine ⟨⟨hi.mem.size, ?_, hi.mem.apart, ?_, hi.mem.runs⟩, hi.addrs, hi.ptrs⟩
    · intro k
      exact (hi.mem.cache k).other (w := ⟨h.slub k, objectsOf h.addrs h.blocks k⟩) hwf
        (hslabs k) (hheader k) (fun a ha => hword a ha k)
    · intro b hb hbig
      obtain ⟨haligned, hkernel, hrun⟩ := hi.mem.run b hb hbig
      refine ⟨haligned, hkernel, fun q hq => ⟨?_, (hrun q hq).2⟩⟩
      obtain ⟨r, hr, rfl⟩ := mem_map.mp hb
      rw [hruns r hr hbig q hq]
      exact (hrun q hq).1

variable (P)

/-- **The contract of the heap.**  After any run of `malloc` and `free`, the blocks that are handed
out do not overlap.  A further request for at most `2^63` bytes fails or gets a new block, of the size
asked for or more, that overlaps no other, exactly if there is not memory for the block alone.  A
request for more gets no such block at all: if there is memory, it gets eight bytes.  To free a block
gives back its object or its pages, and nothing else, and leaves the other blocks. -/
theorem malloc_contract {frames : F} (hwf : P.WF frames) (header : ℕ → SlabHeader) (word : ℕ → ℕ)
    {h : Heap F} (hrun : ReflTransGen (Step P) (Heap.init frames header word) h) :
    h.Inv P ∧ (∀ b ∈ h.records, ∀ b' ∈ h.records, b ≠ b' → b.Apart b') ∧
    (∀ sz ≤ 2 ^ 63, Fits P h sz ↔ ¬RecordMissing P h sz) ∧
    (∀ sz, 2 ^ 63 < sz → sz < 2 ^ 64 →
      (Fits P h sz ↔ ¬RecordMissing P h sz ∧ ¬Supplied P h sz) ∧
      ∀ ptr h', malloc P sz h = .ok (.ok (some ptr), h') →
        ∃ b, h'.records = h.records ++ [b] ∧ b.ptr = ptr ∧ b.size = KMIN) ∧
    (∀ b ∈ h.records, ∀ r h', free P b.ptr h = .ok (r, h') →
      h'.records = h.records.erase b ∧ h'.Inv P ∧ GivenBack P h h' b) ∧
    ∀ b ∈ h.records, ∀ e, free P b.ptr h = .error e →
      P.putPages h.frames (b.ptr - KPA_OFFSET) (getPages b.size) = .error e := by
  have hstep : ∀ t t' : Heap F, t.Inv P → Step P t t' → t'.Inv P := fun _ _ hi hs => hi.step hs
  have hi := Transition.invariant hstep hrun (Heap.inv_init hwf header word)
  refine ⟨hi, fun b hb b' hb' => hi.apart hb hb', ?_, ?_, ?_, ?_⟩
  · intro sz hsz
    rw [hi.fits_iff (hsz.trans_lt (by decide))]
    exact and_iff_left fun _ => hsz
  · intro sz hbig hsz
    refine ⟨?_, fun ptr h' hcall => hi.malloc_oversized hbig hsz hcall⟩
    rw [hi.fits_iff hsz]
    exact and_congr_right fun _ => ⟨fun hle hs => absurd (hle hs) (not_le.mpr hbig),
      fun hnone hs => absurd hs hnone⟩
  · intro b hb r h' hcall
    exact (hi.free hb hcall).2
  · intro b hb e hcall
    exact hi.free_stops hb hcall

/-! ## Requests that go wrong -/

def fourPageHeap : Heap (Gfp Buddy) :=
  Heap.init ⟨fourPages, fun _ => 0⟩ (fun _ => ⟨0, 0, 0, .EMPTY⟩) fun _ => 0

/-- It has served a request for a hundred bytes. -/
def hundredTaken : Heap (Gfp Buddy) :=
  (Except.valueOr (.ok (some (KPA_OFFSET + 0x10030)), fourPageHeap)
    (malloc (gfpPages buddyRaw buddy_defined) 100 fourPageHeap)).2

/-- There is room for another record, so a request for five thousand bytes is served; the block of
the first goes back. -/
theorem malloc_contract_hundred :
    hundredTaken.records = [⟨KPA_OFFSET + 0x11030, KPA_OFFSET + 0x10030, 128⟩] ∧
      ¬RecordMissing (gfpPages buddyRaw buddy_defined) hundredTaken 5000 ∧
      Fits (gfpPages buddyRaw buddy_defined) hundredTaken 5000 ∧
      returned (malloc (gfpPages buddyRaw buddy_defined) 5000 hundredTaken) =
        some (some (KPA_OFFSET + 0x12000)) ∧
      ∀ r h', free (gfpPages buddyRaw buddy_defined) (KPA_OFFSET + 0x10030) hundredTaken =
        .ok (r, h') → h'.records = [] := by
  have hcall : malloc (gfpPages buddyRaw buddy_defined) 100 fourPageHeap =
      .ok (.ok (some (KPA_OFFSET + 0x10030)), hundredTaken) :=
    eq_ok_of_returned fourPageHeap (by decide +kernel)
  have hinv := malloc_contract (gfpPages buddyRaw buddy_defined) fourPages_wf _ _
    (.single (Step.malloc fourPageHeap (by decide) hcall))
  have hroom : ¬RecordMissing (gfpPages buddyRaw buddy_defined) hundredTaken 5000 := by
    rintro ⟨_, -, hasked, -⟩
    exact hasked (by decide +kernel)
  have hrecords : hundredTaken.records = [⟨KPA_OFFSET + 0x11030, KPA_OFFSET + 0x10030, 128⟩] := by
    decide +kernel
  refine ⟨hrecords, hroom, (hinv.2.2.1 5000 (by decide)).mpr hroom, by decide +kernel, ?_⟩
  intro r h' hfree
  rw [hrecords] at hinv
  rw [(hinv.2.2.2.2.1 _ (mem_singleton_self _) r h' hfree).1]
  rfl

/-- **An oversized request is served**: the caller asks for more than `2^63` bytes and gets eight. -/
theorem oversized_request_served : ∃ addr ptr h',
    malloc (gfpPages buddyRaw buddy_defined) (2 ^ 63 + 1) fourPageHeap = .ok (.ok (some ptr), h') ∧
      h'.records = [⟨addr, ptr, 8⟩] :=
  -- one page holds the block, the next one its record
  ⟨KPA_OFFSET + 0x11030, KPA_OFFSET + 0x10030, _,
    eq_ok_of_returned fourPageHeap (by decide +kernel), by decide +kernel⟩

end Sustcore.SlubMalloc
