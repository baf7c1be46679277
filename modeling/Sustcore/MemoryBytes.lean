/-
# The bytes of a memory payload

`MemoryPayload.byteAt` is what a payload contains: the byte of the recorded page, or the
byte that the file (or a cleared page) will provide once the page is allocated.  `read`
returns these bytes, and an event of a payload changes the bytes it names and no others:
neither other bytes of the payload nor any byte of another payload.
-/
import Sustcore.MemoryHeap

namespace Sustcore

open Relation Kernel List

def MemoryPayload.byteAt (fileRead : FileRead) (m : MemoryPayload) (mem : PhysMem) (x : ℕ) :
    UInt8 :=
  match m.phyPages.lookup (offsetToOffvpn x) with
  | some page => mem (page.addr + offsetInPage x)
  | none =>
    match m.fileBytes fileRead (offsetToOffvpn x) with
    | .ok bytes => bytes.getD (offsetInPage x) 0
    | .error _ => 0

/-- The byte at an offset of the payload `p` of a heap. -/
def MemoryHeap.byteAt {F : Type} (fileRead : FileRead) (h : MemoryHeap F) (p x : ℕ) :
    Option UInt8 :=
  (h.payloads p).map fun m => m.byteAt fileRead h.mem x

theorem offsetInPage_lt (x : ℕ) : offsetInPage x < PAGESIZE := Nat.mod_lt x (by decide)

section Bytes

variable {F : Type} {A : FrameAllocator F} {fileRead : FileRead}

variable {m : MemoryPayload} {mem : PhysMem} {x v o q offset a b n remain i : ℕ} {page : PhyPage}

theorem byteAt_of_page (hpage : m.phyPages.lookup (offsetToOffvpn x) = some page) :
    m.byteAt fileRead mem x = mem (page.addr + offsetInPage x) := by
  unfold MemoryPayload.byteAt
  rw [hpage]

variable {bytes : List UInt8}

theorem byteAt_of_bytes (hpage : m.phyPages.lookup (offsetToOffvpn x) = none)
    (hbytes : m.fileBytes fileRead (offsetToOffvpn x) = .ok bytes) :
    m.byteAt fileRead mem x = bytes.getD (offsetInPage x) 0 := by
  unfold MemoryPayload.byteAt
  rw [hpage, hbytes]

theorem byteAt_congr {mem' : PhysMem}
    (hmem : ∀ page, m.phyPages.lookup (offsetToOffvpn x) = some page →
      mem' (page.addr + offsetInPage x) = mem (page.addr + offsetInPage x)) :
    m.byteAt fileRead mem' x = m.byteAt fileRead mem x := by
  unfold MemoryPayload.byteAt
  cases hpage : m.phyPages.lookup (offsetToOffvpn x) with
  | none => rfl
  | some page => exact hmem page hpage

/-- A page recorded elsewhere does not matter. -/
theorem byteAt_setPage_of_ne (hx : offsetToOffvpn x ≠ v) :
    (m.setPage v page).byteAt fileRead mem x = m.byteAt fileRead mem x := by
  have hlook : (m.setPage v page).phyPages.lookup (offsetToOffvpn x) =
      m.phyPages.lookup (offsetToOffvpn x) := AList.lookup_insert_ne hx
  unfold MemoryPayload.byteAt
  rw [hlook]
  rfl

theorem byteAt_setPage_self : (m.setPage (offsetToOffvpn x) page).byteAt fileRead mem x =
      mem (page.addr + offsetInPage x) :=
  byteAt_of_page (AList.lookup_insert _)

/-- A read cut to the length asked for. -/
theorem length_le_of_take {x : Result (List UInt8)} {len : ℕ}
    (h : (if len ≠ 0 then x.map (·.take len) else .ok []) = .ok bytes) : bytes.length ≤ len := by
  split at h
  · cases x with
    | error e => cases h
    | ok data =>
      cases h
      exact length_take_le _ _
  · cases h
    exact Nat.zero_le _

theorem fileBytes_length_le (h : m.fileBytes fileRead v = .ok bytes) : bytes.length ≤ PAGESIZE := by
  unfold MemoryPayload.fileBytes at h
  cases hfile : m.file with
  | none =>
    rw [hfile] at h
    cases h
    exact Nat.zero_le _
  | some file =>
    rw [hfile] at h
    by_cases hover : offvpnToOffset v > SIZE_MAX - m.fileOffset
    · simp only [if_pos hover] at h
      cases h
    · simp only [if_neg hover] at h
      refine (length_le_of_take h).trans ?_
      split_ifs <;> omega

/-! ## Frames and their bytes -/

theorem pageOf_add (hb : PAGESIZE ∣ b) (ho : o < PAGESIZE) : pageOf (b + o) = pageOf b := by
  obtain ⟨k, rfl⟩ := hb
  unfold pageOf
  rw [Nat.mul_add_div (by decide), Nat.div_eq_of_lt ho, Nat.mul_div_cancel_left k (by decide),
    Nat.add_zero]

/-- The bytes of a frame outside a range of frames are outside the bytes of the range. -/
theorem frame_apart (ha : PAGESIZE ∣ a) (hb : PAGESIZE ∣ b) (ho : o < PAGESIZE)
    (hne : ¬InFrames (pageOf a) n (pageOf b)) : ¬(a ≤ b + o ∧ b + o < a + n * PAGESIZE) := by
  intro hin
  have hmem := (mem_pageRange_iff_pageOf ha).mp (mem_pageRange.mpr hin)
  rw [pageOf_add hb ho] at hmem
  exact hne hmem

variable {h : MemoryHeap F} {p : ℕ} {s s' : PayloadState F}

/-- A held page has no byte in a range of frames without references. -/
theorem MemoryHeap.Sound.apart_of_free (hs : h.Sound A)
    (hq : h.payloads q = some m) (hpage : m.phyPages.lookup v = some page) (ha : PAGESIZE ∣ a)
    (hfree : ∀ k, InFrames (pageOf a) n k → A.refs h.frames k = 0) (ho : o < PAGESIZE) :
    ¬(a ≤ page.addr + o ∧ page.addr + o < a + n * PAGESIZE) := by
  refine frame_apart ha (hs.aligned q m v page hq hpage) ho fun hin => ?_
  exact hs.shared.unheld (hfree _ hin) (pageTable_of hq hpage)

/-- Another page than an exclusive one lies on another frame. -/
theorem MemoryHeap.Sound.pageOf_ne_of_exclusive (hs : h.Sound A) {r w : ℕ}
    {n : MemoryPayload} {page' : PhyPage} (hq : h.payloads q = some m)
    (hpage : m.phyPages.lookup v = some page) (hle : page.refcount ≤ 1)
    (hr : h.payloads r = some n) (hpage' : n.phyPages.lookup w = some page')
    (hne : (r, w) ≠ (q, v)) : pageOf page'.addr ≠ pageOf page.addr := by
  intro heq
  have hslot := pageTable_of hr hpage'
  rw [heq] at hslot
  exact hne (hs.shared.exclusive (pageTable_of hq hpage) hle hslot)

/-- A held page has no byte in a frame that is just handed out. -/
theorem MemoryHeap.Sound.apart_of_get (hs : h.Sound A)
    (hq : h.payloads q = some m) (hpage : m.phyPages.lookup v = some page)
    {f : F} (hget : A.getFreePage h.frames 1 = .ok (.ok a, f)) (ho : o < PAGESIZE) :
    ¬(a ≤ page.addr + o ∧ page.addr + o < a + PAGESIZE) := by
  obtain ⟨-, hal, hzero, -, -⟩ := FrameAllocator.get_one hs.wf hget
  have hfree : ∀ k, InFrames (pageOf a) 1 k → A.refs h.frames k = 0 := by
    intro k hk
    have heq : k = pageOf a := by omega
    rw [heq, hzero]
  have happart := hs.apart_of_free hq hpage hal hfree ho
  rwa [one_mul] at happart

/-! ## What events do to bytes -/

/-- A quiet event only writes into frames nobody holds. -/
theorem QuietEvent.mem_eq (hevent : QuietEvent A fileRead s s') (hs : (h.put p s).Sound A)
    (hq : (h.put p s).payloads q = some m)
    (hpage : m.phyPages.lookup v = some page) (ho : o < PAGESIZE) :
    s'.mem (page.addr + o) = s.mem (page.addr + o) := by
  cases hevent with
  | getFails hget => rfl
  | @alloc w a f bytes hnone hget hbytes =>
    have hapart := hs.apart_of_get hq hpage hget ho
    have hlen := fileBytes_length_le hbytes
    show memcpyFrom (memset s.mem a 0 PAGESIZE) a (fun i => bytes.getD i 0) bytes.length
      (page.addr + o) = _
    rw [memcpyFrom_outside (by omega), memset_outside hapart]
  | scratch hget hput => exact memset_outside (hs.apart_of_get hq hpage hget ho)
  | settle hpage' hle => rfl
  | split hpage' hlt hget hput => exact memcpy_outside (hs.apart_of_get hq hpage hget ho)

/-- **A quiet event keeps the bytes of its payload.** -/
theorem QuietEvent.byteAt_eq (hevent : QuietEvent A fileRead s s') (hs : (h.put p s).Sound A)
    (x : ℕ) : s'.payload.byteAt fileRead s'.mem x = s.payload.byteAt fileRead s.mem x := by
  have hself := h.put_payloads_self p s
  -- pages that the event does not replace keep their bytes
  have hkept : s.payload.byteAt fileRead s'.mem x = s.payload.byteAt fileRead s.mem x :=
    byteAt_congr fun page hpage => hevent.mem_eq hs hself hpage (offsetInPage_lt x)
  cases hevent with
  | getFails hget => exact hkept
  | @alloc v a f bytes hnone hget hbytes =>
    by_cases hx : offsetToOffvpn x = v
    · subst hx
      refine byteAt_setPage_self.trans ?_
      rw [byteAt_of_bytes hnone hbytes]
      have hlt := offsetInPage_lt x
      show memcpyFrom (memset s.mem a 0 PAGESIZE) a (fun i => bytes.getD i 0) bytes.length
        (a + offsetInPage x) = _
      by_cases hin : offsetInPage x < bytes.length
      · rw [memcpyFrom_inside (by omega), Nat.add_sub_cancel_left]
      · -- behind the bytes of the file the page is cleared
        rw [memcpyFrom_outside (by omega), memset_inside (by omega)]
        exact (getD_eq_default _ _ (by omega)).symm
    · exact (byteAt_setPage_of_ne hx).trans hkept
  | scratch hget hput => exact hkept
  | @settle v page hpage hle =>
    by_cases hx : offsetToOffvpn x = v
    · subst hx
      exact byteAt_setPage_self.trans (byteAt_of_page hpage).symm
    · exact byteAt_setPage_of_ne hx
  | @split v a page f f' hpage hlt hget hput =>
    by_cases hx : offsetToOffvpn x = v
    · subst hx
      refine byteAt_setPage_self.trans ?_
      rw [byteAt_of_page hpage]
      have hlt := offsetInPage_lt x
      show memcpy s.mem a page.addr PAGESIZE (a + offsetInPage x) = _
      rw [memcpy_inside (by omega), Nat.add_sub_cancel_left]
    · exact (byteAt_setPage_of_ne hx).trans hkept

variable {W : Set ℕ}

theorem PayloadEvent.mem_eq (hevent : PayloadEvent A fileRead W s s')
    (hs : (h.put p s).Sound A) (hqp : q ≠ p)
    (hq : (h.put p s).payloads q = some m) (hpage : m.phyPages.lookup v = some page)
    (ho : o < PAGESIZE) : s'.mem (page.addr + o) = s.mem (page.addr + o) := by
  cases hevent with
  | quiet _ hquiet => exact hquiet.mem_eq hs hq hpage ho
  | @store w page' data o' n hpage' hle hend hW =>
    have hne := hs.pageOf_ne_of_exclusive (h.put_payloads_self p s) hpage' hle hq hpage
      fun heq => hqp (Prod.mk.inj heq).1
    have hapart := frame_apart (n := 1) (hs.aligned_self hpage')
      (hs.aligned q m v page hq hpage) ho (by omega)
    exact memcpyFrom_outside (by omega)
  | release hW hpage' hput => rfl
  | @relocate t n base f mem hW hget hmem hput =>
    obtain ⟨-, hal, hrefs⟩ := A.get_ok _ _ _ _ hs.wf hget
    have hfree : ∀ k, InFrames (pageOf base) n k → A.refs (h.put p s).frames k = 0 := by
      intro k hk
      have hzero := hrefs k
      rw [if_pos hk] at hzero
      exact hzero.1
    rw [(hs.relocate hget hput).2]
    exact hmem _ (hs.apart_of_free hq hpage hal hfree ho)
  | setMemsz newsz hW => rfl

theorem PayloadEvent.byteAt_self (hevent : PayloadEvent A fileRead W s s')
    (hs : (h.put p s).Sound A) (hx : x ∉ W) :
    s'.payload.byteAt fileRead s'.mem x = s.payload.byteAt fileRead s.mem x := by
  have huniv : W ≠ Set.univ := by
    rintro rfl
    exact hx (Set.mem_univ x)
  cases hevent with
  | quiet _ hquiet => exact hquiet.byteAt_eq hs x
  | @store v page data o n hpage hle hend hW =>
    refine byteAt_congr fun page' hpage' => memcpyFrom_outside ?_
    have hlt := offsetInPage_lt x
    by_cases hv : offsetToOffvpn x = v
    · -- the same page: the store would name the byte
      subst hv
      cases hpage.symm.trans hpage'
      intro hin
      have hname := hW (offsetInPage x - o) (by omega)
      rw [Nat.add_assoc, Nat.add_sub_cancel' (by omega), offvpn_mul_add_offsetInPage] at hname
      exact hx hname
    · have hself := h.put_payloads_self p s
      have hne := hs.pageOf_ne_of_exclusive hself hpage hle hself hpage'
        fun heq => hv (Prod.mk.inj heq).2
      have hapart := frame_apart (n := 1) (hs.aligned_self hpage) (hs.aligned_self hpage') hlt
        (by omega)
      omega
  | release hW hpage hput => exact absurd hW huniv
  | relocate t hW hget hmem hput => exact absurd hW huniv
  | setMemsz newsz hW => exact absurd hW huniv

/-- **An event of payload `p` that names the bytes `W` keeps every other byte of the
heap.** -/
theorem PayloadEvent.byteAt_eq (hevent : PayloadEvent A fileRead W s s')
    (hs : (h.put p s).Sound A) (hx : q = p → x ∉ W) :
    (h.put p s').byteAt fileRead q x = (h.put p s).byteAt fileRead q x := by
  unfold MemoryHeap.byteAt
  by_cases hq : q = p
  · subst hq
    rw [h.put_payloads_self, h.put_payloads_self]
    exact congrArg some (hevent.byteAt_self hs (hx rfl))
  have hsame : (h.put p s').payloads q = (h.put p s).payloads q := by
    rw [MemoryHeap.put_payloads, MemoryHeap.put_payloads, Function.update_of_ne hq,
      Function.update_of_ne hq]
  rw [hsame]
  cases hm : (h.put p s).payloads q with
  | none => rfl
  | some m =>
    refine congrArg some (byteAt_congr fun page hpage => ?_)
    exact hevent.mem_eq hs hq hm hpage (offsetInPage_lt x)

theorem payload_run (hrun : ReflTransGen (PayloadEvent A fileRead W) s s')
    (hs : (h.put p s).Sound A) : (h.put p s').Sound A ∧ ∀ q x, (q = p → x ∉ W) →
        (h.put p s').byteAt fileRead q x = (h.put p s).byteAt fileRead q x := by
  induction hrun with
  | refl => exact ⟨hs, fun _ _ _ => rfl⟩
  | tail _ hevent ih =>
    obtain ⟨hsound, hbytes⟩ := ih
    exact ⟨hevent.sound hsound, fun q x hx => (hevent.byteAt_eq hsound hx).trans (hbytes q x hx)⟩

theorem quiet_byteAt (hrun : ReflTransGen (QuietEvent A fileRead) s s')
    (hs : (h.put p s).Sound A) : (h.put p s').Sound A ∧
      ∀ x, s'.payload.byteAt fileRead s'.mem x = s.payload.byteAt fileRead s.mem x := by
  induction hrun with
  | refl => exact ⟨hs, fun _ => rfl⟩
  | tail _ hevent ih =>
    obtain ⟨hsound, hbytes⟩ := ih
    exact ⟨PayloadEvent.sound (W := ∅) (.quiet _ _ hevent) hsound,
      fun x => (hevent.byteAt_eq hsound x).trans (hbytes x)⟩

/-! ## `read` returns the bytes of the payload -/

theorem pageChunkSize_pos (hpos : 0 < remain) : 0 < pageChunkSize offset remain := by
  have hlt := offsetInPage_lt offset
  unfold pageChunkSize
  simp only
  split <;> omega

/-- The bytes of one round lie in the page of its first byte. -/
theorem offset_add_chunk (hi : i < pageChunkSize offset remain) :
    offsetToOffvpn (offset + i) = offsetToOffvpn offset ∧
      offsetInPage (offset + i) = offsetInPage offset + i := by
  have hend := offsetInPage_add_chunk_le offset remain
  rw [offsetToOffvpn_eq, offsetToOffvpn_eq]
  unfold offsetInPage at hend ⊢
  simp only [PAGESIZE] at hend ⊢
  omega

theorem readLoop_bytes {total : ℕ} : ∀ n consumed data out (s s' : PayloadState F),
    total - consumed ≤ n → (h.put p s).Sound A →
    readLoop A fileRead offset total n consumed data s = .ok (.ok out, s') →
      out = data ++ (range (total - consumed)).map fun i =>
        s.payload.byteAt fileRead s.mem (offset + consumed + i) := by
  intro n
  induction n with
  | zero =>
    intro consumed data out s s' hfuel _ hread
    obtain ⟨hout, -⟩ := pure_eq_ok.mp hread
    cases hout
    have hdone : total - consumed = 0 := by omega
    rw [hdone, range_zero, map_nil, append_nil]
  | succ n ih =>
    intro consumed data out s s' hfuel hs hread
    rw [readLoop] at hread
    split at hread
    · rename_i hlt
      obtain ⟨paddr, t, hens, hread⟩ := bind_returns hread
      obtain ⟨hrun, hfind⟩ := ensurePage_events hens
      obtain ⟨page, hpage, rfl⟩ := hfind paddr rfl
      obtain ⟨hsound, hbytes⟩ := quiet_byteAt hrun hs
      have hpos := @pageChunkSize_pos (offset + consumed) _ (Nat.sub_pos_of_lt hlt)
      have hle := pageChunkSize_le (offset + consumed) (total - consumed)
      have hchunk := @offset_add_chunk (offset + consumed) (total - consumed)
      generalize pageChunkSize (offset + consumed) (total - consumed) = chunk at *
      have hsplit : total - consumed = chunk + (total - (consumed + chunk)) := by omega
      rw [ih _ _ _ _ _ (by omega) hsound hread, hsplit, range_add, map_append,
        ← List.append_assoc, List.map_map]
      -- the bytes of this round come from the page found or allocated
      have hround : ∀ i ∈ range chunk, t.mem (page.addr + offsetInPage (offset + consumed) + i)
          = s.payload.byteAt fileRead s.mem (offset + consumed + i) := by
        intro i hi
        obtain ⟨hvpn, hin⟩ := hchunk (mem_range.mp hi)
        have hfound : t.payload.phyPages.lookup (offsetToOffvpn (offset + consumed + i)) =
            some page := by
          rwa [hvpn]
        rw [← hbytes, byteAt_of_page hfound, hin, add_assoc]
      have hrest : ∀ i ∈ range (total - (consumed + chunk)),
          t.payload.byteAt fileRead t.mem (offset + (consumed + chunk) + i) =
            s.payload.byteAt fileRead s.mem (offset + consumed + (chunk + i)) := by
        intro i _
        rw [hbytes, show offset + (consumed + chunk) + i = offset + consumed + (chunk + i) by
          omega]
      rw [map_congr_left hround, map_congr_left hrest]
      rfl
    · obtain ⟨hout, -⟩ := pure_eq_ok.mp hread
      cases hout
      have hdone : total - consumed = 0 := by omega
      rw [hdone, range_zero, map_nil, append_nil]

/-- **`read` returns the bytes of the payload.** -/
theorem readPayload_bytes {buflen : ℕ} {nonnull : Bool} {out : List UInt8}
    (hs : (h.put p s).Sound A)
    (hread : readPayload A fileRead offset nonnull buflen s = .ok (.ok out, s'))
    {b : UInt8} (hi : out[i]? = some b) : s.payload.byteAt fileRead s.mem (offset + i) = b := by
  unfold readPayload at hread
  split at hread
  · cases (throw_eq_ok.mp hread).1
  split at hread
  · obtain ⟨hout, -⟩ := pure_eq_ok.mp hread
    cases hout
    cases hi
  rw [get_bind] at hread
  obtain ⟨total, -, hread⟩ := ofResult_bind_returns hread
  have hout := readLoop_bytes total 0 [] out s s' (Nat.sub_le total 0) hs hread
  rw [hout, nil_append, getElem?_map, Option.map_eq_some_iff] at hi
  obtain ⟨j, hj, rfl⟩ := hi
  obtain ⟨hlt, hget⟩ := List.getElem?_eq_some_iff.mp hj
  rw [getElem_range] at hget
  rw [add_zero, hget]

end Bytes

end Sustcore
