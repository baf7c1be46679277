/-
# What the functions of a memory payload do, page by page

Every function of `Memory.lean` that returns is a sequence of events, each of which
touches one page or one field.  A *quiet* event changes neither the size of the payload
nor any of its bytes; the others are the stores, the releases and the two parts of a
resize.  All invariants of payloads are proved event by event.
-/
import Sustcore.KernelRules
import Sustcore.Memory

namespace Sustcore

open Relation Kernel Except List Set

section Events

variable {F : Type} (A : FrameAllocator F) (fileRead : FileRead)

/-- Events that keep the bytes of the payload. -/
inductive QuietEvent : PayloadState F → PayloadState F → Prop
  /-- An allocation fails. -/
  | getFails (s : PayloadState F) {n : ℕ} {e : ErrCode} {f : F}
      (h : A.getFreePage s.frames n = .ok (.error e, f)) : QuietEvent s { s with frames := f }
  /-- A missing page is allocated and filled. -/
  | alloc (s : PayloadState F) {v a : ℕ} {f : F} {bytes : List UInt8}
      (hnone : s.payload.phyPages.lookup v = none)
      (hget : A.getFreePage s.frames 1 = .ok (.ok a, f))
      (hbytes : s.payload.fileBytes fileRead v = .ok bytes) :
      QuietEvent s ⟨s.payload.setPage v ⟨a, 1⟩, f,
        memcpyFrom (memset s.mem a 0 PAGESIZE) a (fun i => bytes.getD i 0) bytes.length⟩
  /-- A page is allocated, cleared, and given back. -/
  | scratch (s : PayloadState F) {a : ℕ} {f f' : F}
      (hget : A.getFreePage s.frames 1 = .ok (.ok a, f)) (hput : A.putPage f a = .ok f') :
      QuietEvent s { s with frames := f', mem := memset s.mem a 0 PAGESIZE }
  /-- The count of an exclusive page is set to one. -/
  | settle (s : PayloadState F) {v : ℕ} {page : PhyPage}
      (hpage : s.payload.phyPages.lookup v = some page) (hle : page.refcount ≤ 1) :
      QuietEvent s { s with payload := s.payload.setPage v { page with refcount := 1 } }
  /-- A shared page moves to a frame of its own. -/
  | split (s : PayloadState F) {v a : ℕ} {page : PhyPage} {f f' : F}
      (hpage : s.payload.phyPages.lookup v = some page) (hlt : 1 < page.refcount)
      (hget : A.getFreePage s.frames 1 = .ok (.ok a, f))
      (hput : A.putPage f page.addr = .ok f') :
      QuietEvent s ⟨s.payload.setPage v ⟨a, 1⟩, f', memcpy s.mem a page.addr PAGESIZE⟩

/-- All events of a payload that change at most the bytes `W` of it. -/
inductive PayloadEvent (W : Set ℕ) : PayloadState F → PayloadState F → Prop
  | quiet (s s' : PayloadState F) (h : QuietEvent A fileRead s s') : PayloadEvent W s s'
  /-- Bytes are written into an exclusive page. -/
  | store (s : PayloadState F) {v : ℕ} {page : PhyPage} (data : ℕ → UInt8) {o n : ℕ}
      (hpage : s.payload.phyPages.lookup v = some page) (hle : page.refcount ≤ 1)
      (hend : o + n ≤ PAGESIZE) (hW : ∀ i < n, v * PAGESIZE + o + i ∈ W) :
      PayloadEvent W s { s with mem := memcpyFrom s.mem (page.addr + o) data n }
  /-- A page is given back. -/
  | release (s : PayloadState F) {v : ℕ} {page : PhyPage} {f : F} (hW : W = univ)
      (hpage : s.payload.phyPages.lookup v = some page)
      (hput : A.putPage s.frames page.addr = .ok f) :
      PayloadEvent W s { s with payload := s.payload.erasePage v, frames := f }
  /-- All pages move to a new contiguous range. -/
  | relocate (s t : PayloadState F) {n base : ℕ} {f : F} {mem : PhysMem}
      (hW : W = univ) (hget : A.getFreePage s.frames n = .ok (.ok base, f))
      (hmem : ∀ x, ¬(base ≤ x ∧ x < base + n * PAGESIZE) → mem x = s.mem x)
      (hput : putAll A s.payload.phyPages.entries ⟨s.payload, f, mem⟩ = .ok (.ok (), t)) :
      PayloadEvent W s
        { t with payload := { t.payload with
                                phyPages := MemoryPayload.contiguousPages base n } }
  | setMemsz (s : PayloadState F) (newsz : ℕ) (hW : W = univ) :
      PayloadEvent W s { s with payload := { s.payload with memsz := newsz } }

variable {A fileRead} {s s' : PayloadState F}

theorem quiet_run {W : Set ℕ} (h : ReflTransGen (QuietEvent A fileRead) s s') :
    ReflTransGen (PayloadEvent A fileRead W) s s' :=
  .mono (fun _ _ hevent => PayloadEvent.quiet _ _ hevent) s s' h

theorem PayloadEvent.mono_bytes {W W' : Set ℕ} (hsub : W ⊆ W')
    (h : PayloadEvent A fileRead W s s') : PayloadEvent A fileRead W' s s' := by
  cases h with
  | quiet _ h => exact .quiet _ _ h
  | store data hpage hle hend hW => exact .store s data hpage hle hend fun i hi => hsub (hW i hi)
  | release hW hpage hput => exact .release s (univ_subset_iff.mp (hW ▸ hsub)) hpage hput
  | relocate t hW hget hmem hput =>
    exact .relocate s t (univ_subset_iff.mp (hW ▸ hsub)) hget hmem hput
  | setMemsz newsz hW => exact .setMemsz s newsz (univ_subset_iff.mp (hW ▸ hsub))

/-! ## Inversions of the primitive calls -/

variable {offset n total buflen : ℕ}

theorem getFrames_eq_ok {r : Result ℕ} (h : getFrames A n s = .ok (r, s')) :
    ∃ f, A.getFreePage s.frames n = .ok (r, f) ∧ s' = { s with frames := f } := by
  obtain ⟨⟨res, f⟩, hget, h⟩ := bind_eq_ok_iff.mp h
  cases h
  exact ⟨f, hget, rfl⟩

variable {r : Result Unit}

theorem putFrame_eq_ok {addr : ℕ} (h : putFrame A addr s = .ok (r, s')) :
    ∃ f, A.putPage s.frames addr = .ok f ∧ r = .ok () ∧ s' = { s with frames := f } := by
  obtain ⟨f, hput, h⟩ := bind_eq_ok_iff.mp h
  cases h
  exact ⟨f, hput, rfl, rfl⟩

variable {m : MemoryPayload}

theorem lookupPage_eq_ok {paddr : ℕ} (h : m.lookupPage offset = .ok paddr) : ∃ page,
      m.phyPages.lookup (offsetToOffvpn offset) = some page ∧ page.addr = paddr := by
  unfold MemoryPayload.lookupPage at h
  split at h
  · cases h
  · split at h
    · cases h
    · rename_i page hpage
      exact ⟨page, hpage, ok.inj h⟩

theorem lookupPage_eq_pageNotPresent (h : m.lookupPage offset = .error .pageNotPresent) :
    m.phyPages.lookup (offsetToOffvpn offset) = none := by
  unfold MemoryPayload.lookupPage at h
  split at h
  · cases h
  · split at h
    · assumption
    · cases h

theorem pageRefcount_eq_ok (h : m.pageRefcount offset = .ok n) : ∃ page,
      m.phyPages.lookup (offsetToOffvpn offset) = some page ∧ page.refcount = n := by
  unfold MemoryPayload.pageRefcount at h
  split at h
  · cases h
  · split at h
    · cases h
    · rename_i page hpage
      exact ⟨page, hpage, ok.inj h⟩

/-! ## `ensure_page` and `fork` -/

theorem allocPage_events {v : ℕ} {r : Result ℕ}
    (hnone : s.payload.phyPages.lookup v = none) (h : allocPage A fileRead v s = .ok (r, s')) :
    QuietEvent A fileRead s s' ∧ ∀ paddr, r = .ok paddr →
      s'.payload.phyPages.lookup v = some ⟨paddr, 1⟩ := by
  rcases bind_eq_ok.mp h with ⟨e, hget, rfl⟩ | ⟨a, t, hget, h⟩
  · obtain ⟨f, hf, rfl⟩ := getFrames_eq_ok hget
    exact ⟨.getFails s hf, fun _ ha => by cases ha⟩
  obtain ⟨f, hf, rfl⟩ := getFrames_eq_ok hget
  simp only [modify_bind, get_bind] at h
  cases hbytes : s.payload.fileBytes fileRead v with
  | error e =>
    simp only [hbytes] at h
    rcases bind_eq_ok.mp h with ⟨e, hput, -⟩ | ⟨_, t, hput, h⟩
    · obtain ⟨-, -, hr, -⟩ := putFrame_eq_ok hput
      cases hr
    · obtain ⟨f', hf', -, rfl⟩ := putFrame_eq_ok hput
      obtain ⟨rfl, rfl⟩ := throw_eq_ok.mp h
      exact ⟨.scratch s hf hf', fun _ ha => by cases ha⟩
  | ok bytes =>
    simp only [hbytes] at h
    obtain ⟨rfl, rfl⟩ := pure_eq_ok.mp h
    refine ⟨.alloc s hnone hf hbytes, ?_⟩
    intro paddr ha
    cases ha
    exact AList.lookup_insert _

/-- **`ensure_page`**: the page was there, or one event tries to allocate it. -/
theorem ensurePage_events {r : Result ℕ} (h : ensurePage A fileRead offset s = .ok (r, s')) :
    ReflTransGen (QuietEvent A fileRead) s s' ∧ ∀ paddr, r = .ok paddr → ∃ page,
      s'.payload.phyPages.lookup (offsetToOffvpn offset) = some page ∧ page.addr = paddr := by
  unfold ensurePage at h
  rw [get_bind] at h
  cases hlook : s.payload.lookupPage offset with
  | ok paddr =>
    rw [hlook] at h
    obtain ⟨rfl, rfl⟩ := pure_eq_ok.mp h
    refine ⟨.refl, ?_⟩
    intro a ha
    cases ha
    exact lookupPage_eq_ok hlook
  | error e =>
    rw [hlook] at h
    by_cases he : e = .pageNotPresent
    · subst he
      obtain ⟨hevent, hpage⟩ := allocPage_events (lookupPage_eq_pageNotPresent hlook) h
      exact ⟨.single hevent, fun paddr ha => ⟨⟨paddr, 1⟩, hpage paddr ha, rfl⟩⟩
    · simp only [if_neg he] at h
      obtain ⟨rfl, rfl⟩ := throw_eq_ok.mp h
      exact ⟨.refl, fun _ ha => by cases ha⟩

/-- **`fork`**: nothing, or one event after which the page is exclusive. -/
theorem forkPage_events (h : forkPage A offset s = .ok (r, s')) :
    ReflTransGen (QuietEvent A fileRead) s s' ∧ (r = .ok () → ∃ page,
      s'.payload.phyPages.lookup (offsetToOffvpn offset) = some page ∧ page.refcount = 1) := by
  unfold forkPage at h
  rw [get_bind] at h
  split at h
  · obtain ⟨rfl, rfl⟩ := throw_eq_ok.mp h
    exact ⟨.refl, fun ha => by cases ha⟩
  cases hpage : s.payload.phyPages.lookup (offsetToOffvpn offset) with
  | none =>
    simp only [hpage] at h
    obtain ⟨rfl, rfl⟩ := throw_eq_ok.mp h
    exact ⟨.refl, fun ha => by cases ha⟩
  | some page =>
    simp only [hpage] at h
    split at h
    · rename_i hle
      obtain ⟨rfl, rfl⟩ := modify_eq_ok.mp h
      exact ⟨.single (.settle s hpage hle),
        fun _ => ⟨{ page with refcount := 1 }, AList.lookup_insert _, rfl⟩⟩
    rcases bind_eq_ok.mp h with ⟨e, hget, rfl⟩ | ⟨a, t, hget, h⟩
    · obtain ⟨f, hf, rfl⟩ := getFrames_eq_ok hget
      exact ⟨.single (.getFails s hf), fun ha => by cases ha⟩
    obtain ⟨f, hf, rfl⟩ := getFrames_eq_ok hget
    obtain ⟨f', hf', rfl, rfl⟩ := putFrame_eq_ok h
    exact ⟨.single (.split s hpage (by omega) hf hf'),
      fun _ => ⟨⟨a, 1⟩, AList.lookup_insert _, rfl⟩⟩

/-! ## `read` and `write` -/

theorem readLoop_keeps (n consumed : ℕ) (data : List UInt8) :
    Keeps (ReflTransGen (QuietEvent A fileRead))
      (readLoop A fileRead offset total n consumed data) := by
  induction n generalizing consumed data with
  | zero => exact .pure _
  | succ n ih =>
    refine .ite (.bind (fun _ _ _ hens => (ensurePage_events hens).1) fun _ => ?_) (.pure _)
    exact .bind .get fun _ => ih _ _

/-- **`read`** is quiet. -/
theorem readPayload_keeps {nonnull : Bool} : Keeps (ReflTransGen (QuietEvent A fileRead))
    (readPayload A fileRead offset nonnull buflen) := by
  refine .ite (.throw _) (.ite (.pure _) (.bind .get fun _ => ?_))
  exact .bind (.ofResult _) fun _ => readLoop_keeps _ _ _

/-- The bytes of one round of a loop stay in the page of its offset. -/
theorem offsetInPage_add_chunk_le (offset remain : ℕ) :
    offsetInPage offset + pageChunkSize offset remain ≤ PAGESIZE := by
  have hlt : offsetInPage offset < PAGESIZE := Nat.mod_lt _ (by decide)
  unfold pageChunkSize
  simp only
  split <;> omega

theorem pageChunkSize_le (offset remain : ℕ) : pageChunkSize offset remain ≤ remain := by
  unfold pageChunkSize
  simp only
  split <;> omega

theorem offvpn_mul_add_offsetInPage (offset : ℕ) :
    offsetToOffvpn offset * PAGESIZE + offsetInPage offset = offset := by
  rw [offsetToOffvpn_eq, mul_comm]
  exact Nat.div_add_mod offset PAGESIZE

/-- The end of a round, when the page is present. -/
theorem lookupPage_bind_eq_ok {α : Type} {f : ℕ → Kernel (PayloadState F) α} {r : Result α}
    {page : PhyPage} (hpage : s.payload.phyPages.lookup (offsetToOffvpn offset) = some page)
    (h : (get >>= fun s => ofResult (s.payload.lookupPage offset) >>= f) s = .ok (r, s')) :
    (∃ e, r = .error e ∧ s' = s) ∨ f page.addr s = .ok (r, s') := by
  rw [get_bind] at h
  rcases ofResult_bind_eq_ok.mp h with ⟨e, -, hr, hs⟩ | ⟨a, ha, h⟩
  · exact .inl ⟨e, hr, hs⟩
  · obtain ⟨page', hpage', rfl⟩ := lookupPage_eq_ok ha
    cases hpage.symm.trans hpage'
    exact .inr h

/-- One round of `write`: it fails before the store, or the page is made present and exclusive and
the bytes are stored. -/
theorem writeLoop_succ_eq_ok {data : ℕ → UInt8} {n consumed : ℕ} {r : Result ℕ}
    (hlt : consumed < total)
    (h : writeLoop A fileRead offset data total (n + 1) consumed s = .ok (r, s')) :
    (ReflTransGen (QuietEvent A fileRead) s s' ∧ ∃ e, r = .error e) ∨
      ∃ u page, ReflTransGen (QuietEvent A fileRead) s u ∧
        u.payload.phyPages.lookup (offsetToOffvpn (offset + consumed)) = some page ∧
        page.refcount ≤ 1 ∧ writeLoop A fileRead offset data total n
          (consumed + pageChunkSize (offset + consumed) (total - consumed))
          { u with
            mem := memcpyFrom u.mem (page.addr + offsetInPage (offset + consumed))
              (fun i => data (consumed + i))
              (pageChunkSize (offset + consumed) (total - consumed)) } = .ok (r, s') := by
  rw [writeLoop, if_pos hlt] at h
  rcases bind_eq_ok.mp h with ⟨e, hens, rfl⟩ | ⟨paddr, t, hens, h⟩
  · exact .inl ⟨(ensurePage_events hens).1, e, rfl⟩
  have hens' := (ensurePage_events hens).1
  rw [get_bind] at h
  rcases ofResult_bind_eq_ok.mp h with ⟨e, -, rfl, rfl⟩ | ⟨rc, hrc, h⟩
  · exact .inl ⟨hens', e, rfl⟩
  -- after the optional fork the page of this round is exclusive
  split at h
  · rcases bind_eq_ok.mp h with ⟨e, hfork, rfl⟩ | ⟨_, u, hfork, h⟩
    · exact .inl ⟨hens'.trans (forkPage_events hfork).1, e, rfl⟩
    obtain ⟨hrun, hexcl⟩ : ReflTransGen (QuietEvent A fileRead) t u ∧ _ := forkPage_events hfork
    obtain ⟨page, hpage, hone⟩ := hexcl rfl
    rcases lookupPage_bind_eq_ok hpage h with ⟨e, rfl, rfl⟩ | h
    · exact .inl ⟨hens'.trans hrun, e, rfl⟩
    · exact .inr ⟨u, page, hens'.trans hrun, hpage, hone.le, h⟩
  · obtain ⟨page, hpage, rfl⟩ := pageRefcount_eq_ok hrc
    rcases lookupPage_bind_eq_ok hpage h with ⟨e, rfl, rfl⟩ | h
    · exact .inl ⟨hens', e, rfl⟩
    · exact .inr ⟨t, page, hens', hpage, by omega, h⟩

theorem writeLoop_events {data : ℕ → UInt8} : ∀ n consumed (r : Result ℕ)
    (s s' : PayloadState F), writeLoop A fileRead offset data total n consumed s = .ok (r, s') →
      ReflTransGen (PayloadEvent A fileRead {x | offset ≤ x ∧ x < offset + total}) s s' := by
  intro n
  induction n with
  | zero =>
    intro consumed r s s' h
    obtain ⟨-, rfl⟩ := pure_eq_ok.mp h
    exact .refl
  | succ n ih =>
    intro consumed r s s' h
    by_cases hlt : consumed < total
    · rcases writeLoop_succ_eq_ok hlt h with ⟨hrun, -⟩ | ⟨u, page, hrun, hpage, hle, h⟩
      · exact quiet_run hrun
      refine (quiet_run hrun).trans (.trans (.single ?_) (ih _ _ _ _ h))
      refine PayloadEvent.store u _ hpage hle (offsetInPage_add_chunk_le _ _) ?_
      intro i hi
      have hchunk := hi.trans_le (pageChunkSize_le (offset + consumed) (total - consumed))
      rw [offvpn_mul_add_offsetInPage]
      exact ⟨by omega, by omega⟩
    · rw [writeLoop, if_neg hlt] at h
      obtain ⟨-, rfl⟩ := pure_eq_ok.mp h
      exact .refl

/-- **`write`** only stores into exclusive pages, and only the bytes it was asked for. -/
theorem writePayload_events {data : Option (ℕ → UInt8)} {r : Result ℕ}
    (h : writePayload A fileRead offset data buflen s = .ok (r, s')) :
    ReflTransGen (PayloadEvent A fileRead {x | offset ≤ x ∧ x < offset + buflen}) s s' := by
  unfold writePayload at h
  split at h
  · obtain ⟨-, rfl⟩ := pure_eq_ok.mp h
    exact .refl
  cases data with
  | none =>
    obtain ⟨-, rfl⟩ := throw_eq_ok.mp h
    exact .refl
  | some data =>
    simp only [get_bind] at h
    rcases ofResult_bind_eq_ok.mp h with ⟨e, -, -, rfl⟩ | ⟨total, htotal, h⟩
    · exact .refl
    have hle := MemoryPayload.boundedLength_le htotal
    refine .mono (fun _ _ hevent => hevent.mono_bytes ?_) s s'
      (writeLoop_events _ _ _ _ _ h)
    rintro x ⟨hlow, hhigh⟩
    exact ⟨hlow, by omega⟩

/-! ## `release_pages_from` and `resize` -/

theorem AList.lookup_of_mem_entries {β : Type} {pages : AList fun _ : ℕ => β}
    {entry : Sigma fun _ : ℕ => β} (h : entry ∈ pages.entries) :
    pages.lookup entry.1 = some entry.2 :=
  AList.mem_lookup_iff.mpr h

theorem releaseLoop_events {first : ℕ} : ∀ (entries : List (Sigma fun _ : ℕ => PhyPage))
    (r : Result Unit) (s s' : PayloadState F), entries.NodupKeys →
    (∀ entry ∈ entries, s.payload.phyPages.lookup entry.1 = some entry.2) →
    releaseLoop A first entries s = .ok (r, s') →
      ReflTransGen (PayloadEvent A fileRead univ) s s' := by
  intro entries
  induction entries with
  | nil =>
    intro r s s' _ _ h
    obtain ⟨-, rfl⟩ := pure_eq_ok.mp h
    exact ReflTransGen.refl
  | cons entry rest ih =>
    intro r s s' hnodup hlook h
    obtain ⟨hfresh, hrest⟩ := nodupKeys_cons.mp hnodup
    have hpage := hlook entry mem_cons_self
    have hothers := fun e he => hlook e (mem_cons_of_mem entry he)
    rw [releaseLoop] at h
    split at h
    · rcases bind_eq_ok.mp h with ⟨e, hput, -⟩ | ⟨_, t, hput, h⟩
      · obtain ⟨-, -, hr, -⟩ := putFrame_eq_ok hput
        cases hr
      obtain ⟨f, hf, -, rfl⟩ := putFrame_eq_ok hput
      refine (ReflTransGen.single (PayloadEvent.release s rfl hpage hf)).trans
        (ih _ _ _ hrest ?_ h)
      intro e he
      have hne : e.1 ≠ entry.1 := by
        intro heq
        exact hfresh (heq ▸ mem_keys_of_mem he)
      exact (AList.lookup_erase_ne hne).trans (hothers e he)
    · exact ih _ _ _ hrest hothers h

/-- **`release_pages_from`** only gives pages back. -/
theorem releasePagesFrom_events (h : releasePagesFrom A offset s = .ok (r, s')) :
    ReflTransGen (PayloadEvent A fileRead univ) s s' := by
  exact releaseLoop_events _ _ _ _ s.payload.phyPages.nodupKeys
    (fun _ he => AList.lookup_of_mem_entries he) h

/-- The copy loop of `resize` only writes into the new range. -/
theorem copyLoop_outside {base x : ℕ} : ∀ n mem,
    ¬(base ≤ x ∧ x < base + n * PAGESIZE) → copyLoop m base n mem x = mem x := by
  intro n
  induction n with
  | zero =>
    intro mem _
    rfl
  | succ n ih =>
    intro mem hx
    have hend : base + (n + 1) * PAGESIZE = base + n * PAGESIZE + PAGESIZE := by ring
    rw [hend] at hx
    have hrest := ih mem fun hin => hx ⟨hin.1, Nat.lt_add_right _ hin.2⟩
    rw [copyLoop]
    cases m.lookupPage (offvpnToOffset n) with
    | error e => exact hrest
    | ok old =>
      exact (memcpy_outside fun hin =>
        hx ⟨(Nat.le_add_right _ _).trans hin.1, hin.2⟩).trans hrest

theorem putAll_ok : ∀ (entries : List (Sigma fun _ : ℕ => PhyPage)) (r : Result Unit)
    (s s' : PayloadState F), putAll A entries s = .ok (r, s') → r = .ok () := by
  intro entries
  induction entries with
  | nil =>
    intro r s s' h
    exact (pure_eq_ok.mp h).1
  | cons entry rest ih =>
    intro r s s' h
    rcases bind_eq_ok.mp h with ⟨e, hput, -⟩ | ⟨_, t, hput, h⟩
    · obtain ⟨-, -, hr, -⟩ := putFrame_eq_ok hput
      cases hr
    · exact ih _ _ _ h

theorem relocate_events {newPages copyPages : ℕ} (hle : copyPages ≤ newPages)
    (h : relocate A newPages copyPages s = .ok (r, s')) : PayloadEvent A fileRead univ s s' := by
  rcases bind_eq_ok.mp h with ⟨e, hget, rfl⟩ | ⟨base, t, hget, h⟩
  · obtain ⟨f, hf, rfl⟩ := getFrames_eq_ok hget
    exact .quiet _ _ (.getFails s hf)
  obtain ⟨f, hf, rfl⟩ := getFrames_eq_ok hget
  simp only [modify_bind, get_bind] at h
  have hmul : copyPages * PAGESIZE ≤ newPages * PAGESIZE := Nat.mul_le_mul_right _ hle
  rcases bind_eq_ok.mp h with ⟨e, hput, rfl⟩ | ⟨_, u, hput, h⟩
  · cases putAll_ok _ _ _ _ hput
  obtain ⟨-, rfl⟩ := modify_eq_ok.mp h
  refine .relocate s u rfl hf ?_ hput
  intro x hx
  exact (copyLoop_outside _ _ fun hin => hx ⟨hin.1, hin.2.trans_le
    (Nat.add_le_add_left hmul base)⟩).trans (memset_outside hx)

/-- **`resize`**. -/
theorem resizePayload_keeps {newsz : ℕ} :
    Keeps (ReflTransGen (PayloadEvent A fileRead univ)) (resizePayload A newsz) := by
  have hlast : Keeps (ReflTransGen (PayloadEvent A fileRead univ)) (setMemsz newsz) :=
    .modify fun t => .single (.setMemsz t newsz rfl)
  have hrelease : ∀ offset, Keeps (ReflTransGen (PayloadEvent A fileRead univ))
      (releasePagesFrom A offset) := fun _ _ _ _ => releasePagesFrom_events
  have hle : ∀ a b : ℕ, (if a < b then a else b) ≤ b := by
    intro a b
    split <;> omega
  refine .bind .get fun s => .ite (.pure _) (.ite (.throw _) (.ite (.throw _) (.ite (.ite ?_ ?_) ?_)))
  · exact .bind (hrelease 0) fun _ => hlast
  · exact .bind (fun _ _ _ h => .single (relocate_events (hle _ _) h)) fun _ => hlast
  · exact .ite (.bind (hrelease newsz) fun _ => hlast) hlast

end Events

end Sustcore
