/-
# Runs over the heap of memory payloads

A run creates, clones, reads, writes, resizes and destroys payloads in any order, while
the rest of the kernel uses the frame allocator for frames of its own.  Every step is
labelled with the payload and the bytes it may change.  The heap stays sound, and a step
changes no byte it is not labelled with; in particular a write to one payload is never
seen through another one (`copy_on_write_isolated`).
-/
import Sustcore.Ledger
import Sustcore.MemoryBytes

namespace Sustcore

open Relation Function MemoryHeap Option Except List Set

section Clone

variable {F : Type} {A : FrameAllocator F} {fileRead : FileRead}

/-! ## `clone_payload` -/

variable {p fresh v w : ℕ}

theorem pageTable_clone (P : ℕ → Option MemoryPayload) (hne : p ≠ fresh)
    (m cloned : MemoryPayload) (v : ℕ) (page : PhyPage) :
    pageTable (update (update P p (some (m.setPage v page))) fresh (some (cloned.setPage v page))) =
      update (update (pageTable (update
        (update P p (some m)) fresh (some cloned))) (p, v) (some page.cell))
        (fresh, v) (some page.cell) := by
  rw [pageTable_setPage, update_comm hne, pageTable_setPage, update_comm hne]

def MemoryPayload.pageAddr (m : MemoryPayload) (v : ℕ) : Option ℕ :=
  (m.phyPages.lookup v).map PhyPage.addr

variable {m : MemoryPayload}

theorem pageAddr_setPage {page : PhyPage} :
    (m.setPage v page).pageAddr w = if w = v then some page.addr else m.pageAddr w := by
  unfold MemoryPayload.pageAddr MemoryPayload.setPage
  split
  · rename_i hw
    subst hw
    simp
  · rename_i hw
    rw [AList.lookup_insert_ne hw]

theorem byteAt_of_pageAddr {m' : MemoryPayload} (haddr : ∀ v, m'.pageAddr v = m.pageAddr v)
    (hfile : m'.fileBytes fileRead = m.fileBytes fileRead) (mem : PhysMem) (x : ℕ) :
    m'.byteAt fileRead mem x = m.byteAt fileRead mem x := by
  have hx := haddr (offsetToOffvpn x)
  unfold MemoryPayload.pageAddr at hx
  unfold MemoryPayload.byteAt
  cases hm : m.phyPages.lookup (offsetToOffvpn x) with
  | none =>
    rw [hm] at hx
    rw [map_eq_none_iff.mp hx, hfile]
  | some page =>
    rw [hm] at hx
    obtain ⟨page', hm', haddr'⟩ := map_eq_some_iff.mp hx
    rw [hm']
    show mem (page'.addr + _) = mem (page.addr + _)
    rw [haddr']

theorem aligned_of_setPage {page page' : PhyPage} (ha : PAGESIZE ∣ page.addr)
    (hold : ∀ w, m.phyPages.lookup w = some page' → PAGESIZE ∣ page'.addr)
    (hpage' : (m.setPage v page).phyPages.lookup w = some page') : PAGESIZE ∣ page'.addr := by
  by_cases hw : w = v
  · subst hw
    obtain rfl := some.inj ((AList.lookup_insert _).symm.trans hpage')
    exact ha
  · exact hold w ((AList.lookup_insert_ne hw).symm.trans hpage')

theorem cloneLoop_sound {P : ℕ → Option MemoryPayload} (hne : p ≠ fresh)
    {mem : PhysMem} : ∀ (entries : List (Sigma fun _ : ℕ => PhyPage)) (m cloned : MemoryPayload)
    (f : F) (m' cloned' : MemoryPayload) (f' : F), entries.NodupKeys →
    (∀ entry ∈ entries, m.phyPages.lookup entry.1 = some entry.2 ∧
      cloned.phyPages.lookup entry.1 = none) →
    MemoryHeap.Sound A ⟨update (update P p (some m)) fresh (some cloned), f, mem⟩ →
    cloneLoop A entries (m, cloned, f) = (m', cloned', f') →
      MemoryHeap.Sound A ⟨update (update P p (some m')) fresh (some cloned'), f', mem⟩ ∧
      (∀ v, m'.pageAddr v = m.pageAddr v) ∧
      ∀ fileRead, m'.fileBytes fileRead = m.fileBytes fileRead := by
  intro entries
  induction entries with
  | nil =>
    intro m cloned f m' cloned' f' _ _ hs hloop
    obtain ⟨rfl, hrest⟩ := Prod.mk.inj hloop
    obtain ⟨rfl, rfl⟩ := Prod.mk.inj hrest
    exact ⟨hs, fun _ => rfl, fun _ => rfl⟩
  | cons entry rest ih =>
    intro m cloned f m' cloned' f' hnodup hlook hs hloop
    obtain ⟨hfresh, hrest⟩ := nodupKeys_cons.mp hnodup
    obtain ⟨hpage, hnone⟩ := hlook entry mem_cons_self
    have hp : update (update P p (some m)) fresh (some cloned) p = some m := by
      rw [update_of_ne hne, update_self]
    have hslot := pageTable_of hp hpage
    have hempty : pageTable (update (update P p (some m)) fresh
        (some cloned)) (fresh, entry.1) = none := by
      rw [pageTable_update_self, hnone]
      rfl
    obtain ⟨hwf, hrefs⟩ := A.keep_ok f entry.2.addr hs.wf (hs.shared.refs_pos hslot)
    have hshare := hs.shared.share hslot hempty hrefs
    have haligned : PAGESIZE ∣ ({ entry.2 with refcount := entry.2.refcount + 1 } :
        PhyPage).addr := hs.aligned p m entry.1 entry.2 hp hpage
    have hnext : MemoryHeap.Sound A ⟨update (update P p
        (some (m.setPage entry.1 { entry.2 with refcount := entry.2.refcount + 1 }))) fresh
        (some (cloned.setPage entry.1 { entry.2 with refcount := entry.2.refcount + 1 })),
        A.keepPage f entry.2.addr, mem⟩ := by
      refine ⟨hwf, ?_, ?_⟩
      · rwa [pageTable_clone P hne]
      · -- the changed entry keeps its address in both payloads
        intro q n v page hq hv
        rcases update_eq_cases hq with ⟨rfl, ⟨⟩⟩ | ⟨hqf, hq⟩
        · exact aligned_of_setPage haligned (fun w => hs.aligned q cloned w _
            (update_self ..)) hv
        rcases update_eq_cases hq with ⟨rfl, ⟨⟩⟩ | ⟨hqp, hq⟩
        · exact aligned_of_setPage haligned (fun w => hs.aligned q m w _ hp) hv
        · refine hs.aligned q n v page ?_ hv
          simp only [update_of_ne hqf, update_of_ne hqp]
          exact hq
    have hlook' : ∀ e ∈ rest,
        (m.setPage entry.1 { entry.2 with refcount := entry.2.refcount + 1 }).phyPages.lookup e.1
            = some e.2 ∧
          (cloned.setPage entry.1
            { entry.2 with refcount := entry.2.refcount + 1 }).phyPages.lookup e.1 = none := by
      intro e he
      have hkey : e.1 ≠ entry.1 := by
        intro heq
        exact hfresh (heq ▸ mem_keys_of_mem he)
      obtain ⟨hold, hold'⟩ := hlook e (mem_cons_of_mem _ he)
      exact ⟨(AList.lookup_insert_ne hkey).trans hold, (AList.lookup_insert_ne hkey).trans hold'⟩
    obtain ⟨hsound, haddr, hfile⟩ := ih _ _ _ _ _ _ hrest hlook' hnext hloop
    refine ⟨hsound, ?_, hfile⟩
    intro v
    rw [haddr, pageAddr_setPage]
    split
    · rename_i hv
      rw [hv]
      unfold MemoryPayload.pageAddr
      rw [hpage]
      rfl
    · rfl

/-- **`clone_payload`** keeps the heap sound and the bytes of all payloads. -/
theorem MemoryHeap.Sound.clone {h : MemoryHeap F} (hs : h.Sound A)
    (hp : h.payloads p = some m) (hnew : h.payloads fresh = none) :
    (h.clonePayload A p m fresh).2.Sound A ∧ ∀ q x, q ≠ fresh →
      (h.clonePayload A p m fresh).2.byteAt fileRead q x = h.byteAt fileRead q x := by
  have hne : p ≠ fresh := by
    rintro rfl
    rw [hnew] at hp
    cases hp
  unfold clonePayload
  split
  · exact ⟨hs, fun _ _ _ => rfl⟩
  have hempty : MemoryHeap.Sound A ⟨update (update h.payloads p (some m)) fresh
      (some { m with phyPages := ∅ }), h.frames, h.mem⟩ := by
    rw [← hp, update_eq_self]
    refine ⟨hs.wf, ?_, ?_⟩
    · rw [pageTable_empty h.payloads fresh rfl, ← hnew, update_eq_self]
      exact hs.shared
    · intro q n v page hq hv
      rcases update_eq_cases hq with ⟨-, ⟨⟩⟩ | ⟨-, hq⟩
      · simp at hv
      · exact hs.aligned q n v page hq hv
  obtain ⟨hsound, haddr, hfile⟩ := cloneLoop_sound hne
    m.phyPages.entries m { m with phyPages := ∅ } h.frames _ _ _ m.phyPages.nodupKeys
    (fun entry he => ⟨AList.lookup_of_mem_entries he, AList.lookup_empty _⟩) hempty rfl
  refine ⟨hsound, ?_⟩
  intro q x hq
  unfold byteAt
  simp only [update_of_ne hq]
  by_cases hqp : q = p
  · subst hqp
    rw [update_self, hp]
    exact congrArg some (byteAt_of_pageAddr haddr (hfile fileRead) h.mem x)
  · rw [update_of_ne hqp]

/-- **`destruct`** keeps the heap sound and the bytes of the other payloads. -/
theorem MemoryHeap.Sound.destruct {h h' : MemoryHeap F} (hs : h.Sound A)
    (hp : h.payloads p = some m) (hcall : h.destruct A p m = .ok h') :
    h'.Sound A ∧ ∀ q x, q ≠ p → h'.byteAt fileRead q x = h.byteAt fileRead q x := by
  obtain ⟨⟨r, t⟩, hput, hret⟩ := bind_eq_ok_iff.mp hcall
  cases hret
  obtain rfl := putAll_ok _ _ _ _ hput
  have hput' : (h.put p (h.select m)).Sound A := by
    rwa [put_select hp]
  obtain ⟨-, hmem, hwf, -, hsound⟩ := hput'.putAll hput
  refine ⟨⟨hwf, hsound, ?_⟩, ?_⟩
  · intro q n v page hq hv
    by_cases hqp : q = p
    · subst hqp
      simp at hq
    · simp only [update_of_ne hqp] at hq
      exact hs.aligned q n v page hq hv
  · intro q x hq
    unfold byteAt
    simp only [update_of_ne hq, hmem]
    rfl

end Clone

/-! ## Steps -/

section Steps

variable {F : Type} (A : FrameAllocator F) (fileRead : FileRead)

/-- One step, labelled with a payload and the bytes of it that the step may change. -/
inductive HeapStep : ℕ → Set ℕ → MemoryHeap F → MemoryHeap F → Prop
  /-- A new payload has no pages. -/
  | create (h : MemoryHeap F) {p : ℕ} {m : MemoryPayload} (hnew : h.payloads p = none)
      (hempty : m.phyPages = ∅) :
      HeapStep p univ h { h with payloads := update h.payloads p (some m) }
  | clone (h : MemoryHeap F) {p fresh : ℕ} {m : MemoryPayload} (hp : h.payloads p = some m)
      (hnew : h.payloads fresh = none) :
      HeapStep fresh univ h (h.clonePayload A p m fresh).2
  | read (h : MemoryHeap F) {p offset buflen : ℕ} {nonnull : Bool} {m : MemoryPayload}
      {r : Result (List UInt8)} {s : PayloadState F} (hp : h.payloads p = some m)
      (hcall : readPayload A fileRead offset nonnull buflen (h.select m) = .ok (r, s)) :
      HeapStep p ∅ h (h.put p s)
  | write (h : MemoryHeap F) {p offset buflen : ℕ} {data : Option (ℕ → UInt8)}
      {m : MemoryPayload} {r : Result ℕ} {s : PayloadState F} (hp : h.payloads p = some m)
      (hcall : writePayload A fileRead offset data buflen (h.select m) = .ok (r, s)) :
      HeapStep p {x | offset ≤ x ∧ x < offset + buflen} h (h.put p s)
  | ensurePage (h : MemoryHeap F) {p offset : ℕ} {m : MemoryPayload} {r : Result ℕ}
      {s : PayloadState F} (hp : h.payloads p = some m)
      (hcall : ensurePage A fileRead offset (h.select m) = .ok (r, s)) :
      HeapStep p ∅ h (h.put p s)
  | fork (h : MemoryHeap F) {p offset : ℕ} {m : MemoryPayload} {r : Result Unit}
      {s : PayloadState F} (hp : h.payloads p = some m)
      (hcall : forkPage A offset (h.select m) = .ok (r, s)) : HeapStep p ∅ h (h.put p s)
  | resize (h : MemoryHeap F) {p newsz : ℕ} {m : MemoryPayload} {r : Result Unit}
      {s : PayloadState F} (hp : h.payloads p = some m)
      (hcall : resizePayload A newsz (h.select m) = .ok (r, s)) :
      HeapStep p univ h (h.put p s)
  | destruct (h : MemoryHeap F) {p : ℕ} {m : MemoryPayload} {h' : MemoryHeap F}
      (hp : h.payloads p = some m) (hcall : h.destruct A p m = .ok h') :
      HeapStep p univ h h'
  /-- The rest of the kernel drops no reference and writes no frame of a payload. -/
  | other (h : MemoryHeap F) {f : F} {mem : PhysMem} (hwf : A.WF f)
      (hrefs : ∀ i q n, pageTable h.payloads i = some (q, n) →
        A.refs h.frames q ≤ A.refs f q)
      (hmem : ∀ i x n, pageTable h.payloads i = some (pageOf x, n) → mem x = h.mem x) :
      HeapStep 0 ∅ h { h with frames := f, mem := mem }

variable {A fileRead} {h h' : MemoryHeap F}

theorem MemoryHeap.Sound.run (hs : h.Sound A) {p : ℕ} {m : MemoryPayload}
    {W : Set ℕ} {s : PayloadState F} (hp : h.payloads p = some m)
    (hrun : ReflTransGen (PayloadEvent A fileRead W) (h.select m) s) :
    (h.put p s).Sound A ∧ ∀ q x, (q = p → x ∉ W) →
      (h.put p s).byteAt fileRead q x = h.byteAt fileRead q x := by
  have hself := put_select hp
  have hput : (h.put p (h.select m)).Sound A := by
    rwa [hself]
  obtain ⟨hsound, hbytes⟩ := payload_run hrun hput
  rw [hself] at hbytes
  exact ⟨hsound, hbytes⟩

/-- **A step keeps the heap sound, and every byte it is not labelled with.** -/
theorem HeapStep.keeps {p : ℕ} {W : Set ℕ}
    (hstep : HeapStep A fileRead p W h h') (hs : h.Sound A) : h'.Sound A ∧
      ∀ q x, (q = p → x ∉ W) → h'.byteAt fileRead q x = h.byteAt fileRead q x := by
  have hother : ∀ {q x : ℕ}, (q = p → x ∉ univ) → q ≠ p := by
    intro q x hx hqp
    exact hx hqp (mem_univ x)
  cases hstep with
  | create _ hnew hempty =>
    refine ⟨⟨hs.wf, ?_, ?_⟩, ?_⟩
    · rw [pageTable_empty h.payloads p hempty, ← hnew, update_eq_self]
      exact hs.shared
    · intro q n v page hq hv
      rcases update_eq_cases hq with ⟨-, ⟨⟩⟩ | ⟨-, hq⟩
      · rw [hempty] at hv
        simp at hv
      · exact hs.aligned q n v page hq hv
    · intro q x hx
      unfold byteAt
      simp only [update_of_ne (hother hx)]
  | clone _ hp hnew =>
    obtain ⟨hsound, hbytes⟩ := hs.clone hp hnew
    exact ⟨hsound, fun q x hx => hbytes q x (hother hx)⟩
  | read _ hp hcall => exact hs.run hp (quiet_run (readPayload_keeps _ _ _ hcall))
  | write _ hp hcall => exact hs.run hp (writePayload_events hcall)
  | ensurePage _ hp hcall => exact hs.run hp (quiet_run (ensurePage_events hcall).1)
  | fork _ hp hcall => exact hs.run hp (quiet_run (forkPage_events hcall).1)
  | resize _ hp hcall => exact hs.run hp (resizePayload_keeps _ _ _ hcall)
  | destruct _ hp hcall =>
    obtain ⟨hsound, hbytes⟩ := hs.destruct hp hcall
    exact ⟨hsound, fun q x hx => hbytes q x (hother hx)⟩
  | other _ hwf hrefs hmem =>
    refine ⟨⟨hwf, hs.shared.mono hrefs, hs.aligned⟩, ?_⟩
    intro q x _
    unfold byteAt
    cases hm : h.payloads q with
    | none => rfl
    | some m =>
      refine congrArg some (byteAt_congr fun page hpage => ?_)
      refine hmem (q, offsetToOffvpn x) _ page.refcount ?_
      rw [pageOf_add (hs.aligned q m _ page hm hpage) (offsetInPage_lt x)]
      exact pageTable_of hm hpage

/-! ## Isolation -/

variable (A fileRead) in
def HeapRun (h h' : MemoryHeap F) : Prop := ∃ p W, HeapStep A fileRead p W h h'

variable (A fileRead) in
/-- A step that is not labelled with byte `x` of payload `q`. -/
def HeapRunBeside (q x : ℕ) (h h' : MemoryHeap F) : Prop :=
  ∃ p W, HeapStep A fileRead p W h h' ∧ (q = p → x ∉ W)

/-- A machine without payloads. -/
def MemoryHeap.init (f : F) (mem : PhysMem) : MemoryHeap F := ⟨fun _ => none, f, mem⟩

theorem MemoryHeap.sound_init {f : F} (hwf : A.WF f) (mem : PhysMem) : (init f mem).Sound A :=
  ⟨hwf, Sharing.sound_empty, fun _ _ _ _ h => by cases h⟩

theorem HeapRun.sound (hrun : ReflTransGen (HeapRun A fileRead) h h')
    (hs : h.Sound A) : h'.Sound A :=
  Transition.invariant (fun _ _ hs hstep => by
    obtain ⟨p, W, hstep⟩ := hstep
    exact (hstep.keeps hs).1) hrun hs

/-- A byte survives all steps that are not labelled with it. -/
theorem HeapRunBeside.byteAt_eq {q x : ℕ}
    (hrun : ReflTransGen (HeapRunBeside A fileRead q x) h h') (hs : h.Sound A) :
    h'.Sound A ∧ h'.byteAt fileRead q x = h.byteAt fileRead q x := by
  induction hrun with
  | refl => exact ⟨hs, rfl⟩
  | tail _ hstep ih =>
    obtain ⟨hsound, hbyte⟩ := ih
    obtain ⟨p, W, hstep, hx⟩ := hstep
    obtain ⟨hsound', hkept⟩ := hstep.keeps hsound
    exact ⟨hsound', (hkept q x hx).trans hbyte⟩

/-- **Copy-on-write isolation.** In every heap of a run: a frame held by two payloads has a
count of at least two in both; `read` returns the bytes of the payload; and after a write to
payload `p`, a later `read` of another payload `q` still returns the bytes `q` had before
that write, at every offset that `q` itself was not asked to change in between. -/
theorem copy_on_write_isolated {f : F} {mem : PhysMem} (hwf : A.WF f) {h : MemoryHeap F}
    (hrun : ReflTransGen (HeapRun A fileRead) (init f mem) h) :
    (∀ p q m n v w page page', p ≠ q → h.payloads p = some m → h.payloads q = some n →
      m.phyPages.lookup v = some page → n.phyPages.lookup w = some page' →
      page.addr = page'.addr → 2 ≤ page.refcount ∧ 2 ≤ page'.refcount) ∧
    (∀ q n offset buflen out s i b, h.payloads q = some n →
      readPayload A fileRead offset true buflen (h.select n) = .ok (.ok out, s) →
      out[i]? = some b → h.byteAt fileRead q (offset + i) = some b) ∧
    ∀ p q m offset data buflen r s, p ≠ q → h.payloads p = some m →
      writePayload A fileRead offset data buflen (h.select m) = .ok (r, s) →
      ∀ h' n offset' buflen' out s' i b,
        ReflTransGen (HeapRunBeside A fileRead q (offset' + i)) (h.put p s) h' →
        h'.payloads q = some n →
        readPayload A fileRead offset' true buflen' (h'.select n) = .ok (.ok out, s') →
        out[i]? = some b → h.byteAt fileRead q (offset' + i) = some b := by
  have hs := HeapRun.sound hrun (sound_init hwf mem)
  -- what a read returns, in any sound heap
  have hread : ∀ {h : MemoryHeap F} {q n offset buflen out s i b}, h.Sound A →
      h.payloads q = some n →
      readPayload A fileRead offset true buflen (h.select n) = .ok (.ok out, s) →
      out[i]? = some b → h.byteAt fileRead q (offset + i) = some b := by
    intro h q n offset buflen out s i b hs hq hcall hi
    have hput : (h.put q (h.select n)).Sound A := by
      rwa [put_select hq]
    unfold byteAt
    rw [hq]
    exact congrArg some (readPayload_bytes hput hcall hi)
  refine ⟨?_, fun q n offset buflen out s i b => hread hs, ?_⟩
  · intro p q m n v w page page' hpq hp hq hv hw haddr
    have hslot := pageTable_of hp hv
    have hslot' := pageTable_of hq hw
    rw [haddr] at hslot
    have hne : (p, v) ≠ (q, w) := fun heq => hpq (Prod.mk.inj heq).1
    exact ⟨hs.shared.shared _ _ _ _ _ hne hslot hslot',
      hs.shared.shared _ _ _ _ _ hne.symm hslot' hslot⟩
  · intro p q m offset data buflen r s hpq hp hwrite h' n offset' buflen' out s' i b hbeside hq
      hcall hi
    obtain ⟨hsound, hkept⟩ := (HeapStep.write h hp hwrite).keeps hs
    obtain ⟨hsound', hbyte⟩ := HeapRunBeside.byteAt_eq hbeside hsound
    rw [← hkept q (offset' + i) fun heq => absurd heq.symm hpq, ← hbyte]
    exact hread hsound' hq hcall hi

/-- **Frames are counted.**  In every heap of a run, a frame is held at most as often as the
allocator counts, and a frame that is handed out is held by no payload. -/
theorem frames_counted {f : F} {mem : PhysMem} (hwf : A.WF f) {h : MemoryHeap F}
    (hrun : ReflTransGen (HeapRun A fileRead) (init f mem) h) (q : ℕ) :
    (Sharing.holders (pageTable h.payloads) q).encard ≤ A.refs h.frames q ∧
    ∀ n a f', A.getFreePage h.frames n = .ok (.ok a, f') → InFrames (pageOf a) n q →
      Sharing.holders (pageTable h.payloads) q = ∅ := by
  have hs := HeapRun.sound hrun (sound_init hwf mem)
  refine ⟨hs.shared.counted q, ?_⟩
  intro n a f' hget hq
  have hframe := (A.get_ok _ _ _ _ hs.wf hget).2.2 q
  rw [if_pos hq] at hframe
  exact eq_empty_of_forall_notMem fun i ⟨_, hi⟩ => hs.shared.unheld hframe.1 hi

end Steps

/-! ## A write after a clone -/

section Sample

variable {F : Type} (A : FrameAllocator F)

def noFile : FileRead := fun _ _ _ => .ok []

def oneByte : MemoryPayload := ⟨1, false, false, .FIXED, none, 0, SIZE_MAX, ∅⟩

/-- The result of writing the byte of payload `p`. -/
def MemoryHeap.callWrite (h : MemoryHeap F) (p : ℕ) (b : UInt8) :
    Except Halt (Result ℕ × PayloadState F) :=
  writePayload A noFile 0 (some fun _ => b) 1 (h.select ((h.payloads p).getD oneByte))

/-- The heap after writing the byte of payload `p`. -/
def MemoryHeap.writeByte (h : MemoryHeap F) (p : ℕ) (b : UInt8) : MemoryHeap F :=
  h.put p (valueOr (.ok 0, h.select oneByte) (h.callWrite A p b)).2

/-- Payload 0 is created and written, and then cloned as payload 1. -/
def MemoryHeap.cloned (f : F) (b : UInt8) : MemoryHeap F :=
  let h := init f fun _ => 0
  let h := { h with payloads := update h.payloads 0 (some oneByte) }
  let h := h.writeByte A 0 b
  (h.clonePayload A 0 ((h.payloads 0).getD oneByte) 1).2

variable {A}

theorem MemoryHeap.writeByte_step {h : MemoryHeap F} {p : ℕ} {b : UInt8}
    (hp : (h.payloads p).isSome = true) (hok : (h.callWrite A p b).isOk = true) :
    HeapRun A noFile h (h.writeByte A p b) :=
  ⟨p, _, HeapStep.write h (eq_some_getD hp) (eq_ok_valueOr hok)⟩

theorem MemoryHeap.cloned_run {f : F} {b : UInt8}
    (hok : (({ init f (fun _ => 0) with
      payloads := update (fun _ => none) 0 (some oneByte) } :
        MemoryHeap F).callWrite A 0 b).isOk = true) :
    ReflTransGen (HeapRun A noFile) (init f fun _ => 0) (cloned A f b) := by
  have hcreate : HeapRun A noFile (init f fun _ => 0) _ :=
    ⟨0, _, HeapStep.create _ (p := 0) (m := oneByte) rfl rfl⟩
  have hwrite := writeByte_step (A := A) (p := 0) (b := b) rfl hok
  refine ((ReflTransGen.single hcreate).tail hwrite).tail ⟨1, _, HeapStep.clone _ ?_ ?_⟩
  · exact eq_some_getD (by rw [writeByte]; rfl)
  · rfl

end Sample

/-- Two payloads that share a page with the byte 7. -/
def clonedByte : MemoryHeap (Gfp Buddy) :=
  cloned (gfpFrames buddyRaw) ⟨fourPages, fun _ => 0⟩ 7

/-- Payload 1 keeps its byte when payload 0 is written after the clone. -/
theorem copy_on_write_isolated_clone : clonedByte.byteAt noFile 1 0 = some 7 := by
  have hrun : ReflTransGen (HeapRun (gfpFrames buddyRaw) noFile) _ clonedByte :=
    cloned_run (by decide)
  have hwrite : clonedByte.callWrite (gfpFrames buddyRaw) 0 9 = .ok (valueOr
      (.ok 0, clonedByte.select oneByte) (clonedByte.callWrite (gfpFrames buddyRaw) 0 9)) :=
    eq_ok_valueOr (by decide)
  have hread := eq_ok_of_returned (a := [7])
    (x := readPayload (gfpFrames buddyRaw) noFile 0 true 1
      ((clonedByte.writeByte (gfpFrames buddyRaw) 0 9).select
        (((clonedByte.writeByte (gfpFrames buddyRaw) 0 9).payloads 1).getD oneByte)))
    (clonedByte.select oneByte) (by decide)
  exact (copy_on_write_isolated fourPages_wf hrun).2.2 0 1 _ 0 _ 1 _ _ (by decide)
    (eq_some_getD (by decide)) hwrite _ _ 0 1 [7] _ 0 7 ReflTransGen.refl
    (eq_some_getD (by decide)) hread rfl

/-- Both payloads hold the frame 16. -/
theorem frames_counted_clone : (Sharing.holders (pageTable clonedByte.payloads) 16).encard ≤
    (gfpFrames buddyRaw).refs clonedByte.frames 16 :=
  (frames_counted fourPages_wf (cloned_run (by decide)) 16).1

end Sustcore
