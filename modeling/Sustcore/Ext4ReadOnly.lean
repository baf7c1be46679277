/-
# Read-only mounts of ext4

`load` mounts a volume read-only if the volume says so or has features that only a reader may
ignore.  The calls that make something new and `delete_file` test for it, and so do the calls
that write contents and attributes; `truncate`, `rename` and the branch of `unlink` for a file
with more links do not.

* `read_only_mount_unchanged` : in a run without these three, no byte of the device changes;
* `read_only_truncated` : `truncate` writes the inode of a read-only volume.
-/
import Sustcore.Ext4Files
import Sustcore.Ledger

namespace Sustcore.Ext4

open Kernel Except Relation

/-! ## Reading -/

def SameDev (s s' : State) : Prop := s'.dev = s.dev

instance : Std.Refl SameDev := ⟨fun _ => rfl⟩

instance : IsTrans State SameDev := ⟨fun _ _ _ h₁ h₂ => h₂.trans h₁⟩

theorem extentLookup_sameDev (g : Super) (inode logical : ℕ) :
    Keeps SameDev (extentLookup g inode logical) := by
  refine .bind (.query _) ?_
  intro raw
  refine .ite (.throw _) ?_
  refine .ite (.throw _) ?_
  exact .queryHalt _

theorem readDirectory_sameDev (g : Super) (inode : ℕ) : Keeps SameDev (readDirectory g inode) := by
  refine .bind (.query _) ?_
  intro raw
  refine .ite (.throw _) ?_
  refine .collect ?_ _ _
  intro logical
  refine .bind (extentLookup_sameDev g inode _) ?_
  intro m
  refine .ite (.pure _) ?_
  refine .bind (.query _) ?_
  intro block
  exact .pure _

theorem readChunk_sameDev (g : Super) (m : Mapping) (blockOff chunk : ℕ) :
    Keeps SameDev (readChunk g m blockOff chunk) := by
  refine .ite (.pure _) ?_
  refine .bind (.query _) ?_
  intro buf
  exact .pure _

theorem readLoop_sameDev (g : Super) (inode offset readable fuel done : ℕ) :
    Keeps SameDev (readInodeData.readLoop g inode offset readable fuel done) := by
  induction fuel generalizing done with
  | zero => exact .pure _
  | succ fuel ih =>
    refine .ite (.pure _) ?_
    refine .bind (extentLookup_sameDev g inode _) ?_
    intro m
    refine .bind (readChunk_sameDev g m _ _) ?_
    intro bytes
    refine .bind (ih _) ?_
    intro rest
    exact .pure _

theorem readInodeData_sameDev (g : Super) (inode offset len : ℕ) :
    Keeps SameDev (readInodeData g inode offset len) := by
  refine .ite (.pure _) ?_
  refine .bind (.query _) ?_
  intro size
  refine .ite (.pure _) ?_
  refine .bind (.query _) ?_
  intro raw
  refine .ite (.pure _) ?_
  exact readLoop_sameDev g inode offset _ _ _

theorem dropEntries_sameDev (dir : ℕ) : Keeps SameDev (dropEntries dir) :=
  .modify fun _ => rfl

theorem collectEntries_sameDev (g : Super) (dir : ℕ) : Keeps SameDev (collectEntries g dir) := by
  refine .bind .get ?_
  intro s
  split
  · exact .pure _
  refine .bind (readDirectory_sameDev g dir) ?_
  intro entries
  refine .bind (.modify fun _ => rfl) ?_
  intro _
  exact .pure _

theorem lookup_sameDev (g : Super) (dir : ℕ) (name : List UInt8) :
    Keeps SameDev (lookup g dir name) := by
  refine .ite (.pure _) ?_
  refine .bind (collectEntries_sameDev g dir) ?_
  intro entries
  split
  · exact .pure _
  · exact .throw _

theorem ignore_keeps {α : Type} {R : State → State → Prop} [Std.Refl R] [IsTrans State R]
    {x : Kernel State α} (hx : Keeps R x) : Keeps R (ignore x) :=
  .bind hx fun _ => .pure ()

/-! ## Calls that test for a read-only mount -/

section ReadOnly

variable {g : Super} (hro : g.readOnly = true)

include hro

theorem writeInodeData_sameDev (inode offset : ℕ) (data : List UInt8) :
    Keeps SameDev (writeInodeData g inode offset data) := by
  unfold writeInodeData
  rw [if_pos hro]
  exact .ite (.pure _) (.throw _)

theorem applyAttr_sameDev (inode : ℕ) (attrs : AttrSet) :
    Keeps SameDev (applyAttr g inode attrs) := by
  unfold applyAttr
  rw [if_pos hro]
  exact .throw _

theorem createFile_sameDev (parent : ℕ) (name : List UInt8) :
    Keeps SameDev (createFile g parent name) := by
  unfold createFile
  rw [if_pos hro]
  exact .throw _

theorem createDirectory_sameDev (parent : ℕ) (name : List UInt8) :
    Keeps SameDev (createDirectory g parent name) := by
  unfold createDirectory
  rw [if_pos hro]
  exact .throw _

theorem createSymlink_sameDev (parent : ℕ) (name target : List UInt8) :
    Keeps SameDev (createSymlink g parent name target) := by
  unfold createSymlink
  rw [if_pos hro]
  exact .throw _

theorem createLink_sameDev (parent : ℕ) (name : List UInt8) (target : ℕ) :
    Keeps SameDev (createLink g parent name target) := by
  unfold createLink
  rw [if_pos hro]
  exact .throw _

theorem deleteFile_sameDev (inode : ℕ) : Keeps SameDev (deleteFile g inode) := by
  unfold deleteFile
  rw [if_pos hro]
  exact .throw _

theorem removeDirEntry_sameDev (parent : ℕ) (name : List UInt8) :
    Keeps SameDev (removeDirEntry g parent name) := by
  unfold removeDirEntry
  rw [if_pos hro]
  exact .throw _

theorem rmdir_sameDev (dir : ℕ) (name : List UInt8) : Keeps SameDev (rmdir g dir name) := by
  refine .bind (lookup_sameDev g dir name) ?_
  intro target
  refine .bind (.query _) ?_
  intro mode
  refine .ite (.throw _) ?_
  refine .bind (deleteFile_sameDev hro target) ?_
  intro _
  refine .bind (removeDirEntry_sameDev hro dir name) ?_
  intro _
  exact dropEntries_sameDev dir

end ReadOnly

/-! ## Calls that do not -/

/-- `truncate` of what is neither a regular file nor a symbolic link, `unlink` of a name whose
inode has no other links, and `rename` of a name that does not exist or to itself. -/
def Harmless (g : Super) (s : State) : Op → Prop
  | .truncate inode _ => ∀ raw, readInode g inode s = .ok raw →
      fileType (iMode raw) ≠ EXT4_S_IFREG ∧ fileType (iMode raw) ≠ EXT4_S_IFLNK
  | .unlink dir name => ∀ target t raw, lookup g dir name s = .ok (.ok target, t) →
      readInodeRaw g target t = .ok raw → iLinks raw ≤ 1
  | .rename dir oldName newDir newName => dir = newDir ∧ oldName = newName ∨
      ∀ entries t, readDirectory g dir s = .ok (.ok entries, t) →
        oldName ∉ entries.map DirEntry.name
  | _ => True

variable {s s' : State} {r : Result Unit} {g : Super}

theorem truncate_sameDev {inode size : ℕ}
    (hharm : Harmless g s (.truncate inode size)) (h : truncate g inode size s = .ok (r, s')) :
    SameDev s s' := by
  rcases query_bind_eq_ok.mp h with ⟨e, -, -, rfl⟩ | ⟨raw, hraw, h⟩
  · exact Std.Refl.refl s'
  have htype := hharm raw hraw
  rw [if_pos htype] at h
  exact Keeps.throw .notSupported s r s' h

theorem unlink_sameDev (hro : g.readOnly = true) {dir : ℕ} {name : List UInt8}
    (hharm : Harmless g s (.unlink dir name))
    (h : unlink g dir name s = .ok (r, s')) : SameDev s s' := by
  have hlookup := lookup_sameDev g dir name s
  rcases bind_eq_ok.mp h with ⟨e, he, -⟩ | ⟨target, t, ht, h⟩
  · exact hlookup _ s' he
  have hst : SameDev s t := hlookup _ t ht
  suffices htail : SameDev t s' from IsTrans.trans s t s' hst htail
  rcases query_bind_eq_ok.mp h with ⟨e, -, -, rfl⟩ | ⟨mode, -, h⟩
  · exact Std.Refl.refl s'
  split at h
  · rcases query_bind_eq_ok.mp h with ⟨e, -, -, rfl⟩ | ⟨raw, hraw, h⟩
    · exact Std.Refl.refl s'
    -- the branch that writes the link count is not taken
    have hdrop : dropLink g target raw = deleteFile g target := by
      unfold dropLink
      rw [if_neg (Nat.not_lt.mpr (hharm target t raw ht hraw))]
    rw [hdrop] at h
    have hkeeps : Keeps SameDev (do
        deleteFile g target
        removeDirEntry g dir name
        dropEntries dir) := by
      refine .bind (deleteFile_sameDev hro target) ?_
      intro _
      refine .bind (removeDirEntry_sameDev hro dir name) ?_
      intro _
      exact dropEntries_sameDev dir
    exact hkeeps t r s' h
  · split at h
    · exact Keeps.throw .notSupported t r s' h
    · exact Keeps.throw .invalidParam t r s' h

theorem renameEntry_sameDev {dir newDir : ℕ} {oldName newName : List UInt8}
    (hharm : Harmless g s (.rename dir oldName newDir newName))
    (h : renameEntry g dir oldName newDir newName s = .ok (r, s')) : SameDev s s' := by
  have hread := readDirectory_sameDev g dir s
  rcases bind_eq_ok.mp h with ⟨e, he, -⟩ | ⟨entries, t, ht, h⟩
  · exact hread _ s' he
  have hst : SameDev s t := hread _ t ht
  suffices htail : SameDev t s' from IsTrans.trans s t s' hst htail
  cases hfind : entries.find? fun e => e.name = oldName with
  | none =>
    rw [hfind] at h
    exact Keeps.throw .entryNotFound t r s' h
  | some entry =>
    rw [hfind] at h
    rcases hharm with hself | habsent
    · dsimp only at h
      rw [if_pos hself] at h
      exact Keeps.pure () t r s' h
    exfalso
    apply habsent entries t ht
    have hmem := List.mem_of_find?_eq_some hfind
    have hname : entry.name = oldName := by simpa using List.find?_some hfind
    rw [← hname]
    exact List.mem_map_of_mem hmem

theorem rename_sameDev {dir newDir : ℕ} {oldName newName : List UInt8}
    (hharm : Harmless g s (.rename dir oldName newDir newName))
    (h : rename g dir oldName newDir newName s = .ok (r, s')) : SameDev s s' := by
  obtain ⟨res, t, ht, h⟩ := attempt_bind_eq_ok.mp h
  have hst := renameEntry_sameDev hharm ht
  have hkeeps : Keeps SameDev (do
      dropEntries dir
      dropEntries newDir
      ofResult res) := by
    refine .bind (dropEntries_sameDev dir) ?_
    intro _
    refine .bind (dropEntries_sameDev newDir) ?_
    intro _
    exact .ofResult res
  exact IsTrans.trans s t s' hst (hkeeps t r s' h)

/-! ## Runs -/

/-- An operation returns, or other requests to the device fail from now on.  In a run with
`Guarded` every operation is harmless. -/
inductive Step (g : Super) (Guarded : Prop) (s : State) : State → Prop
  | call (op : Op) (r : Result Unit) (s' : State) (hguard : Guarded → Harmless g s op)
      (hexec : exec g op s = .ok (r, s')) : Step g Guarded s s'
  | device (fault : ℕ → Option ErrCode) : Step g Guarded s { s with fault := fault }

/-- **One call** on a read-only volume. -/
theorem exec_sameDev (hro : g.readOnly = true) {op : Op}
    (hharm : Harmless g s op) (h : exec g op s = .ok (r, s')) : SameDev s s' := by
  -- the calls that drop the cached entries before they test
  have hdrop : ∀ (dir : ℕ) (x : Kernel State Unit), Keeps SameDev x →
      Keeps SameDev (do
        dropEntries dir
        x) := fun dir x hx => .bind (dropEntries_sameDev dir) fun _ => hx
  cases op with
  | read inode offset len => exact ignore_keeps (readInodeData_sameDev g inode offset len) s r s' h
  | write inode offset data =>
    exact ignore_keeps (writeInodeData_sameDev hro inode offset data) s r s' h
  | truncate inode size => exact truncate_sameDev hharm h
  | setattr inode attrs => exact applyAttr_sameDev hro inode attrs s r s' h
  | lookup dir name => exact ignore_keeps (lookup_sameDev g dir name) s r s' h
  | mkfile dir name =>
    exact hdrop dir _ (ignore_keeps (createFile_sameDev hro dir name)) s r s' h
  | mkdir dir name =>
    exact hdrop dir _ (ignore_keeps (createDirectory_sameDev hro dir name)) s r s' h
  | symlink dir name target =>
    exact hdrop dir _ (ignore_keeps (createSymlink_sameDev hro dir name target)) s r s' h
  | link dir name target => exact hdrop dir _ (createLink_sameDev hro dir name target) s r s' h
  | unlink dir name => exact unlink_sameDev hro hharm h
  | rmdir dir name => exact rmdir_sameDev hro dir name s r s' h
  | rename dir oldName newDir newName => exact rename_sameDev hharm h

theorem load_dev {n m : ℕ} {dev : ℕ → UInt8} {fault : ℕ → Option ErrCode}
    (h : load n m dev fault = .ok (g, s)) : s.dev = dev := by
  obtain ⟨sb, -, h⟩ := bind_eq_ok_iff.mp h
  dsimp only at h
  repeat' split at h
  all_goals first
    | (obtain ⟨desc, -, h⟩ := bind_eq_ok_iff.mp h
       obtain ⟨-, rfl⟩ := ok_inj h
       rfl)
    | cases h

/-- **Read-only volumes**: whatever is called on a volume that `load` has mounted read-only, in a
run without `truncate`s of files, `unlink`s of files with several links and `rename`s of existing
names no byte of the device changes. -/
theorem read_only_mount_unchanged {n m : ℕ} {dev : ℕ → UInt8} {fault : ℕ → Option ErrCode}
    {g : Super} {s₀ s : State} (hload : load n m dev fault = .ok (g, s₀)) (hro : g.readOnly = true)
    (hrun : ReflTransGen (Step g True) s₀ s) : s.dev = dev := by
  have hinv : SameDev s₀ s := by
    induction hrun with
    | refl => exact Std.Refl.refl s₀
    | tail _ hstep ih =>
      refine IsTrans.trans _ _ _ ih ?_
      cases hstep with
      | call op r s' hguard hexec => exact exec_sameDev hro (hguard trivial) hexec
      | device fault => exact Std.Refl.refl _
  exact hinv.trans (load_dev hload)

/-! ## A read-only volume that is written -/

section Sample

/-- The bytes of a volume of 32 blocks of 1024 bytes that is marked read-only: superblock, one
group descriptor with its inode table in block 5, and inode 12, a file of ten bytes. -/
def roImage : List (ℕ × UInt8) :=
  [(1024, 16), (1028, 32), (1044, 1), (1057, 32), (1064, 16), (1080, 0x53), (1081, 0xEF),
    (1112, 128), (1120, 0xC0), (1125, 0x10), (1278, 64), (2056, 5),
    (6528, 0xA4), (6529, 0x81), (6532, 10), (6554, 1), (6562, 8)]

def roDevice : ℕ → UInt8 := fun k => (roImage.lookup k).getD 0

def roMount : Super × State := valueOr noMount (load 512 64 roDevice fun _ => none)

/-- The file is cut to five bytes. -/
def roTruncated : State :=
  (valueOr (.ok (), noMount.2) (exec roMount.1 (.truncate 12 5) roMount.2)).2

theorem roMount_loaded : load 512 64 roDevice (fun _ => none) = .ok (roMount.1, roMount.2) :=
  eq_ok_valueOr (d := noMount) (by decide)

/-- A run of harmless calls on the read-only volume: the contents of the file are to be
overwritten. -/
theorem read_only_mount_unchanged_write : ∃ s, Step roMount.1 True roMount.2 s ∧
    roMount.1.readOnly = true ∧ s.dev = roDevice := by
  have hexec : exec roMount.1 (.write 12 0 [1]) roMount.2 = .ok (.error .notSupported,
      (valueOr (.ok (), noMount.2) (exec roMount.1 (.write 12 0 [1]) roMount.2)).2) :=
    eq_ok_of_failed noMount.2 (by decide)
  have hstep : Step roMount.1 True roMount.2 _ :=
    .call (.write 12 0 [1]) _ _ (fun _ => trivial) hexec
  exact ⟨_, hstep, by decide,
    read_only_mount_unchanged roMount_loaded (by decide) (ReflTransGen.single hstep)⟩

/-- `truncate` on a read-only volume changes the size in the inode. -/
theorem read_only_truncated : ∃ n m dev fault g s₀ s, load n m dev fault = .ok (g, s₀) ∧
    g.readOnly = true ∧ ReflTransGen (Step g False) s₀ s ∧ s.dev ≠ dev := by
  refine ⟨512, 64, roDevice, fun _ => none, roMount.1, roMount.2, roTruncated, roMount_loaded, by decide,
    ReflTransGen.single (.call (.truncate 12 5) (.ok ()) _ nofun ?_), ?_⟩
  · exact eq_ok_of_returned noMount.2 (by decide)
  · intro h
    have hbyte : roTruncated.dev 6532 ≠ roDevice 6532 := by decide
    exact hbyte (congrFun h 6532)

end Sample

end Sustcore.Ext4
