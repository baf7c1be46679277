/-
# The ext4 driver: extent lookup on arbitrary images (`kernel/vfs/ext4.cpp`)

`extent_lookup_from_node` tests what it reads: a node whose counter does not fit its size, or
whose depth is above `EXT4_MAX_EXTENT_DEPTH`, is an error.  So a call never looks at bytes outside
its node.  It does not test that the depth of a child is below that of its parent, and it then
calls itself for the child: a node that names itself, or one above it, is followed for ever, and
a chain of nodes whose depths do not decrease as far as it goes.
-/
import Sustcore.Ext4Extents
import Sustcore.Chain

namespace Sustcore.Ext4

open Option Except Relation

/-! ## What a call reads -/

section Reads

variable {g : Super} {b b' : Buf} {logical : ℕ}

/-- The same vector, whatever stands behind its end. -/
def SameBytes (b b' : Buf) : Prop := b.size = b'.size ∧ ∀ k < b.size, b.byte k = b'.byte k

theorem SameBytes.readLe (h : SameBytes b b') {w off : ℕ} (hle : off + w ≤ b.size) :
    readLe b.byte w off = readLe b'.byte w off :=
  readLe_congr fun k hk => h.2 (off + k) (by omega)

theorem SameBytes.findExtent (h : SameBytes b b') : ∀ (count i : ℕ),
    recordAt 0 (i + count) ≤ b.size →
    findExtent g b logical i count = findExtent g b' logical i count
  | 0, _, _ => rfl
  | count + 1, i, hle => by
    have hsize : recordAt 0 i + 12 ≤ b.size := by
      unfold recordAt at hle ⊢
      omega
    have hrecord : extentAt b 0 i = extentAt b' 0 i ∧ eeLen b 0 i = eeLen b' 0 i := by
      simp (disch := omega) only [extentAt, eeLen, h.readLe, and_self]
    simp only [Ext4.findExtent, hrecord.1, hrecord.2,
      SameBytes.findExtent h count (i + 1) (by rw [add_right_comm]; exact hle)]

/-- The loop over an index node returns, and it reads the records only. -/
theorem SameBytes.chooseIdx (h : SameBytes b b') (logical : ℕ) :
    ∀ (count i : ℕ) (chosen : Option ℕ), recordAt 0 (i + count) ≤ b.size →
      ∃ r, chooseIdx b 0 logical i count chosen = .ok r ∧
        chooseIdx b' 0 logical i count chosen = .ok r
  | 0, _, chosen, _ => ⟨chosen, rfl, rfl⟩
  | count + 1, i, chosen, hle => by
    have hsize : recordAt 0 (i + 1) ≤ b.size := by
      unfold recordAt at hle ⊢
      omega
    have hrecord : idxAt b 0 i = idxAt b' 0 i := by
      unfold recordAt at hsize
      simp (disch := (unfold recordAt; omega)) only [idxAt, h.readLe]
    simp only [Ext4.chooseIdx, hrecord, ← h.1, if_neg (not_lt.mpr hsize)]
    split
    · exact ⟨chosen, rfl, rfl⟩
    · exact SameBytes.chooseIdx h logical count (i + 1) _ (by rw [add_right_comm]; exact hle)

/-- A call returns or goes on, and what it does depends on the bytes of its node only. -/
theorem SameBytes.lookupStep (h : SameBytes b b') (g : Super) (logical : ℕ) :
    ∃ r, lookupStep g b logical = .ok r ∧ lookupStep g b' logical = .ok r := by
  unfold Ext4.lookupStep
  simp only
  rw [← h.1]
  by_cases hsize : b.size < 12
  · simp only [if_pos hsize]
    exact ⟨_, rfl, rfl⟩
  have hheader : ehMagic b 0 = ehMagic b' 0 ∧ ehEntries b 0 = ehEntries b' 0 ∧
      ehMax b 0 = ehMax b' 0 ∧ ehDepth b 0 = ehDepth b' 0 := by
    simp (disch := omega) only [ehMagic, ehEntries, ehMax, ehDepth, h.readLe, and_self]
  obtain ⟨hmagic, hentries, hmax, hdepth⟩ := hheader
  rw [hmagic, hentries, hmax, hdepth]
  split_ifs with _ _ _ _ _ hfit
  all_goals try exact ⟨_, rfl, rfl⟩
  all_goals
    have hle : recordAt 0 (0 + ehEntries b' 0) ≤ b.size := by
      unfold recordAt
      omega
  · rw [h.findExtent _ _ hle]
    exact ⟨_, rfl, rfl⟩
  · obtain ⟨chosen, hb, hb'⟩ := h.chooseIdx logical _ 0 none hle
    rw [hb, hb']
    cases chosen <;> exact ⟨_, rfl, rfl⟩

end Reads

/-! ## The way down -/

section Way

/-- The record of an index node for a logical block: the last one of those at the front that start
at or before it.  The other fields are what a node is tested for. -/
structure IndexRecord (logical : ℕ) (node : Buf) (i : ℕ) : Prop where
  size : 12 + ehEntries node 0 * 12 ≤ node.size
  magic : ehMagic node 0 = EXT4_EXT_MAGIC
  entries : ehEntries node 0 ≤ ehMax node 0
  depth : ehDepth node 0 ≠ 0 ∧ ehDepth node 0 ≤ EXT4_MAX_EXTENT_DEPTH
  mem : i < ehEntries node 0
  before : ∀ j ≤ i, (idxAt node 0 j).firstBlock ≤ logical
  last : i + 1 < ehEntries node 0 → logical < (idxAt node 0 (i + 1)).firstBlock

/-- The node is an index node, and its child for the logical block can be read. -/
def IsChild (g : Super) (s : State) (logical : ℕ) (node child : Buf) : Prop :=
  ∃ i, IndexRecord logical node i ∧ (idxAt node 0 i).leafPhys < g.blockCount ∧
    readFsBlock g (idxAt node 0 i).leafPhys g.blockSize s = .ok child

/-- On every way from a node to its child, to the child of the child and so on, one of the first
`EXT4_MAX_EXTENT_DEPTH + 1` nodes has no child. -/
def EndsInTime (g : Super) (s : State) (logical : ℕ) (root : Buf) : Prop :=
  ∀ path : ℕ → Buf, path 0 = root →
    ∃ n ≤ EXT4_MAX_EXTENT_DEPTH, ¬IsChild g s logical (path n) (path (n + 1))

/-- The depth fields on the way down decrease. -/
def DepthsDecrease (g : Super) (s : State) (logical : ℕ) (root : Buf) : Prop :=
  ∀ x y, ReflTransGen (IsChild g s logical) root x → IsChild g s logical x y →
    ehDepth y 0 < ehDepth x 0

variable {g : Super} {s : State} {logical : ℕ} {root : Buf}

theorem DepthsDecrease.endsInTime (h : DepthsDecrease g s logical root) :
    EndsInTime g s logical root := by
  rintro path rfl
  by_contra! hpath
  have hdepth : ∀ n ≤ EXT4_MAX_EXTENT_DEPTH + 1,
      ReflTransGen (IsChild g s logical) (path 0) (path n) ∧
        ehDepth (path n) 0 + n ≤ ehDepth (path 0) 0 := by
    intro n
    induction n with
    | zero => exact fun _ => ⟨.refl, le_rfl⟩
    | succ n ih =>
      intro hn
      obtain ⟨hway, hle⟩ := ih (by omega)
      have hchild := hpath n (by omega)
      have hlt := h _ _ hway hchild
      exact ⟨hway.tail hchild, by omega⟩
  obtain ⟨i, hrecord, -⟩ := hpath 0 (Nat.zero_le _)
  have hmax := hrecord.depth.2
  have hle := (hdepth _ le_rfl).2
  omega

end Way

/-! ## The calls -/

section Calls

variable (g : Super) (s : State) (logical : ℕ)

/-- The block of the child that a call goes on with. -/
def childBlock (node : Buf) : Option ℕ :=
  match lookupStep g node logical with
  | .ok (.ok (.inr leaf)) => some leaf
  | _ => none

/-- The node of the next call. -/
def childNode (node : Buf) : Option Buf :=
  (childBlock g logical node).bind fun leaf => (readFsBlock g leaf g.blockSize s).toOption

variable {g s logical}

theorem chooseIdx_eq_some {node : Buf} {leaf : ℕ} : ∀ (count i : ℕ) (chosen : Option ℕ),
    recordAt 0 (i + count) ≤ node.size →
    (chooseIdx node 0 logical i count chosen = .ok (some leaf) ↔
      (∃ n < count, (∀ j ≤ n, (idxAt node 0 (i + j)).firstBlock ≤ logical) ∧
        (n + 1 < count → logical < (idxAt node 0 (i + (n + 1))).firstBlock) ∧
        (idxAt node 0 (i + n)).leafPhys = leaf) ∨
      (count = 0 ∨ logical < (idxAt node 0 i).firstBlock) ∧ chosen = some leaf)
  | 0, i, chosen, _ => by simp [chooseIdx]
  | count + 1, i, chosen, hle => by
    have hsize : ¬node.size < recordAt 0 (i + 1) := by
      unfold recordAt at hle ⊢
      omega
    rw [chooseIdx, if_neg hsize]
    by_cases hlt : logical < (idxAt node 0 i).firstBlock
    · rw [if_pos hlt]
      constructor
      · intro h
        exact .inr ⟨.inr hlt, ok.inj h⟩
      · rintro (⟨n, -, hbefore, -⟩ | ⟨-, rfl⟩)
        · exact absurd hlt (not_lt.mpr (hbefore 0 (Nat.zero_le n)))
        · rfl
    · rw [if_neg hlt, chooseIdx_eq_some count (i + 1) _ (by rw [add_right_comm]; exact hle)]
      have hshift : ∀ j, i + 1 + j = i + (j + 1) := fun j => by omega
      simp only [hshift, hlt, Nat.add_one_ne_zero, or_false, false_and, some.injEq]
      constructor
      · rintro (⟨n, hn, hbefore, hlast, hleaf⟩ | ⟨hend, hleaf⟩)
        · refine ⟨n + 1, by omega, ?_, fun h => hlast (by omega), hleaf⟩
          intro j hj
          cases j with
          | zero => exact not_lt.mp hlt
          | succ j => exact hbefore j (by omega)
        · refine ⟨0, by omega, ?_, ?_, hleaf⟩
          · intro j hj
            rw [Nat.le_zero.mp hj]
            exact not_lt.mp hlt
          · intro h
            exact hend.resolve_left (by omega)
      · rintro ⟨n, hn, hbefore, hlast, hleaf⟩
        cases n with
        | zero =>
          refine .inr ⟨?_, hleaf⟩
          by_cases hzero : count = 0
          · exact .inl hzero
          · exact .inr (hlast (by omega))
        | succ n =>
          exact .inl ⟨n, by omega, fun j hj => hbefore (j + 1) (by omega),
            fun h => hlast (by omega), hleaf⟩

theorem childBlock_eq_some {node : Buf} {leaf : ℕ} : childBlock g logical node = some leaf ↔
    ∃ i, IndexRecord logical node i ∧ (idxAt node 0 i).leafPhys = leaf ∧ leaf < g.blockCount := by
  have hstep : childBlock g logical node = some leaf ↔
      lookupStep g node logical = .ok (.ok (.inr leaf)) := by
    unfold childBlock
    constructor
    · intro h
      split at h
      · cases h
        assumption
      · cases h
    · intro h
      rw [h]
  rw [hstep]
  unfold lookupStep
  simp only
  constructor
  · intro h
    split_ifs at h with hsize hmagic hmax hdepth hzero hfit hleaf <;> try cases h
    · cases hf : findExtent g node logical 0 (ehEntries node 0) <;> simp [hf, Except.map] at h
    · obtain ⟨chosen, hchosen, h⟩ := bind_eq_ok_iff.mp h
      have hle : recordAt 0 (0 + ehEntries node 0) ≤ node.size := by
        unfold recordAt
        omega
      cases chosen with
      | none => simp at h
      | some child =>
        simp only [ok.injEq] at h
        split_ifs at h with hlt
        cases h
        rcases (chooseIdx_eq_some _ 0 none hle).mp hchosen with
          ⟨n, hn, hbefore, hlast, hphys⟩ | ⟨-, hnone⟩
        · simp only [zero_add] at hbefore hlast hphys
          exact ⟨n, ⟨by omega, not_not.mp hmagic, by omega, ⟨hleaf, by omega⟩, hn, hbefore, hlast⟩,
            hphys, by omega⟩
        · cases hnone
  · rintro ⟨i, hrecord, hphys, hlt⟩
    have hsize := hrecord.size
    have hentries := hrecord.entries
    have hdepth := hrecord.depth
    have hmem := hrecord.mem
    have hle : recordAt 0 (0 + ehEntries node 0) ≤ node.size := by
      unfold recordAt
      omega
    have hchoose : chooseIdx node 0 logical 0 (ehEntries node 0) none = .ok (some leaf) := by
      refine (chooseIdx_eq_some _ 0 none hle).mpr (.inl ⟨i, hmem, ?_, ?_, ?_⟩)
      · simpa only [zero_add] using hrecord.before
      · simpa only [zero_add] using hrecord.last
      · simpa only [zero_add] using hphys
    rw [if_neg (by omega), if_neg (not_not.mpr hrecord.magic), if_neg (by omega), if_neg (by omega),
      if_neg (by omega), if_neg (by omega), if_neg hdepth.1, hchoose]
    simp only [bind, Except.bind, if_neg (not_le.mpr hlt)]

theorem childNode_eq_some {node child : Buf} :
    childNode g s logical node = some child ↔ IsChild g s logical node child := by
  unfold childNode IsChild
  rw [bind_eq_some_iff]
  have hread : ∀ leaf, (readFsBlock g leaf g.blockSize s).toOption = some child ↔
      readFsBlock g leaf g.blockSize s = .ok child := by
    intro leaf
    cases readFsBlock g leaf g.blockSize s <;> simp [Except.toOption]
  simp only [childBlock_eq_some, hread]
  constructor
  · rintro ⟨leaf, ⟨i, hrecord, rfl, hlt⟩, hread⟩
    exact ⟨i, hrecord, hlt, hread⟩
  · rintro ⟨i, hrecord, hlt, hread⟩
    exact ⟨_, ⟨i, hrecord, rfl, hlt⟩, hread⟩

theorem lookupWalk_child {node child : Buf} (h : childNode g s logical node = some child) (fuel : ℕ) :
    lookupWalk g s logical (fuel + 1) node = lookupWalk g s logical fuel child := by
  unfold childNode childBlock at h
  rw [lookupWalk]
  split at h
  · rename_i leaf hstep
    cases hread : readFsBlock g leaf g.blockSize s with
    | error e => simp [hread, Except.toOption] at h
    | ok buf =>
      simp only [bind_some, hread, Except.toOption, some.injEq] at h
      simp only [hstep, bind, Except.bind, hread, h]
  · cases h

theorem lookupWalk_last {node : Buf} (h : childNode g s logical node = none) (fuel : ℕ) :
    ∃ r, lookupWalk g s logical (fuel + 1) node = .ok r := by
  have hsame : SameBytes node node := ⟨rfl, fun k _ => rfl⟩
  obtain ⟨r, hr, -⟩ := hsame.lookupStep g logical
  unfold childNode childBlock at h
  rw [lookupWalk, hr]
  rcases r with e | m | leaf
  · exact ⟨_, rfl⟩
  · exact ⟨_, rfl⟩
  cases hread : readFsBlock g leaf g.blockSize s with
  | error e =>
    refine ⟨.error e, ?_⟩
    simp only [bind, Except.bind, hread]
  | ok buf => simp [hr, hread, Except.toOption] at h

/-- The calls return exactly if there is a node without a next call. -/
theorem lookupWalk_returns_iff (fuel : ℕ) (node : Buf) :
    (∃ r, lookupWalk g s logical fuel node = .ok r) ↔
      walk (childNode g s logical) node fuel = none := by
  induction fuel generalizing node with
  | zero => exact iff_of_false nofun nofun
  | succ fuel ih =>
    have hwalk : walk (childNode g s logical) node (fuel + 1) =
        (fun x => x.bind (childNode g s logical))^[fuel] (childNode g s logical node) := rfl
    rw [hwalk]
    cases hchild : childNode g s logical node with
    | none => exact iff_of_true (lookupWalk_last hchild fuel) (Function.iterate_fixed rfl fuel)
    | some child =>
      rw [lookupWalk_child hchild]
      exact ih child

/-- The `n`-th call, counted from 0, goes on with a block. -/
def Visits (g : Super) (s : State) (logical : ℕ) (root : Buf) (n block : ℕ) : Prop :=
  KeyAt (childBlock g logical) (childNode g s logical) root n block

/-- **Extent lookup on arbitrary images**: a call does not depend on bytes outside its node and
is never undefined.  The lookup returns after at most `EXT4_MAX_EXTENT_DEPTH + 1` calls exactly if
one of the first nodes on the way is the last one, which is so if the depth fields of the nodes
decrease.  It returns at all exactly if it goes on with no block twice, and then with the fuel of
the model. -/
theorem extent_lookup_bounded_iff (g : Super) (s : State) (logical : ℕ) (root : Buf) :
    (∀ node node', SameBytes node node' → ∃ r, lookupStep g node logical = .ok r ∧
      lookupStep g node' logical = .ok r) ∧
    ((∃ r, lookupWalk g s logical (EXT4_MAX_EXTENT_DEPTH + 1) root = .ok r) ↔
      EndsInTime g s logical root) ∧
    (DepthsDecrease g s logical root → EndsInTime g s logical root) ∧
    ((∃ fuel r, lookupWalk g s logical fuel root = .ok r) ↔ ∀ i j block, i < j →
      Visits g s logical root i block → ¬Visits g s logical root j block) ∧
    ((∃ fuel r, lookupWalk g s logical fuel root = .ok r) →
      ∃ r, extentLookupFromNode g root logical s = .ok r) := by
  have hkey : ∀ x y, childNode g s logical x = some y →
      ∃ k < g.blockCount, childBlock g logical x = some k := by
    intro x y hxy
    obtain ⟨leaf, hleaf, -⟩ := bind_eq_some_iff.mp hxy
    obtain ⟨i, -, -, hlt⟩ := childBlock_eq_some.mp hleaf
    exact ⟨leaf, hlt, hleaf⟩
  have hnext : ∀ x y k, childBlock g logical x = some k → childBlock g logical y = some k →
      childNode g s logical x = childNode g s logical y := by
    intro x y k hx hy
    unfold childNode
    rw [hx, hy]
  have hends := walk_ends_iff (a := root) hkey hnext
  have htime : walk (childNode g s logical) root (EXT4_MAX_EXTENT_DEPTH + 1) = none ↔
      EndsInTime g s logical root := by
    simp only [walk_eq_none_iff, EndsInTime, ne_eq, childNode_eq_some]
  refine ⟨fun node node' h => h.lookupStep g logical, ?_, fun h => ?_, ?_, ?_⟩
  · rw [lookupWalk_returns_iff]
    exact htime
  · exact h.endsInTime
  · simp only [lookupWalk_returns_iff]
    exact hends.1
  · unfold extentLookupFromNode walkBound
    simp only [lookupWalk_returns_iff]
    exact hends.2

end Calls

/-! ## A cycle -/

section Sample

/-- A volume of 32 blocks of 1024 bytes with its inode table in block 5.  The extent root of inode
12 and the block 9 are index nodes of depth 1 with one record, for the logical blocks from 0 on:
their child is the block 9. -/
def cycleImage : List (ℕ × UInt8) :=
  [(1024, 16), (1028, 32), (1044, 1), (1057, 32), (1064, 16), (1080, 0x53), (1081, 0xEF),
    (1112, 128), (1120, 0xC0), (1278, 64), (2056, 5), (6528, 0xA4), (6529, 0x81), (6554, 1),
    (6562, 8), (6568, 0x0A), (6569, 0xF3), (6570, 1), (6572, 1), (6574, 1), (6584, 9),
    (9216, 0x0A), (9217, 0xF3), (9218, 1), (9220, 1), (9222, 1), (9232, 9)]

def cycleDevice : ℕ → UInt8 := fun k => (cycleImage.lookup k).getD 0

def cycleMount : Super × State := valueOr noMount (load 512 64 cycleDevice fun _ => none)

def cycleInode : Buf := valueOr (Buf.zeros 0) (readInode cycleMount.1 12 cycleMount.2)

/-- The block 9. -/
def cycleNode : Buf := ⟨1024, fun k => cycleDevice (9216 + k)⟩

/-- **A node that is its own child**: the lookup does not return. -/
theorem extent_lookup_cycle : ∃ n m dev fault g s raw, load n m dev fault = .ok (g, s) ∧
    readInode g 12 s = .ok raw ∧
      ∀ fuel, lookupWalk g s 0 fuel (raw.sub 40 60) = .error .outOfFuel := by
  have hload : load 512 64 cycleDevice (fun _ => none) = .ok (cycleMount.1, cycleMount.2) :=
    eq_ok_valueOr (d := noMount) (by decide)
  have hchild : ∀ node ∈ [cycleInode.sub 40 60, cycleNode],
      childNode cycleMount.1 cycleMount.2 0 node = some cycleNode := by
    intro node hnode
    have hblock : childBlock cycleMount.1 0 node = some 9 := by
      rcases List.mem_pair.mp hnode with rfl | rfl
      · decide
      · decide
    unfold childNode
    rw [hblock]
    rfl
  have hwalk : ∀ fuel, ∀ node ∈ [cycleInode.sub 40 60, cycleNode],
      lookupWalk cycleMount.1 cycleMount.2 0 fuel node = .error .outOfFuel := by
    intro fuel
    induction fuel with
    | zero => exact fun _ _ => rfl
    | succ fuel ih =>
      intro node hnode
      rw [lookupWalk_child (hchild node hnode)]
      exact ih cycleNode (by simp)
  exact ⟨512, 64, cycleDevice, fun _ => none, _, _, cycleInode, hload, eq_ok_valueOr (by decide),
    fun fuel => hwalk fuel _ (by simp)⟩

end Sample

end Sustcore.Ext4
