import Ceryx.Fs.Vfs

/-!
# Ceryx.Fs.VfsPaths — vnodes by their paths

Below a root, the vnode of a path.

* `Located`: the paths of the vnodes. No two vnodes have the same path, the
  children of a vnode are at its path with one more name, and what is above a
  vnode is a directory.
* `Located.walk_iff`: looking up a path finds the vnode of that path.
* `Located.grow`: a new child is at the path of its directory with its name.
-/

namespace Ceryx.Fs.Vfs

open Lib RamFs Vnodes

variable {V : Type} {vm : VmObject V}

/-- `pathOf` gives the vnodes their paths. -/
structure Located (t : RamFsTree V) (root : Nat) (pathOf : Nat → List StringView) : Prop where
  root_lt : root < t.next
  root_path : pathOf root = []
  inj : ∀ i j, i < t.next → j < t.next → pathOf i = pathOf j → i = j
  child : ∀ i j, i < t.next →
    (j ∈ (t.node i).children ↔ j < t.next ∧ ∃ c, pathOf j = pathOf i ++ [c])
  name : ∀ j p c, j < t.next → pathOf j = p ++ [c] → (t.node j).name = c
  parent : ∀ j p c, j < t.next → pathOf j = p ++ [c] →
    ∃ i, i < t.next ∧ pathOf i = p ∧ t.isDirectory i = true

namespace Located

variable {t : RamFsTree V} {root : Nat} {pathOf : Nat → List StringView}

/-- The child of a node by a name is the node one component further down. -/
theorem child_iff (h : Located t root pathOf) {i : Nat} (hi : i < t.next) (c : StringView) (j : Nat) :
    t.toVnodes.child i c = some j ↔ j < t.next ∧ pathOf j = pathOf i ++ [c] := by
  have hfound : ∀ k, t.toVnodes.child i c = some k → k < t.next ∧ pathOf k = pathOf i ++ [c] := by
    intro k hk
    rcases child_mem hk with ⟨hmem, hname⟩
    rcases (h.child i k hi).mp hmem with ⟨hlt, d, hd⟩
    rw [h.name k (pathOf i) d hlt hd] at hname
    rw [hname] at hd
    exact ⟨hlt, hd⟩
  constructor
  · exact hfound j
  · rintro ⟨hlt, hpath⟩
    rcases Option.eq_none_or_eq_some (t.toVnodes.child i c) with hnone | ⟨k, hk⟩
    · -- the search finds nothing only where no child has the name
      exfalso
      have hmem := (h.child i j hi).mpr ⟨hlt, c, hpath⟩
      exact child_none_iff.mp hnone j hmem (h.name j (pathOf i) c hlt hpath)
    · -- what it finds has the same path, and paths are distinct
      rcases hfound k hk with ⟨hklt, hkpath⟩
      rw [hk, h.inj k j hklt hlt (hkpath.trans hpath.symm)]

/-- A path with a vnode has directories above it. -/
theorem isDirectory_of_child (h : Located t root pathOf) {i j : Nat} {c : StringView}
    (hi : i < t.next) (hj : j < t.next) (hpath : pathOf j = pathOf i ++ [c]) :
    t.isDirectory i = true := by
  rcases h.parent j (pathOf i) c hj hpath with ⟨k, hk, hkpath, hdir⟩
  rw [← h.inj k i hk hi hkpath]
  exact hdir

/-- Looking a name up is finding that child. -/
theorem lookup_iff (h : Located t root pathOf) {i : Nat} (hi : i < t.next) (c : StringView) (j : Nat) :
    t.lookup i c = .ok j ↔ j < t.next ∧ pathOf j = pathOf i ++ [c] := by
  rw [lookup_ok_iff, h.child_iff hi]
  constructor
  · rintro ⟨-, hj⟩
    exact hj
  · rintro ⟨hj, hpath⟩
    exact ⟨h.isDirectory_of_child hi hj hpath, hj, hpath⟩

/-- Walking several names is finding the node behind them, by induction on the names. -/
theorem walk_iff (h : Located t root pathOf) {i : Nat} (hi : i < t.next) (names : List StringView)
    (j : Nat) : t.walk i names = .ok j ↔ j < t.next ∧ pathOf j = pathOf i ++ names := by
  induction names using List.reverseRecOn generalizing j with
  | nil =>
      rw [List.append_nil]
      constructor
      · intro hw
        cases hw
        exact ⟨hi, rfl⟩
      · rintro ⟨hj, hpath⟩
        rw [h.inj j i hj hi hpath]
        rfl
  | append_singleton names c ih =>
      rw [walk_append]
      constructor
      · intro hw
        cases hk : t.walk i names with
        | error e =>
            rw [hk] at hw
            cases hw
        | ok k =>
            rcases (ih k).mp hk with ⟨hklt, hkpath⟩
            have hlook : t.lookup k c = .ok j := by
              rw [hk] at hw
              change (t.walk k [c] : Except Int Nat) = _ at hw
              rw [walk_cons] at hw
              cases hl : t.lookup k c with
              | error e =>
                  rw [hl] at hw
                  cases hw
              | ok d =>
                  rw [hl] at hw
                  cases hw
                  rfl
            rw [h.lookup_iff hklt, hkpath, List.append_assoc] at hlook
            exact hlook
      · rintro ⟨hj, hpath⟩
        rw [← List.append_assoc] at hpath
        -- the vnode above is found first
        rcases h.parent j (pathOf i ++ names) c hj hpath with ⟨k, hk, hkpath, -⟩
        rw [(ih k).mpr ⟨hk, hkpath⟩]
        change (t.walk k [c] : Except Int Nat) = _
        rw [← hkpath] at hpath
        rw [walk_cons, (h.lookup_iff hk c j).mpr ⟨hj, hpath⟩]
        rfl

/-- From the root the names are the whole path. -/
theorem walk_root_iff (h : Located t root pathOf) (names : List StringView) (j : Nat) :
    t.walk root names = .ok j ↔ j < t.next ∧ pathOf j = names := by
  rw [h.walk_iff h.root_lt, h.root_path, List.nil_append]

/-- Another content of a vnode. -/
theorem setNode (h : Located t root pathOf) (vnode : Nat) (node : RamFsNode V)
    (htype : node.type = (t.node vnode).type) : Located (t.setNode vnode node htype) root pathOf where
  root_lt := h.root_lt
  root_path := h.root_path
  inj := h.inj
  -- a new node under the old number: its names and its type stay
  child i j hi := by
    change j ∈ ((t.toVnodes.setNode vnode node).node i).children ↔ _
    rw [(setNode_names t.toVnodes vnode node i).2]
    exact h.child i j hi
  name j p c hj hpath := by
    change ((t.toVnodes.setNode vnode node).node j).name = c
    rw [(setNode_names t.toVnodes vnode node j).1]
    exact h.name j p c hj hpath
  parent j p c hj hpath := by
    rcases h.parent j p c hj hpath with ⟨i, hi, hipath, hdir⟩
    refine ⟨i, hi, hipath, ?_⟩
    unfold isDirectory at hdir ⊢
    rw [← setNode_type t.toVnodes vnode node htype i] at hdir
    exact hdir

/-- A name that is free in a directory is nobody's path. -/
theorem not_taken (h : Located t root pathOf) {dir : Nat} (hdir : dir < t.next) {name : StringView}
    (hfree : t.toVnodes.child dir name = none) {j : Nat} (hj : j < t.next) :
    pathOf j ≠ pathOf dir ++ [name] := by
  intro hpath
  have hchild := (h.child_iff hdir name j).mpr ⟨hj, hpath⟩
  rw [hfree] at hchild
  cases hchild

/-- The paths with that of a new vnode: the old ones stay. -/
theorem path_old {j n : Nat} (hj : j < n) (path : List StringView) :
    Function.update pathOf n path j = pathOf j := Function.update_of_ne (Nat.ne_of_lt hj) _ _

/-- So a new node in it keeps paths distinct. -/
theorem grow_inj (h : Located t root pathOf) {dir : Nat} (hdir : dir < t.next) {name : StringView}
    (hfree : t.toVnodes.child dir name = none) {i j : Nat} (hi : i < t.next + 1)
    (hj : j < t.next + 1)
    (hij : Function.update pathOf t.next (pathOf dir ++ [name]) i =
      Function.update pathOf t.next (pathOf dir ++ [name]) j) : i = j := by
  rcases Nat.lt_succ_iff_lt_or_eq.mp hi with hilt | hieq
  · rcases Nat.lt_succ_iff_lt_or_eq.mp hj with hjlt | hjeq
    · rw [path_old hilt, path_old hjlt] at hij
      exact h.inj i j hilt hjlt hij
    · rw [path_old hilt, hjeq, Function.update_self] at hij
      exact absurd hij (h.not_taken hdir hfree hilt)
  · rcases Nat.lt_succ_iff_lt_or_eq.mp hj with hjlt | hjeq
    · rw [hieq, Function.update_self, path_old hjlt] at hij
      exact absurd hij.symm (h.not_taken hdir hfree hjlt)
    · exact hieq.trans hjeq.symm

/-- The children of a vnode that was there. -/
theorem grow_child_old (h : Located t root pathOf) (type : VnodeType) {dir : Nat}
    (hdir : dir < t.next) (name : StringView) {i : Nat} (hi : i < t.next) (j : Nat) :
    j ∈ ((withChild vm t.toVnodes type dir name).node i).children ↔ j < t.next + 1 ∧
      ∃ c, Function.update pathOf t.next (pathOf dir ++ [name]) j = pathOf i ++ [c] := by
  by_cases hidir : i = dir
  · -- the directory has the new child
    rw [hidir, withChild_dir, List.mem_append, List.mem_singleton, h.child dir j hdir]
    constructor
    · rintro (⟨hj, c, hpath⟩ | hj)
      · refine ⟨Nat.lt_succ_of_lt hj, c, ?_⟩
        rw [path_old hj]
        exact hpath
      · refine ⟨Nat.lt_succ_of_le (Nat.le_of_eq hj), name, ?_⟩
        rw [hj, Function.update_self]
    · rintro ⟨hj, c, hpath⟩
      rcases Nat.lt_succ_iff_lt_or_eq.mp hj with hjlt | hjeq
      · rw [path_old hjlt] at hpath
        exact Or.inl ⟨hjlt, c, hpath⟩
      · exact Or.inr hjeq
  · rw [withChild_other vm t.toVnodes type name (Nat.ne_of_lt hi) hidir, h.child i j hi]
    constructor
    · rintro ⟨hj, c, hpath⟩
      refine ⟨Nat.lt_succ_of_lt hj, c, ?_⟩
      rw [path_old hj]
      exact hpath
    · rintro ⟨hj, c, hpath⟩
      rcases Nat.lt_succ_iff_lt_or_eq.mp hj with hjlt | hjeq
      · rw [path_old hjlt] at hpath
        exact ⟨hjlt, c, hpath⟩
      · exfalso
        rw [hjeq, Function.update_self] at hpath
        have hsame : pathOf dir = pathOf i := (List.append_inj' hpath rfl).1
        exact hidir (h.inj i dir hi hdir hsame.symm)

/-- Nothing is below the path of the new vnode. -/
theorem grow_child_new (h : Located t root pathOf) {dir : Nat} (hdir : dir < t.next)
    {name : StringView} (hfree : t.toVnodes.child dir name = none) {j : Nat}
    (hj : j < t.next + 1) (c : StringView) :
    Function.update pathOf t.next (pathOf dir ++ [name]) j ≠ (pathOf dir ++ [name]) ++ [c] := by
  intro hpath
  rcases Nat.lt_succ_iff_lt_or_eq.mp hj with hjlt | hjeq
  · rw [path_old hjlt] at hpath
    rcases h.parent j _ c hjlt hpath with ⟨k, hk, hkpath, -⟩
    exact h.not_taken hdir hfree hk hkpath
  · rw [hjeq, Function.update_self] at hpath
    have hlen := congrArg List.length hpath
    rw [List.length_append, List.length_append, List.length_append] at hlen
    simp only [List.length_singleton] at hlen
    omega

/-- A new child is at the path of its directory, with its name. -/
theorem grow (h : Located t root pathOf) (type : VnodeType) {dir : Nat}
    (hdir : t.isDirectory dir = true) {name : StringView}
    (hfree : t.toVnodes.child dir name = none) :
    Located (t.grow vm type hdir hfree) root
      (Function.update pathOf t.next (pathOf dir ++ [name])) := by
  have hlt := t.dir_lt dir hdir
  have hcases : ∀ j, j < t.next + 1 → j < t.next ∨ j = t.next := by
    intro j hj
    exact Nat.lt_succ_iff_lt_or_eq.mp hj
  have hnext : (t.grow vm type hdir hfree).next = t.next + 1 := rfl
  have hnode : (t.grow vm type hdir hfree).node = (withChild vm t.toVnodes type dir name).node := rfl
  constructor
  case root_lt => exact Nat.lt_succ_of_lt h.root_lt
  case root_path =>
    rw [path_old h.root_lt]
    exact h.root_path
  case inj => exact fun i j hi hj hij => h.grow_inj hlt hfree hi hj hij
  case child =>
    intro i j hi
    rw [hnode, hnext]
    rcases hcases i hi with hilt | hieq
    · rw [path_old hilt]
      exact h.grow_child_old type hlt name hilt j
    · -- the new vnode has no children
      rw [hieq, Function.update_self, withChild_new vm t.toVnodes type name hlt]
      constructor
      · intro hmem
        cases hmem
      · rintro ⟨hj, c, hpath⟩
        exact absurd hpath (h.grow_child_new hlt hfree hj c)
  case name =>
    intro j p c hj hpath
    rw [hnode]
    rcases hcases j hj with hjlt | hjeq
    · rw [path_old hjlt] at hpath
      rw [(withChild_old vm t.toVnodes type name (Nat.ne_of_lt hjlt)).2]
      exact h.name j p c hjlt hpath
    · rw [hjeq, Function.update_self] at hpath
      rw [hjeq, withChild_new vm t.toVnodes type name hlt]
      exact List.singleton_inj.mp (List.append_inj' hpath rfl).2
  case parent =>
    intro j p c hj hpath
    rcases hcases j hj with hjlt | hjeq
    · rw [path_old hjlt] at hpath
      rcases h.parent j p c hjlt hpath with ⟨i, hi, hipath, hidir⟩
      refine ⟨i, Nat.lt_succ_of_lt hi, ?_, ?_⟩
      · rw [path_old hi]
        exact hipath
      · change (withChild vm t.toVnodes type dir name).isDirectory i = true
        rw [withChild_isDirectory vm t.toVnodes type name (Nat.ne_of_lt hi)]
        exact hidir
    · rw [hjeq, Function.update_self] at hpath
      refine ⟨dir, Nat.lt_succ_of_lt hlt, ?_, ?_⟩
      · rw [path_old hlt]
        exact (List.append_inj' hpath rfl).1
      · change (withChild vm t.toVnodes type dir name).isDirectory dir = true
        rw [withChild_isDirectory vm t.toVnodes type name (Nat.ne_of_lt hlt)]
        exact hdir

end Located

end Ceryx.Fs.Vfs
