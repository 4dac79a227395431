import Mathlib.Data.List.Find
import Mathlib.Data.List.Nodup
import Mathlib.Logic.Function.Basic
import Ceryx.Lib.StringView
import Ceryx.Fs.RamFs

/-!
# Ceryx.Fs.Vfs — the vnodes of the RAM file system and their paths

`RamFsOpsImpl::Lookup`, `Create` and `Mkdir` of `RamFs.hpp` and
`Vfs::PathToVnode` of `Vfs.hpp`. All operation tables are those of the RAM file
system.

* `Vnode::name` is a view of the caller's bytes; the model holds the bytes.
* `new` and `PushBack` are inputs, `VnodeAlloc`.
* `pathToVnode_eq`: a path is looked up component by component, where empty
  components and "." are left out.
* `RamFsTree`: the vnodes that are there and distinct names in a directory,
  which `Create` and `Mkdir` keep.
-/

namespace Ceryx.Fs.Vfs

open Lib RamFs

abbrev StringView := List UInt8

/-- The character '/'. -/
def slash : UInt8 := 47

/-- The string ".". -/
def dot : StringView := [46]

def ENOENT : Int := 2
def EEXIST : Int := 17
def ENOTDIR : Int := 20

/-- `Vnode`, as a `RamFsNode` has it: `children` are the numbers of vnodes. -/
structure Vnode (V : Type) extends RamFsNode V where
  name : StringView := []
  children : List Nat := []
deriving DecidableEq, Repr

/-- The vnodes by number, and the number of the next one. -/
structure Vnodes (V : Type) where
  node : Nat → Vnode V
  next : Nat

/-- The results of `new` and of `PushBack`. -/
structure VnodeAlloc where
  node : Bool
  child : Bool
deriving DecidableEq, Repr

namespace Vnodes

variable {V : Type}

def set (t : Vnodes V) (vnode : Nat) (v : Vnode V) : Vnodes V :=
  { t with node := Function.update t.node vnode v }

/-- Another content of a vnode. -/
def setNode (t : Vnodes V) (vnode : Nat) (node : RamFsNode V) : Vnodes V :=
  t.set vnode { t.node vnode with toRamFsNode := node }

/-- `Vnode::IsDirectory`. -/
def isDirectory (t : Vnodes V) (vnode : Nat) : Bool := (t.node vnode).type = .directory

/-- The first child of that name. -/
def child (t : Vnodes V) (dir : Nat) (name : StringView) : Option Nat :=
  (t.node dir).children.find? fun c => (t.node c).name = name

/-- `RamFsOpsImpl::Lookup`. -/
def lookup (t : Vnodes V) (dir : Nat) (name : StringView) : Except Int Nat :=
  if t.isDirectory dir = false then .error (-ENOTDIR)
  else
    match t.child dir name with
    | some c => .ok c
    | none => .error (-ENOENT)

/-- A new vnode, the last child of `dir`. -/
def withChild (vm : VmObject V) (t : Vnodes V) (type : VnodeType) (dir : Nat) (name : StringView) :
    Vnodes V :=
  let v := t.node dir
  let t := t.set t.next { newNode vm type with name := name }
  let t := t.set dir { v with children := v.children ++ [t.next] }
  { t with next := t.next + 1 }

/-- What `Create` and `Mkdir` do for a name that is free. -/
def addChild (vm : VmObject V) (t : Vnodes V) (type : VnodeType) (dir : Nat) (name : StringView)
    (alloc : VnodeAlloc) : Except Int Nat × Vnodes V :=
  if alloc.node = false then (.error (-ENOMEM), t)
  else if alloc.child = false then (.error (-ENOMEM), t)
  else (.ok t.next, withChild vm t type dir name)

/-- `RamFsOpsImpl::Create`. -/
def create (vm : VmObject V) (t : Vnodes V) (dir : Nat) (name : StringView) (alloc : VnodeAlloc) :
    Except Int Nat × Vnodes V :=
  if t.isDirectory dir = false then (.error (-ENOTDIR), t)
  else
    match t.child dir name with
    | some _ => (.error (-EEXIST), t)
    | none => addChild vm t .regular dir name alloc

/-- `RamFsOpsImpl::Mkdir`. -/
def mkdir (vm : VmObject V) (t : Vnodes V) (dir : Nat) (name : StringView) (alloc : VnodeAlloc) :
    Except Int Nat × Vnodes V :=
  if t.isDirectory dir = false then (.error (-ENOTDIR), t)
  else
    match t.child dir name with
    | some c => (.ok c, t)
    | none => addChild vm t .directory dir name alloc

/-! ## PathToVnode -/

/-- The component from `offset` on and the offset after it. -/
def nextComponent (path : StringView) (offset : Nat) : StringView × Nat :=
  match find path slash offset with
  | none => (path.drop offset, path.length)
  | some nextSlash => (subView path offset (nextSlash - offset), nextSlash + 1)

/-- The loop of `PathToVnode`. The first argument bounds the turns; the bytes
left of the path are enough, as each turn takes one. -/
def pathLoop (t : Vnodes V) (path : StringView) : Nat → Nat → Nat → Except Int Nat
  | 0, _, current => .ok current
  | n + 1, offset, current =>
      if offset < path.length then
        let (component, offset) := nextComponent path offset
        if component = [] ∨ component = dot then pathLoop t path n offset current
        else if t.isDirectory current = false then .error (-ENOTDIR)
        else
          match t.lookup current component with
          | .error e => .error e
          | .ok c => pathLoop t path n offset c
      else .ok current

/-- `Vfs::PathToVnode`. -/
def pathToVnode (t : Vnodes V) (root : Nat) (path : StringView) : Except Int Nat :=
  if path = [] then .ok root
  else pathLoop t path path.length (if path.head? = some slash then 1 else 0) root

/-! ## Components -/

/-- The components of a path that are looked up. -/
def components (path : StringView) : List StringView :=
  (path.splitOn slash).filter fun c => decide (c ≠ [] ∧ c ≠ dot)

/-- The vnode below `vnode` along the names. -/
def walk (t : Vnodes V) (vnode : Nat) (names : List StringView) : Except Int Nat :=
  names.foldlM t.lookup vnode

/-- A slash between two paths separates their components, -/
theorem components_append (xs ys : StringView) :
    components (xs ++ slash :: ys) = components xs ++ components ys := by
  unfold components
  rw [List.splitOn_append_cons_self, List.filter_append]

/-- and one in front of a path changes nothing. -/
theorem components_slash (ys : StringView) : components (slash :: ys) = components ys := by
  have happend := components_append [] ys
  exact happend

/-- Without a slash there is one component, or none. -/
theorem components_single {c : StringView} (h : slash ∉ c) :
    components c = if c = [] ∨ c = dot then [] else [c] := by
  unfold components
  rw [List.splitOn_eq_singleton h, List.filter_cons, List.filter_nil]
  by_cases hc : c = [] ∨ c = dot
  · have hnot : ¬ (c ≠ [] ∧ c ≠ dot) := by
      rintro ⟨hempty, hdot⟩
      exact hc.elim hempty hdot
    rw [if_pos hc, decide_eq_false hnot]
    rfl
  · rw [if_neg hc, decide_eq_true (not_or.mp hc)]
    rfl

/-- The name `.` is a component. -/
theorem slash_notMem_dot : slash ∉ dot := by decide

/-- A turn takes the first component of what is left. -/
theorem nextComponent_spec {path : StringView} {offset : Nat} (h : offset < path.length) :
    slash ∉ (nextComponent path offset).1 ∧ offset < (nextComponent path offset).2 ∧
      components (path.drop offset) = components (nextComponent path offset).1 ++
        components (path.drop (nextComponent path offset).2) := by
  unfold nextComponent
  rcases Option.eq_none_or_eq_some (find path slash offset) with hnone | ⟨k, hsome⟩
  · simp only [hnone]
    refine ⟨find_none hnone, h, ?_⟩
    rw [List.drop_length]
    exact (List.append_nil _).symm
  · simp only [hsome]
    rcases find_some hsome with ⟨hle, -, hout, hsplit⟩
    refine ⟨hout, Nat.lt_succ_of_le hle, ?_⟩
    rw [hsplit, components_append]

/-- A walk takes one name at a time, -/
theorem walk_cons (t : Vnodes V) (vnode : Nat) (name : StringView) (names : List StringView) :
    t.walk vnode (name :: names) = (t.lookup vnode name).bind fun c => t.walk c names := rfl

/-- and may be cut anywhere. -/
theorem walk_append (t : Vnodes V) (vnode : Nat) (xs ys : List StringView) :
    t.walk vnode (xs ++ ys) = (t.walk vnode xs).bind fun c => t.walk c ys :=
  List.foldlM_append

/-- Nothing is found in a file. -/
theorem lookup_notDirectory {t : Vnodes V} {dir : Nat} (h : t.isDirectory dir = false)
    (name : StringView) : t.lookup dir name = .error (-ENOTDIR) := by
  unfold lookup
  rw [if_pos h]

/-- The loop, by the components of what is left of the path. -/
theorem pathLoop_eq (t : Vnodes V) (path : StringView) (n : Nat) {offset : Nat} (current : Nat)
    (hfuel : path.length - offset ≤ n) :
    t.pathLoop path n offset current = t.walk current (components (path.drop offset)) := by
  induction n generalizing offset current with
  | zero =>
      have hend : path.drop offset = [] := List.drop_eq_nil_of_le (by omega)
      rw [hend]
      rfl
  | succ n ih =>
      unfold pathLoop
      by_cases hlt : offset < path.length
      · rw [if_pos hlt]
        rcases nextComponent_spec hlt with ⟨hout, hnext, hsplit⟩
        rw [hsplit, walk_append, components_single hout]
        have hleft : path.length - (nextComponent path offset).2 ≤ n := by omega
        by_cases hskip : (nextComponent path offset).1 = [] ∨ (nextComponent path offset).1 = dot
        · simp only [hskip, if_true]
          exact ih current hleft
        · simp only [hskip, if_false]
          rw [walk_cons]
          -- `Lookup` makes the test for a directory once more
          by_cases hdir : t.isDirectory current = false
          · rw [if_pos hdir, lookup_notDirectory hdir]
            rfl
          · rw [if_neg hdir]
            cases t.lookup current (nextComponent path offset).1 with
            | error e => rfl
            | ok c => exact ih c hleft
      · have hend : path.drop offset = [] := List.drop_eq_nil_of_le (Nat.le_of_not_lt hlt)
        rw [if_neg hlt, hend]
        rfl

/-- `PathToVnode` looks up the components of the path. -/
theorem pathToVnode_eq (t : Vnodes V) (root : Nat) (path : StringView) :
    t.pathToVnode root path = t.walk root (components path) := by
  unfold pathToVnode
  cases path with
  | nil => rfl
  | cons x rest =>
      rw [if_neg (List.cons_ne_nil x rest), List.head?_cons]
      by_cases hx : x = slash
      · -- the slash that is skipped ends an empty component
        rw [if_pos (congrArg some hx), pathLoop_eq t _ _ root (Nat.sub_le _ _), hx, components_slash]
        rfl
      · have hne : ¬ some x = some slash := by
          intro heq
          exact hx (Option.some.inj heq)
        rw [if_neg hne, pathLoop_eq t _ _ root (Nat.sub_le _ _)]
        rfl

/-! ## Children -/

/-- Lookups depend on the types, the names and the children. -/
theorem walk_congr {t t' : Vnodes V} (htype : ∀ i, (t'.node i).type = (t.node i).type)
    (hname : ∀ i, (t'.node i).name = (t.node i).name)
    (hchildren : ∀ i, (t'.node i).children = (t.node i).children) (vnode : Nat)
    (names : List StringView) : t'.walk vnode names = t.walk vnode names := by
  have hlookup : t'.lookup = t.lookup := by
    funext dir name
    unfold lookup isDirectory child
    simp only [htype, hname, hchildren]
  unfold walk
  rw [hlookup]

section
variable (t : Vnodes V) (vnode : Nat) (node : RamFsNode V)

/-- The vnode has the new node, -/
theorem setNode_self : ((t.setNode vnode node).node vnode).toRamFsNode = node := by
  unfold setNode set
  dsimp only
  rw [Function.update_self]

/-- and no other vnode has changed, -/
theorem setNode_other {i : Nat} (h : i ≠ vnode) : (t.setNode vnode node).node i = t.node i :=
  Function.update_of_ne h _ _

/-- nor has any name or any list of children, -/
theorem setNode_names (i : Nat) : ((t.setNode vnode node).node i).name = (t.node i).name ∧
    ((t.setNode vnode node).node i).children = (t.node i).children := by
  by_cases h : i = vnode
  · subst h
    unfold setNode set
    dsimp only
    rw [Function.update_self]
    exact ⟨rfl, rfl⟩
  · rw [setNode_other t vnode node h]
    exact ⟨rfl, rfl⟩

/-- nor any type. -/
theorem setNode_type (h : node.type = (t.node vnode).type) (i : Nat) :
    ((t.setNode vnode node).node i).type = (t.node i).type := by
  by_cases hi : i = vnode
  · rw [hi, setNode_self]
    exact h
  · rw [setNode_other t vnode node hi]

end

/-- What `child` finds is a child of that name; -/
theorem child_mem {t : Vnodes V} {dir c : Nat} {name : StringView} (h : t.child dir name = some c) :
    c ∈ (t.node dir).children ∧ (t.node c).name = name := by
  unfold child at h
  have hname := List.find?_some h
  exact ⟨List.mem_of_find?_eq_some h, of_decide_eq_true hname⟩

/-- it finds nothing if and only if no child has the name. -/
theorem child_none_iff {t : Vnodes V} {dir : Nat} {name : StringView} :
    t.child dir name = none ↔ ∀ c, c ∈ (t.node dir).children → (t.node c).name ≠ name := by
  unfold child
  rw [List.find?_eq_none]
  simp only [decide_eq_true_eq, ne_eq]

/-- `Lookup` succeeds in directories, where `child` does. -/
theorem lookup_ok_iff {t : Vnodes V} {dir c : Nat} {name : StringView} :
    t.lookup dir name = .ok c ↔ t.isDirectory dir = true ∧ t.child dir name = some c := by
  unfold lookup
  rcases Bool.eq_false_or_eq_true (t.isDirectory dir) with htrue | hfalse
  · rw [if_neg (by rw [htrue]; exact Bool.noConfusion)]
    -- a directory: as its children say
    cases t.child dir name with
    | none =>
        constructor
        · intro h
          cases h
        · rintro ⟨-, h⟩
          cases h
    | some d =>
        constructor
        · intro h
          cases h
          exact ⟨htrue, rfl⟩
        · rintro ⟨-, h⟩
          cases h
          rfl
  · rw [if_pos hfalse]
    constructor
    · intro h
      cases h
    · rintro ⟨htrue, -⟩
      rw [hfalse] at htrue
      cases htrue

section
variable (vm : VmObject V) (t : Vnodes V) (type : VnodeType) {dir : Nat} (name : StringView)

@[simp] theorem withChild_next : (withChild vm t type dir name).next = t.next + 1 := rfl

/-- A vnode that has just been created has its name and no children, -/
theorem withChild_new (h : dir < t.next) :
    (withChild vm t type dir name).node t.next = { newNode vm type with name := name } := by
  unfold withChild set
  dsimp only
  rw [Function.update_of_ne (Nat.ne_of_gt h), Function.update_self]

/-- its directory has it behind the children from before, -/
theorem withChild_dir :
    (withChild vm t type dir name).node dir =
      { t.node dir with children := (t.node dir).children ++ [t.next] } := by
  unfold withChild set
  dsimp only
  rw [Function.update_self]

/-- all the others are as they were, -/
theorem withChild_other {i : Nat} (hnext : i ≠ t.next) (hdir : i ≠ dir) :
    (withChild vm t type dir name).node i = t.node i := by
  unfold withChild set
  dsimp only
  rw [Function.update_of_ne hdir, Function.update_of_ne hnext]

/-- A vnode that was there has other children at most. -/
theorem withChild_old {i : Nat} (hnext : i ≠ t.next) :
    ((withChild vm t type dir name).node i).toRamFsNode = (t.node i).toRamFsNode ∧
      ((withChild vm t type dir name).node i).name = (t.node i).name := by
  by_cases hdir : i = dir
  · subst hdir
    rw [withChild_dir]
    exact ⟨rfl, rfl⟩
  · rw [withChild_other vm t type name hnext hdir]
    exact ⟨rfl, rfl⟩

/-- and what was a directory is one. -/
theorem withChild_isDirectory {i : Nat} (hnext : i ≠ t.next) :
    (withChild vm t type dir name).isDirectory i = t.isDirectory i := by
  unfold isDirectory
  rw [(withChild_old vm t type name hnext).1]

end

end Vnodes

/-! ## Trees -/

/-- Directories are vnodes that are there, their children too, and the children
of a directory have distinct names. -/
structure RamFsTree (V : Type) extends Vnodes V where
  dir_lt : ∀ i, toVnodes.isDirectory i = true → i < next
  child_lt : ∀ i c, c ∈ (node i).children → c < next
  names_nodup : ∀ i, ((node i).children.map fun c => (node c).name).Nodup

namespace RamFsTree

open Vnodes

variable {V : Type} (vm : VmObject V) (t : RamFsTree V)

/-- A root without children. -/
def emptyRoot (V : Type) : RamFsTree V where
  node i := { type := if i = 0 then .directory else .regular, vmo := none }
  next := 1
  dir_lt i hi := by
    unfold Vnodes.isDirectory at hi
    dsimp only at hi
    split at hi
    · rename_i h
      rw [h]
      exact Nat.one_pos
    · cases hi
  child_lt i c hc := by cases hc
  names_nodup i := List.nodup_nil

/-- The children of a directory that gets one more. -/
theorem child_withChild (type : VnodeType) {dir : Nat} (hdir : t.isDirectory dir = true)
    (name c : StringView) :
    (withChild vm t.toVnodes type dir name).child dir c =
      (t.child dir c).or (if name = c then some t.next else none) := by
  have hlt := t.dir_lt dir hdir
  unfold child
  rw [withChild_dir, List.find?_append]
  congr 1
  · -- the children that were there keep their names
    apply List.find?_congr
    intro x hx
    have hne : x ≠ t.next := Nat.ne_of_lt (t.child_lt dir x hx)
    rw [(withChild_old vm t.toVnodes type name hne).2]
  · -- the new one is last, and found if nobody before has the name
    rw [List.find?_cons, List.find?_nil, withChild_new vm t.toVnodes type name hlt]
    by_cases hc : name = c
    · rw [if_pos hc]
      simp only [hc, decide_true]
    · rw [if_neg hc]
      simp only [hc, decide_false]

/-- Nobody else has got a child, -/
theorem child_withChild_other (type : VnodeType) {dir i : Nat} (hne : i ≠ dir) (hnext : i ≠ t.next)
    (name c : StringView) :
    (withChild vm t.toVnodes type dir name).child i c = t.child i c := by
  unfold child
  rw [withChild_other vm t.toVnodes type name hnext hne]
  apply List.find?_congr
  intro x hx
  rw [(withChild_old vm t.toVnodes type name (Nat.ne_of_lt (t.child_lt i x hx))).2]

/-- What was found is found again. -/
theorem lookup_withChild {type : VnodeType} {dir : Nat} (hdir : t.isDirectory dir = true)
    (name : StringView) {i c : Nat} {n : StringView} (h : t.lookup i n = .ok c) :
    (withChild vm t.toVnodes type dir name).lookup i n = .ok c := by
  rw [lookup_ok_iff] at h
  rcases h with ⟨hi, hc⟩
  have hnext : i ≠ t.next := Nat.ne_of_lt (t.dir_lt i hi)
  rw [lookup_ok_iff, withChild_isDirectory vm t.toVnodes type name hnext]
  refine ⟨hi, ?_⟩
  by_cases hne : i = dir
  · subst hne
    rw [child_withChild vm t type hdir, hc]
    rfl
  · rw [child_withChild_other vm t type hne hnext]
    exact hc

/-- and every walk that ended somewhere ends there. -/
theorem walk_withChild {type : VnodeType} {dir : Nat} (hdir : t.isDirectory dir = true)
    (name : StringView) (names : List StringView) {i c : Nat} (h : t.walk i names = .ok c) :
    (withChild vm t.toVnodes type dir name).walk i names = .ok c := by
  induction names generalizing i with
  | nil => exact h
  | cons n names ih =>
      rw [walk_cons] at h ⊢
      cases hl : t.lookup i n with
      | error e =>
          rw [hl] at h
          cases h
      | ok d =>
          rw [hl] at h
          rw [lookup_withChild vm t hdir name hl]
          exact ih h

/-- The tree with a new child, of a name that is free. -/
def grow (type : VnodeType) {dir : Nat} (hdir : t.isDirectory dir = true) {name : StringView}
    (hfree : t.child dir name = none) : RamFsTree V where
  toVnodes := withChild vm t.toVnodes type dir name
  dir_lt i hi := by
    rw [withChild_next]
    by_cases hnext : i = t.next
    · exact Nat.lt_succ_of_le (Nat.le_of_eq hnext)
    · rw [withChild_isDirectory vm t.toVnodes type name hnext] at hi
      exact Nat.lt_succ_of_lt (t.dir_lt i hi)
  child_lt i c hc := by
    rw [withChild_next]
    by_cases hnext : i = t.next
    · rw [hnext, withChild_new vm t.toVnodes type name (t.dir_lt dir hdir)] at hc
      cases hc
    · by_cases hi : i = dir
      · rw [hi, withChild_dir] at hc
        rcases List.mem_append.mp hc with hold | hnew
        · exact Nat.lt_succ_of_lt (t.child_lt dir c hold)
        · exact Nat.lt_succ_of_le (Nat.le_of_eq (List.mem_singleton.mp hnew))
      · rw [withChild_other vm t.toVnodes type name hnext hi] at hc
        exact Nat.lt_succ_of_lt (t.child_lt i c hc)
  names_nodup i := by
    have hnames : ∀ j, ((t.node j).children.map fun c =>
        ((withChild vm t.toVnodes type dir name).node c).name) =
          (t.node j).children.map fun c => (t.node c).name := by
      intro j
      apply List.map_congr_left
      intro c hc
      exact (withChild_old vm t.toVnodes type name (Nat.ne_of_lt (t.child_lt j c hc))).2
    have hlt := t.dir_lt dir hdir
    by_cases hnext : i = t.next
    · rw [hnext, withChild_new vm t.toVnodes type name hlt]
      exact List.nodup_nil
    · by_cases hi : i = dir
      · subst hi
        rw [withChild_dir]
        dsimp only
        rw [List.map_append, hnames, List.map_singleton, withChild_new vm t.toVnodes type name hlt]
        apply List.Nodup.append (t.names_nodup i) (List.nodup_singleton name)
        intro x hx hmem
        rw [List.mem_singleton] at hmem
        rcases List.mem_map.mp hx with ⟨c, hc, hcx⟩
        exact child_none_iff.mp hfree c hc (hcx.trans hmem)
      · rw [withChild_other vm t.toVnodes type name hnext hi, hnames]
        exact t.names_nodup i

/-- The tree with another content of a vnode. -/
def setNode (vnode : Nat) (node : RamFsNode V) (htype : node.type = (t.node vnode).type) :
    RamFsTree V where
  toVnodes := t.toVnodes.setNode vnode node
  dir_lt i hi := by
    apply t.dir_lt i
    unfold isDirectory at hi ⊢
    rw [setNode_type t.toVnodes vnode node htype] at hi
    exact hi
  child_lt i c hc := by
    rw [(setNode_names t.toVnodes vnode node i).2] at hc
    exact t.child_lt i c hc
  names_nodup i := by
    simp only [setNode_names]
    exact t.names_nodup i

/-- `Create` fails, or a new file of a free name is there. -/
theorem create_cases {dir c : Nat} {name : StringView} {alloc : VnodeAlloc} {t' : Vnodes V}
    (h : create vm t.toVnodes dir name alloc = (.ok c, t')) :
    t.isDirectory dir = true ∧ t.child dir name = none ∧ c = t.next ∧
      t' = withChild vm t.toVnodes .regular dir name := by
  unfold create at h
  split at h
  · cases h
  · rename_i hdir
    rw [Bool.not_eq_false] at hdir
    -- the name must be free
    rcases Option.eq_none_or_eq_some (t.child dir name) with hnone | ⟨d, hsome⟩
    · rw [hnone] at h
      dsimp only at h
      unfold addChild at h
      split at h
      · cases h
      · split at h
        · cases h
        · cases h
          exact ⟨hdir, hnone, rfl, rfl⟩
    · rw [hsome] at h
      cases h

/-- `Create` of a name that is free, with both allocations. -/
theorem create_free {dir : Nat} {name : StringView} (hdir : t.isDirectory dir = true)
    (hfree : t.child dir name = none) :
    create vm t.toVnodes dir name ⟨true, true⟩ =
      (.ok t.next, withChild vm t.toVnodes .regular dir name) := by
  unfold create
  rw [if_neg (by rw [hdir]; exact Bool.noConfusion), hfree]
  rfl

/-- The new child is what its name finds. -/
theorem lookup_new {type : VnodeType} {dir : Nat} {name : StringView}
    (hdir : t.isDirectory dir = true) (hfree : t.child dir name = none) :
    (withChild vm t.toVnodes type dir name).lookup dir name = .ok t.next := by
  have hne : dir ≠ t.next := Nat.ne_of_lt (t.dir_lt dir hdir)
  rw [lookup_ok_iff, withChild_isDirectory vm t.toVnodes type name hne,
    child_withChild vm t type hdir, hfree, if_pos rfl]
  exact ⟨hdir, rfl⟩

end RamFsTree

end Ceryx.Fs.Vfs
