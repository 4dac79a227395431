import Ceryx.Fs.Getdents

/-!
# Ceryx.Fs.Directories — the directories of the RAM file system

`RamFsOpsImpl::Create`, `Mkdir` and `Mknod` of `RamFs.hpp`, called in any order on
the directories of a tree. `Create` refuses a name that is there, `Mkdir` returns
the child that has it, and `Mknod` does not look.

* `CallRight`: what is expected of a call.
* `call_cases`: a call fails, or `Mkdir` finds the name, or a child is added.
* `directories_iff`: in a run from an empty root all calls are right if and only
  if `Mknod` gets new names and `Mkdir` finds directories only, `NameFits`.
* `second_mknod`: two nodes of one name.
-/

namespace Ceryx.Fs.Vfs

open Lib RamFs

namespace TreeOp

def dir : TreeOp → Nat
  | .create dir _ _ | .mkdir dir _ _ | .mknod dir _ _ _ => dir

def name : TreeOp → StringView
  | .create _ name _ | .mkdir _ name _ | .mknod _ name _ _ => name

/-- The type of the vnode that is created. -/
def type : TreeOp → VnodeType
  | .create _ _ _ => .regular
  | .mkdir _ _ _ => .directory
  | .mknod _ _ type _ => type

/-- The vnode returned has to be a new one. -/
def isNew : TreeOp → Bool
  | .mkdir _ _ _ => false
  | _ => true

end TreeOp

namespace Vnodes

variable {V : Type} (vm : VmObject V)

/-- The call and the tree after it. -/
def treeCall (t : Vnodes V) : TreeOp → Except Int Nat × Vnodes V
  | .create dir name alloc => t.create vm dir name alloc
  | .mkdir dir name alloc => t.mkdir vm dir name alloc
  | .mknod dir name type alloc => t.mknod vm dir name type alloc

/-- A call on a vnode that is there. -/
def createStep (t : Vnodes V) (op : TreeOp) : Option (Vnodes V) :=
  if op.dir < t.next then some (treeCall vm t op).2 else none

/-! ## What is expected -/

/-- The children of a directory have distinct names. -/
def DistinctNames (t : Vnodes V) : Prop :=
  ∀ i, ((t.node i).children.map fun c => (t.node c).name).Nodup

/-- The root, or a child of a vnode. -/
def InTree (t : Vnodes V) (v : Nat) : Prop := v = 0 ∨ ∃ i, v ∈ (t.node i).children

/-- What a call returns and leaves behind is right. -/
structure CallRight (t : Vnodes V) (op : TreeOp) : Prop where
  distinct : DistinctNames (treeCall vm t op).2
  type : ∀ v, (treeCall vm t op).1 = .ok v → ((treeCall vm t op).2.node v).type = op.type
  new : ∀ v, (treeCall vm t op).1 = .ok v → op.isNew = true → ¬ t.InTree v
  kept : ∀ i, i < t.next → (t.node i).children <+: ((treeCall vm t op).2.node i).children
  found : ∀ i name c, t.lookup i name = .ok c → (treeCall vm t op).2.lookup i name = .ok c
  failed : ∀ e, (treeCall vm t op).1 = .error e → (treeCall vm t op).2 = t

/-- The name that `Mknod` gets is free, or its allocations fail; a child that
`Mkdir` finds is a directory. -/
def NameFits (t : Vnodes V) : TreeOp → Prop
  | .create _ _ _ => True
  | .mkdir dir name _ => ∀ c, t.lookup dir name = .ok c → t.isDirectory c = true
  | .mknod dir name _ alloc =>
      alloc.node = true → alloc.child = true → ∀ c, t.lookup dir name ≠ .ok c

end Vnodes

namespace RamFsTree

open Vnodes

variable {V : Type} (vm : VmObject V) (t : RamFsTree V)

/-! ## One call -/

/-- What a call can do. -/
inductive Called (op : TreeOp) : Except Int Nat × Vnodes V → Prop where
  | failed (e : Int) (hfits : NameFits t.toVnodes op) : Called op (.error e, t.toVnodes)
  | existing (c : Nat) (hnew : op.isNew = false) (hlook : t.lookup op.dir op.name = .ok c)
      (htype : op.type = .directory) (hfits : NameFits t.toVnodes op ↔ t.isDirectory c = true) :
      Called op (.ok c, t.toVnodes)
  | added (hdir : t.isDirectory op.dir = true)
      (hfits : NameFits t.toVnodes op ↔ t.child op.dir op.name = none) :
      Called op (.ok t.next, withChild vm t.toVnodes op.type op.dir op.name)

/-- `new` and `PushBack` succeed, and the child is added, or nothing happens. -/
theorem addChild_cases (type : VnodeType) (dir : Nat) (name : StringView) (alloc : VnodeAlloc) :
    (addChild vm t.toVnodes type dir name alloc = (.error (-ENOMEM), t.toVnodes) ∧
        ¬ (alloc.node = true ∧ alloc.child = true)) ∨
      (addChild vm t.toVnodes type dir name alloc =
          (.ok t.next, withChild vm t.toVnodes type dir name) ∧
        alloc.node = true ∧ alloc.child = true) := by
  unfold addChild
  cases hnode : alloc.node with
  | false => exact Or.inl ⟨rfl, fun h => Bool.noConfusion h.1⟩
  | true =>
      cases hchild : alloc.child with
      | false => exact Or.inl ⟨rfl, fun h => Bool.noConfusion h.2⟩
      | true => exact Or.inr ⟨rfl, rfl, rfl⟩

theorem lookup_free {dir : Nat} {name : StringView} (hfree : t.child dir name = none) (c : Nat) :
    t.lookup dir name ≠ .ok c := by
  intro h
  rw [lookup_ok_iff, hfree] at h
  cases h.2

theorem create_called (dir : Nat) (name : StringView) (alloc : VnodeAlloc) :
    Called vm t (.create dir name alloc) (create vm t.toVnodes dir name alloc) := by
  unfold create
  by_cases hdir : t.isDirectory dir = false
  · rw [if_pos hdir]
    exact .failed _ trivial
  · rw [if_neg hdir]
    cases hchild : t.child dir name with
    | some c => exact .failed _ trivial
    | none =>
        rcases addChild_cases vm t .regular dir name alloc with ⟨heq, -⟩ | ⟨heq, -⟩
        · dsimp only
          rw [heq]
          exact .failed _ trivial
        · dsimp only
          rw [heq]
          exact .added ((Bool.not_eq_false _).mp hdir) (iff_of_true trivial hchild)

theorem mkdir_called (dir : Nat) (name : StringView) (alloc : VnodeAlloc) :
    Called vm t (.mkdir dir name alloc) (mkdir vm t.toVnodes dir name alloc) := by
  unfold mkdir
  by_cases hdir : t.isDirectory dir = false
  · rw [if_pos hdir]
    refine .failed _ ?_
    intro c hlook
    rw [lookup_notDirectory hdir] at hlook
    cases hlook
  · rw [if_neg hdir]
    rw [Bool.not_eq_false] at hdir
    cases hchild : t.child dir name with
    | some c =>
        -- the child of that name is returned, whatever its type
        have hlook : t.lookup dir name = .ok c := lookup_ok_iff.mpr ⟨hdir, hchild⟩
        refine .existing c rfl hlook rfl ⟨fun hfits => hfits c hlook, ?_⟩
        intro hc d hd
        rw [hlook] at hd
        cases hd
        exact hc
    | none =>
        have hfits : NameFits t.toVnodes (.mkdir dir name alloc) := fun c hlook =>
          absurd hlook (lookup_free t hchild c)
        dsimp only
        rcases addChild_cases vm t .directory dir name alloc with ⟨heq, -⟩ | ⟨heq, -⟩
        · rw [heq]
          exact .failed _ hfits
        · rw [heq]
          exact .added hdir (iff_of_true hfits hchild)

theorem mknod_called (dir : Nat) (name : StringView) (type : VnodeType) (alloc : VnodeAlloc) :
    Called vm t (.mknod dir name type alloc) (t.toVnodes.mknod vm dir name type alloc) := by
  unfold mknod
  by_cases hdir : t.isDirectory dir = false
  · rw [if_pos hdir]
    refine .failed _ ?_
    intro _ _ c hlook
    rw [lookup_notDirectory hdir] at hlook
    cases hlook
  · -- no look at the children: the name fits if it is free
    rw [if_neg hdir]
    rw [Bool.not_eq_false] at hdir
    rcases addChild_cases vm t type dir name alloc with ⟨heq, hfail⟩ | ⟨heq, hnode, hchild⟩
    · rw [heq]
      exact .failed _ fun hnode hchild => absurd ⟨hnode, hchild⟩ hfail
    · rw [heq]
      refine .added hdir ⟨?_, ?_⟩
      · intro hfits
        rcases Option.eq_none_or_eq_some (t.child dir name) with hnone | ⟨c, hc⟩
        · exact hnone
        · exact absurd (lookup_ok_iff.mpr ⟨hdir, hc⟩) (hfits hnode hchild c)
      · intro hfree _ _ c
        exact lookup_free t hfree c

theorem call_cases (op : TreeOp) : Called vm t op (treeCall vm t.toVnodes op) := by
  cases op with
  | create dir name alloc => exact create_called vm t dir name alloc
  | mkdir dir name alloc => exact mkdir_called vm t dir name alloc
  | mknod dir name type alloc => exact mknod_called vm t dir name type alloc

/-! ## What a call keeps -/

theorem children_withChild (type : VnodeType) (dir : Nat) (name : StringView) {i : Nat}
    (hi : i < t.next) :
    (t.node i).children <+: ((withChild vm t.toVnodes type dir name).node i).children := by
  by_cases hdir : i = dir
  · rw [hdir, withChild_dir]
    exact List.prefix_append _ _
  · rw [withChild_other vm t.toVnodes type name (Nat.ne_of_lt hi) hdir]

theorem next_new (hroot : 0 < t.next) : ¬ t.InTree t.next := by
  rintro (hzero | ⟨i, hmem⟩)
  · exact Nat.ne_of_gt hroot hzero
  · exact Nat.lt_irrefl _ (t.child_lt i t.next hmem)

/-- A second child of a name. -/
theorem not_distinct {type : VnodeType} {dir c : Nat} {name : StringView}
    (hdir : t.isDirectory dir = true) (hchild : t.child dir name = some c) :
    ¬ DistinctNames (withChild vm t.toVnodes type dir name) := by
  intro h
  have hnodup := h dir
  have hlt := t.dir_lt dir hdir
  rcases child_mem hchild with ⟨hmem, hname⟩
  have hold : ((withChild vm t.toVnodes type dir name).node c).name = (t.node c).name :=
    (withChild_old vm t.toVnodes type name (Nat.ne_of_lt (t.child_lt dir c hmem))).2
  rw [withChild_dir, List.map_append, List.map_singleton,
    withChild_new vm t.toVnodes type name hlt] at hnodup
  have hdisjoint := List.disjoint_of_nodup_append hnodup
  apply hdisjoint (a := name)
  · exact List.mem_map.mpr ⟨c, hmem, hold.trans hname⟩
  · exact List.mem_singleton_self name

/-- A call that leaves the tree as it is. -/
theorem callRight_unchanged {op : TreeOp} {r : Except Int Nat}
    (hcall : treeCall vm t.toVnodes op = (r, t.toVnodes))
    (htype : ∀ v, r = .ok v → (t.node v).type = op.type)
    (hold : ∀ v, r = .ok v → op.isNew = false) : CallRight vm t.toVnodes op := by
  constructor
  -- the tree is the old one, so every clause is about it
  case distinct =>
    rw [hcall]
    exact t.names_nodup
  case type =>
    intro v hv
    rw [hcall] at hv ⊢
    exact htype v hv
  case new =>
    intro v hv hnew
    rw [hcall] at hv
    rw [hold v hv] at hnew
    cases hnew
  case kept =>
    intro i _
    rw [hcall]
  case found =>
    intro i name c hlook
    rw [hcall]
    exact hlook
  case failed =>
    intro _ _
    rw [hcall]

/-- A call that adds a child of a free name. -/
theorem callRight_added (hroot : 0 < t.next) {op : TreeOp}
    (hcall : treeCall vm t.toVnodes op =
      (.ok t.next, withChild vm t.toVnodes op.type op.dir op.name))
    (hdir : t.isDirectory op.dir = true) (hfree : t.child op.dir op.name = none) :
    CallRight vm t.toVnodes op := by
  have hlt := t.dir_lt op.dir hdir
  -- the only node that the call can return is the new one
  have hnode : ∀ v, (treeCall vm t.toVnodes op).1 = .ok v → v = t.next := by
    intro v hv
    rw [hcall] at hv
    exact (Except.ok.inj hv).symm
  constructor
  case distinct =>
    rw [hcall]
    exact (t.grow vm op.type hdir hfree).names_nodup
  case type =>
    intro v hv
    rw [hnode v hv, hcall, withChild_new vm t.toVnodes op.type op.name hlt]
    rfl
  case new =>
    intro v hv _
    rw [hnode v hv]
    exact next_new t hroot
  case kept =>
    intro i hi
    rw [hcall]
    exact children_withChild vm t op.type op.dir op.name hi
  case found =>
    intro i name c hlook
    rw [hcall]
    exact lookup_withChild vm t hdir op.name hlook
  case failed =>
    intro e he
    rw [hcall] at he
    cases he

/-- A call is right if and only if its name fits. -/
theorem callRight_iff (hroot : 0 < t.next) (op : TreeOp) :
    CallRight vm t.toVnodes op ↔ NameFits t.toVnodes op := by
  have hcalled := call_cases vm t op
  constructor
  · intro h
    generalize hcall : treeCall vm t.toVnodes op = called at hcalled
    cases hcalled with
    | failed e hfits => exact hfits
    | existing c hnew hlook htype hfits =>
        -- what `Mkdir` returns is a directory
        have hright := h.type c (by rw [hcall])
        rw [hcall, htype] at hright
        apply hfits.mpr
        exact decide_eq_true hright
    | added hdir hfits =>
        -- the names are distinct behind the call, so the new one was free
        apply hfits.mpr
        rcases Option.eq_none_or_eq_some (t.child op.dir op.name) with hnone | ⟨c, hc⟩
        · exact hnone
        · have hdistinct := h.distinct
          rw [hcall] at hdistinct
          exact absurd hdistinct (not_distinct vm t hdir hc)
  · intro h
    generalize hcall : treeCall vm t.toVnodes op = called at hcalled
    cases hcalled with
    | failed e hfits =>
        apply callRight_unchanged vm t hcall
        · intro v hv
          cases hv
        · intro v hv
          cases hv
    | existing c hnew hlook htype hfits =>
        apply callRight_unchanged vm t hcall
        · intro v hv
          rw [← Except.ok.inj hv, htype]
          exact of_decide_eq_true (hfits.mp h)
        · intro v _
          exact hnew
    | added hdir hfits => exact callRight_added vm t hroot hcall hdir (hfits.mp h)

/-! ## Runs -/

/-- The states of a run whose calls were right: a tree with a root. -/
def IsTree (s : Vnodes V) : Prop := ∃ t : RamFsTree V, t.toVnodes = s ∧ 0 < s.next

theorem isTree_step {s s' : Vnodes V} {op : TreeOp} (hs : IsTree s) (hfits : NameFits s op)
    (hstep : createStep vm s op = some s') : IsTree s' := by
  rcases hs with ⟨t, rfl, hroot⟩
  unfold createStep at hstep
  rw [Option.ite_none_right_eq_some] at hstep
  rcases hstep with ⟨-, hs'⟩
  cases hs'
  have hcalled := call_cases vm t op
  generalize treeCall vm t.toVnodes op = called at hcalled
  cases hcalled with
  | failed e _ => exact ⟨t, rfl, hroot⟩
  | existing c _ _ _ _ => exact ⟨t, rfl, hroot⟩
  | added hdir hfree => exact ⟨t.grow vm op.type hdir (hfree.mp hfits), rfl, Nat.succ_pos _⟩

/-- From an empty root all calls are right if and only if all names fit. Then the
names in each directory are distinct in every state. -/
theorem directories_iff (ops : List TreeOp) :
    (Always (createStep vm) DistinctNames (emptyRoot V).toVnodes ops ∧
        StepsMeet (createStep vm) (CallRight vm) (emptyRoot V).toVnodes ops) ↔
      StepsMeet (createStep vm) NameFits (emptyRoot V).toVnodes ops := by
  have hstart : IsTree (emptyRoot V).toVnodes := ⟨emptyRoot V, rfl, Nat.one_pos⟩
  have hcalls : StepsMeet (createStep vm) (CallRight vm) (emptyRoot V).toVnodes ops ↔
      StepsMeet (createStep vm) NameFits (emptyRoot V).toVnodes ops := by
    apply stepsMeet_iff (I := IsTree)
    · rintro s op ⟨t, rfl, hroot⟩
      exact callRight_iff vm t hroot op
    · intro s op s' hs hfits hstep
      exact isTree_step vm hs hfits hstep
    · exact hstart
  -- names stay distinct where every call is right
  rw [hcalls, and_iff_right_iff_imp]
  intro hfits
  apply (always_of_stepsMeet (I := IsTree) _ hstart hfits).mono
  · rintro s ⟨t, rfl, -⟩
    exact t.names_nodup
  · intro s op s' hs hfit hstep
    exact isTree_step vm hs hfit hstep

/-- Two nodes "a" in the root, the second of them with a `Mknod`. -/
theorem second_mknod : ¬ StepsMeet (createStep (pageList .base)) (CallRight (pageList .base))
    (emptyRoot (List VmPage)).toVnodes
    [.create 0 [97] ⟨true, true⟩, .mknod 0 [97] .charDevice ⟨true, true⟩] := by
  intro h
  have hright := (h _ rfl).2 _ rfl
  have hnames := hright.1.distinct 0
  revert hnames
  decide

end RamFsTree

end Ceryx.Fs.Vfs
