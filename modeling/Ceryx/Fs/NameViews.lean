import Ceryx.Fs.OpenCreat
import Ceryx.Lib.Runs
import Ceryx.Lib.View

/-!
# Ceryx.Fs.NameViews — where the names of vnodes lie

`Vnode::name` is a view of the bytes of whoever created the vnode: of the path in
the memory of a program, for `sys_open` with `O_CREAT`. This is the model of
`Vfs.lean` and `OpenCreat.lean` once more, with the views for the names; a lookup
reads the memory there is at that time.

* `lookup_shows`, `pathToVnode_shows`, `targetVnode_shows`: as long as every name
  can be read, the calls are those on the bytes that the names show.
* `NamesOwned`: in a run of calls and of changes of the memory, only a call that
  makes a child changes a lookup.
* `namesOwned_of_spares`: this holds if the changes of the memory leave the names
  of children alone; `spares_iff_sameNames`, that it has to be so.
* `namesOwned_of_kernelNames`: it always holds without `O_CREAT`, for the names
  that the kernel gives lie in its own memory.
* `path_buffer_reused`: a program stores another byte where the path was.
-/

namespace Ceryx.Fs.Vfs

open Lib RamFs

variable {V : Type}

/-- What a load finds. -/
abbrev Load := Nat → Option UInt8

/-- `Vnode`, as a `RamFsNode` has it. -/
structure ViewNode (V : Type) extends RamFsNode V where
  name : View := {}
  children : List Nat := []

/-- The vnodes by number, and the number of the next one. -/
structure ViewTree (V : Type) where
  node : Nat → ViewNode V
  next : Nat

namespace ViewTree

section
variable (vm : VmObject V) (m : Load) (t : ViewTree V)

/-- `Vnode::IsDirectory`. -/
def isDirectory (vnode : Nat) : Bool := (t.node vnode).type = .directory

/-- The first child of that name; `none` where a comparison faults. -/
def findChild (name : StringView) : List Nat → Option (Option Nat)
  | [] => some none
  | c :: cs =>
      match (t.node c).name.eq m name with
      | none => none
      | some true => some (some c)
      | some false => findChild name cs

/-- `RamFsOpsImpl::Lookup`. -/
def lookup (dir : Nat) (name : StringView) : Option (Except Int Nat) :=
  if t.isDirectory dir = false then some (.error (-ENOTDIR))
  else
    (findChild m t name (t.node dir).children).map fun
      | some c => .ok c
      | none => .error (-ENOENT)

/-- A new vnode, the last child of `dir`. -/
def withChild (type : VnodeType) (dir : Nat) (name : View) : ViewTree V where
  node := fun i =>
    if i = dir then { t.node dir with children := (t.node dir).children ++ [t.next] }
    else if i = t.next then { newNode vm type with name := name }
    else t.node i
  next := t.next + 1

/-- What the calls do for a name that is free. -/
def addChild (type : VnodeType) (dir : Nat) (name : View) (alloc : VnodeAlloc) :
    Except Int Nat × ViewTree V :=
  if alloc.node = false then (.error (-ENOMEM), t)
  else if alloc.child = false then (.error (-ENOMEM), t)
  else (.ok t.next, withChild vm t type dir name)

/-- `Create` and `Mkdir`, with what they return for a child that is there. -/
def makeChild (type : VnodeType) (there : Nat → Except Int Nat) (dir : Nat) (name : View)
    (alloc : VnodeAlloc) : Option (Except Int Nat × ViewTree V) :=
  if t.isDirectory dir = false then some (.error (-ENOTDIR), t)
  else
    (name.read m).bind fun bytes =>
      (findChild m t bytes (t.node dir).children).map fun
        | some c => (there c, t)
        | none => addChild vm t type dir name alloc

/-- `RamFsOpsImpl::Create`. -/
def create (dir : Nat) (name : View) (alloc : VnodeAlloc) :
    Option (Except Int Nat × ViewTree V) :=
  makeChild vm m t .regular (fun _ => .error (-EEXIST)) dir name alloc

/-- `RamFsOpsImpl::Mkdir`. -/
def mkdir (dir : Nat) (name : View) (alloc : VnodeAlloc) : Option (Except Int Nat × ViewTree V) :=
  makeChild vm m t .directory .ok dir name alloc

/-- `RamFsOpsImpl::Mknod`, which takes any name. -/
def mknod (dir : Nat) (name : View) (type : VnodeType) (alloc : VnodeAlloc) :
    Except Int Nat × ViewTree V :=
  if t.isDirectory dir = false then (.error (-ENOTDIR), t) else addChild vm t type dir name alloc

/-- `RamFsNode::InsertChild` of a new node; `none` for its `FK_BUG_ON`. -/
def insertChild (dir : Nat) (name : View) (type : VnodeType) (pushed : Bool) :
    Option (ViewTree V) :=
  if t.isDirectory dir = false then none
  else some (if pushed then withChild vm t type dir name else t)

/-- The loop of `PathToVnode`, as in `Vnodes.pathLoop`. -/
def pathLoop (path : StringView) : Nat → Nat → Nat → Option (Except Int Nat)
  | 0, _, current => some (.ok current)
  | n + 1, offset, current =>
      if offset < path.length then
        let (component, offset) := Vnodes.nextComponent path offset
        if component = [] ∨ component = dot then pathLoop path n offset current
        else if t.isDirectory current = false then some (.error (-ENOTDIR))
        else
          match lookup m t current component with
          | none => none
          | some (.error e) => some (.error e)
          | some (.ok c) => pathLoop path n offset c
      else some (.ok current)

/-- `Vfs::PathToVnode`. -/
def pathToVnode (root : Nat) (path : StringView) : Option (Except Int Nat) :=
  if path = [] then some (.ok root)
  else pathLoop m t path path.length (if path.head? = some slash then 1 else 0) root

/-- `vnode.size = 0`, for `O_TRUNC`. -/
def truncate (vnode : Nat) : ViewTree V :=
  { t with node := fun i => if i = vnode then { t.node vnode with size := 0 } else t.node i }

/-- The directory and the name that `sys_open` creates; `path` are the bytes at
`user_path`. -/
def parentAndName (process : ProcessDirs) (userPath : View) (path : StringView) :
    Option (Except Int (Option Nat × View)) :=
  match rFind path slash with
  | none | some 0 => some (.ok (process.cwd, userPath))
  | some (k + 1) =>
      (pathToVnode m t process.root (subView path 0 (k + 1))).map fun
        | .error e => .error e
        | .ok parent => .ok (some parent, userPath.drop (k + 1 + 1))

/-- `target_vnode` of `sys_open`. -/
def targetVnode (process : ProcessDirs) (userPath : View) (flags : BitVec 32) (alloc : VnodeAlloc) :
    Option (Except Int Nat × ViewTree V) :=
  (userPath.read m).bind fun path =>
    (pathToVnode m t process.root path).bind fun
      | .ok vnode => some (.ok vnode, if flags &&& O_TRUNC ≠ 0 then t.truncate vnode else t)
      | .error e =>
          if flags &&& O_CREAT ≠ 0 then
            (parentAndName m t process userPath path).bind fun
              | .error e => some (.error e, t)
              | .ok (none, _) => some (.error (-ENOENT), t)
              | .ok (some parent, filename) => create vm m t parent filename alloc
          else some (.error e, t)

end

end ViewTree

/-! ## Runs -/

/-- The memory and the vnodes. -/
structure NameState (V : Type) where
  mem : Spaces UInt8
  tree : ViewTree V

inductive NameOp where
  /-- A change of the memory of programs. -/
  | memory (op : Spaces.Op UInt8)
  /-- `sys_open`, up to the descriptor. -/
  | sysOpen (process : ProcessDirs) (userPath : View) (flags : BitVec 32) (alloc : VnodeAlloc)
  | create (dir : Nat) (name : View) (alloc : VnodeAlloc)
  | mkdir (dir : Nat) (name : View) (alloc : VnodeAlloc)
  | mknod (dir : Nat) (name : View) (type : VnodeType) (alloc : VnodeAlloc)
  | insertChild (dir : Nat) (name : View) (type : VnodeType) (pushed : Bool)

/-- `StringView(const char*)`: the view ends before the first NUL. -/
def IsCString (m : Load) (v : View) : Prop :=
  (∃ path ∈ v.read m, (0 : UInt8) ∉ path) ∧ m (v.addr + v.size) = some 0

instance (m : Load) (v : View) : Decidable (IsCString m v) :=
  inferInstanceAs (Decidable ((∃ path ∈ v.read m, (0 : UInt8) ∉ path) ∧ _))

/-- `none` where an access faults, or a call cannot be made. -/
def nameStep (vm : VmObject V) (s : NameState V) : NameOp → Option (NameState V)
  | .memory op => some { s with mem := s.mem.step op }
  | .sysOpen process userPath flags alloc =>
      if IsCString s.mem.load userPath then
        (s.tree.targetVnode vm s.mem.load process userPath flags alloc).map fun r =>
          { s with tree := r.2 }
      else none
  | .create dir name alloc =>
      (s.tree.create vm s.mem.load dir name alloc).map fun r => { s with tree := r.2 }
  | .mkdir dir name alloc =>
      (s.tree.mkdir vm s.mem.load dir name alloc).map fun r => { s with tree := r.2 }
  | .mknod dir name type alloc =>
      some { s with tree := (s.tree.mknod vm dir name type alloc).2 }
  | .insertChild dir name type pushed =>
      (s.tree.insertChild vm dir name type pushed).map fun t => { s with tree := t }

namespace NameState

variable (s : NameState V)

/-- `Lookup` in this state. -/
def lookup (dir : Nat) (name : StringView) : Option (Except Int Nat) :=
  s.tree.lookup s.mem.load dir name

/-- `PathToVnode` in this state. -/
def pathToVnode (root : Nat) (path : StringView) : Option (Except Int Nat) :=
  s.tree.pathToVnode s.mem.load root path

/-- Every lookup and every path gives the same in both states. -/
def SameNames (s' : NameState V) : Prop :=
  (∀ dir name, s'.lookup dir name = s.lookup dir name) ∧
    ∀ root path, s'.pathToVnode root path = s.pathToVnode root path

/-- The step calls `Create`, `Mkdir`, `Mknod` or `InsertChild`; `sys_open` calls
`Create` for a path that is not there, in a directory that is. -/
def MakesChild : NameOp → Prop
  | .memory _ => False
  | .sysOpen process userPath flags _ =>
      flags &&& O_CREAT ≠ 0 ∧ ∃ path e parent filename, userPath.read s.mem.load = some path ∧
        s.pathToVnode process.root path = some (.error e) ∧
        s.tree.parentAndName s.mem.load process userPath path = some (.ok (some parent, filename))
  | .create _ _ _ => True
  | .mkdir _ _ _ => True
  | .mknod _ _ _ _ => True
  | .insertChild _ _ _ _ => True

/-- A byte of the name of a child. -/
def InName (a : Nat) : Prop :=
  ∃ dir c, s.tree.isDirectory dir = true ∧ c ∈ (s.tree.node dir).children ∧
    (s.tree.node c).name.Covers a

/-- A change of the memory leaves the names of children as they are. -/
def Spares : NameOp → Prop
  | .memory op => ∀ a, s.InName a → (s.mem.step op).load a = s.mem.load a
  | _ => True

end NameState

/-- In the whole run, lookups change only where a child is made. -/
def NamesOwned (vm : VmObject V) (s : NameState V) (ops : List NameOp) : Prop :=
  StepsMeet (nameStep vm)
    (fun s op => ∀ s', nameStep vm s op = some s' → ¬ s.MakesChild op → s.SameNames s') s ops

/-! ## What a lookup depends on -/

namespace ViewTree

variable {m m' : Load} {t t' : ViewTree V}

theorem findChild_congr (name : StringView) {cs : List Nat}
    (h : ∀ c ∈ cs, (t'.node c).name.eq m' name = (t.node c).name.eq m name) :
    findChild m' t' name cs = findChild m t name cs := by
  induction cs with
  | nil => rfl
  | cons c cs ih =>
      have hrest := ih fun d hd => h d (List.mem_cons_of_mem c hd)
      unfold findChild
      rw [h c List.mem_cons_self, hrest]

/-- Lookups depend on the types, the children and what their names show. -/
theorem lookup_congr (htype : ∀ i, t'.isDirectory i = t.isDirectory i)
    (hchildren : ∀ i, (t'.node i).children = (t.node i).children)
    (hname : ∀ i c, t.isDirectory i = true → c ∈ (t.node i).children →
      ∀ name, (t'.node c).name.eq m' name = (t.node c).name.eq m name)
    (dir : Nat) (name : StringView) : t'.lookup m' dir name = t.lookup m dir name := by
  unfold lookup
  rw [htype, hchildren]
  split
  · rfl
  · rename_i hdir
    rw [Bool.not_eq_false] at hdir
    rw [findChild_congr name fun c hc => hname dir c hdir hc name]

theorem pathLoop_congr (htype : ∀ i, t'.isDirectory i = t.isDirectory i)
    (hlookup : ∀ dir name, t'.lookup m' dir name = t.lookup m dir name) (path : StringView)
    (n offset current : Nat) :
    t'.pathLoop m' path n offset current = t.pathLoop m path n offset current := by
  induction n generalizing offset current with
  | zero => rfl
  | succ n ih =>
      unfold pathLoop
      simp only [ih, htype, hlookup]

theorem pathToVnode_congr (htype : ∀ i, t'.isDirectory i = t.isDirectory i)
    (hlookup : ∀ dir name, t'.lookup m' dir name = t.lookup m dir name) (root : Nat)
    (path : StringView) : t'.pathToVnode m' root path = t.pathToVnode m root path := by
  unfold pathToVnode
  rw [pathLoop_congr htype hlookup]

/-! ## Truncation -/

theorem truncate_type (t : ViewTree V) (vnode i : Nat) :
    (t.truncate vnode).isDirectory i = t.isDirectory i := by
  unfold isDirectory truncate
  dsimp only
  split
  · rename_i heq
    rw [heq]
  · rfl

theorem truncate_children (t : ViewTree V) (vnode i : Nat) :
    ((t.truncate vnode).node i).children = (t.node i).children := by
  unfold truncate
  dsimp only
  split
  · rename_i heq
    rw [heq]
  · rfl

theorem truncate_name (t : ViewTree V) (vnode i : Nat) :
    ((t.truncate vnode).node i).name = (t.node i).name := by
  unfold truncate
  dsimp only
  split
  · rename_i heq
    rw [heq]
  · rfl

theorem truncate_lookup (m : Load) (t : ViewTree V) (vnode dir : Nat) (name : StringView) :
    (t.truncate vnode).lookup m dir name = t.lookup m dir name := by
  apply lookup_congr (truncate_type t vnode) (truncate_children t vnode)
  intro i c _ _ name
  rw [truncate_name]

end ViewTree

namespace NameState

theorem SameNames.refl (s : NameState V) : s.SameNames s := ⟨fun _ _ => rfl, fun _ _ => rfl⟩

/-- Equal lookups give equal paths. -/
theorem sameNames_of_lookup {s s' : NameState V}
    (htype : ∀ i, s'.tree.isDirectory i = s.tree.isDirectory i)
    (hlookup : ∀ dir name, s'.lookup dir name = s.lookup dir name) : s.SameNames s' :=
  ⟨hlookup, fun root path => ViewTree.pathToVnode_congr htype hlookup root path⟩

theorem sameNames_of_spares {s : NameState V} {op : Spaces.Op UInt8}
    (h : s.Spares (.memory op)) : s.SameNames { s with mem := s.mem.step op } := by
  have hlookup : ∀ dir name,
      s.tree.lookup (s.mem.step op).load dir name = s.tree.lookup s.mem.load dir name := by
    apply ViewTree.lookup_congr (fun _ => rfl) (fun _ => rfl)
    intro i c hi hc
    -- a comparison looks at the bytes of the name only
    apply View.eq_congr
    intro a ha
    exact h a ⟨i, c, hi, hc, ha⟩
  exact ⟨hlookup, ViewTree.pathToVnode_congr (fun _ => rfl) hlookup⟩

/-- Without a new child, `sys_open` truncates a vnode at most. -/
theorem targetVnode_tree {vm : VmObject V} {s : NameState V} {process : ProcessDirs}
    {userPath : View} {flags : BitVec 32} {alloc : VnodeAlloc} {r : Except Int Nat × ViewTree V}
    (hmakes : ¬ s.MakesChild (.sysOpen process userPath flags alloc))
    (h : s.tree.targetVnode vm s.mem.load process userPath flags alloc = some r) :
    r.2 = s.tree ∨ ∃ vnode, r.2 = s.tree.truncate vnode := by
  rcases Option.bind_eq_some_iff.mp h with ⟨path, hpath, hbind⟩
  rcases Option.bind_eq_some_iff.mp hbind with ⟨found, hfound, hres⟩
  cases found with
  -- the file is there: `O_TRUNC` or nothing
  | ok vnode =>
      cases hres
      dsimp only
      split
      · exact .inr ⟨vnode, rfl⟩
      · exact .inl rfl
  -- it is not: with `O_CREAT` a child would be made
  | error e =>
      dsimp only at hres
      split at hres
      · rename_i hcreat
        rcases Option.bind_eq_some_iff.mp hres with ⟨place, hplace, hres⟩
        rcases place with e' | ⟨_ | parent, filename⟩
        · cases hres
          exact .inl rfl
        · cases hres
          exact .inl rfl
        · exact absurd ⟨hcreat, path, e, parent, filename, hpath, hfound, hplace⟩ hmakes
      · cases hres
        exact .inl rfl

/-- One step. -/
theorem step_sameNames {vm : VmObject V} {s s' : NameState V} {op : NameOp} (hspares : s.Spares op)
    (hmakes : ¬ s.MakesChild op) (h : nameStep vm s op = some s') : s.SameNames s' := by
  cases op with
  | memory op =>
      cases h
      exact sameNames_of_spares hspares
  | sysOpen process userPath flags alloc =>
      unfold nameStep at h
      dsimp only at h
      split at h
      · rcases Option.map_eq_some_iff.mp h with ⟨r, hr, rfl⟩
        rcases targetVnode_tree hmakes hr with heq | ⟨vnode, heq⟩
        · rw [heq]
          exact SameNames.refl s
        · rw [heq]
          exact sameNames_of_lookup (ViewTree.truncate_type s.tree vnode)
            (ViewTree.truncate_lookup s.mem.load s.tree vnode)
      · cases h
  -- these make a child
  | create dir name alloc => exact absurd trivial hmakes
  | mkdir dir name alloc => exact absurd trivial hmakes
  | mknod dir name type alloc => exact absurd trivial hmakes
  | insertChild dir name type pushed => exact absurd trivial hmakes

end NameState

/-- Names are owned in every run whose changes of the memory leave the names of
children as they are. -/
theorem namesOwned_of_spares {vm : VmObject V} {s : NameState V} {ops : List NameOp}
    (h : StepsMeet (nameStep vm) NameState.Spares s ops) : NamesOwned vm s ops := by
  apply StepsMeet.mono ?_ h
  intro s op hspares s' hs' hmakes
  exact NameState.step_sameNames hspares hmakes hs'

/-! ## The condition is exact -/

theorem ViewTree.findChild_eq {m : Load} {t : ViewTree V} {name : StringView} {cs : List Nat}
    {c : Nat} (h : findChild m t name cs = some (some c)) :
    (t.node c).name.eq m name = some true := by
  -- over the children: the search stops at the first equal name
  induction cs with
  | nil => cases h
  | cons d cs ih =>
      unfold findChild at h
      cases heq : (t.node d).name.eq m name with
      | none =>
          rw [heq] at h
          cases h
      | some same =>
          rw [heq] at h
          cases same with
          | false => exact ih h
          | true =>
              cases h
              exact heq

/-- The name of the child that a lookup finds shows the name that was asked for. -/
theorem ViewTree.lookup_read {m : Load} {t : ViewTree V} {dir c : Nat} {name : StringView}
    (h : t.lookup m dir name = some (.ok c)) : (t.node c).name.read m = some name := by
  unfold lookup at h
  split at h
  · cases h
  · rcases Option.map_eq_some_iff.mp h with ⟨found, hfound, hres⟩
    cases found with
    | none => cases hres
    | some d =>
        cases hres
        exact View.read_of_eq (findChild_eq hfound)

namespace NameState

/-- Each child is what some name resolves to. -/
def Found (s : NameState V) : Prop :=
  ∀ dir c, s.tree.isDirectory dir = true → c ∈ (s.tree.node dir).children →
    ∃ name, s.lookup dir name = some (.ok c)

/-- Where each child can be found, a change of the memory keeps all lookups only
if it leaves the names alone. -/
theorem spares_iff_sameNames {s : NameState V} (hfound : s.Found) (op : Spaces.Op UInt8) :
    s.Spares (.memory op) ↔ s.SameNames { s with mem := s.mem.step op } := by
  constructor
  · exact sameNames_of_spares
  · intro hsame
    rintro a ⟨dir, c, hdir, hc, ha⟩
    rcases hfound dir c hdir hc with ⟨name, hname⟩
    have hname' := (hsame.1 dir name).trans hname
    exact View.read_inj (ViewTree.lookup_read hname) (ViewTree.lookup_read hname') ha

end NameState

/-! ## Names in the memory of the kernel -/

/-- No name lies where programs can store. -/
def NameState.KernelNames (s : NameState V) : Prop :=
  ∀ i a, (s.tree.node i).name.Covers a → s.mem.top ≤ a

/-- Calls without `O_CREAT`, and names that lie at `top` or above. -/
def NameOp.FromKernel (top : Nat) : NameOp → Prop
  | .memory _ => True
  | .sysOpen _ _ flags _ => flags &&& O_CREAT = 0
  | .create _ name _ => top ≤ name.addr
  | .mkdir _ name _ => top ≤ name.addr
  | .mknod _ name _ _ => top ≤ name.addr
  | .insertChild _ name _ _ => top ≤ name.addr

namespace ViewTree

variable {vm : VmObject V} {m : Load} {t : ViewTree V}

theorem withChild_name (type : VnodeType) (dir i : Nat) (name : View) :
    ((t.withChild vm type dir name).node i).name = (t.node i).name ∨
      ((t.withChild vm type dir name).node i).name = name := by
  unfold withChild
  dsimp only
  split
  · rename_i heq
    rw [heq]
    exact .inl rfl
  · split
    · exact .inr rfl
    · exact .inl rfl

theorem addChild_name (type : VnodeType) (dir i : Nat) (name : View) (alloc : VnodeAlloc) :
    ((t.addChild vm type dir name alloc).2.node i).name = (t.node i).name ∨
      ((t.addChild vm type dir name alloc).2.node i).name = name := by
  unfold addChild
  split
  · exact .inl rfl
  · split
    · exact .inl rfl
    · exact withChild_name type dir i name

theorem makeChild_name {type : VnodeType} {there : Nat → Except Int Nat} {dir : Nat} {name : View}
    {alloc : VnodeAlloc} {r : Except Int Nat × ViewTree V}
    (h : t.makeChild vm m type there dir name alloc = some r) (i : Nat) :
    (r.2.node i).name = (t.node i).name ∨ (r.2.node i).name = name := by
  unfold makeChild at h
  split at h
  · cases h
    exact .inl rfl
  · rcases Option.bind_eq_some_iff.mp h with ⟨bytes, _, hmap⟩
    rcases Option.map_eq_some_iff.mp hmap with ⟨found, _, hres⟩
    cases found with
    | some c =>
        cases hres
        exact .inl rfl
    | none =>
        cases hres
        exact addChild_name type dir i name alloc

theorem mknod_name (dir i : Nat) (name : View) (type : VnodeType) (alloc : VnodeAlloc) :
    ((t.mknod vm dir name type alloc).2.node i).name = (t.node i).name ∨
      ((t.mknod vm dir name type alloc).2.node i).name = name := by
  unfold mknod
  split
  · exact .inl rfl
  · exact addChild_name type dir i name alloc

theorem insertChild_name {dir : Nat} {name : View} {type : VnodeType} {pushed : Bool}
    {t' : ViewTree V} (h : t.insertChild vm dir name type pushed = some t') (i : Nat) :
    (t'.node i).name = (t.node i).name ∨ (t'.node i).name = name := by
  unfold insertChild at h
  split at h
  · cases h
  · cases h
    split
    · exact withChild_name type dir i name
    · exact .inl rfl

end ViewTree

namespace NameState

/-- Names that are old or lie at `top` or above. -/
theorem KernelNames.of_name {s : NameState V} (h : s.KernelNames) {t : ViewTree V} {name : View}
    (hname : s.mem.top ≤ name.addr)
    (hold : ∀ i, (t.node i).name = (s.tree.node i).name ∨ (t.node i).name = name) :
    KernelNames { s with tree := t } := by
  intro i a ha
  change (t.node i).name.Covers a at ha
  rcases hold i with heq | heq
  · rw [heq] at ha
    exact h i a ha
  · rw [heq] at ha
    exact hname.trans ha.1

theorem KernelNames.step {vm : VmObject V} {s s' : NameState V} {op : NameOp}
    (hnames : s.KernelNames) (hop : op.FromKernel s.mem.top) (h : nameStep vm s op = some s') :
    s'.KernelNames ∧ s'.mem.top = s.mem.top := by
  cases op with
  | memory op =>
      cases h
      refine ⟨?_, Spaces.step_top _ _⟩
      intro i a ha
      rw [Spaces.step_top]
      exact hnames i a ha
  | sysOpen process userPath flags alloc =>
      -- without `O_CREAT` it truncates a vnode at most
      have hmakes : ¬ s.MakesChild (.sysOpen process userPath flags alloc) :=
        fun hmakes => hmakes.1 hop
      unfold nameStep at h
      dsimp only at h
      split at h
      · rcases Option.map_eq_some_iff.mp h with ⟨r, hr, rfl⟩
        refine ⟨?_, rfl⟩
        intro i a ha
        apply hnames i a
        rcases targetVnode_tree hmakes hr with heq | ⟨vnode, heq⟩
        · rw [← heq]
          exact ha
        · rw [← ViewTree.truncate_name s.tree vnode, ← heq]
          exact ha
      · cases h
  | create dir name alloc =>
      rcases Option.map_eq_some_iff.mp h with ⟨r, hr, rfl⟩
      exact ⟨hnames.of_name hop (ViewTree.makeChild_name hr), rfl⟩
  | mkdir dir name alloc =>
      rcases Option.map_eq_some_iff.mp h with ⟨r, hr, rfl⟩
      exact ⟨hnames.of_name hop (ViewTree.makeChild_name hr), rfl⟩
  | mknod dir name type alloc =>
      cases h
      exact ⟨hnames.of_name hop fun i => ViewTree.mknod_name dir i name type alloc, rfl⟩
  | insertChild dir name type pushed =>
      rcases Option.map_eq_some_iff.mp h with ⟨t, ht, rfl⟩
      exact ⟨hnames.of_name hop (ViewTree.insertChild_name ht), rfl⟩

/-- A program cannot change them. -/
theorem KernelNames.spares {s : NameState V} (h : s.KernelNames) (op : NameOp) : s.Spares op := by
  cases op with
  | memory op =>
      rintro a ⟨dir, c, _, _, ha⟩
      exact Spaces.load_step (h c a ha) op
  | sysOpen process userPath flags alloc => trivial
  | create dir name alloc => trivial
  | mkdir dir name alloc => trivial
  | mknod dir name type alloc => trivial
  | insertChild dir name type pushed => trivial

end NameState

/-- Names are owned in every run without `O_CREAT`. -/
theorem namesOwned_of_kernelNames {vm : VmObject V} {s : NameState V} {ops : List NameOp}
    (hnames : s.KernelNames) (hops : ∀ op ∈ ops, op.FromKernel s.mem.top) :
    NamesOwned vm s ops := by
  apply namesOwned_of_spares
  apply stepsMeet_of_inv (I := fun t => t.KernelNames ∧ t.mem.top = s.mem.top) ?_ ?_
    ⟨hnames, rfl⟩ hops
  · rintro s₁ op s₂ ⟨hnames₁, htop₁⟩ hop hstep
    rw [← htop₁] at hop ⊢
    exact hnames₁.step hop hstep
  · rintro s₁ op ⟨hnames₁, _⟩ _
    exact hnames₁.spares op

/-! ## The model of the bytes -/

namespace ViewTree

/-- Every name can be read, and the vnodes are those with the names it shows. -/
structure Shows (m : Load) (t : ViewTree V) (b : Vnodes V) : Prop where
  next : t.next = b.next
  node : ∀ i, (t.node i).toRamFsNode = (b.node i).toRamFsNode
  children : ∀ i, (t.node i).children = (b.node i).children
  name : ∀ i, (t.node i).name.read m = some (b.node i).name

variable {vm : VmObject V} {m : Load} {t : ViewTree V} {b : Vnodes V}

theorem Shows.isDirectory (h : Shows m t b) (i : Nat) : t.isDirectory i = b.isDirectory i := by
  unfold ViewTree.isDirectory Vnodes.isDirectory
  rw [h.node]

theorem Shows.findChild (h : Shows m t b) (name : StringView) (cs : List Nat) :
    ViewTree.findChild m t name cs = some (cs.find? fun c => (b.node c).name = name) := by
  induction cs with
  | nil => rfl
  | cons c cs ih =>
      unfold ViewTree.findChild
      rw [View.eq_of_read (h.name c), List.find?_cons]
      cases decide ((b.node c).name = name) with
      | true => rfl
      | false => exact ih

theorem Shows.lookup (h : Shows m t b) (dir : Nat) (name : StringView) :
    t.lookup m dir name = some (b.lookup dir name) := by
  unfold ViewTree.lookup Vnodes.lookup Vnodes.child
  rw [h.isDirectory, h.children, h.findChild]
  split
  · rfl
  · cases (b.node dir).children.find? fun c => (b.node c).name = name with
    | none => rfl
    | some c => rfl

theorem Shows.pathLoop (h : Shows m t b) (path : StringView) (n offset current : Nat) :
    t.pathLoop m path n offset current = some (b.pathLoop path n offset current) := by
  induction n generalizing offset current with
  | zero => rfl
  | succ n ih =>
      unfold ViewTree.pathLoop Vnodes.pathLoop
      simp only [ih, h.isDirectory, h.lookup]
      split
      · split
        · rfl
        · split
          · rfl
          · cases b.lookup current (Vnodes.nextComponent path offset).1 with
            | error e => rfl
            | ok c => rfl
      · rfl

theorem Shows.pathToVnode (h : Shows m t b) (root : Nat) (path : StringView) :
    t.pathToVnode m root path = some (b.pathToVnode root path) := by
  unfold ViewTree.pathToVnode Vnodes.pathToVnode
  rw [h.pathLoop]
  split <;> rfl

theorem Shows.truncate (h : Shows m t b) (vnode : Nat) :
    Shows m (t.truncate vnode) (b.truncate vnode) where
  next := h.next
  node := by
    intro i
    unfold ViewTree.truncate Vnodes.truncate
    -- the node that is truncated, and the others
    by_cases heq : i = vnode
    · rw [heq, Vnodes.setNode_self]
      dsimp only
      rw [if_pos rfl, h.node]
    · rw [Vnodes.setNode_other b vnode _ heq]
      dsimp only
      rw [if_neg heq, h.node]
  children := by
    intro i
    rw [truncate_children, h.children]
    exact (Vnodes.setNode_names b vnode _ i).2.symm
  name := by
    intro i
    rw [truncate_name, h.name]
    exact congrArg some (Vnodes.setNode_names b vnode _ i).1.symm

/-- The vnodes of `Vnodes.withChild`, by number. -/
theorem withChild_bytes (b : Vnodes V) (type : VnodeType) (dir i : Nat) (bytes : StringView) :
    (b.withChild vm type dir bytes).node i =
      if i = dir then { b.node dir with children := (b.node dir).children ++ [b.next] }
      else if i = b.next then { newNode vm type with name := bytes } else b.node i := by
  unfold Vnodes.withChild Vnodes.set
  dsimp only
  rw [Function.update_apply, Function.update_apply]

theorem Shows.withChild (h : Shows m t b) (type : VnodeType) (dir : Nat) {name : View}
    {bytes : StringView} (hname : name.read m = some bytes) :
    Shows m (t.withChild vm type dir name) (b.withChild vm type dir bytes) where
  next := congrArg Nat.succ h.next
  node := by
    intro i
    rw [withChild_bytes, ← h.next]
    unfold ViewTree.withChild
    dsimp only
    -- the directory, the new node, and the others
    split
    · exact h.node dir
    · split
      · rfl
      · exact h.node i
  children := by
    intro i
    rw [withChild_bytes, ← h.next]
    unfold ViewTree.withChild
    dsimp only
    split
    · rw [h.children]
    · split
      · rfl
      · exact h.children i
  name := by
    intro i
    rw [withChild_bytes, ← h.next]
    unfold ViewTree.withChild
    dsimp only
    split
    · exact h.name dir
    · split
      · exact hname
      · exact h.name i

theorem Shows.addChild (h : Shows m t b) (type : VnodeType) (dir : Nat) {name : View}
    {bytes : StringView} (hname : name.read m = some bytes) (alloc : VnodeAlloc) :
    (t.addChild vm type dir name alloc).1 = (b.addChild vm type dir bytes alloc).1 ∧
      Shows m (t.addChild vm type dir name alloc).2 (b.addChild vm type dir bytes alloc).2 := by
  unfold ViewTree.addChild Vnodes.addChild
  split
  · exact ⟨rfl, h⟩
  · split
    · exact ⟨rfl, h⟩
    · exact ⟨by rw [h.next], h.withChild type dir hname⟩

theorem Shows.create (h : Shows m t b) (dir : Nat) {name : View} {bytes : StringView}
    (hname : name.read m = some bytes) (alloc : VnodeAlloc) :
    ∃ t', t.create vm m dir name alloc = some ((b.create vm dir bytes alloc).1, t') ∧
      Shows m t' (b.create vm dir bytes alloc).2 := by
  unfold ViewTree.create makeChild Vnodes.create Vnodes.child
  rw [h.isDirectory, hname, h.children, Option.bind_some, h.findChild]
  split
  · exact ⟨t, rfl, h⟩
  · cases (b.node dir).children.find? fun c => (b.node c).name = bytes with
    | some c => exact ⟨t, rfl, h⟩
    | none =>
        have hadd : (t.addChild vm .regular dir name alloc).1 = _ ∧ _ :=
          h.addChild .regular dir hname alloc
        refine ⟨(t.addChild vm .regular dir name alloc).2, ?_, hadd.2⟩
        rw [Option.map_some, ← hadd.1]

/-- `sys_open` is that of the model of the bytes, as long as all names can be
read. -/
theorem Shows.targetVnode (h : Shows m t b) (process : ProcessDirs) {userPath : View}
    {path : StringView} (hpath : userPath.read m = some path) (flags : BitVec 32)
    (alloc : VnodeAlloc) :
    ∃ t', t.targetVnode vm m process userPath flags alloc =
        some ((b.targetVnode vm process path flags alloc).1, t') ∧
      Shows m t' (b.targetVnode vm process path flags alloc).2 := by
  unfold ViewTree.targetVnode Vnodes.targetVnode
  rw [hpath, Option.bind_some, h.pathToVnode, Option.bind_some]
  cases b.pathToVnode process.root path with
  | ok vnode =>
      refine ⟨_, rfl, ?_⟩
      dsimp only
      split
      · exact h.truncate vnode
      · exact h
  | error e =>
      dsimp only
      split
      · unfold ViewTree.parentAndName Vnodes.parentAndName
        rcases rFind path slash with _ | _ | k
        · -- the parent is the cwd, the name is the whole path
          cases process.cwd with
          | none => exact ⟨t, rfl, h⟩
          | some cwd => exact h.create cwd hpath alloc
        · cases process.cwd with
          | none => exact ⟨t, rfl, h⟩
          | some cwd => exact h.create cwd hpath alloc
        · dsimp only
          rw [h.pathToVnode, Option.map_some]
          cases b.pathToVnode process.root (subView path 0 (k + 1)) with
          | error e => exact ⟨t, rfl, h⟩
          | ok parent => exact h.create parent (View.read_drop hpath (k + 1 + 1)) alloc
      · exact ⟨t, rfl, h⟩

end ViewTree

/-! ## A path that is stored over -/

/-- The string "a" of a program, at 16, and a byte at 24; the tree is an empty root. -/
def pathState : NameState (List VmPage) where
  mem := {
    top := 4096
    kernel := fun _ => none
    frame := fun f => if f = 0 then 97 else 0
    table := fun _ a =>
      if a = 16 then some 0 else if a = 17 then some 1 else if a = 24 then some 2 else none
    current := 0 }
  tree := {
    node := fun i => { type := if i = 0 then .directory else .regular, vmo := none }
    next := 1 }

/-- The file "a" is created; then the program stores "b" at an address. -/
def createAndStore (a : Nat) : List NameOp :=
  [.sysOpen ⟨0, some 0⟩ ⟨16, 1⟩ O_CREAT ⟨true, true⟩, .memory (.store a 98)]

/-- The new file has its name at 16. -/
theorem pathState_created :
    nameStep (pageList .base) pathState (.sysOpen ⟨0, some 0⟩ ⟨16, 1⟩ O_CREAT ⟨true, true⟩) =
      some { pathState with
        tree := pathState.tree.withChild (pageList .base) .regular 0 ⟨16, 1⟩ } := rfl

/-- Away from the path, the store leaves the names alone. -/
theorem store_elsewhere_owned : NamesOwned (pageList .base) pathState (createAndStore 24) := by
  apply namesOwned_of_spares
  intro s hs
  refine ⟨trivial, ?_⟩
  intro s' hs'
  refine ⟨?_, trivial⟩
  rw [pathState_created] at hs
  cases hs
  rintro a ⟨dir, c, _, _, ha⟩
  have hpath : a = 16 := by
    rcases ViewTree.withChild_name .regular 0 c ⟨16, 1⟩ with hname | hname
    · rw [hname] at ha
      exact absurd ha.2 (Nat.not_lt_zero a)
    · rw [hname] at ha
      exact Nat.le_antisymm (Nat.le_of_lt_succ ha.2) ha.1
  rw [hpath]
  rfl

/-- Before the store, "a" is the new file; after a store to the path, "b" is, and
"a" is not there. -/
theorem path_buffer_reused :
    ∃ s s', run (nameStep (pageList .base)) pathState ((createAndStore 16).take 1) = some s ∧
      run (nameStep (pageList .base)) pathState (createAndStore 16) = some s' ∧
      s.pathToVnode 0 [97] = some (.ok 1) ∧ s'.pathToVnode 0 [97] = some (.error (-ENOENT)) ∧
      s'.pathToVnode 0 [98] = some (.ok 1) ∧
      ¬ NamesOwned (pageList .base) pathState (createAndStore 16) := by
  refine ⟨_, _, rfl, rfl, rfl, rfl, rfl, ?_⟩
  intro howned
  -- the store makes no child and changes the lookup of "a"
  have hstore := ((howned _ rfl).2 _ rfl).1 _ rfl id
  have hsame := hstore.2 0 [97]
  cases hsame

end Ceryx.Fs.Vfs
