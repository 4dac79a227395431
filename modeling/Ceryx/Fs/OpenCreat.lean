import Ceryx.Fs.FileDescription
import Ceryx.Fs.RamFsRefine
import Ceryx.Fs.Vfs

/-!
# Ceryx.Fs.OpenCreat — opening a path that is not there

`sys_open` of `SyscallDispatch.cpp`: `PathToVnode` splits the path at every
slash; with `O_CREAT` the path that is not there is split at its last slash.

* `FoundAgain`: after any `sys_open` with `O_CREAT` that succeeds, the path is
  that of the vnode that was opened.
* `foundAgain_iff_splitsAgree`: this holds unless the last slash is the first
  byte of the path. Then the whole path, with the slash, is the new name.
* `slash_f_not_found`: the path "/f" in an empty root.
-/

namespace Ceryx.Fs.Vfs

open Lib RamFs

def O_CREAT : BitVec 32 := 0x40
def O_TRUNC : BitVec 32 := 0x200
def O_APPEND : BitVec 32 := 0x400
def ENOSYS : Int := 38

/-- `Process::m_root` and `m_cwd`. -/
structure ProcessDirs where
  root : Nat
  cwd : Option Nat
deriving DecidableEq, Repr

/-- The new `FileDescription` and its descriptor. -/
structure Opened where
  fd : Nat
  vnode : Nat
  flags : BitVec 32
  offset : Nat
deriving DecidableEq, Repr

namespace Vnodes

variable {V : Type} (vm : VmObject V)

/-- `vnode.size = 0`, for `O_TRUNC`. -/
def truncate (t : Vnodes V) (vnode : Nat) : Vnodes V :=
  t.setNode vnode { (t.node vnode).toRamFsNode with size := 0 }

/-- The directory and the name that `sys_open` creates. -/
def parentAndName (t : Vnodes V) (process : ProcessDirs) (path : StringView) :
    Except Int (Option Nat × StringView) :=
  match rFind path slash with
  | none | some 0 => .ok (process.cwd, path)
  | some (k + 1) =>
      match t.pathToVnode process.root (subView path 0 (k + 1)) with
      | .error e => .error e
      | .ok parent => .ok (some parent, path.drop (k + 1 + 1))

/-- `target_vnode` of `sys_open`. -/
def targetVnode (t : Vnodes V) (process : ProcessDirs) (path : StringView) (flags : BitVec 32)
    (alloc : VnodeAlloc) : Except Int Nat × Vnodes V :=
  match t.pathToVnode process.root path with
  | .ok vnode => (.ok vnode, if flags &&& O_TRUNC ≠ 0 then t.truncate vnode else t)
  | .error e =>
      if flags &&& O_CREAT ≠ 0 then
        match t.parentAndName process path with
        | .error e => (.error e, t)
        | .ok (none, _) => (.error (-ENOENT), t)
        | .ok (some parent, filename) => create vm t parent filename alloc
      else (.error e, t)

/-- `sys_open`: the descriptor goes to the table of the process. -/
def sysOpen (t : Vnodes V) (process : Option ProcessDirs) (path : StringView) (flags : BitVec 32)
    (alloc : VnodeAlloc) (table : FdTable) (desc : DescId) (more : Nat → Bool) :
    Except Int Opened × Vnodes V :=
  match process with
  | none => (.error (-ENOSYS), t)
  | some process =>
      match targetVnode vm t process path flags alloc with
      | (.error e, t) => (.error e, t)
      | (.ok vnode, t) =>
          let offset := if flags &&& O_APPEND ≠ 0 then (t.node vnode).size else 0
          match allocateFd table desc more with
          | .error e => (.error e, t)
          | .ok (fd, _) => (.ok { fd, vnode, flags, offset }, t)

/-- What `sys_open` of the path with `O_CREAT` opens is found there, in a
process whose cwd is its root. -/
def FoundAgain (t : Vnodes V) (root : Nat) (path : StringView) : Prop :=
  ∀ (flags : BitVec 32) (alloc : VnodeAlloc) (table : FdTable) (desc : DescId) (more : Nat → Bool)
    (opened : Opened) (t' : Vnodes V), flags &&& O_CREAT ≠ 0 →
      sysOpen vm t (some ⟨root, some root⟩) path flags alloc table desc more = (.ok opened, t') →
        t'.pathToVnode root path = .ok opened.vnode

/-- The two splits of the path agree, or nothing is created: the last slash is
not the first byte, or the path is there, or the root is not a directory, or it
has a child with the whole path for its name. -/
def SplitsAgree (t : Vnodes V) (root : Nat) (path : StringView) : Prop :=
  rFind path slash ≠ some 0 ∨ (∃ vnode, t.pathToVnode root path = .ok vnode) ∨
    t.isDirectory root = false ∨ ∃ c, t.child root path = some c

/-! ## Where the vnode is created -/

theorem truncate_walk (t : Vnodes V) (vnode i : Nat) (names : List StringView) :
    (t.truncate vnode).walk i names = t.walk i names :=
  walk_congr (fun j => setNode_type t vnode _ (by rfl) j)
    (fun j => (setNode_names t vnode _ j).1) (fun j => (setNode_names t vnode _ j).2) i names

/-- `sys_open` succeeds with the vnode that it resolved or created. -/
theorem sysOpen_cases {t t' : Vnodes V} {process : ProcessDirs} {path : StringView}
    {flags : BitVec 32} {alloc : VnodeAlloc} {table : FdTable} {desc : DescId} {more : Nat → Bool}
    {opened : Opened}
    (h : sysOpen vm t (some process) path flags alloc table desc more = (.ok opened, t')) :
    targetVnode vm t process path flags alloc = (.ok opened.vnode, t') := by
  unfold sysOpen at h
  rcases htarget : targetVnode vm t process path flags alloc with ⟨e | vnode, s⟩
  · -- the vnode is settled before `AllocateFd` runs
    simp only [htarget] at h
    cases h
  · simp only [htarget] at h
    cases hfd : allocateFd table desc more with
    | error e =>
        rw [hfd] at h
        cases h
    | ok slot =>
        rw [hfd] at h
        cases h
        rfl

/-- Where the last slash is not the first byte, the parent and the name are
those of the path, or the name is not looked up. -/
theorem parentAndName_components {t : Vnodes V} {root parent : Nat} {path filename : StringView}
    (hslash : rFind path slash ≠ some 0)
    (h : t.parentAndName ⟨root, some root⟩ path = .ok (some parent, filename)) :
    ∃ front, t.walk root front = .ok parent ∧ slash ∉ filename ∧
      components path = front ++ components filename := by
  unfold parentAndName at h
  rcases hr : rFind path slash with _ | _ | k
  · -- no slash: the cwd, which is the root
    simp only [hr] at h
    cases h
    exact ⟨[], rfl, rFind_none hr, rfl⟩
  · exact absurd hr hslash
  · simp only [hr] at h
    rcases rFind_some hr with ⟨-, hout, hsplit⟩
    cases hp : t.pathToVnode root (subView path 0 (k + 1)) with
    | error e =>
        rw [hp] at h
        cases h
    | ok p =>
        rw [hp] at h
        cases h
        rw [pathToVnode_eq] at hp
        refine ⟨components (subView path 0 (k + 1)), hp, hout, ?_⟩
        have happend := components_append (path.take (k + 1)) (path.drop (k + 1 + 1))
        rw [← hsplit] at happend
        exact happend

end Vnodes

/-! ## What is created is found -/

namespace RamFsTree

open Vnodes

variable {V : Type} (vm : VmObject V) (t : RamFsTree V)

/-- The path of a vnode that was created finds it. -/
theorem created_found {root parent : Nat} {path filename : StringView} {alloc : VnodeAlloc}
    {vnode : Nat} {t' : Vnodes V} (hslash : rFind path slash ≠ some 0)
    (habsent : ∀ v, t.pathToVnode root path ≠ .ok v)
    (hparent : t.parentAndName ⟨root, some root⟩ path = .ok (some parent, filename))
    (hcreate : create vm t.toVnodes parent filename alloc = (.ok vnode, t')) :
    t'.pathToVnode root path = .ok vnode := by
  rcases parentAndName_components hslash hparent with ⟨front, hfront, hout, hcomponents⟩
  rcases create_cases vm t hcreate with ⟨hdir, hfree, hvnode, ht'⟩
  subst hvnode ht'
  rw [pathToVnode_eq, hcomponents, components_single hout]
  by_cases hskip : filename = [] ∨ filename = dot
  · -- then the path is that of its parent, which was there
    exfalso
    apply habsent parent
    rw [pathToVnode_eq, hcomponents, components_single hout, if_pos hskip, List.append_nil]
    exact hfront
  · have hkept := @walk_withChild V vm t .regular parent hdir filename front root parent hfront
    rw [if_neg hskip, walk_append, hkept]
    change (walk _ parent [filename] : Except Int Nat) = _
    rw [walk_cons, lookup_new vm t hdir hfree]
    rfl

theorem foundAgain_of_splitsAgree {root : Nat} {path : StringView}
    (h : SplitsAgree t.toVnodes root path) : FoundAgain vm t.toVnodes root path := by
  intro flags alloc table desc more opened t' hcreat hopen
  have htarget := sysOpen_cases vm hopen
  unfold targetVnode at htarget
  dsimp only at htarget
  cases hpath : t.pathToVnode root path with
  | ok v =>
      rw [hpath] at htarget
      dsimp only at htarget
      cases htarget
      rw [pathToVnode_eq] at hpath ⊢
      split
      · rw [truncate_walk]
        exact hpath
      · exact hpath
  | error e =>
      have habsent : ∀ v, t.pathToVnode root path ≠ .ok v := by
        intro v hv
        rw [hpath] at hv
        cases hv
      rw [hpath] at htarget
      dsimp only at htarget
      rw [if_pos hcreat] at htarget
      cases hparent : t.parentAndName ⟨root, some root⟩ path with
      | error e =>
          rw [hparent] at htarget
          cases htarget
      | ok target =>
          rcases target with ⟨_ | parent, filename⟩
          · rw [hparent] at htarget
            cases htarget
          · rw [hparent] at htarget
            dsimp only at htarget
            by_cases hslash : rFind path slash = some 0
            · -- the whole path is created in the root
              have hwhole : t.parentAndName ⟨root, some root⟩ path = .ok (some root, path) := by
                unfold parentAndName
                rw [hslash]
              rw [hwhole] at hparent
              cases hparent
              rcases create_cases vm t htarget with ⟨hdir, hfree, -, -⟩
              rcases h with hne | ⟨v, hv⟩ | hroot | ⟨c, hc⟩
              · exact absurd hslash hne
              · exact absurd hv (habsent v)
              · rw [hroot] at hdir
                cases hdir
              · rw [hfree] at hc
                cases hc
            · exact created_found vm t hslash habsent hparent htarget

/-! ## What is not found -/

/-- A new child of the root with the slash in its name leaves the path as it
was: not there. -/
theorem slashName_not_found {root : Nat} {rest : StringView} (hout : slash ∉ rest)
    (hdir : t.isDirectory root = true)
    (habsent : ∀ v, t.pathToVnode root (slash :: rest) ≠ .ok v) (v : Nat) :
    (withChild vm t.toVnodes .regular root (slash :: rest)).pathToVnode root (slash :: rest) ≠
      .ok v := by
  have hnext : root ≠ t.next := Nat.ne_of_lt (t.dir_lt root hdir)
  rw [pathToVnode_eq, components_slash, components_single hout]
  by_cases hskip : rest = [] ∨ rest = dot
  · -- such a path is the root itself
    exfalso
    apply habsent root
    rw [pathToVnode_eq, components_slash, components_single hout, if_pos hskip]
    rfl
  · rw [if_neg hskip, walk_cons]
    have hfree : t.child root rest = none := by
      rcases Option.eq_none_or_eq_some (t.child root rest) with hnone | ⟨c, hc⟩
      · exact hnone
      · exfalso
        apply habsent c
        rw [pathToVnode_eq, components_slash, components_single hout, if_neg hskip, walk_cons,
          lookup_ok_iff.mpr ⟨hdir, hc⟩]
        rfl
    have hne : ¬ slash :: rest = rest := List.cons_ne_self slash rest
    have hnone : (withChild vm t.toVnodes .regular root (slash :: rest)).child root rest = none := by
      rw [child_withChild vm t .regular hdir, hfree, if_neg hne]
      rfl
    intro h
    cases hl : (withChild vm t.toVnodes .regular root (slash :: rest)).lookup root rest with
    | error e =>
        rw [hl] at h
        cases h
    | ok c =>
        rw [lookup_ok_iff, hnone] at hl
        cases hl.2

theorem splitsAgree_of_foundAgain {root : Nat} {path : StringView}
    (h : FoundAgain vm t.toVnodes root path) : SplitsAgree t.toVnodes root path := by
  by_contra hsplits
  unfold SplitsAgree at hsplits
  rw [not_or, not_or, not_or, not_ne_iff, Bool.not_eq_false, not_exists, not_exists] at hsplits
  rcases hsplits with ⟨hslash, habsent, hdir, hnone⟩
  have hfree : t.child root path = none := by
    rcases Option.eq_none_or_eq_some (t.child root path) with hc | ⟨c, hc⟩
    · exact hc
    · exact absurd hc (hnone c)
  rcases rFind_some hslash with ⟨-, hout, hpath⟩
  -- the path is a slash and a name
  have hcons : path = slash :: path.drop 1 := hpath
  have hopen : sysOpen vm t.toVnodes (some ⟨root, some root⟩) path O_CREAT ⟨true, true⟩ [] 0
      (fun _ => true) =
      (.ok { fd := 0, vnode := t.next, flags := O_CREAT, offset := 0 },
        withChild vm t.toVnodes .regular root path) := by
    have htarget : targetVnode vm t.toVnodes ⟨root, some root⟩ path O_CREAT ⟨true, true⟩ =
        (.ok t.next, withChild vm t.toVnodes .regular root path) := by
      have hparent : t.parentAndName ⟨root, some root⟩ path = .ok (some root, path) := by
        unfold parentAndName
        rw [hslash]
      unfold targetVnode
      cases hp : t.pathToVnode root path with
      | ok v => exact absurd hp (habsent v)
      | error e =>
          dsimp only
          rw [if_pos (by decide), hparent]
          exact create_free vm t hdir hfree
    unfold sysOpen
    dsimp only
    rw [htarget]
    rfl
  have hfound := h O_CREAT ⟨true, true⟩ [] 0 (fun _ => true) _ _ (by decide) hopen
  rw [hcons] at hfound habsent
  exact slashName_not_found vm t hout hdir habsent t.next hfound

/-- What `sys_open` with `O_CREAT` opens is found by the same path, for exactly
the paths where the two splits agree. -/
theorem foundAgain_iff_splitsAgree (root : Nat) (path : StringView) :
    FoundAgain vm t.toVnodes root path ↔ SplitsAgree t.toVnodes root path :=
  ⟨splitsAgree_of_foundAgain vm t, foundAgain_of_splitsAgree vm t⟩

/-- "/f" is opened in an empty root and is not there afterwards. -/
theorem slash_f_not_found : ¬ FoundAgain (pageList .base) (emptyRoot (List VmPage)).toVnodes 0
    [slash, 102] := by
  intro h
  have hfound := h O_CREAT ⟨true, true⟩ [] 0 (fun _ => true)
    { fd := 0, vnode := 1, flags := O_CREAT, offset := 0 } _ (by decide) rfl
  cases hfound

end RamFsTree

end Ceryx.Fs.Vfs
