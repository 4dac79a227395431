import Ceryx.Fs.FdCalls

/-!
# Ceryx.Fs.FailedOpen — what an open that fails leaves behind

`sys_open` of `SyscallDispatch.cpp` first resolves the path, and truncates or creates
the file; then it asks for a descriptor. Nothing is taken back when there is none.

* `FailedOpenKeeps`: a call that returns an error leaves the tree, the files and the
  descriptor tables alone.
* `failedOpenKeeps_iff`: this holds if and only if there is a descriptor to be had,
  or resolving the path changes nothing.
* `full_table_truncates`: `O_TRUNC` with all 1024 descriptors in use.
-/

namespace Ceryx.Fs

open Lib Proc Vfs

/-- The tree, the files and the descriptor tables are as they were. -/
structure Unchanged {V : Type} (s s' : FdState V) : Prop where
  tree : s'.tree = s.tree
  mem : s'.mem = s.mem
  tables : s'.tables = s.tables

section
variable {V : Type} (vm : RamFs.VmObject V) (s : FdState V)

/-- If `sys_open` returns an error, nothing has changed. -/
def FailedOpenKeeps (p : ProcId) (process : ProcessDirs) (path : StringView) (flags : BitVec 32)
    (alloc : VnodeAlloc) (grow : Nat → Bool) : Prop :=
  (s.sysOpen vm p process path flags alloc grow).1 < 0 →
    Unchanged s (s.sysOpen vm p process path flags alloc grow).2

/-- The first number that is free is below the limit, and the table has it or can
grow to it. -/
def HasRoom (table : FdTable) (grow : Nat → Bool) : Prop :=
  ∃ fd, fd < kMaxFds ∧ (∀ j, j < fd → getFd table j ≠ none) ∧ getFd table fd = none ∧
    (fd < table.length ∨ grow fd = true)

/-- A path that is not there is going to be created. -/
def Creates (process : ProcessDirs) (path : StringView) (flags : BitVec 32) (alloc : VnodeAlloc) :
    Prop :=
  flags &&& O_CREAT ≠ 0 ∧ ∃ parent filename,
    s.tree.parentAndName process path = .ok (some parent, filename) ∧ s.device parent = none ∧
    s.tree.isDirectory parent = true ∧ s.tree.child parent filename = none ∧
    alloc.node = true ∧ alloc.child = true

/-- The target is there and keeps its size, or it is not there and is not created. -/
def Harmless (process : ProcessDirs) (path : StringView) (flags : BitVec 32) (alloc : VnodeAlloc) :
    Prop :=
  (∃ vnode, s.tree.pathToVnode process.root path = .ok vnode ∧
      (flags &&& O_TRUNC = 0 ∨ (s.tree.node vnode).size = 0)) ∨
    (∃ e, s.tree.pathToVnode process.root path = .error e) ∧ ¬ Creates s process path flags alloc

end

/-! ## The descriptor -/

/-- The search of `AllocateFd` ends with a descriptor if the first slot that is free
is there or can be made. -/
theorem allocateFdFrom_ok_iff (table : FdTable) (d : DescId) (grow : Nat → Bool) (n fd : Nat) :
    (∃ r, allocateFdFrom table d grow n fd = .ok r) ↔
      ∃ i, fd ≤ i ∧ i < fd + n ∧ (∀ j, fd ≤ j → j < i → getFd table j ≠ none) ∧
        getFd table i = none ∧ (i < table.length ∨ grow i = true) := by
  induction n generalizing fd with
  | zero =>
      constructor
      · rintro ⟨r, hr⟩
        cases hr
      · rintro ⟨i, hle, hlt, -⟩
        omega
  | succ n ih =>
      unfold allocateFdFrom
      by_cases hfree : getFd table fd = none
      · -- the search ends here
        have hfirst : (∃ i, fd ≤ i ∧ i < fd + (n + 1) ∧
            (∀ j, fd ≤ j → j < i → getFd table j ≠ none) ∧ getFd table i = none ∧
            (i < table.length ∨ grow i = true)) ↔ (fd < table.length ∨ grow fd = true) := by
          constructor
          · rintro ⟨i, hle, -, htaken, -, hroom⟩
            rcases Nat.lt_or_eq_of_le hle with hlt | rfl
            · exact absurd hfree (htaken fd (Nat.le_refl fd) hlt)
            · exact hroom
          · intro hroom
            exact ⟨fd, Nat.le_refl fd, by omega, fun j hle hlt => absurd hlt (Nat.not_lt.mpr hle),
              hfree, hroom⟩
        rw [hfirst]
        by_cases hend : table.length ≤ fd
        · rw [if_pos hend]
          cases hgrow : grow fd with
          | false =>
              constructor
              · rintro ⟨r, hr⟩
                cases hr
              · rintro (hlt | hfalse)
                · omega
                · cases hfalse
          | true => exact ⟨fun _ => .inr rfl, fun _ => ⟨_, rfl⟩⟩
        · rw [if_neg hend, hfree]
          exact ⟨fun _ => .inl (Nat.lt_of_not_le hend), fun _ => ⟨_, rfl⟩⟩
      · have hin : ¬ table.length ≤ fd := by
          intro hend
          exact hfree (getFd_beyond hend)
        have hsome : ¬ (getFd table fd).isNone := by
          rw [Option.isNone_iff_eq_none]
          exact hfree
        rw [if_neg hin, if_neg hsome, ih]
        constructor
        · rintro ⟨i, hle, hlt, htaken, hnone, hroom⟩
          refine ⟨i, by omega, by omega, ?_, hnone, hroom⟩
          intro j hj hji
          rcases Nat.lt_or_eq_of_le hj with hlater | rfl
          · exact htaken j hlater hji
          · exact hfree
        · rintro ⟨i, hle, hlt, htaken, hnone, hroom⟩
          have hne : fd ≠ i := by
            rintro rfl
            exact hfree hnone
          exact ⟨i, by omega, by omega, fun j hj hji => htaken j (by omega) hji, hnone, hroom⟩

/-- A descriptor is free, or the table can grow. -/
theorem allocateFd_ok_iff (table : FdTable) (d : DescId) (grow : Nat → Bool) :
    (∃ r, allocateFd table d grow = .ok r) ↔ HasRoom table grow := by
  unfold allocateFd HasRoom
  rw [allocateFdFrom_ok_iff]
  constructor
  · rintro ⟨i, -, hlt, htaken, hnone, hroom⟩
    exact ⟨i, by omega, fun j hj => htaken j (Nat.zero_le j) hj, hnone, hroom⟩
  · rintro ⟨i, hlt, htaken, hnone, hroom⟩
    exact ⟨i, Nat.zero_le i, by omega, fun j _ hj => htaken j hj, hnone, hroom⟩

/-- A failure is a negative error code. -/
theorem allocateFd_error {table : FdTable} {d : DescId} {grow : Nat → Bool} {e : Int}
    (h : allocateFd table d grow = .error e) : e < 0 := by
  have hspec := allocateFdFrom_spec table d grow kMaxFds (Nat.zero_le table.length)
    fun j hj => absurd hj (Nat.not_lt_zero j)
  have hres : allocateFdFrom table d grow kMaxFds 0 = .error e := h
  rw [hres] at hspec
  cases hspec with
  | full taken => decide
  | growth lt free taken fails => decide

/-! ## The target -/

namespace FdState

variable {V : Type} (vm : RamFs.VmObject V)

/-- The new description of `sys_open` has its number for its own. -/
theorem openVnode_keeps (s : FdState V) (vnode : Nat) (flags : BitVec 32) :
    (s.openVnode vnode flags).2.tree = s.tree ∧ (s.openVnode vnode flags).2.mem = s.mem ∧
      (s.openVnode vnode flags).2.tables = s.tables := by
  unfold openVnode FileSys.newDescription
  dsimp only
  split
  · exact ⟨rfl, rfl, rfl⟩
  · exact ⟨rfl, rfl, rfl⟩

/-- How `sys_open` goes on from its target. -/
theorem sysOpen_target {s s₁ : FdState V} (p : ProcId) {process : ProcessDirs} {path : StringView}
    {flags : BitVec 32} {alloc : VnodeAlloc} (grow : Nat → Bool) {vnode : Nat}
    (htarget : s.targetVnode vm process path flags alloc = (.ok vnode, s₁))
    (htables : s₁.tables = s.tables) :
    (HasRoom (s.tables p) grow ∧ ∃ fd : Nat, (s.sysOpen vm p process path flags alloc grow).1 = fd) ∨
    (¬ HasRoom (s.tables p) grow ∧ (s.sysOpen vm p process path flags alloc grow).1 < 0 ∧
      (s.sysOpen vm p process path flags alloc grow).2.tree = s₁.tree ∧
      (s.sysOpen vm p process path flags alloc grow).2.mem = s₁.mem ∧
      (s.sysOpen vm p process path flags alloc grow).2.tables = s₁.tables) := by
  obtain ⟨htree, hmem, hkeep⟩ := s₁.openVnode_keeps vnode flags
  unfold sysOpen
  rw [htarget]
  dsimp only
  generalize s₁.openVnode vnode flags = opened at htree hmem hkeep ⊢
  rcases opened with ⟨desc, s₂⟩
  dsimp only at htree hmem hkeep ⊢
  rw [← htables, ← hkeep]
  cases hfd : allocateFd (s₂.tables p) desc grow with
  -- a descriptor is found
  | ok r =>
      left
      exact ⟨(allocateFd_ok_iff _ desc _).mp ⟨r, hfd⟩, r.1, rfl⟩
  -- none is, and the description is given up again
  | error e =>
      right
      refine ⟨?_, allocateFd_error hfd, htree, hmem, ?_⟩
      · intro hroom
        obtain ⟨r, hr⟩ := (allocateFd_ok_iff _ desc _).mpr hroom
        rw [hfd] at hr
        cases hr
      · exact (settleSlot_tables s₂.toFileSys (some desc)).1

/-- The target is there: `sys_open` truncates it or not. -/
theorem targetVnode_found {s : FdState V} {process : ProcessDirs} {path : StringView}
    {flags : BitVec 32} {alloc : VnodeAlloc} {vnode : Nat}
    (hpath : s.tree.pathToVnode process.root path = .ok vnode) :
    s.targetVnode vm process path flags alloc = (.ok vnode,
      if flags &&& O_TRUNC ≠ 0 then { s with tree := s.tree.truncate vnode } else s) := by
  unfold targetVnode
  rw [hpath]

/-- The target is not there: `sys_open` makes it, or fails. -/
theorem targetVnode_absent {s : FdState V} {process : ProcessDirs} {path : StringView}
    (flags : BitVec 32) (alloc : VnodeAlloc) {e : Int}
    (hpath : s.tree.pathToVnode process.root path = .error e) :
    (Creates s process path flags alloc ∧ ∃ parent filename,
      s.targetVnode vm process path flags alloc = (.ok s.tree.next,
        { s with tree := Vnodes.withChild vm s.tree .regular parent filename })) ∨
    (¬ Creates s process path flags alloc ∧ ∃ e',
      s.targetVnode vm process path flags alloc = (.error e', s)) := by
  unfold targetVnode
  rw [hpath]
  dsimp only
  by_cases hflag : flags &&& O_CREAT ≠ 0
  · rw [if_pos hflag]
    -- without a parent directory nothing is made
    rcases hparent : s.tree.parentAndName process path with e | ⟨_ | parent, filename⟩
    · right
      refine ⟨?_, e, rfl⟩
      rintro ⟨-, parent, filename, hsome, -⟩
      rw [hparent] at hsome
      cases hsome
    · right
      refine ⟨?_, _, rfl⟩
      rintro ⟨-, parent, filename', hsome, -⟩
      rw [hparent] at hsome
      cases hsome
    · dsimp only
      by_cases hcreates : Creates s process path flags alloc
      · left
        refine ⟨hcreates, parent, filename, ?_⟩
        obtain ⟨-, parent', filename', hsome, hdev, hdir, hfree, hnode, hchild⟩ := hcreates
        rw [hparent] at hsome
        cases hsome
        unfold create Vnodes.create Vnodes.addChild
        rw [hdev]
        dsimp only
        rw [hdir, hfree, hnode, hchild]
        rfl
      · -- whichever check fails, it does so before anything has changed
        right
        refine ⟨hcreates, ?_⟩
        unfold create
        cases hdev : s.device parent with
        | some dev => exact ⟨_, rfl⟩
        | none =>
            dsimp only
            unfold Vnodes.create Vnodes.addChild
            cases hdir : s.tree.isDirectory parent with
            | false => exact ⟨_, rfl⟩
            | true =>
                cases hfree : s.tree.child parent filename with
                | some c => exact ⟨_, rfl⟩
                | none =>
                    cases hnode : alloc.node with
                    | false => exact ⟨_, rfl⟩
                    | true =>
                        cases hchild : alloc.child with
                        | false => exact ⟨_, rfl⟩
                        | true =>
                            exact absurd ⟨hflag, parent, filename, hparent, hdev, hdir, hfree, hnode,
                              hchild⟩ hcreates
  · rw [if_neg hflag]
    right
    refine ⟨?_, e, rfl⟩
    rintro ⟨hset, -⟩
    exact hflag hset

end FdState

/-! ## The condition -/

variable {V : Type} {vm : RamFs.VmObject V}

/-- `O_TRUNC` changes nothing of a file that is empty, and only of that. -/
theorem truncate_eq_iff (t : Vnodes V) (vnode : Nat) :
    t.truncate vnode = t ↔ (t.node vnode).size = 0 := by
  constructor
  · intro h
    have hsize := congrArg (fun t => (t.node vnode).size) h
    unfold Vnodes.truncate at hsize
    dsimp only at hsize
    rw [Vnodes.setNode_self] at hsize
    exact hsize.symm
  · intro h
    unfold Vnodes.truncate Vnodes.setNode Vnodes.set
    rw [← h, Function.update_eq_self]

/-- A tree with a new file is another tree. -/
theorem withChild_ne (t : Vnodes V) (type : RamFs.VnodeType) (dir : Nat) (name : StringView) :
    Vnodes.withChild vm t type dir name ≠ t := by
  intro h
  have hnext := congrArg Vnodes.next h
  rw [Vnodes.withChild_next] at hnext
  omega

/-- Without a descriptor, what was done to the tree stays. -/
theorem harmless_of_keeps {s : FdState V} {p : ProcId} {process : ProcessDirs} {path : StringView}
    {flags : BitVec 32} {alloc : VnodeAlloc} {grow : Nat → Bool}
    (hroom : ¬ HasRoom (s.tables p) grow)
    (h : FailedOpenKeeps vm s p process path flags alloc grow) :
    Harmless s process path flags alloc := by
  cases hpath : s.tree.pathToVnode process.root path with
  -- the file is there: `O_TRUNC` has emptied it
  | ok vnode =>
      left
      refine ⟨vnode, hpath, ?_⟩
      have htarget := @FdState.targetVnode_found V vm s process path flags alloc vnode hpath
      by_cases htrunc : flags &&& O_TRUNC ≠ 0
      · right
        rw [if_pos htrunc] at htarget
        rcases FdState.sysOpen_target vm p grow htarget rfl with
          ⟨hyes, -⟩ | ⟨-, herr, htree, -⟩
        · exact absurd hyes hroom
        · exact (truncate_eq_iff _ _).mp (htree.symm.trans (h herr).tree)
      · left
        exact not_not.mp htrunc
  -- it is not: `O_CREAT` has created it
  | error e =>
      right
      refine ⟨⟨e, hpath⟩, ?_⟩
      intro hcreates
      rcases FdState.targetVnode_absent vm flags alloc hpath with
        ⟨-, parent, filename, htarget⟩ | ⟨hnot, -⟩
      · rcases FdState.sysOpen_target vm p grow htarget rfl with
          ⟨hyes, -⟩ | ⟨-, herr, htree, -⟩
        · exact hroom hyes
        · exact withChild_ne s.tree _ parent filename (htree.symm.trans (h herr).tree)
      · exact hnot hcreates

/-- An open that fails changes nothing, if and only if there is room for its
descriptor or its target is harmless. -/
theorem failedOpenKeeps_iff (s : FdState V) (p : ProcId) (process : ProcessDirs)
    (path : StringView) (flags : BitVec 32) (alloc : VnodeAlloc) (grow : Nat → Bool) :
    FailedOpenKeeps vm s p process path flags alloc grow ↔
      HasRoom (s.tables p) grow ∨ Harmless s process path flags alloc := by
  constructor
  · intro h
    by_cases hroom : HasRoom (s.tables p) grow
    · exact .inl hroom
    · exact .inr (harmless_of_keeps hroom h)
  · intro h herr
    cases hpath : s.tree.pathToVnode process.root path with
    | ok vnode =>
        -- the target is there, and `O_TRUNC` finds it empty
        have htarget := @FdState.targetVnode_found V vm s process path flags alloc vnode hpath
        have hsame : ∀ hno : ¬ HasRoom (s.tables p) grow,
            (if flags &&& O_TRUNC ≠ 0 then { s with tree := s.tree.truncate vnode } else s) = s := by
          intro hno
          rcases h with hroom | ⟨vnode', hpath', hkeep⟩ | ⟨⟨e, hpath'⟩, -⟩
          · exact absurd hroom hno
          · rw [hpath] at hpath'
            cases hpath'
            split
            · rename_i htrunc
              rw [(truncate_eq_iff _ _).mpr (hkeep.resolve_left htrunc)]
            · rfl
          · rw [hpath] at hpath'
            cases hpath'
        have htables : (if flags &&& O_TRUNC ≠ 0 then { s with tree := s.tree.truncate vnode }
            else s).tables = s.tables := by
          split
          · rfl
          · rfl
        rcases FdState.sysOpen_target vm p grow htarget htables with
          ⟨-, fd, hfd⟩ | ⟨hno, -, htree, hmem, htab⟩
        · omega
        · rw [hsame hno] at htree hmem htab
          exact ⟨htree, hmem, htab⟩
    | error e =>
        rcases FdState.targetVnode_absent vm flags alloc hpath with
          ⟨hcreates, parent, filename, htarget⟩ | ⟨-, e', htarget⟩
        · -- a file was made, so the descriptor must have failed
          rcases FdState.sysOpen_target vm p grow htarget rfl with
            ⟨-, fd, hfd⟩ | ⟨hno, -⟩
          · omega
          · rcases h with hroom | ⟨vnode, hpath', -⟩ | ⟨-, hnot⟩
            · exact absurd hroom hno
            · rw [hpath] at hpath'
              cases hpath'
            · exact absurd hcreates hnot
        · unfold FdState.sysOpen
          rw [htarget]
          exact ⟨rfl, rfl, rfl⟩

/-! ## A full table -/

/-- A file "a" of one byte, and a process with all its descriptors in use. -/
def fullTable : FdState (List RamFs.VmPage) where
  mem := fun _ => 0
  used := []
  tree := (Vnodes.withChild (RamFs.pageList .base)
    (RamFsTree.emptyRoot (List RamFs.VmPage)).toVnodes .regular 0 [97]).setNode 1
      { type := .regular, vmo := some [], size := 1 }
  tables := fun _ => List.replicate kMaxFds (some 0)

/-- In a table of the largest size with no slot free there is no room, whatever the
allocator says. -/
theorem fullTable_noRoom (grow : Nat → Bool) : ¬ HasRoom (fullTable.tables 0) grow := by
  rintro ⟨fd, hlt, -, hnone, -⟩
  have hsome : getFd (List.replicate kMaxFds (some 0)) fd = some 0 := by
    unfold getFd
    rw [List.getElem?_replicate, if_pos hlt]
    rfl
  have htable : getFd (List.replicate kMaxFds (some 0)) fd = none := hnone
  rw [hsome] at htable
  cases htable

/-- Opening "/a" with `O_TRUNC` fails for want of a descriptor, and the file has lost
its byte. -/
theorem full_table_truncates : ¬ FailedOpenKeeps (RamFs.pageList .base) fullTable 0 ⟨0, some 0⟩
    [slash, 97] O_TRUNC ⟨true, true⟩ fun _ => true := by
  intro h
  have hpath : fullTable.tree.pathToVnode 0 [slash, 97] = .ok 1 := by rfl
  rcases harmless_of_keeps (fullTable_noRoom _) h with ⟨vnode, hvnode, hkeep⟩ | ⟨⟨e, herror⟩, -⟩
  · rw [hpath] at hvnode
    cases hvnode
    rcases hkeep with hflag | hsize
    · revert hflag
      decide
    · cases hsize
  · rw [hpath] at herror
    cases herror

end Ceryx.Fs
