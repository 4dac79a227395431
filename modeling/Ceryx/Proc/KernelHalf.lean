import Ceryx.Proc.AddressSpaces

/-!
# Ceryx.Proc.KernelHalf — the kernel is mapped in every address space

`UserAddressSpace::Create` copies the upper half of the root table that CR3 points to.
It is not the kernel's table but the one of the process that forks or executes, which
was itself a copy.

* `createTable`: the loop of `Create`. `mapStep`: the steps of `userStep` with the root
  tables, and stores to the entries of any page.
* `SpaceStep`: all that a step does to the address spaces of live processes.
* `mirrored_iff`: in every state of a run all live processes have the upper half of the
  kernel's table, exactly when no step changes an upper entry of a table that is in use.
* `Mirrored.translate`: then a kernel address is translated alike under all these roots.
-/

namespace Ceryx.Proc

open Kernel Lib

/-- The entries of a root table, by the physical address of its page. -/
abbrev RootTables := Nat → Nat → Word

/-- `user_root[i] = value`. -/
def RootTables.set (tables : RootTables) (root i : Nat) (value : Word) : RootTables :=
  Function.update tables root (Function.update (tables root) i value)

/-- One turn of the loop of `Create`. -/
def mirrorEntry (userRoot kernelRoot : Nat) (tables : RootTables) (i : Nat) : RootTables :=
  tables.set userRoot i (tables kernelRoot i)

/-- The page of `Create`: cleared, and then entries 256 to 511 copied. -/
def createTable (tables : RootTables) (userRoot cr3 : Nat) : RootTables :=
  (List.range' 256 256).foldl (mirrorEntry userRoot cr3)
    (Function.update tables userRoot fun _ => 0)

/-- The kernel and the root tables. -/
structure Mapped where
  u : UserKernel
  tables : RootTables

/-- A step of the kernel, or a store to an entry of a page: a mapping in some address space,
or another use of a page. -/
inductive MapOp where
  | user (op : UserOp)
  | entry (root i : Nat) (value : Word)

/-- `Create` is called before CR3 is written, by `Fork` and by `sys_execve`; when it has
succeeded there is one more space. -/
def Mapped.after (s : Mapped) (u' : UserKernel) : Mapped where
  u := u'
  tables :=
    if u'.nextSpace = s.u.nextSpace then s.tables
    else createTable s.tables (s.u.spaceRoot s.u.nextSpace) s.u.cr3

/-- A call, or a write to an entry of a root table. -/
def mapStep (s : Mapped) : MapOp → Option Mapped
  | .user op => (userStep s.u op).map s.after
  | .entry root i value => if i < 512 then some ⟨s.u, s.tables.set root i value⟩ else none

/-- The boot, which creates space 0 with CR3 at the kernel's root. -/
def Mapped.ofBoot (u : UserKernel) (tables : RootTables) (kernelRoot : Nat) : Mapped :=
  ⟨u, createTable tables (u.spaceRoot 0) kernelRoot⟩

/-! ## The property -/

/-- The root table of a live process. -/
def ProcRoot (u : UserKernel) (root : Nat) : Prop :=
  ∃ p, Alive u.toKernel p ∧ root = u.spaceRoot (u.image p).addressSpace

/-- Two tables have one upper half. -/
def SameHalf (tables : RootTables) (root root' : Nat) : Prop :=
  ∀ i, 256 ≤ i → i < 512 → tables root i = tables root' i

/-- The kernel's half is in every table that can be in use. -/
structure Mirrored (kernelRoot : Nat) (s : Mapped) : Prop where
  procs : ∀ root, ProcRoot s.u root → SameHalf s.tables root kernelRoot
  cr3 : SameHalf s.tables s.u.cr3 kernelRoot

/-- `AllocatePages` does not give a page that is in use. -/
def FreshRoot (kernelRoot : Nat) (u : UserKernel) : Prop :=
  u.spaceRoot u.nextSpace ≠ kernelRoot ∧ ¬ ProcRoot u (u.spaceRoot u.nextSpace)

/-- Processes of one thread, and pages that are free when they are allocated. -/
def Allocates (kernelRoot : Nat) (s : Mapped) : MapOp → Prop
  | .user op => SingleThreaded op ∧ FreshRoot kernelRoot s.u
  | .entry _ _ _ => True

/-- The step stores nothing new to an upper entry of a table in use. The kernel's own table
may change as long as there is no process. -/
def KeepsHalf (kernelRoot : Nat) (s : Mapped) : MapOp → Prop
  | .user _ => True
  | .entry root i value =>
      256 ≤ i → value ≠ s.tables root i →
        ¬ ProcRoot s.u root ∧ (root = kernelRoot → ∀ p, ¬ Alive s.u.toKernel p)

/-! ## The loop -/

/-- The entry that is written, -/
@[simp] theorem RootTables.set_self (tables : RootTables) (root i : Nat) (value : Word) :
    tables.set root i value root i = value := by
  rw [RootTables.set, Function.update_self, Function.update_self]

/-- the other tables, -/
theorem RootTables.set_root (tables : RootTables) {root root' : Nat} (i : Nat) (value : Word)
    (h : root' ≠ root) : tables.set root i value root' = tables root' :=
  Function.update_of_ne h _ _

/-- and the other entries. -/
theorem RootTables.set_index (tables : RootTables) (root : Nat) {i j : Nat} (value : Word)
    (h : j ≠ i) : tables.set root i value root j = tables root j := by
  rw [RootTables.set, Function.update_self, Function.update_of_ne h]

/-- The loop of `CreateTable` writes the new table only. -/
theorem mirrorLoop_other {userRoot kernelRoot : Nat} (is : List Nat) (tables : RootTables)
    {root : Nat} (h : root ≠ userRoot) :
    is.foldl (mirrorEntry userRoot kernelRoot) tables root = tables root := by
  induction is generalizing tables with
  | nil => rfl
  | cons i is ih =>
      rw [List.foldl_cons, ih, mirrorEntry, RootTables.set_root _ _ _ h]

/-- Each entry of the loop is copied, whatever order they come in. -/
theorem mirrorLoop_get {userRoot kernelRoot : Nat} (hne : userRoot ≠ kernelRoot) (is : List Nat)
    (tables : RootTables) (i : Nat) :
    is.foldl (mirrorEntry userRoot kernelRoot) tables userRoot i =
      if i ∈ is then tables kernelRoot i else tables userRoot i := by
  induction is generalizing tables with
  | nil => rfl
  | cons j is ih =>
      have hkernel : mirrorEntry userRoot kernelRoot tables j kernelRoot = tables kernelRoot :=
        RootTables.set_root _ _ _ hne.symm
      rw [List.foldl_cons, ih, hkernel]
      by_cases hin : i ∈ is
      · rw [if_pos hin, if_pos (List.mem_cons_of_mem j hin)]
      · rw [if_neg hin]
        by_cases hij : i = j
        · rw [hij, if_pos List.mem_cons_self, mirrorEntry, RootTables.set_self]
        · rw [if_neg fun h => (List.mem_cons.mp h).elim hij hin, mirrorEntry,
            RootTables.set_index _ _ _ hij]

/-- So does all of it. -/
theorem createTable_other (tables : RootTables) {userRoot cr3 root : Nat} (h : root ≠ userRoot) :
    createTable tables userRoot cr3 root = tables root := by
  rw [createTable, mirrorLoop_other _ _ h, Function.update_of_ne h]

/-- The new table has the upper half of the current one, and an empty lower half. -/
theorem createTable_get (tables : RootTables) {userRoot cr3 : Nat} (h : userRoot ≠ cr3) {i : Nat}
    (hi : i < 512) :
    createTable tables userRoot cr3 userRoot i = if 256 ≤ i then tables cr3 i else 0 := by
  have hmem : i ∈ List.range' 256 256 ↔ 256 ≤ i := by
    rw [List.mem_range'_1]
    omega
  rw [createTable, mirrorLoop_get h, Function.update_of_ne h.symm, Function.update_self]
  by_cases hi' : 256 ≤ i
  · rw [if_pos hi', if_pos (hmem.mpr hi')]
  · rw [if_neg hi', if_neg fun hin => hi' (hmem.mp hin)]

/-! ## What a step does to the address spaces -/

/-- Spaces are created one at a time, and a live process keeps its space or has the one that
was created. -/
structure SpaceStep (u u' : UserKernel) : Prop where
  spaceRoot : u'.spaceRoot = u.spaceRoot
  live : ∀ p, Alive u'.toKernel p →
    (Alive u.toKernel p ∧ (u'.image p).addressSpace = (u.image p).addressSpace) ∨
      (u'.nextSpace ≠ u.nextSpace ∧ (u'.image p).addressSpace = u.nextSpace)

/-- A step that moves no space. -/
theorem SpaceStep.same {u u' : UserKernel} (hroot : u'.spaceRoot = u.spaceRoot)
    (hlive : ∀ p, Alive u'.toKernel p → Alive u.toKernel p)
    (hspace : ∀ p, (u'.image p).addressSpace = (u.image p).addressSpace) : SpaceStep u u' :=
  ⟨hroot, fun p hp => .inl ⟨hlive p hp, hspace p⟩⟩

/-- No process comes to life in such a step. -/
theorem Progress.live {k k' : Kernel} (h : Progress k k') {p : ProcId} (hp : Alive k' p) :
    Alive k p := by
  refine ⟨h.nextProc ▸ hp.1, ?_⟩
  rcases h.reaped with ⟨-, hsame⟩ | ⟨c, -, -, -, -, hdeleted⟩
  · rw [← hsame p]
    exact hp.2
  · cases hdel : (k.procs p).deleted with
    | false => rfl
    | true =>
        have hgone := (hdeleted p).mpr (.inl hdel)
        rw [hp.2] at hgone
        cases hgone

/-- A failed `fork` leaves no process behind. -/
theorem ForkFailed.live {k k' : Kernel} (h : ForkFailed k k') {p : ProcId} (hp : Alive k' p) :
    Alive k p := by
  by_cases hlt : p < k.nextProc
  · exact ⟨hlt, (h.deleted p hlt).symm.trans hp.2⟩
  · have hgone := h.stillborn p (Nat.le_of_not_lt hlt) hp.1
    rw [hp.2] at hgone
    cases hgone

/-- `fork` gives the child the new space. -/
theorem fork_spaceStep {u u' : UserKernel} {p : ProcId} {alloc : ForkAlloc} {rax : Int}
    (hinv : KernelInv u.toKernel) (hfork : u.fork p alloc = some (rax, u')) : SpaceStep u u' := by
  rcases Option.map_eq_some_iff.mp hfork with ⟨⟨r, k⟩, hk, heq⟩
  dsimp only at heq
  rcases fork_forkedOff hinv hk with ⟨hneg, hf⟩ | ⟨hpos, stack, hf⟩
  · split at heq
    · cases heq
      exact SpaceStep.same rfl (fun _ hp => hf.live hp) fun _ => rfl
    · cases heq
      exact SpaceStep.same rfl (fun _ hp => hf.live hp) fun _ => rfl
  · split at heq
    · rename_i halloc
      rcases kernelFork_success hk hpos with ⟨_, _, _, _, henough, _⟩
      rw [halloc] at henough
      cases henough
    · rw [if_neg (Int.not_lt.mpr hpos)] at heq
      cases heq
      refine ⟨rfl, ?_⟩
      intro q hq
      by_cases hne : q = u.nextProc
      · -- the child
        refine .inr ⟨Nat.succ_ne_self u.nextSpace, ?_⟩
        rw [hne, UserKernel.giveImage_self]
        rfl
      · left
        have hlt : q < u.nextProc := by
          have hlt : q < k.nextProc := hq.1
          rw [hf.nextProc] at hlt
          exact Nat.lt_of_le_of_ne (Nat.le_of_lt_succ hlt) hne
        refine ⟨⟨hlt, (hf.deleted q hlt).symm.trans hq.2⟩, ?_⟩
        rw [UserKernel.giveImage_ne _ _ hne]
        rfl

/-- Other fields of an image do not matter. -/
theorem setImage_space (u : UserKernel) (p : ProcId) {im : ProcessImage}
    (hspace : im.addressSpace = (u.image p).addressSpace) (q : ProcId) :
    ((u.setImage p im).image q).addressSpace = (u.image q).addressSpace := by
  by_cases hq : q = p
  · subst hq
    simp [UserKernel.setImage, hspace]
  · simp [UserKernel.setImage, hq]

/-- The heap is one of them. -/
theorem setHeap_space (u : UserKernel) (p : ProcId) (start stop : Nat) (q : ProcId) :
    ((u.setHeap p start stop).image q).addressSpace = (u.image q).addressSpace := by
  rw [UserKernel.setHeap]
  apply setImage_space
  rfl

/-- An exit keeps the space until the process is reaped. -/
theorem exit_spaceStep {u u' : UserKernel} {t : Tid} {p : ProcId} {status : Int}
    (hinv : KernelInv u.toKernel) (hcall : u.caller = some (t, p))
    (hexit : u.exit t p status = some u') : SpaceStep u u' := by
  have hp := exit_progress hinv hcall (userExit_eq hexit)
  rcases Option.map_eq_some_iff.mp hexit with ⟨k, hk, rfl⟩
  exact SpaceStep.same rfl (fun q hq => hp.live hq) (setImage_space { u with toKernel := k } p rfl)

/-- One call, by its kind. -/
theorem userStep_spaceStep {root : Nat} {u u' : UserKernel} {op : UserOp} (h : SpaceInv root u)
    (hop : SingleThreaded op) (hstep : userStep u op = some u') : SpaceStep u u' := by
  cases op with
  | kernel op =>
      rcases userStep_kernel hstep with ⟨alloc, t, p, rax, rfl, hcall, hwait, hfork⟩ |
        ⟨status, t, p, rfl, hcall, hwait, hexit⟩ | ⟨hfork, hexit, k, hk, rfl⟩
      · exact fork_spaceStep h.kernel hfork
      · exact exit_spaceStep h.kernel hcall hexit
      · have hclone : ∀ stack, op ≠ .clone stack := by
          rintro stack rfl
          exact hop
        have hp := kernelStep_progress h.kernel hfork hclone hk
        exact SpaceStep.same rfl (fun q hq => hp.live hq) fun _ => rfl
  | execve outcome =>
      simp only [userStep] at hstep
      rcases userSyscall_eq hstep with ⟨t, p, hcall, -, hf⟩
      cases hf
      rcases execve_spec u p outcome with ⟨e, -, hsame | hfailed⟩ | ⟨result, -, hloaded⟩
      · rw [hsame]
        exact SpaceStep.same rfl (fun _ hq => hq) fun _ => rfl
      · refine SpaceStep.same hfailed.spaceRoot ?_ ?_
        · intro q hq
          rw [hfailed.kernel] at hq
          exact hq
        · intro q
          rw [hfailed.image]
      · refine ⟨hloaded.spaceRoot, ?_⟩
        intro q hq
        rw [hloaded.kernel] at hq
        by_cases hqp : q = p
        · rw [hqp, hloaded.space, hloaded.nextSpace]
          exact .inr ⟨Nat.succ_ne_self _, rfl⟩
        · rw [hloaded.others q hqp]
          exact .inl ⟨hq, rfl⟩
  | rtSigaction sig act =>
      simp only [userStep] at hstep
      rcases userSyscall_eq hstep with ⟨t, p, -, -, hf⟩
      cases hf
      unfold UserKernel.rtSigaction
      split
      · exact SpaceStep.same rfl (fun _ hq => hq) fun _ => rfl
      · exact SpaceStep.same rfl (fun _ hq => hq) (setImage_space u p rfl)
  | rtSigprocmask frame mem how set =>
      simp only [userStep] at hstep
      rcases userSyscall_eq hstep with ⟨t, p, -, -, hf⟩
      cases hf
      unfold UserKernel.rtSigprocmask
      split
      · exact SpaceStep.same rfl (fun _ hq => hq) fun _ => rfl
      · exact SpaceStep.same rfl (fun _ hq => hq) fun _ => rfl
  | rtSigreturn frame mem userRsp =>
      simp only [userStep] at hstep
      rcases userSyscall_eq hstep with ⟨t, p, -, -, hf⟩
      cases hf
      exact SpaceStep.same rfl (fun _ hq => hq) fun _ => rfl
  | send frame mem sig =>
      simp only [userStep] at hstep
      rcases userSyscall_eq hstep with ⟨t, p, -, -, hf⟩
      cases hf
      exact SpaceStep.same rfl (fun _ hq => hq) fun _ => rfl
  | doPending frame mem =>
      simp only [userStep] at hstep
      rcases userSyscall_eq hstep with ⟨t, p, hcall, -, hf⟩
      rcases doPending_eq hf with ⟨st, -, rfl | ⟨status, hexit⟩⟩
      · exact SpaceStep.same rfl (fun _ hq => hq) fun _ => rfl
      · -- a fatal signal
        have hstep' := exit_spaceStep (h.setSignals t st).kernel
          ((setSignals_caller u t st).trans hcall) hexit
        exact ⟨hstep'.spaceRoot, hstep'.live⟩

/-! ## Steps -/

/-- A step of the kernel leaves old tables alone, and creates one from CR3's or none. -/
theorem mapStep_user {s s' : Mapped} {op : UserOp} (h : mapStep s (.user op) = some s') :
    userStep s.u op = some s'.u ∧
      s'.tables = if s'.u.nextSpace = s.u.nextSpace then s.tables
        else createTable s.tables (s.u.spaceRoot s.u.nextSpace) s.u.cr3 := by
  rw [mapStep] at h
  obtain ⟨u', hu, rfl⟩ := Option.map_eq_some_iff.mp h
  exact ⟨hu, rfl⟩

/-- A write to an entry does nothing else. -/
theorem mapStep_entry {s s' : Mapped} {root i : Nat} {value : Word}
    (h : mapStep s (.entry root i value) = some s') :
    i < 512 ∧ s' = ⟨s.u, s.tables.set root i value⟩ := by
  have hif : (if i < 512 then some ⟨s.u, s.tables.set root i value⟩ else none) = some s' := h
  by_cases hi : i < 512
  · rw [if_pos hi] at hif
    exact ⟨hi, (Option.some.inj hif).symm⟩
  · rw [if_neg hi] at hif
    cases hif

/-- The invariant below `Mirrored`: no process has the kernel's own root table. -/
structure MapInv (kernelRoot : Nat) (s : Mapped) : Prop where
  space : SpaceInv kernelRoot s.u
  apart : ¬ ProcRoot s.u kernelRoot

/-- CR3 is the kernel's root or a live process's. -/
theorem SpaceInv.cr3_root {kernelRoot : Nat} {u : UserKernel} (h : SpaceInv kernelRoot u) :
    u.cr3 = kernelRoot ∨ ProcRoot u u.cr3 := by
  obtain ⟨t, ht⟩ := h.coherent.running
  cases hp : (u.threads t).process with
  | none => exact .inl (h.coherent.kernelThread t ht hp)
  | some p => exact .inr ⟨p, h.current_live ht hp, (h.coherent.process t p ht hp).1⟩

/-- The root tables in use after a step were in use before, but for the one that the step
has created. -/
theorem SpaceStep.root {u u' : UserKernel} (h : SpaceStep u u') {root : Nat}
    (hroot : ProcRoot u' root) :
    ProcRoot u root ∨ (u'.nextSpace ≠ u.nextSpace ∧ root = u.spaceRoot u.nextSpace) := by
  obtain ⟨p, hp, rfl⟩ := hroot
  rw [h.spaceRoot]
  rcases h.live p hp with ⟨hold, hspace⟩ | ⟨hnext, hspace⟩
  · rw [hspace]
    exact .inl ⟨p, hold, rfl⟩
  · rw [hspace]
    exact .inr ⟨hnext, rfl⟩

/-- The invariant over one step: where page tables come from is all that is asked. -/
theorem MapInv.step {kernelRoot : Nat} {s s' : Mapped} {op : MapOp}
    (hop : Allocates kernelRoot s op) (h : MapInv kernelRoot s) (hstep : mapStep s op = some s') :
    MapInv kernelRoot s' := by
  cases op with
  | user op =>
      have hu := (mapStep_user hstep).1
      refine ⟨h.space.step hop.1 hu, ?_⟩
      intro hroot
      rcases (userStep_spaceStep h.space hop.1 hu).root hroot with hold | ⟨-, hnew⟩
      · exact h.apart hold
      · exact hop.2.1 hnew.symm
  | entry root i value =>
      rw [(mapStep_entry hstep).2]
      exact ⟨h.space, h.apart⟩

/-- A step of the kernel keeps the mirror: what is created is a copy of a copy. -/
theorem Mirrored.user {kernelRoot : Nat} {s s' : Mapped} {op : UserOp}
    (hop : Allocates kernelRoot s (.user op)) (hinv : MapInv kernelRoot s)
    (h : Mirrored kernelRoot s) (hstep : mapStep s (.user op) = some s') :
    Mirrored kernelRoot s' := by
  have hinv' := hinv.step hop hstep
  obtain ⟨hsingle, hkernel, hfresh⟩ := hop
  obtain ⟨hu, htables⟩ := mapStep_user hstep
  have hspace := userStep_spaceStep hinv.space hsingle hu
  -- the tables of old processes are untouched, the new one is copied from CR3's
  have hold : ∀ root, root ≠ s.u.spaceRoot s.u.nextSpace → s'.tables root = s.tables root := by
    intro root hroot
    rw [htables]
    split
    · rfl
    · exact createTable_other _ hroot
  have hnew : s'.u.nextSpace ≠ s.u.nextSpace →
      SameHalf s'.tables (s.u.spaceRoot s.u.nextSpace) kernelRoot := by
    intro hnext i hi hi'
    have hcr3 : s.u.spaceRoot s.u.nextSpace ≠ s.u.cr3 := by
      intro he
      rcases hinv.space.cr3_root with hk | hp
      · exact hkernel (he.trans hk)
      · rw [← he] at hp
        exact hfresh hp
    rw [hold kernelRoot hkernel.symm, htables, if_neg hnext, createTable_get _ hcr3 hi', if_pos hi]
    exact h.cr3 i hi hi'
  have hprocs : ∀ root, ProcRoot s'.u root → SameHalf s'.tables root kernelRoot := by
    intro root hroot
    rcases hspace.root hroot with hbefore | ⟨hnext, rfl⟩
    · intro i hi hi'
      have hne : root ≠ s.u.spaceRoot s.u.nextSpace := by
        rintro rfl
        exact hfresh hbefore
      rw [hold root hne, hold kernelRoot hkernel.symm]
      exact h.procs root hbefore i hi hi'
    · exact hnew hnext
  refine ⟨hprocs, ?_⟩
  rcases hinv'.space.cr3_root with hk | hp
  · rw [hk]
    exact fun _ _ _ => rfl
  · exact hprocs _ hp

/-- A write keeps the half if it hits no upper entry of a table in use. -/
theorem Mirrored.entry {kernelRoot : Nat} {s s' : Mapped} {root i : Nat} {value : Word}
    (hinv : MapInv kernelRoot s) (h : Mirrored kernelRoot s)
    (hkeeps : KeepsHalf kernelRoot s (.entry root i value))
    (hstep : mapStep s (.entry root i value) = some s') : Mirrored kernelRoot s' := by
  obtain ⟨-, rfl⟩ := mapStep_entry hstep
  by_cases hchange : 256 ≤ i ∧ value ≠ s.tables root i
  · -- the table is not in use
    obtain ⟨hfree, hkernel⟩ := hkeeps hchange.1 hchange.2
    have hprocs : ∀ r, ProcRoot s.u r → SameHalf (s.tables.set root i value) r kernelRoot := by
      intro r hr j hj hj'
      have hne : r ≠ root := by
        rintro rfl
        exact hfree hr
      have hne' : kernelRoot ≠ root := by
        intro he
        obtain ⟨p, hp, -⟩ := hr
        exact hkernel he.symm p hp
      rw [RootTables.set_root _ _ _ hne, RootTables.set_root _ _ _ hne']
      exact h.procs r hr j hj hj'
    refine ⟨hprocs, ?_⟩
    rcases hinv.space.cr3_root with hk | hp
    · intro j _ _
      dsimp only
      rw [hk]
    · exact hprocs _ hp
  · -- no upper entry changes
    have hsame : ∀ r j, 256 ≤ j → s.tables.set root i value r j = s.tables r j := by
      intro r j hj
      by_cases hr : r = root
      · by_cases hji : j = i
        · have hvalue : value = s.tables root i := by
            by_contra hne
            exact hchange ⟨hji ▸ hj, hne⟩
          rw [hr, hji, RootTables.set_self, hvalue]
        · rw [hr, RootTables.set_index _ _ _ hji]
      · rw [RootTables.set_root _ _ _ hr]
    constructor
    · intro r hr j hj hj'
      dsimp only
      rw [hsame r j hj, hsame kernelRoot j hj]
      exact h.procs r hr j hj hj'
    · intro j hj hj'
      dsimp only
      rw [hsame _ j hj, hsame kernelRoot j hj]
      exact h.cr3 j hj hj'

/-- A new value in an upper entry of a table in use. -/
theorem Mirrored.broken {kernelRoot : Nat} {s s' : Mapped} {root i : Nat} {value : Word}
    (hinv : MapInv kernelRoot s) (h : Mirrored kernelRoot s)
    (hmiss : ¬ KeepsHalf kernelRoot s (.entry root i value))
    (hstep : mapStep s (.entry root i value) = some s') : ¬ Mirrored kernelRoot s' := by
  obtain ⟨hlt, rfl⟩ := mapStep_entry hstep
  unfold KeepsHalf at hmiss
  simp only [Classical.not_imp, not_and, not_forall, not_not] at hmiss
  obtain ⟨hi, hvalue, hused⟩ := hmiss
  intro hafter
  by_cases hproc : ProcRoot s.u root
  · -- a process's table differs from the kernel's now
    have hne : kernelRoot ≠ root := by
      rintro rfl
      exact hinv.apart hproc
    have hentry := hafter.procs root hproc i hi hlt
    dsimp only at hentry
    rw [RootTables.set_self, RootTables.set_root _ _ _ hne] at hentry
    exact hvalue (hentry.trans (h.procs root hproc i hi hlt).symm)
  · -- or the kernel's from a process's
    obtain ⟨hroot, p, hp⟩ := hused hproc
    have hne : s.u.spaceRoot (s.u.image p).addressSpace ≠ root := by
      intro he
      exact hproc ⟨p, hp, he.symm⟩
    have hentry := hafter.procs _ ⟨p, hp, rfl⟩ i hi hlt
    dsimp only at hentry
    rw [RootTables.set_root _ _ _ hne, ← hroot, RootTables.set_self] at hentry
    have hbefore := h.procs _ ⟨p, hp, rfl⟩ i hi hlt
    rw [← hroot] at hbefore
    exact hvalue (hentry.symm.trans hbefore)

/-! ## Runs -/

/-- The only process of the boot has space 0. -/
theorem boot_root {rootPa : Option ProcId → Nat} {spaceRoot : SpaceId → Nat} {root : VnodeRef}
    {idleStack reaperStack initStack : Nat} {outcome : UserKernel.LoadOutcome} {u : UserKernel}
    (hboot : UserKernel.boot rootPa spaceRoot root idleStack reaperStack initStack outcome =
      some u) :
    u.spaceRoot = spaceRoot ∧ ∀ r, ProcRoot u r → r = spaceRoot 0 := by
  unfold UserKernel.boot at hboot
  split at hboot
  · rcases Option.map_eq_some_iff.mp hboot with ⟨k, hk, rfl⟩
    refine ⟨rfl, ?_⟩
    rintro r ⟨p, hp, rfl⟩
    have hp0 : p = 0 := ((boot_started hk).process p hp).2
    rw [hp0, setHeap_space, UserKernel.giveImage_self]
    rfl
  · rcases Option.map_eq_some_iff.mp hboot with ⟨k, hk, rfl⟩
    refine ⟨rfl, ?_⟩
    rintro r ⟨p, hp, -⟩
    cases ((boot_started hk).process p hp).1

/-- The boot establishes it, -/
theorem boot_mapInv {rootPa : Option ProcId → Nat} {spaceRoot : SpaceId → Nat} {root : VnodeRef}
    {idleStack reaperStack initStack : Nat} {outcome : UserKernel.LoadOutcome} {u : UserKernel}
    (hboot : UserKernel.boot rootPa spaceRoot root idleStack reaperStack initStack outcome = some u)
    (hroot : spaceRoot 0 ≠ rootPa none) (tables : RootTables) :
    MapInv (rootPa none) (.ofBoot u tables (rootPa none)) :=
  ⟨boot_spaceInv hboot, fun hkernel => hroot ((boot_root hboot).2 _ hkernel).symm⟩

/-- with the kernel's half in the first process's table. -/
theorem boot_mirrored {rootPa : Option ProcId → Nat} {spaceRoot : SpaceId → Nat} {root : VnodeRef}
    {idleStack reaperStack initStack : Nat} {outcome : UserKernel.LoadOutcome} {u : UserKernel}
    (hboot : UserKernel.boot rootPa spaceRoot root idleStack reaperStack initStack outcome = some u)
    (hroot : spaceRoot 0 ≠ rootPa none) (tables : RootTables) :
    Mirrored (rootPa none) (.ofBoot u tables (rootPa none)) := by
  obtain ⟨hspace, hfirst⟩ := boot_root hboot
  have hprocs : ∀ r, ProcRoot u r →
      SameHalf (Mapped.ofBoot u tables (rootPa none)).tables r (rootPa none) := by
    intro r hr i hi hi'
    rw [hfirst r hr, Mapped.ofBoot, hspace]
    dsimp only
    rw [createTable_get _ hroot hi', if_pos hi, createTable_other _ hroot.symm]
  refine ⟨hprocs, ?_⟩
  -- CR3 is the kernel's own root, or that of a process
  rcases (boot_spaceInv hboot).cr3_root with hk | hp
  · intro i _ _
    dsimp only [Mapped.ofBoot]
    rw [hk]
  · exact hprocs _ hp

/-- The upper half of the kernel's table is in the table of every live process, and in the
one that CR3 points to, in all states of a run exactly when no step stores a new value to an
upper entry of a table in use. -/
theorem mirrored_iff {rootPa : Option ProcId → Nat} {spaceRoot : SpaceId → Nat} {root : VnodeRef}
    {idleStack reaperStack initStack : Nat} {outcome : UserKernel.LoadOutcome} {u : UserKernel}
    (hboot : UserKernel.boot rootPa spaceRoot root idleStack reaperStack initStack outcome = some u)
    (hroot : spaceRoot 0 ≠ rootPa none) (tables : RootTables) (ops : List MapOp)
    (hops : StepsMeet mapStep (Allocates (rootPa none)) (.ofBoot u tables (rootPa none)) ops) :
    Always mapStep (Mirrored (rootPa none)) (.ofBoot u tables (rootPa none)) ops ↔
      StepsMeet mapStep (KeepsHalf (rootPa none)) (.ofBoot u tables (rootPa none)) ops := by
  have hinv := boot_mapInv hboot hroot tables
  have hstart := boot_mirrored hboot hroot tables
  refine always_iff_stepsMeet_given (fun s op s' => MapInv.step) ?_ ?_ ops hops hinv hstart
  · intro s op s' hop hs hP hok hstep
    -- only a store to an entry of a root can break it
    cases op with
    | user op => exact hP.user hop hs hstep
    | entry root i value => exact hP.entry hs hok hstep
  · intro s op s' hop hs hP hmiss hstep
    cases op with
    | user op => exact absurd trivial hmiss
    | entry root i value => exact hP.broken hs hmiss hstep

/-- The index of an address in its root table, with four levels or five. -/
def topIndex (level5 : Bool) (va : Word) : Nat := va.toNat / 2 ^ (if level5 then 48 else 39) % 512

/-- The walk of the processor, with anything below the root table. -/
def translate (tables : RootTables) (walk : Word → Word → Option Word) (level5 : Bool)
    (root : Nat) (va : Word) : Option Word :=
  walk (tables root (topIndex level5 va)) va

/-- An address of the kernel is translated by CR3 as by the kernel's own table. -/
theorem Mirrored.translate {kernelRoot : Nat} {s : Mapped} (h : Mirrored kernelRoot s)
    (walk : Word → Word → Option Word) (level5 : Bool) {va : Word}
    (hva : 256 ≤ topIndex level5 va) :
    Proc.translate s.tables walk level5 s.u.cr3 va =
      Proc.translate s.tables walk level5 kernelRoot va := by
  have hlt : topIndex level5 va < 512 := Nat.mod_lt _ (by decide)
  rw [Proc.translate, Proc.translate, h.cr3 _ hva hlt]

/-- Where no page is given twice, each step finds a fresh one. -/
theorem allocates_of_injective {kernelRoot : Nat} {roots : SpaceId → Nat}
    (hinj : Function.Injective roots) (hkernel : ∀ a, roots a ≠ kernelRoot) {s : Mapped}
    (h : SpaceInv kernelRoot s.u) (hroots : s.u.spaceRoot = roots) {ops : List MapOp}
    (hops : ∀ op ∈ ops, ∀ uop, op = .user uop → SingleThreaded uop) :
    StepsMeet mapStep (Allocates kernelRoot) s ops := by
  have hmeet : ∀ (s : Mapped) (op : MapOp), SpaceInv kernelRoot s.u ∧ s.u.spaceRoot = roots →
      (∀ uop, op = .user uop → SingleThreaded uop) → Allocates kernelRoot s op := by
    rintro s op ⟨hs, hr⟩ hop
    cases op with
    | user uop =>
        refine ⟨hop uop rfl, ?_, ?_⟩
        · rw [hr]
          exact hkernel _
        · -- a made space has a smaller number than the next one
          rintro ⟨p, hp, heq⟩
          rw [hr] at heq
          exact Nat.lt_irrefl _ (hinj heq ▸ hs.made p hp)
    | entry root i value => trivial
  -- no step changes which root a space will get
  refine stepsMeet_of_inv ?_ hmeet ⟨h, hroots⟩ hops
  rintro s op s' ⟨hs, hr⟩ hop hstep
  cases op with
  | user uop =>
      have hu := (mapStep_user hstep).1
      have hsingle := hop uop rfl
      exact ⟨hs.step hsingle hu, (userStep_spaceStep hs hsingle hu).spaceRoot.trans hr⟩
  | entry root i value =>
      rw [(mapStep_entry hstep).2]
      exact ⟨hs, hr⟩

/-- `/sbin/init` forks, a page is mapped for the child, and it loads another file. -/
theorem init_mirrored :
    ∃ u, initBoot = some u ∧
      Always mapStep (Mirrored 0) (.ofBoot u (fun _ i => BitVec.ofNat 64 i) 0)
        [.user (.kernel (.fork (.enough 0x40000))), .entry 0x2000 0 0x9007, .user (.kernel .yield),
          .user (.execve (.load (.loaded ⟨0x402000, 0x7FFE0000, 0x600000⟩)))] := by
  obtain ⟨u, hboot, -⟩ := exists_start (o := initBoot) (P := fun _ => True) (by decide +kernel)
  have hinj : Function.Injective fun a : SpaceId => 0x1000 * (a + 1) := by
    intro a b hab
    exact Nat.succ.inj (Nat.eq_of_mul_eq_mul_left (by decide) hab)
  refine ⟨u, hboot, (mirrored_iff hboot (by decide) _ _ ?_).mpr ?_⟩
  · refine allocates_of_injective hinj (fun a => Nat.mul_ne_zero (by decide) (Nat.succ_ne_zero a))
      (boot_spaceInv hboot) (boot_root hboot).1 ?_
    intro op hop uop heq
    simp only [List.mem_cons, List.not_mem_nil, or_false] at hop
    rcases hop with rfl | rfl | rfl | rfl <;> cases heq <;> trivial
  · -- the only store is to an entry of the lower half
    have hlower : ∀ (s : Mapped) (op : MapOp), True →
        ((∃ uop, op = .user uop) ∨ ∃ root value, op = .entry root 0 value) →
        KeepsHalf 0 s op := by
      rintro s op - (⟨uop, rfl⟩ | ⟨root, value, rfl⟩)
      · trivial
      · intro h256
        exact absurd h256 (by decide)
    refine stepsMeet_of_inv (fun _ _ _ _ _ _ => trivial) hlower trivial ?_
    intro op hop
    simp only [List.mem_cons, List.not_mem_nil, or_false] at hop
    rcases hop with rfl | rfl | rfl | rfl
    · exact .inl ⟨_, rfl⟩
    · exact .inr ⟨_, _, rfl⟩
    · exact .inl ⟨_, rfl⟩
    · exact .inl ⟨_, rfl⟩

end Ceryx.Proc
