import Ceryx.Lib.RefCounts
import Ceryx.Proc.Execve
import Ceryx.Proc.ForkCopies
import Ceryx.Proc.Pids

/-!
# Ceryx.Proc.FailedFork — what a failed fork leaves behind

`Process::Fork` statement by statement, with its five ways to fail, and
`UserAddressSpace::Fork` and `Process::Reap` as it calls them. Over
`Ceryx.Proc.UserKernel` it has the reference counts of the descriptions and the
list nodes.

* `IntrusiveDoublyLinkedList::Remove` of a node that is on no list is not
  defined: what it does to the list is an input, `removeStray`, and `stray`
  lists these calls.
* `fork_userKernel`: it is the `Fork` of `UserKernel`, where no node is removed
  from a list that it is not on.
* `NoTrace`: what the parent, the pids, the descriptions, the scheduler and the
  address spaces are to be afterwards.
* `noTrace_iff`: a fork that fails leaves no trace if and only if it does not fail
  at `Resize` of the child's descriptor table.
-/

namespace Ceryx.Proc

open Fs Kernel Lib

/-- The descriptions that the slots of a table refer to. -/
def openSlots (table : FdTable) : List DescId :=
  (List.range table.length).filterMap (getFd table)

/-- With the reference counts. `stray` lists the processes whose `child_node` was
removed from a list that it is not on. -/
structure ForkWorld extends UserKernel where
  refs : RefCounts DescId
  stray : List ProcId

/-- How `UserAddressSpace::Fork` ends: without a root page, with an address space
that could not be cloned, or well. -/
inductive SpaceAlloc where
  | noRoot
  | notCloned
  | cloned
deriving DecidableEq, Repr

/-- What `Fork` is given: how the clone of the address space ends, whether
`new Process` and `Resize` of the child's table succeed, the kernel stack of the
new thread, and what `Remove` does to a list that the node is not on. -/
structure ForkEnv where
  space : SpaceAlloc
  process : Bool
  resize : Nat → Bool
  thread : Option Nat
  removeStray : List ProcId → ProcId → List ProcId

/-- One turn of the loop of `Fork` over the descriptor table, with `AddRef`. -/
def cloneRef (parent : FdTable) (child : FdTable × RefCounts DescId) (fd : Nat) :
    FdTable × RefCounts DescId :=
  match getFd parent fd with
  | none => child
  | some d => (child.1.set fd (some d), child.2.acquire d)

/-- The loop, after `Resize`. -/
def cloneRefs (parent : FdTable) (refs : RefCounts DescId) : FdTable × RefCounts DescId :=
  (List.range parent.length).foldl (cloneRef parent) (List.replicate parent.length none, refs)

namespace ForkWorld

variable (env : ForkEnv) (w : ForkWorld) (p : ProcId)

/-! ## Field updates -/

/-- The world with another state of the processes, -/
def withUser (u : UserKernel) : ForkWorld := { w with toUserKernel := u }

/-- or of the kernel. -/
def withKernel (k : Kernel) : ForkWorld := { w with toKernel := k }

/-- `UserAddressSpace::Destroy`. -/
def dropSpace (space : SpaceId) : ForkWorld := w.withUser (w.destroySpace space)

/-! ## The pieces -/

/-- `UserAddressSpace::Fork`. -/
def spaceFork : SpaceAlloc → Option SpaceId × ForkWorld
  | .noRoot => (none, w)
  | .notCloned => (none, (w.withUser w.newSpace).dropSpace w.nextSpace)
  | .cloned => (some w.nextSpace, w.withUser w.newSpace)

/-- `m_children.Remove(&child->child_node)`. -/
def remove (child : ProcId) : ForkWorld :=
  if child ∈ (w.procs p).children then w.withKernel (w.toKernel.removeChild p child)
  else
    { w.withKernel (w.updProc p fun q =>
        { q with children := env.removeStray q.children child }) with
      stray := w.stray ++ [child] }

/-- `Process::Reap`; the descriptor table goes with the object. -/
def reap (child : ProcId) : ForkWorld :=
  let space := (w.image child).addressSpace
  let table := (w.image child).fdTable
  let w := (w.withKernel (w.toKernel.reap child)).dropSpace space
  { w with refs := w.refs.releaseAll (openSlots table) }

/-- `new Process(pid, uas, m_root, m_cwd)`. -/
def newChild (k : Kernel) (pid : Nat) (space : SpaceId) : ForkWorld :=
  (w.withKernel (k.newProcess pid).2).withUser
    ({ w.toUserKernel with toKernel := (k.newProcess pid).2 }.setImage k.nextProc
      { addressSpace := space, root := (w.image p).root, cwd := (w.image p).cwd })

/-- The descriptor table, the signal actions and the heap bounds. -/
def cloneInto (child : ProcId) : ForkWorld :=
  let im := w.image p
  let cloned := cloneRefs im.fdTable w.refs
  { w.withUser (w.setImage child
      { w.image child with
        fdTable := cloned.1
        signalActions := UserKernel.cloneActions im.signalActions
        heapStart := im.heapStart
        heapEnd := im.heapEnd }) with
    refs := cloned.2 }

/-- The child is in the process tree, with a thread, or it is given up. -/
def finish (child : ProcId) (pid : Nat) : Option (Int × ForkWorld) :=
  let w := w.withKernel (w.linkChild p child)
  match env.thread with
  | none => some (-ENOMEM, (w.remove env p child).reap child)
  | some stack =>
      (w.startThread child stack).map fun k =>
        let w := w.withKernel k
        (pid, w.withUser (w.setAddressSpace child (w.image child).addressSpace))

/-- `Process::Fork` of process `p`, with the result of `sys_fork`. -/
def fork : Option (Int × ForkWorld) :=
  match w.spaceFork env.space with
  | (none, w) => some (-ENOMEM, w)
  | (some space, w) =>
      match w.toKernel.pidAlloc with
      | none => some (-EAGAIN, w.dropSpace space)
      | some (pid, k) =>
          if env.process = false then
            some (-ENOMEM, (w.withKernel (k.pidFree pid)).dropSpace space)
          else
            let child := k.nextProc
            let w := w.newChild p k pid space
            if env.resize (w.image p).fdTable.length = false then
              some (-ENOMEM, (w.remove env p child).reap child)
            else (w.cloneInto p child).finish env p child pid

end ForkWorld

/-! ## The property -/

/-- Nothing of the call is left. -/
structure NoTrace (p : ProcId) (w w' : ForkWorld) : Prop where
  children : (w'.procs p).children = (w.procs p).children
  fds : ∀ fd, getFd (w'.image p).fdTable fd = getFd (w.image p).fdTable fd
  actions : (w'.image p).signalActions = (w.image p).signalActions
  pids : w'.pidBitmap = w.pidBitmap
  /-- The live descriptions have the counts they had, and none was freed. -/
  refs : ∀ d, 0 < w.refs.count d →
    w'.refs.count d = w.refs.count d ∧ w'.refs.freed.count d = w.refs.freed.count d
  /-- No thread was added. -/
  sched : w'.toSched = w.toSched
  /-- The address spaces that the call has made are destroyed, each once, and no
  others. -/
  spaces : w'.destroyed =
    w.destroyed ++ List.range' w.nextSpace (w'.nextSpace - w.nextSpace)
  /-- Nodes were removed only from the list that they were on. -/
  stray : w'.stray = w.stray

/-- The state in which a process calls `Fork`. -/
structure Forkable (w : ForkWorld) (p : ProcId) : Prop where
  kernel : KernelInv w.toKernel
  made : p < w.nextProc
  /-- The pid of init has been issued. -/
  init : w.pidBitmap 1 = true

/-- A `Fork` that fails leaves no trace. -/
def ForkUndone : Prop :=
  ∀ (env : ForkEnv) (w w' : ForkWorld) (p : ProcId) (rax : Int), Forkable w p →
    w.fork env p = some (rax, w') → rax < 0 → NoTrace p w w'

/-- `Fork` comes to `Resize`, which fails. -/
def ResizeFails (env : ForkEnv) (w : ForkWorld) (p : ProcId) : Prop :=
  env.space = .cloned ∧ w.toKernel.pidAlloc ≠ none ∧ env.process = true ∧
    env.resize (w.image p).fdTable.length = false

/-! ## Descriptor tables -/

/-- The loop over the parent's descriptors acquires what it has copied so far. -/
theorem cloneRefs_prefix (parent : FdTable) (n : Nat) (child : FdTable) (refs : RefCounts DescId) :
    (List.range n).foldl (cloneRef parent) (child, refs) =
      ((List.range n).foldl (UserKernel.cloneSlot parent) child,
        refs.acquireAll ((List.range n).filterMap (getFd parent))) := by
  induction n with
  | zero => rfl
  | succ n ih =>
      rw [List.range_succ, List.foldl_append, ih, List.foldl_append, List.filterMap_append,
        RefCounts.acquireAll_append]
      cases hslot : getFd parent n with
      | none => simp [cloneRef, UserKernel.cloneSlot, hslot, RefCounts.acquireAll]
      | some d => simp [cloneRef, UserKernel.cloneSlot, hslot, RefCounts.acquireAll]

/-- The loop makes the copy, and takes a reference for each slot in use. -/
theorem cloneRefs_eq (parent : FdTable) (refs : RefCounts DescId) :
    cloneRefs parent refs =
      (UserKernel.cloneFds parent, refs.acquireAll (openSlots parent)) :=
  cloneRefs_prefix parent parent.length _ refs

/-- The child's table has the parent's descriptions. -/
theorem openSlots_cloneFds (parent : FdTable) :
    openSlots (UserKernel.cloneFds parent) = openSlots parent := by
  rcases cloneFds_prefix parent (Nat.le_refl parent.length) rfl with ⟨hlen, -⟩
  have hget : getFd (UserKernel.cloneFds parent) = getFd parent :=
    funext fun fd => getFd_cloneFds parent fd
  unfold openSlots
  rw [hget]
  exact congrArg (fun n => (List.range n).filterMap (getFd parent)) hlen

/-! ## The kernel -/

/-- A pid that has just been issued, and is not init's, goes back. -/
theorem pidFree_pidAlloc {k k₁ : Kernel} {pid : Nat} (hzero : k.pidBitmap 0 = true)
    (hone : k.pidBitmap 1 = true) (halloc : k.pidAlloc = some (pid, k₁)) :
    Function.update k₁.pidBitmap pid false = k.pidBitmap ∧ ¬ (pid < 2 ∨ kMaxPid ≤ pid) := by
  rcases pidAlloc_some halloc with ⟨hlt, hclear, rfl⟩
  constructor
  · dsimp only
    rw [Function.update_idem, ← hclear]
    exact Function.update_eq_self pid k.pidBitmap
  · have hne₀ : pid ≠ 0 := by
      rintro rfl
      rw [hzero] at hclear
      cases hclear
    have hne₁ : pid ≠ 1 := by
      rintro rfl
      rw [hone] at hclear
      cases hclear
    omega

/-- The process that is given up gives its pid back. -/
theorem bury_pidBitmap (k : Kernel) (p c : ProcId) :
    (k.bury p c).pidBitmap = (k.pidFree (k.procs c).pid).pidBitmap := by
  have hpid : ((k.removeChild p c).procs c).pid = (k.procs c).pid :=
    updProc_field Process.pid k p rfl c
  have hbury : (k.bury p c).pidBitmap =
      ((k.removeChild p c).pidFree ((k.removeChild p c).procs c).pid).pidBitmap := rfl
  rw [hbury, hpid]
  unfold Kernel.pidFree
  split
  · rfl
  · rfl

/-- A child that is made, linked and buried. -/
theorem stillborn_eq {k k₁ : Kernel} {p : ProcId} {pid : Nat} (h : KernelInv k)
    (hp : p < k.nextProc) (hone : k.pidBitmap 1 = true) (halloc : k.pidAlloc = some (pid, k₁))
    {k' : Kernel}
    (hk : ((k₁.newProcess pid).2.linkChild p k.nextProc).bury p k.nextProc = k') :
    k'.toSched = k.toSched ∧ k'.pidBitmap = k.pidBitmap ∧
      (k'.procs p).children = (k.procs p).children := by
  rcases pidAlloc_frame halloc with ⟨hsched, hprocs, hnext⟩
  rcases pidFree_pidAlloc h.tree.swapper hone halloc with ⟨hback, hrange⟩
  have hpc : p ≠ k.nextProc := Nat.ne_of_lt hp
  have hchildren : ((k₁.newProcess pid).2.procs p).children = (k.procs p).children := by
    rw [newProcess_ne k₁ pid (hnext ▸ hpc), hprocs]
  have hpid : (((k₁.newProcess pid).2.linkChild p k.nextProc).procs k.nextProc).pid = pid := by
    rw [linkChild_pid, ← hnext, newProcess_self]
  subst hk
  refine ⟨?_, ?_, ?_⟩
  · rw [bury_toSched]
    exact hsched
  · rw [bury_pidBitmap, hpid, Kernel.pidFree, if_neg hrange]
    exact hback
  · -- the child was at the end of the list
    have hnew : k.nextProc ∉ (k.procs p).children := by
      intro hmem
      exact absurd (h.tree.child p _ hmem).old (Nat.lt_irrefl _)
    rw [bury_children, if_pos rfl, linkChild_children_self, hchildren,
      List.erase_append_right _ hnew, List.erase_cons_head, List.append_nil]

/-! ## The exits -/

namespace ForkWorld

variable (env : ForkEnv) (w : ForkWorld) (p : ProcId)

/-- The child when it has been made. -/
def started (k : Kernel) (pid : Nat) : ForkWorld :=
  (w.withUser w.newSpace).newChild p k pid w.nextSpace

/-- The child when its fields are filled and it is in the process tree. -/
def linked (k : Kernel) (pid : Nat) : ForkWorld :=
  let w := (w.started p k pid).cloneInto p k.nextProc
  w.withKernel (w.linkChild p k.nextProc)

/-- `m_children.Remove(&child->child_node); child->Reap();`. -/
def giveUp (child : ProcId) : ForkWorld := (w.remove env p child).reap child

end ForkWorld

/-- `Fork` has come to `Resize`. -/
structure ForkReached (env : ForkEnv) (w : ForkWorld) (pid : Nat) (k : Kernel) : Prop where
  space : env.space = .cloned
  pid : w.toKernel.pidAlloc = some (pid, k)
  process : env.process = true

/-- How `Fork` ends. -/
inductive ForkExit (env : ForkEnv) (w : ForkWorld) (p : ProcId) : Int → ForkWorld → Prop where
  | noRoot (space : env.space = .noRoot) : ForkExit env w p (-ENOMEM) w
  | notCloned (space : env.space = .notCloned) :
      ForkExit env w p (-ENOMEM) ((w.withUser w.newSpace).dropSpace w.nextSpace)
  | noPid (space : env.space = .cloned) (nopid : w.toKernel.pidAlloc = none) :
      ForkExit env w p (-EAGAIN) ((w.withUser w.newSpace).dropSpace w.nextSpace)
  | noProcess {pid : Nat} {k : Kernel} (space : env.space = .cloned)
      (halloc : w.toKernel.pidAlloc = some (pid, k)) (process : env.process = false) :
      ForkExit env w p (-ENOMEM)
        (((w.withUser w.newSpace).withKernel (k.pidFree pid)).dropSpace w.nextSpace)
  | noFdTable {pid : Nat} {k : Kernel} (reached : ForkReached env w pid k)
      (resize : env.resize (w.image p).fdTable.length = false) :
      ForkExit env w p (-ENOMEM) ((w.started p k pid).giveUp env p k.nextProc)
  | noThread {pid : Nat} {k : Kernel} (reached : ForkReached env w pid k)
      (resize : env.resize (w.image p).fdTable.length = true) (thread : env.thread = none) :
      ForkExit env w p (-ENOMEM) ((w.linked p k pid).giveUp env p k.nextProc)
  | forks {pid stack : Nat} {k k' : Kernel} (reached : ForkReached env w pid k)
      (resize : env.resize (w.image p).fdTable.length = true) (thread : env.thread = some stack)
      (start : (w.linked p k pid).startThread k.nextProc stack = some k') :
      ForkExit env w p pid
        (((w.linked p k pid).withKernel k').withUser
          (((w.linked p k pid).withKernel k').setAddressSpace k.nextProc
            (((w.linked p k pid).withKernel k').image k.nextProc).addressSpace))

section
variable {env : ForkEnv} {w : ForkWorld} {p : ProcId}

/-- The parent's image while the child is made. -/
theorem started_image {k : Kernel} (pid : Nat) (hp : p ≠ k.nextProc) :
    (w.started p k pid).image p = w.image p :=
  Function.update_of_ne hp _ _

/-- `Fork` leaves through one of its exits. -/
theorem fork_exit {w' : ForkWorld} {rax : Int} (hp : p < w.nextProc)
    (hfork : w.fork env p = some (rax, w')) : ForkExit env w p rax w' := by
  unfold ForkWorld.fork at hfork
  cases hspace : env.space with
  | noRoot =>
      rw [hspace] at hfork
      cases hfork
      exact .noRoot hspace
  | notCloned =>
      rw [hspace] at hfork
      cases hfork
      exact .notCloned hspace
  | cloned =>
      rw [hspace] at hfork
      simp only [ForkWorld.spaceFork] at hfork
      cases halloc : w.toKernel.pidAlloc with
      | none =>
          have halloc' : (w.withUser w.newSpace).toKernel.pidAlloc = none := halloc
          rw [halloc'] at hfork
          cases hfork
          exact .noPid hspace halloc
      | some res =>
          obtain ⟨pid, k⟩ := res
          have halloc' : (w.withUser w.newSpace).toKernel.pidAlloc = some (pid, k) := halloc
          rw [halloc'] at hfork
          dsimp only at hfork
          -- the child is made, then its descriptor table, then its thread
          split at hfork
          · rename_i hprocess
            cases hfork
            exact .noProcess hspace halloc hprocess
          · rename_i hprocess
            have hreached : ForkReached env w pid k :=
              ⟨hspace, halloc, (Bool.not_eq_false _).mp hprocess⟩
            have hnext : k.nextProc = w.nextProc := (pidAlloc_frame halloc).2.2
            have himage := @started_image w p k pid (hnext ▸ Nat.ne_of_lt hp)
            unfold ForkWorld.started at himage
            rw [himage] at hfork
            split at hfork
            · rename_i hresize
              cases hfork
              exact .noFdTable hreached hresize
            · rename_i hresize
              rw [Bool.not_eq_false] at hresize
              unfold ForkWorld.finish at hfork
              dsimp only at hfork
              split at hfork
              · rename_i hthread
                cases hfork
                exact .noThread hreached hresize hthread
              · rename_i hthread
                rcases Option.map_eq_some_iff.mp hfork with ⟨k', hstart, heq⟩
                cases heq
                exact .forks hreached hresize hthread hstart

/-! ## What each exit leaves -/

/-- Nothing was done, nothing is left. -/
theorem noTrace_self : NoTrace p w w where
  children := rfl
  fds _ := rfl
  actions := rfl
  pids := rfl
  refs _ _ := ⟨rfl, rfl⟩
  sched := rfl
  spaces := by
    rw [Nat.sub_self]
    exact (List.append_nil _).symm
  stray := rfl

/-- One space is made and destroyed. -/
theorem one_space (u : UserKernel) :
    u.destroyed ++ [u.nextSpace] =
      u.destroyed ++ List.range' u.nextSpace (u.nextSpace + 1 - u.nextSpace) := by
  rw [Nat.add_sub_cancel_left]
  rfl

/-- An address space that is created and destroyed leaves no trace, -/
theorem noTrace_space : NoTrace p w ((w.withUser w.newSpace).dropSpace w.nextSpace) where
  children := rfl
  fds _ := rfl
  actions := rfl
  pids := rfl
  refs _ _ := ⟨rfl, rfl⟩
  sched := rfl
  spaces := one_space w.toUserKernel
  stray := rfl

/-- nor does a pid that is issued and freed with it. -/
theorem noTrace_noProcess {k : Kernel} {pid : Nat} (h : Forkable w p)
    (halloc : w.toKernel.pidAlloc = some (pid, k)) :
    NoTrace p w
      (((w.withUser w.newSpace).withKernel (k.pidFree pid)).dropSpace w.nextSpace) := by
  rcases pidAlloc_frame halloc with ⟨hsched, hprocs, -⟩
  -- the freed pid is the one that was taken, so the bitmap is the old one
  rcases pidFree_pidAlloc h.kernel.tree.swapper h.init halloc with ⟨hback, hrange⟩
  have hfree : k.pidFree pid = { k with pidBitmap := Function.update k.pidBitmap pid false } :=
    if_neg hrange
  rw [hfree]
  exact {
    children := congrArg (fun procs => (procs p).children) hprocs
    fds := fun _ => rfl
    actions := rfl
    pids := hback
    refs := fun _ _ => ⟨rfl, rfl⟩
    sched := hsched
    spaces := one_space w.toUserKernel
    stray := rfl }

/-- The child has its image, and the other processes have theirs. -/
theorem linked_image {k : Kernel} {pid : Nat} (hp : p ≠ k.nextProc) (q : ProcId) :
    (w.linked p k pid).image q =
      if q = k.nextProc then UserKernel.forkImage (w.image p) w.nextSpace else w.image q := by
  have hparent := @started_image w p k pid hp
  -- the child's image is written three times over, every other one never
  split
  · rename_i hq
    subst hq
    have hnew : (w.started p k pid).image k.nextProc =
        { addressSpace := w.nextSpace, root := (w.image p).root, cwd := (w.image p).cwd } :=
      Function.update_self _ _ _
    have hfilled : (w.linked p k pid).image k.nextProc =
        { (w.started p k pid).image k.nextProc with
          fdTable := (cloneRefs ((w.started p k pid).image p).fdTable w.refs).1
          signalActions := UserKernel.cloneActions ((w.started p k pid).image p).signalActions
          heapStart := ((w.started p k pid).image p).heapStart
          heapEnd := ((w.started p k pid).image p).heapEnd } :=
      Function.update_self _ _ _
    rw [hfilled, hparent, hnew, cloneRefs_eq]
    rfl
  · rename_i hq
    have hlinked : (w.linked p k pid).image q = (w.started p k pid).image q :=
      Function.update_of_ne hq _ _
    have hstarted : (w.started p k pid).image q = w.image q := Function.update_of_ne hq _ _
    rw [hlinked, hstarted]

/-- A linked child has acquired each of its parent's descriptions. -/
theorem linked_refs {k : Kernel} {pid : Nat} (hp : p ≠ k.nextProc) :
    (w.linked p k pid).refs = w.refs.acquireAll (openSlots (w.image p).fdTable) := by
  have hrefs : (w.linked p k pid).refs =
      (cloneRefs ((w.started p k pid).image p).fdTable w.refs).2 := rfl
  rw [hrefs, @started_image w p k pid hp, cloneRefs_eq]

/-- The child is on the list that it is removed from. -/
theorem giveUp_linked {k : Kernel} (pid : Nat) :
    (w.linked p k pid).giveUp env p k.nextProc =
      ((w.linked p k pid).withKernel
        ((w.linked p k pid).toKernel.removeChild p k.nextProc)).reap k.nextProc := by
  have hmem : k.nextProc ∈ ((w.linked p k pid).procs p).children := by
    have hchildren : ((w.linked p k pid).procs p).children =
        (((k.newProcess pid).2.linkChild p k.nextProc).procs p).children := rfl
    rw [hchildren, linkChild_children_self]
    exact List.mem_append_right _ (List.mem_singleton.mpr rfl)
  unfold ForkWorld.giveUp ForkWorld.remove
  rw [if_pos hmem]

/-- A child that gets no thread releases what it has acquired, and is unlinked and
deleted. -/
theorem noTrace_noThread {k : Kernel} {pid : Nat} (h : Forkable w p)
    (halloc : w.toKernel.pidAlloc = some (pid, k)) :
    NoTrace p w ((w.linked p k pid).giveUp env p k.nextProc) := by
  have hnext : k.nextProc = w.nextProc := (pidAlloc_frame halloc).2.2
  have hp : p ≠ k.nextProc := hnext ▸ Nat.ne_of_lt h.made
  have hparent : (w.linked p k pid).image p = w.image p := by
    rw [linked_image hp, if_neg hp]
  have hchild : (w.linked p k pid).image k.nextProc =
      UserKernel.forkImage (w.image p) w.nextSpace := by
    rw [linked_image hp, if_pos rfl]
  -- the child is on the list, so giving it up takes back all that was done
  rw [giveUp_linked]
  generalize hworld : ((w.linked p k pid).withKernel
    ((w.linked p k pid).toKernel.removeChild p k.nextProc)).reap k.nextProc = w'
  have hkernel : ((k.newProcess pid).2.linkChild p w.nextProc).bury p w.nextProc =
      w'.toKernel := by
    rw [← hworld, ← hnext]
    rfl
  rcases stillborn_eq h.kernel h.made h.init halloc hkernel with ⟨hsched, hbitmap, hchildren⟩
  have himage : w'.image p = w.image p := by
    rw [← hworld]
    exact hparent
  constructor
  case children => exact hchildren
  case fds =>
    intro fd
    rw [himage]
  case actions => rw [himage]
  case pids => exact hbitmap
  case refs =>
    intro d hd
    have hrelease : w'.refs = (w.refs.acquireAll (openSlots (w.image p).fdTable)).releaseAll
        (openSlots (w.image p).fdTable) := by
      have htable : UserKernel.cloneFds (w.image p).fdTable =
          ((w.linked p k pid).image k.nextProc).fdTable := by
        rw [hchild]
        rfl
      rw [← @linked_refs w p k pid hp, ← openSlots_cloneFds, htable, ← hworld]
      rfl
    rw [hrelease]
    exact RefCounts.releaseAll_acquireAll w.refs _ hd
  case sched => exact hsched
  case spaces =>
    have hspace : w.nextSpace = ((w.linked p k pid).image k.nextProc).addressSpace := by
      rw [hchild]
      rfl
    have hdrop : w'.destroyed = w.destroyed ++ [w.nextSpace] := by
      rw [hspace, ← hworld]
      rfl
    have hnames : w'.nextSpace = w.nextSpace + 1 := by
      rw [← hworld]
      rfl
    rw [hdrop, hnames]
    exact one_space w.toUserKernel
  case stray =>
    rw [← hworld]
    rfl

/-- Behind `Resize` the child is on no list yet. -/
theorem stray_noFdTable {k : Kernel} {pid : Nat} (h : Forkable w p)
    (halloc : w.toKernel.pidAlloc = some (pid, k)) :
    ((w.started p k pid).giveUp env p k.nextProc).stray = w.stray ++ [k.nextProc] := by
  rcases pidAlloc_frame halloc with ⟨-, hprocs, hnext⟩
  have hp : p ≠ k.nextProc := hnext ▸ Nat.ne_of_lt h.made
  have hfresh : k.nextProc ∉ ((w.started p k pid).procs p).children := by
    have hchildren : (w.started p k pid).procs p = w.procs p := by
      have hnew : (w.started p k pid).procs p = (k.newProcess pid).2.procs p := rfl
      rw [hnew, newProcess_ne k pid hp, hprocs]
    rw [hchildren, hnext]
    intro hmem
    exact absurd (h.kernel.tree.child p _ hmem).old (Nat.lt_irrefl _)
  unfold ForkWorld.giveUp ForkWorld.remove
  rw [if_neg hfresh]
  rfl

/-- A fork that fails leaves no trace if and only if it does not fail at `Resize` of
the child's descriptor table. -/
theorem noTrace_iff {w' : ForkWorld} {rax : Int} (h : Forkable w p)
    (hfork : w.fork env p = some (rax, w')) (hrax : rax < 0) :
    NoTrace p w w' ↔ ¬ ResizeFails env w p := by
  cases fork_exit h.made hfork with
  | noRoot space =>
      refine iff_of_true noTrace_self ?_
      rintro ⟨hcloned, -⟩
      rw [space] at hcloned
      cases hcloned
  | notCloned space =>
      refine iff_of_true noTrace_space ?_
      rintro ⟨hcloned, -⟩
      rw [space] at hcloned
      cases hcloned
  | noPid space nopid =>
      refine iff_of_true noTrace_space ?_
      rintro ⟨-, hleft, -⟩
      exact hleft nopid
  | noProcess space halloc process =>
      refine iff_of_true (noTrace_noProcess h halloc) ?_
      rintro ⟨-, -, hnew, -⟩
      rw [process] at hnew
      cases hnew
  | noThread reached resize thread =>
      refine iff_of_true (noTrace_noThread h reached.pid) ?_
      rintro ⟨-, -, -, hfails⟩
      rw [resize] at hfails
      cases hfails
  | noFdTable reached resize =>
      -- `Remove` of a node that is on no list
      have hfails : ResizeFails env w p := by
        refine ⟨reached.space, ?_, reached.process, resize⟩
        rw [reached.pid]
        exact nofun
      refine iff_of_false ?_ (not_not.mpr hfails)
      intro htrace
      have hstray := htrace.stray
      rw [stray_noFdTable h reached.pid] at hstray
      exact absurd (congrArg List.length hstray) (by simp)
  | forks _ _ _ _ => exact absurd hrax (Int.not_lt.mpr (Int.natCast_nonneg _))

/-! ## The fork of UserKernel -/

/-- The allocation that fails first, as the fork of the process tree has it. -/
def ForkEnv.alloc (env : ForkEnv) (slots : Nat) : ForkAlloc :=
  if env.space ≠ .cloned then .noAddressSpace
  else if env.process = false then .noProcess
  else if env.resize slots = false then .noFdTable
  else
    match env.thread with
    | none => .noThread
    | some stack => .enough stack

/-- The two states show the same: a child that is given up keeps no image. -/
structure ShowsFork (w : ForkWorld) (rax : Int) (u' : UserKernel) (w' : ForkWorld) : Prop where
  kernel : u'.toKernel = w'.toKernel
  image : ∀ q, q ≠ w.nextProc ∨ 0 ≤ rax → u'.image q = w'.image q

/-- A `fork` that fails behind the new address space destroys it. -/
theorem userFork_failed {u : UserKernel} {alloc : ForkAlloc} {rax : Int} {k : Kernel}
    (hne : alloc ≠ .noAddressSpace) (hrax : rax < 0)
    (hk : u.toKernel.fork p alloc = some (rax, k)) :
    u.fork p alloc =
      some (rax, ({ u with toKernel := k }.newSpace).destroySpace u.nextSpace) := by
  unfold UserKernel.fork
  rw [hk, Option.map_some]
  dsimp only
  rw [if_neg hne, if_pos hrax]

/-- One that succeeds gives it to the child. -/
theorem userFork_done {u : UserKernel} {alloc : ForkAlloc} {rax : Int} {k : Kernel}
    (hne : alloc ≠ .noAddressSpace) (hrax : 0 ≤ rax)
    (hk : u.toKernel.fork p alloc = some (rax, k)) :
    u.fork p alloc =
      some (rax, ({ u with toKernel := k }.newSpace).giveImage u.nextProc
        (UserKernel.forkImage (u.image p) u.nextSpace)) := by
  unfold UserKernel.fork
  rw [hk, Option.map_some]
  dsimp only
  rw [if_neg hne, if_neg (Int.not_lt.mpr hrax)]

/-- Where no node is removed from a list that it is not on, this `Fork` is the one
of `UserKernel`. -/
theorem fork_userKernel {w' : ForkWorld} {rax : Int} (h : Forkable w p)
    (hfork : w.fork env p = some (rax, w')) (hno : ¬ ResizeFails env w p) :
    ∃ u', w.toUserKernel.fork p (env.alloc (w.image p).fdTable.length) = some (rax, u') ∧
      ShowsFork w rax u' w' := by
  cases fork_exit h.made hfork with
  | noRoot space =>
      have halloc : env.alloc (w.image p).fdTable.length = .noAddressSpace := by
        simp [ForkEnv.alloc, space]
      rw [halloc]
      exact ⟨_, rfl, rfl, fun _ _ => rfl⟩
  | notCloned space =>
      have halloc : env.alloc (w.image p).fdTable.length = .noAddressSpace := by
        simp [ForkEnv.alloc, space]
      rw [halloc]
      exact ⟨_, rfl, rfl, fun _ _ => rfl⟩
  | noPid space nopid =>
      have halloc : env.alloc (w.image p).fdTable.length ≠ .noAddressSpace := by
        unfold ForkEnv.alloc
        rw [if_neg (not_not.mpr space)]
        repeat' split
        all_goals exact nofun
      have hkernel : w.toKernel.fork p (env.alloc (w.image p).fdTable.length) =
          some (-EAGAIN, w.toKernel) := by
        simp [Kernel.fork, halloc, nopid]
      exact ⟨_, userFork_failed halloc (by decide) hkernel, rfl, fun _ _ => rfl⟩
  | @noProcess pid k space halloc process =>
      have hchoice : env.alloc (w.image p).fdTable.length = .noProcess := by
        simp [ForkEnv.alloc, space, process]
      have hkernel : w.toKernel.fork p .noProcess = some (-ENOMEM, k.pidFree pid) := by
        simp [Kernel.fork, halloc]
      rw [hchoice]
      exact ⟨_, userFork_failed nofun (by decide) hkernel, rfl, fun _ _ => rfl⟩
  | @noThread pid k reached resize thread =>
      have hnext : k.nextProc = w.nextProc := (pidAlloc_frame reached.pid).2.2
      have hp : p ≠ k.nextProc := hnext ▸ Nat.ne_of_lt h.made
      have hchoice : env.alloc (w.image p).fdTable.length = .noThread := by
        simp [ForkEnv.alloc, reached.space, reached.process, resize, thread]
      have hkernel : w.toKernel.fork p .noThread =
          some (-ENOMEM, ((k.newProcess pid).2.linkChild p k.nextProc).bury p k.nextProc) := by
        simp [Kernel.fork, reached.pid]
        rfl
      rw [hchoice, giveUp_linked]
      refine ⟨_, userFork_failed nofun (by decide) hkernel, rfl, ?_⟩
      -- the images of all processes but the child's are those from before
      rintro q (hq | hq)
      · have hsame : (w.linked p k pid).image q = w.image q := by
          rw [linked_image hp, if_neg (hnext ▸ hq)]
        exact hsame.symm
      · exact absurd hq (by decide)
  | noFdTable reached resize =>
      refine absurd ⟨reached.space, ?_, reached.process, resize⟩ hno
      rw [reached.pid]
      exact nofun
  | @forks pid stack k k' reached resize thread start =>
      have hnext : k.nextProc = w.nextProc := (pidAlloc_frame reached.pid).2.2
      have hp : p ≠ k.nextProc := hnext ▸ Nat.ne_of_lt h.made
      have hchoice : env.alloc (w.image p).fdTable.length = .enough stack := by
        simp [ForkEnv.alloc, reached.space, reached.process, resize, thread]
      have hkernel : w.toKernel.fork p (.enough stack) = some ((pid : Int), k') := by
        have hstart : ((k.newProcess pid).2.linkChild p k.nextProc).startThread k.nextProc stack =
            some k' := start
        have hchild : (k.newProcess pid).1 = k.nextProc := rfl
        simp [Kernel.fork, reached.pid, hchild, hstart]
      have hspace : (((w.linked p k pid).withKernel k').image k.nextProc).addressSpace =
          w.nextSpace := by
        have himage := @linked_image w p k pid hp k.nextProc
        rw [if_pos rfl] at himage
        exact congrArg ProcessImage.addressSpace himage
      rw [hchoice, hspace]
      refine ⟨_, userFork_done nofun (Int.natCast_nonneg pid) hkernel, ?_, ?_⟩
      · rw [hnext]
        rfl
      · intro q _
        have himage := @linked_image w p k pid hp
        by_cases hq : q = w.nextProc
        · -- the child has a copy of the parent's image, on its own address space
          subst hq
          rw [UserKernel.giveImage_self, ← hnext]
          have hlast : ∀ u : UserKernel, (u.setAddressSpace k.nextProc w.nextSpace).image
              k.nextProc = { u.image k.nextProc with addressSpace := w.nextSpace } :=
            fun u => Function.update_self _ _ _
          refine Eq.trans ?_ (hlast ((w.linked p k pid).withKernel k').toUserKernel).symm
          have hchild : ((w.linked p k pid).withKernel k').image k.nextProc =
              UserKernel.forkImage (w.image p) w.nextSpace := by
            have hself := himage k.nextProc
            rw [if_pos rfl] at hself
            exact hself
          rw [hchild]
          rfl
        · rw [UserKernel.giveImage_ne _ _ hq]
          have hother : ∀ u : UserKernel, (u.setAddressSpace k.nextProc w.nextSpace).image q =
              u.image q :=
            fun u => Function.update_of_ne (hnext ▸ hq) _ _
          refine Eq.trans ?_ (hother ((w.linked p k pid).withKernel k').toUserKernel).symm
          have hsame : ((w.linked p k pid).withKernel k').image q = w.image q := by
            have hne := himage q
            rw [if_neg (hnext ▸ hq)] at hne
            exact hne
          exact hsame.symm

end

/-! ## In every run -/

/-- Pid 1 is never given back, -/
theorem pidFree_one (k : Kernel) (pid : Nat) : (k.pidFree pid).pidBitmap 1 = k.pidBitmap 1 := by
  unfold Kernel.pidFree
  split
  · rfl
  · rename_i hrange
    have hne : 1 ≠ pid := by omega
    exact Function.update_of_ne hne _ _

/-- so it stays issued when another is issued, -/
theorem pidAlloc_one {k k₁ : Kernel} {pid : Nat} (h : k.pidBitmap 1 = true)
    (halloc : k.pidAlloc = some (pid, k₁)) : k₁.pidBitmap 1 = true := by
  rcases pidAlloc_some halloc with ⟨-, -, rfl⟩
  dsimp only
  by_cases hpid : 1 = pid
  · subst hpid
    rw [Function.update_self]
  · rw [Function.update_of_ne hpid]
    exact h

/-- when a process is deleted, -/
theorem bury_one (k : Kernel) (p c : ProcId) : (k.bury p c).pidBitmap 1 = k.pidBitmap 1 := by
  rw [bury_pidBitmap, pidFree_one]

/-- when the scheduler runs, -/
theorem sched_pidBitmap {k k' : Kernel} {op : SchedOp} (hstep : k.sched op = some k') :
    k'.pidBitmap = k.pidBitmap := by
  unfold Kernel.sched at hstep
  split at hstep
  · rcases Option.map_eq_some_iff.mp hstep with ⟨s, -, rfl⟩
    rfl
  · cases hstep

/-- when a thread is started, -/
theorem startThread_pidBitmap {k k' : Kernel} {p : ProcId} {stack : Nat}
    (hstart : k.startThread p stack = some k') : k'.pidBitmap = k.pidBitmap := by
  rcases Option.map_eq_some_iff.mp hstart with ⟨s, -, rfl⟩
  rfl

/-- and when a process forks, with success or without. -/
theorem fork_one {k k' : Kernel} {p : ProcId} {alloc : ForkAlloc} {rax : Int}
    (h : k.pidBitmap 1 = true) (hfork : k.fork p alloc = some (rax, k')) :
    k'.pidBitmap 1 = true := by
  cases fork_cases hfork with
  | nothing _ => exact h
  -- the pid comes back, but `PidFree` never gives back pid 1
  | pidBack halloc =>
      rw [pidFree_one]
      exact pidAlloc_one h halloc
  | stillborn linked halloc =>
      have hone := pidAlloc_one h halloc
      rw [bury_one]
      cases linked with
      | false => exact hone
      | true => exact hone
  -- neither linking nor starting the thread touches the bitmap
  | forks halloc start =>
      rw [startThread_pidBitmap start]
      have hlink : ∀ (k : Kernel) (pid : Nat) (p c : ProcId),
          ((k.newProcess pid).2.linkChild p c).pidBitmap = k.pidBitmap := fun _ _ _ _ => rfl
      rw [hlink]
      exact pidAlloc_one h halloc

/-- The bit of init is not cleared by a step of the kernel. -/
theorem kernelStep_one {k k' : Kernel} {op : KernelOp} (h : k.pidBitmap 1 = true)
    (hstep : kernelStep k op = some k') : k'.pidBitmap 1 = true := by
  cases op with
  | fork alloc =>
      simp only [kernelStep] at hstep
      rcases syscall_eq hstep with ⟨t, p, -, -, hf⟩
      rcases Option.map_eq_some_iff.mp hf with ⟨⟨rax, k''⟩, hfork, rfl⟩
      exact fork_one h hfork
  | clone stack =>
      simp only [kernelStep] at hstep
      rcases syscall_eq hstep with ⟨t, p, -, -, hf⟩
      rcases Option.map_eq_some_iff.mp hf with ⟨res, hclone, rfl⟩
      rcases Option.map_eq_some_iff.mp hclone with ⟨k₁, hstart, rfl⟩
      rw [startThread_pidBitmap hstart]
      exact h
  | exit status =>
      simp only [kernelStep] at hstep
      rcases syscall_eq hstep with ⟨t, p, -, -, hf⟩
      rcases Option.map_eq_some_iff.mp hf with ⟨s, -, rfl⟩
      have hexit : (k.exitProcess p status).pidBitmap = k.pidBitmap := by
        unfold exitProcess
        dsimp only
        split
        · rfl
        · rfl
      exact (congrFun hexit 1).trans h
  | waitpid wpid options =>
      simp only [kernelStep] at hstep
      rcases syscall_eq hstep with ⟨t, p, -, -, hf⟩
      cases hf
      unfold Kernel.waitpid
      split
      · exact h
      · split
        · -- a zombie is buried, which clears the bit of its own pid
          exact (bury_one k p _).trans h
        · split
          · exact h
          · exact h
  | resume =>
      rcases Option.bind_eq_some_iff.mp hstep with ⟨⟨t, p⟩, -, hbind⟩
      rcases Option.bind_eq_some_iff.mp hbind with ⟨c, -, hif⟩
      split at hif
      · cases hif
      · cases hif
        unfold waitResume
        split
        · exact (bury_one (k.setWaiting t none) p c).trans h
        · exact h
  | tick | yield | block addr | wake addr wakeAll =>
      -- the scheduler has no part in the bitmap
      rw [sched_pidBitmap hstep]
      exact h
  | drain =>
      have hdrain := reaper_eq hstep
      split at hdrain
      · cases hdrain
        exact h
      · cases hdrain
  | reclaim =>
      have hreclaim := reaper_eq hstep
      unfold reclaim at hreclaim
      split at hreclaim
      · cases hreclaim
      · split at hreclaim
        · cases hreclaim
        · cases hreclaim
          exact h

/-- No call frees it. -/
theorem initPid_stable : UserStable fun k => k.pidBitmap 1 = true where
  step := fun h hstep => kernelStep_one h hstep
  setRoots := fun _ _ h => h
  setSignals := fun _ _ h => h

/-- The first process has it, -/
theorem spawn_one {s : Sched} {load : Bool} {stack : Nat} {k : Kernel}
    (hspawn : (ofSched s).spawn load stack = some k) : k.pidBitmap 1 = true := by
  have hnew : ∀ k : Kernel,
      ({ k with pidBitmap := Function.update k.pidBitmap 1 true }.newProcess 1).2.pidBitmap 1 =
        true := by
    intro k
    simp [newProcess]
  have hdestroy : ∀ (k : Kernel) (p : ProcId), (k.destroy p).pidBitmap 1 = k.pidBitmap 1 :=
    fun k p => pidFree_one k (k.procs p).pid
  unfold spawn at hspawn
  rw [first_pid fun _ => rfl] at hspawn
  dsimp only [Option.getD_some] at hspawn
  -- `init` has pid 1, and `PidFree` does not give it back when the load fails
  split at hspawn
  · rw [startThread_pidBitmap hspawn]
    exact hnew _
  · cases hspawn
    rw [hdestroy]
    exact hnew _

/-- from the boot on. -/
theorem boot_one {rootPa : Option ProcId → Nat} {spaceRoot : SpaceId → Nat} {root : VnodeRef}
    {idleStack reaperStack initStack : Nat} {outcome : UserKernel.LoadOutcome} {u : UserKernel}
    (hboot : UserKernel.boot rootPa spaceRoot root idleStack reaperStack initStack outcome =
      some u) : u.pidBitmap 1 = true := by
  have hkernel : ∀ {load : Bool} {k : Kernel},
      Kernel.boot rootPa idleStack reaperStack initStack load = some k → k.pidBitmap 1 = true := by
    intro load k hk
    rcases Option.bind_eq_some_iff.mp hk with ⟨s, -, hspawn⟩
    exact spawn_one hspawn
  unfold UserKernel.boot at hboot
  split at hboot
  · rcases Option.map_eq_some_iff.mp hboot with ⟨k, hk, rfl⟩
    have hone := hkernel hk
    exact hone
  · rcases Option.map_eq_some_iff.mp hboot with ⟨k, hk, rfl⟩
    have hone := hkernel hk
    exact hone

/-- In every run a process that calls `Fork` is `Forkable`, whatever its descriptors
are and whoever else refers to them. -/
theorem run_forkable {rootPa : Option ProcId → Nat} {spaceRoot : SpaceId → Nat} {root : VnodeRef}
    {idleStack reaperStack initStack : Nat} {outcome : UserKernel.LoadOutcome}
    {u₀ u : UserKernel} {ops : List UserOp} {w : ForkWorld} {t : Tid} {p : ProcId}
    (hboot : UserKernel.boot rootPa spaceRoot root idleStack reaperStack initStack outcome =
      some u₀) (hrun : run userStep u₀ ops = some u) (hcall : u.caller = some (t, p))
    (hw : w.toKernel = u.toKernel) : Forkable w p := by
  -- pid 1 stays taken over every run from boot
  have hkernel : KernelInv u.toKernel ∧ u.pidBitmap 1 = true := by
    apply inv_of_run (I := fun u => KernelInv u.toKernel ∧ u.pidBitmap 1 = true) ?_
      ⟨(boot_spaceInv hboot).kernel, boot_one hboot⟩ hrun
    rintro u op u' ⟨h, hone⟩ hstep
    exact ⟨userStep_kernelInv h hstep, initPid_stable.keeps hone hstep⟩
  constructor
  · rw [hw]
    exact hkernel.1
  · rw [hw]
    exact hkernel.1.tree.threadProcess t p (caller_eq hcall).2.1
  · rw [hw]
    exact hkernel.2

/-! ## Two forks of /sbin/init -/

/-- Process 0 has one open description, which nobody else has. -/
def openWorld (u : UserKernel) : ForkWorld where
  toUserKernel := u.setImage 0 { u.image 0 with fdTable := [some 0] }
  refs := ⟨fun d => if d = 0 then 1 else 0, []⟩
  stray := []

/-- Memory runs out at `new Thread`. -/
def noThreadEnv : ForkEnv := ⟨.cloned, true, fun _ => true, none, fun children _ => children⟩

/-- Memory runs out at `Resize`. -/
def noFdTableEnv : ForkEnv := ⟨.cloned, true, fun _ => false, none, fun children _ => children⟩

/-- A `fork` of the first process that finds no memory for a thread. -/
theorem init_fork_undone :
    ∃ u w', (initBoot.bind fun u => run userStep u [.kernel .yield]) = some u ∧
      (openWorld u).fork noThreadEnv 0 = some (-ENOMEM, w') ∧ NoTrace 0 (openWorld u) w' := by
  rcases exists_run userStep [.kernel .yield] (o := initBoot)
    (P := fun u => u.caller = some (3, 0) ∧
      ((openWorld u).fork noThreadEnv 0).map Prod.fst = some (-ENOMEM))
    (by decide +kernel) with ⟨u₀, u, hboot, hrun, hcall, hresult⟩
  rcases Option.map_eq_some_iff.mp hresult with ⟨⟨rax, w'⟩, hfork, hrax⟩
  cases hrax
  have h : Forkable (openWorld u) 0 := run_forkable hboot hrun hcall rfl
  refine ⟨u, w', by rw [hboot]; exact hrun, hfork, (noTrace_iff h hfork (by decide)).mpr ?_⟩
  rintro ⟨-, -, -, hfails⟩
  cases hfails

/-- The child's node is removed from a list that it is not on. -/
theorem stray_removal : ¬ ForkUndone := by
  intro hlaw
  rcases exists_run userStep [.kernel .yield] (o := initBoot)
    (P := fun u => u.caller = some (3, 0) ∧
      ((openWorld u).fork noFdTableEnv 0).map (fun r => (r.1, r.2.stray)) = some (-ENOMEM, [1]))
    (by decide +kernel) with ⟨u₀, u, hboot, hrun, hcall, hresult⟩
  rcases Option.map_eq_some_iff.mp hresult with ⟨⟨rax, w'⟩, hfork, heq⟩
  obtain ⟨hrax, hstray⟩ := Prod.mk.inj heq
  have hneg : rax < 0 := by
    rw [show rax = -ENOMEM from hrax]
    decide
  have htrace := hlaw noFdTableEnv _ w' 0 rax (run_forkable hboot hrun hcall rfl) hfork hneg
  rw [htrace.stray] at hstray
  cases hstray

end Ceryx.Proc
