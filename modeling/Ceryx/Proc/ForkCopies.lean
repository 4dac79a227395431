import Ceryx.Fs.FdMap
import Ceryx.Proc.ProcTree
import Ceryx.Proc.UserKernel

/-!
# Ceryx.Proc.ForkCopies — what fork copies

`Process::Fork` clones the descriptor table slot by slot, the signal actions
entry by entry and the heap bounds; the constructor takes root and cwd. The
child's thread is a new one: its blocked mask is the initial 0, whatever the
mask of the thread that forks.

* `fork_success`: the state after a `Fork` that succeeds.
* `forkDuplicates_iff`: everything is duplicated if and only if the calling
  thread blocks no signal.
-/

namespace Ceryx.Proc

open Fs Kernel Lib

/-- `Fork` by thread `t` of process `p` has duplicated it. The child and its
thread are the next of their kind. -/
structure ForkDuplicates (u : UserKernel) (t : Tid) (p : ProcId) (u' : UserKernel) : Prop where
  fds : ∀ fd, getFd (u'.image u.nextProc).fdTable fd = getFd (u.image p).fdTable fd
  actions : ∀ sig, 1 ≤ sig → sig < NSIG →
    (u'.image u.nextProc).getSignalAction sig = (u.image p).getSignalAction sig
  heap : (u'.image u.nextProc).heapStart = (u.image p).heapStart ∧
    (u'.image u.nextProc).heapEnd = (u.image p).heapEnd
  root : (u'.image u.nextProc).root = (u.image p).root
  cwd : (u'.image u.nextProc).cwd = (u.image p).cwd
  thread : (u'.threads u.nextTid).process = some u.nextProc
  blocked : (u'.threads u.nextTid).blockedSignals = (u.threads t).blockedSignals
  pending : (u'.threads u.nextTid).pendingSignals = 0
  /-- The parent has one more child, and nothing else of it has changed. -/
  parent : u'.procs p = { u.procs p with children := (u.procs p).children ++ [u.nextProc] }
  parentImage : u'.image p = u.image p
  parentThreads : ∀ s, s < u.nextTid → u'.threads s = u.threads s

/-! ## The loops -/

open UserKernel in
/-- The child's table after `n` turns: the slots below `n` are the parent's, the
others as `Resize` made them. -/
theorem cloneFds_prefix (parent : FdTable) {n : Nat} (hn : n ≤ parent.length) {child : FdTable}
    (hchild : (List.range n).foldl (cloneSlot parent) (List.replicate parent.length none) = child) :
    child.length = parent.length ∧
      ∀ fd, getFd child fd = if fd < n then getFd parent fd else none := by
  induction n generalizing child with
  | zero =>
      subst hchild
      refine ⟨List.length_replicate, ?_⟩
      intro fd
      rw [if_neg (Nat.not_lt_zero fd)]
      unfold getFd
      rw [List.range_zero, List.foldl_nil, List.getElem?_replicate]
      split
      · rfl
      · rfl
  | succ n ih =>
      rw [List.range_succ, List.foldl_append, List.foldl_cons, List.foldl_nil] at hchild
      obtain ⟨prev, hprev⟩ : ∃ prev,
        (List.range n).foldl (cloneSlot parent) (List.replicate parent.length none) = prev := ⟨_, rfl⟩
      obtain ⟨hlen, hget⟩ := ih (Nat.le_of_succ_le hn) hprev
      rw [hprev] at hchild
      have hbelow : ∀ fd, fd ≠ n → (fd < n ↔ fd < n + 1) := by omega
      unfold cloneSlot at hchild
      split at hchild
      · -- an empty slot is left as `Resize` made it
        rename_i hslot
        rw [← hchild]
        refine ⟨hlen, ?_⟩
        intro fd
        rw [hget]
        by_cases hfd : fd = n
        · subst hfd
          rw [if_neg (Nat.lt_irrefl fd), if_pos (Nat.lt_succ_self fd), hslot]
        · simp only [hbelow fd hfd]
      · rename_i d hslot
        rw [← hchild]
        refine ⟨(List.length_set).trans hlen, ?_⟩
        intro fd
        rw [getFd_set _ (by omega), hget]
        by_cases hfd : fd = n
        · subst hfd
          rw [if_pos rfl, if_pos (Nat.lt_succ_self fd), hslot]
        · rw [if_neg hfd]
          simp only [hbelow fd hfd]

/-- The child's table shows the same descriptions. -/
theorem getFd_cloneFds (parent : FdTable) (fd : Nat) :
    getFd (UserKernel.cloneFds parent) fd = getFd parent fd := by
  obtain ⟨-, hget⟩ := cloneFds_prefix parent (Nat.le_refl parent.length) rfl
  refine (hget fd).trans ?_
  split
  · rfl
  · rename_i hfd
    exact (getFd_beyond (Nat.le_of_not_lt hfd)).symm

theorem cloneActions_prefix (parent : SignalActions) (n i : Nat) :
    (List.range n).foldl (fun child i => Function.update child i (parent i))
      (fun _ => ({} : SigAction)) i = if i < n then parent i else {} := by
  induction n with
  | zero => rfl
  | succ n ih =>
      rw [List.range_succ, List.foldl_append]
      simp only [List.foldl_cons, List.foldl_nil]
      by_cases hi : i = n
      · subst hi
        rw [Function.update_self, if_pos (Nat.lt_succ_self i)]
      · rw [Function.update_of_ne hi, ih]
        have hiff : i < n ↔ i < n + 1 := by omega
        simp only [hiff]

theorem signalSlot_lt (sig : Nat) : signalSlot sig < NSIG := by
  unfold signalSlot
  split
  · decide
  · omega

/-- The child's actions are the parent's, for every argument of
`GetSignalAction`. -/
theorem getSignalAction_forkImage (parent : ProcessImage) (space : SpaceId) (sig : Nat) :
    (UserKernel.forkImage parent space).getSignalAction sig = parent.getSignalAction sig := by
  have hslot := cloneActions_prefix parent.signalActions NSIG (signalSlot sig)
  rw [if_pos (signalSlot_lt sig)] at hslot
  exact hslot

/-! ## A fork that succeeds -/

/-- The kernel after a `Fork` whose result is no error. -/
theorem kernelFork_success {k k' : Kernel} {p : ProcId} {alloc : ForkAlloc} {rax : Int}
    (hfork : k.fork p alloc = some (rax, k')) (hrax : 0 ≤ rax) :
    ∃ pid k₁ stack, k.pidAlloc = some (pid, k₁) ∧ alloc = .enough stack ∧
      ((k₁.newProcess pid).2.linkChild p k.nextProc).startThread k.nextProc stack = some k' := by
  cases fork_cases hfork with
  | nothing hneg => exact absurd hrax (Int.not_le.mpr hneg)
  | pidBack halloc => exact absurd hrax (by decide)
  | stillborn linked halloc => exact absurd hrax (by decide)
  | forks halloc start => exact ⟨_, _, _, halloc, rfl, start⟩

/-- `startThread` makes one thread and leaves the processes alone. -/
theorem startThread_eq {k k' : Kernel} {p : ProcId} {stack : Nat}
    (hstart : k.startThread p stack = some k') :
    k'.procs = k.procs ∧ KeepsNew k.toSched (some p) stack k'.toSched ∧
      ∀ s, s ≠ k.nextTid → k'.threads s = k.threads s := by
  rcases Option.map_eq_some_iff.mp hstart with ⟨s, hadd, rfl⟩
  refine ⟨rfl, addThread_keeps hadd, ?_⟩
  intro t ht
  obtain ⟨-, rfl⟩ := addThread_eq hadd
  have hready := Sched.updThread_ne (k.toSched.newThread (some p) stack).2
    (fun th => { th with mlfqLevel := 0, ticksRemaining := kQuantum 0, state := .ready }) ht
  exact hready.trans (Function.update_of_ne ht _ _)

/-- `Fork` as a whole, when its result is no error. -/
theorem fork_success {u u' : UserKernel} {p : ProcId} {alloc : ForkAlloc} {rax : Int}
    (hfork : u.fork p alloc = some (rax, u')) (hrax : 0 ≤ rax) :
    ∃ k, u.toKernel.fork p alloc = some (rax, k) ∧
      u' = ({ u with toKernel := k }.newSpace).giveImage u.nextProc
        (UserKernel.forkImage (u.image p) u.nextSpace) := by
  rcases Option.map_eq_some_iff.mp hfork with ⟨⟨r, k⟩, hk, heq⟩
  dsimp only at heq
  split at heq
  · -- without an address space the result is an error
    rename_i halloc
    cases heq
    rcases kernelFork_success hk hrax with ⟨_, _, _, _, henough, _⟩
    rw [halloc] at henough
    cases henough
  · split at heq
    · rename_i hneg
      cases heq
      exact absurd hrax (Int.not_le.mpr hneg)
    · cases heq
      exact ⟨k, hk, rfl⟩

/-- Everything but the mask, by any thread of any process that exists. -/
theorem fork_copies {u u' : UserKernel} {p : ProcId} {alloc : ForkAlloc} {rax : Int}
    (hp : p < u.nextProc) (hfork : u.fork p alloc = some (rax, u')) (hrax : 0 ≤ rax) (t : Tid) :
    (u'.threads u.nextTid).blockedSignals = 0 ∧
      ((u'.threads u.nextTid).blockedSignals = (u.threads t).blockedSignals →
        ForkDuplicates u t p u') := by
  rcases fork_success hfork hrax with ⟨k, hk, rfl⟩
  rcases kernelFork_success hk hrax with ⟨pid, k₁, stack, halloc, -, hstart⟩
  obtain ⟨hsched₁, hprocs₁, hnext₁⟩ := pidAlloc_frame halloc
  obtain ⟨hprocs, hnew, hthreads⟩ := startThread_eq hstart
  have hsched : ((k₁.newProcess pid).2.linkChild p u.nextProc).toSched = u.toSched := hsched₁
  rw [hsched] at hnew hthreads
  -- the child's number was not given to any process
  have hpc : p ≠ u.nextProc := Nat.ne_of_lt hp
  have hchild : (k.threads u.nextTid).kept = (some u.nextProc, stack, 0, 0) := hnew.new
  have hparent : k.procs p =
      { u.procs p with children := (u.procs p).children ++ [u.nextProc] } := by
    rw [hprocs]
    unfold linkChild
    rw [updProc_self, updProc_ne _ _ hpc, newProcess_ne _ _ (hnext₁ ▸ hpc), hprocs₁]
  refine ⟨congrArg (fun th => th.2.2.2) hchild, ?_⟩
  intro hblocked
  exact {
    fds := fun fd => by
      rw [UserKernel.giveImage_self]
      exact getFd_cloneFds _ fd
    actions := fun sig _ _ => by
      rw [UserKernel.giveImage_self]
      exact getSignalAction_forkImage _ _ sig
    heap := by
      rw [UserKernel.giveImage_self]
      exact ⟨rfl, rfl⟩
    root := by
      rw [UserKernel.giveImage_self]
      rfl
    cwd := by
      rw [UserKernel.giveImage_self]
      rfl
    thread := congrArg Prod.fst hchild
    blocked := hblocked
    pending := congrArg (fun th => th.2.2.1) hchild
    parent := hparent
    parentImage := UserKernel.giveImage_ne _ _ hpc
    parentThreads := fun s hs => hthreads s (Nat.ne_of_lt hs) }

/-- `fork` duplicates the calling thread and its process if and only if the
thread blocks no signal: the mask is the one thing that is not copied. -/
theorem forkDuplicates_iff (u u' : UserKernel) (t : Tid) (p : ProcId) (alloc : ForkAlloc)
    (rax : Int) (hp : p < u.nextProc) (hfork : u.fork p alloc = some (rax, u')) (hrax : 0 ≤ rax) :
    ForkDuplicates u t p u' ↔ (u.threads t).blockedSignals = 0 := by
  obtain ⟨hzero, hcopies⟩ := fork_copies hp hfork hrax t
  constructor
  · intro h
    rw [← h.blocked, hzero]
  · intro hmask
    apply hcopies
    rw [hzero, hmask]

/-! ## The fork of /sbin/init -/

/-- The boot, with `/sbin/init` as thread 3 of process 0. -/
def initBoot : Option UserKernel :=
  UserKernel.boot (fun _ => 0) (fun a => 0x1000 * (a + 1)) 0 0x10000 0x20000 0x30000
    (.loaded ⟨0x401000, 0x7FFF0000, 0x500000⟩)

/-- A `fork` by thread 3 after these steps, and what it gives the child. -/
def forkMasks (ops : List UserOp) : Option (Int × Nat × Nat × Word × Word) :=
  (initBoot.bind fun u => run userStep u ops).bind fun u =>
    (u.fork 0 (.enough 0x40000)).map fun r =>
      (r.1, u.nextProc, u.nextTid, (u.threads 3).blockedSignals,
        (r.2.threads u.nextTid).blockedSignals)

theorem forkMasks_eq {ops : List UserOp} {r : Int × Nat × Nat × Word × Word}
    (h : forkMasks ops = some r) :
    ∃ u u', (initBoot.bind fun u => run userStep u ops) = some u ∧
      u.fork 0 (.enough 0x40000) = some (r.1, u') ∧ u.nextProc = r.2.1 ∧ u.nextTid = r.2.2.1 ∧
      (u.threads 3).blockedSignals = r.2.2.2.1 ∧
      (u'.threads u.nextTid).blockedSignals = r.2.2.2.2 := by
  rcases Option.bind_eq_some_iff.mp h with ⟨u, hu, hmap⟩
  rcases Option.map_eq_some_iff.mp hmap with ⟨⟨rax, u'⟩, hfork, rfl⟩
  exact ⟨u, u', hu, hfork, rfl, rfl, rfl, rfl⟩

/-- Without a mask all is duplicated. -/
theorem init_forkDuplicates :
    ∃ u u', (initBoot.bind fun u => run userStep u [.kernel .yield]) = some u ∧
      u.fork 0 (.enough 0x40000) = some (2, u') ∧ ForkDuplicates u 3 0 u' := by
  have hmasks : forkMasks [.kernel .yield] = some (2, 1, 4, 0, 0) := by decide +kernel
  rcases forkMasks_eq hmasks with ⟨u, u', hu, hfork, hnext, -, hmask, -⟩
  have hp : 0 < u.nextProc := by
    rw [hnext]
    decide
  exact ⟨u, u', hu, hfork,
    (forkDuplicates_iff u u' 3 0 (.enough 0x40000) 2 hp hfork (by decide)).mpr hmask⟩

/-- SIGUSR1 is blocked, and not in the child. -/
theorem fork_drops_mask :
    ∃ u u', (initBoot.bind fun u => run userStep u
        [.kernel .yield, .rtSigprocmask (userFrame 0x7FFF0000) (fun _ => 0) 0 0x200]) = some u ∧
      u.fork 0 (.enough 0x40000) = some (2, u') ∧ (u.threads 3).blockedSignals = 0x200 ∧
      (u'.threads u.nextTid).blockedSignals = 0 ∧ ¬ ForkDuplicates u 3 0 u' := by
  have hmasks : forkMasks
      [.kernel .yield, .rtSigprocmask (userFrame 0x7FFF0000) (fun _ => 0) 0 0x200] =
      some (2, 1, 4, 0x200, 0) := by
    decide +kernel
  rcases forkMasks_eq hmasks with ⟨u, u', hu, hfork, -, -, hmask, hchild⟩
  refine ⟨u, u', hu, hfork, hmask, hchild, ?_⟩
  intro h
  have hsame := h.blocked
  rw [hmask, hchild] at hsame
  exact absurd hsame (by decide)

end Ceryx.Proc
