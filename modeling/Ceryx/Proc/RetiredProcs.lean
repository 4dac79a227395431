import Ceryx.Proc.NodeLinks
import Ceryx.Proc.UserRuns

/-!
# Ceryx.Proc.RetiredProcs — processes of one thread that are over

Without `clone` each process has one thread, made by `Fork` or `Spawn`. Only
that thread's own end makes the process a zombie, and only a zombie, or a child
that `Fork` could not finish, is deleted: the thread of a process that is over
has ended, so it is off the CPU for good.

* `Progress k k'`: what any step but `fork` and `clone` does to threads and
  processes. `ForkedOff`: what a `fork` does.
* `Retired`: the invariant, kept by both.
-/

namespace Ceryx.Proc

open Kernel

/-- The process is a zombie or deleted. -/
def Over (k : Kernel) (p : ProcId) : Prop :=
  (k.procs p).state = .zombie ∨ (k.procs p).deleted = true

structure Retired (k : Kernel) : Prop where
  /-- A thread that is still to be made belongs to no process. -/
  fresh : ∀ t, k.nextTid ≤ t → (k.threads t).process = none
  /-- A process has one thread. -/
  sole : ∀ t s p, (k.threads t).process = some p → (k.threads s).process = some p → t = s
  /-- The thread of a process that is over has ended. -/
  ended : ∀ t p, (k.threads t).process = some p → Over k p → Ended k.toSched t

/-- What a step that makes no thread does. -/
structure Progress (k k' : Kernel) : Prop where
  keeps : Keeps k.toSched k'.toSched
  ended : ∀ t, Ended k.toSched t → Ended k'.toSched t
  nextProc : k'.nextProc = k.nextProc
  /-- A process that is newly over has a thread that has ended. -/
  newlyOver : ∀ p, Over k' p → Over k p ∨
    ∃ t, (k.threads t).process = some p ∧ Ended k'.toSched t
  /-- Nothing is reaped, or one process that was over. -/
  reaped : (k'.reaped = k.reaped ∧ ∀ p, (k'.procs p).deleted = (k.procs p).deleted) ∨
    ∃ c, k'.reaped = k.reaped ++ [c] ∧ c < k.nextProc ∧ (k.procs c).deleted = false ∧ Over k c ∧
      ∀ p, (k'.procs p).deleted = true ↔ (k.procs p).deleted = true ∨ c = p

/-- A step that makes no thread brings none back. -/
theorem Retired.progress {k k' : Kernel} (h : Retired k) (hp : Progress k k') : Retired k' where
  fresh t ht := by
    rw [kept_process (hp.keeps.kept t)]
    rw [hp.keeps.next] at ht
    exact h.fresh t ht
  sole t s p ht hs := by
    rw [kept_process (hp.keeps.kept t)] at ht
    rw [kept_process (hp.keeps.kept s)] at hs
    exact h.sole t s p ht hs
  ended t p ht hover := by
    rw [kept_process (hp.keeps.kept t)] at ht
    rcases hp.newlyOver p hover with hold | ⟨s, hs, hended⟩
    · exact hp.ended t (h.ended t p ht hold)
    · rw [h.sole t s p ht hs]
      exact hended

/-! ## Ended threads -/

/-- Whether a thread has ended depends on its state and on who runs. -/
theorem Ended.congr {s s' : Sched} {t : Tid} (h : Ended s t)
    (hstate : (s'.threads t).state = (s.threads t).state) (hnext : s'.nextTid = s.nextTid)
    (hidle : s'.idleThread = s.idleThread) (hcur : s'.currentThread = s.currentThread) :
    Ended s' t where
  state := hstate.trans h.state
  created := by
    unfold Created
    rw [hnext]
    exact h.created
  notIdle := hidle ▸ h.notIdle
  off := hcur ▸ h.off

/-- The running thread has ended once `exitThread` has switched it away. -/
theorem exitThread_ended {s s' : Sched} (h : SchedInv s) {t : Tid}
    (ht : s.currentThread = some t) (hidle : s.currentThread ≠ s.idleThread)
    (hexit : s.exitThread t = some s') : Ended s' t := by
  rcases Option.map_eq_some_iff.mp hexit with ⟨s₁, henq, rfl⟩
  have hterm : ListInv (s.setState t .terminated) :=
    h.updThread (h.current_count ht) (h.level t)
  unfold Sched.enqueueDead at henq
  split at henq
  · cases henq
  · split at henq
    · cases henq
    · cases henq
      have hstate : ((s.setState t .terminated).threads t).state = .terminated := by
        simp [Sched.setState]
      -- it is terminated, so `Yield` goes straight to `ScheduleLocked`
      have hyield : Sched.yield { s.setState t .terminated with
          deadList := (s.setState t .terminated).deadList ++ [t] } =
          Sched.scheduleLocked { s.setState t .terminated with
            deadList := (s.setState t .terminated).deadList ++ [t] } := by
        unfold Sched.yield
        have hcur : (s.setState t .terminated).currentThread = some t := ht
        simp only [hcur]
        rw [if_neg]
        rintro ⟨-, hrunning⟩
        rw [hstate] at hrunning
        cases hrunning
      rw [hyield]
      have hnot : s.idleThread ≠ some t := fun hd => hidle (ht.trans hd.symm)
      exact scheduleLocked_ended
        (s := { s.setState t .terminated with
          deadList := (s.setState t .terminated).deadList ++ [t] })
        (hterm.congr rfl rfl rfl rfl rfl) ht hstate (h.current_created ht) hnot

/-! ## Steps without new threads -/

/-- A step of the scheduler. -/
theorem progress_sched {k : Kernel} {s : Sched} {op : SchedOp} (h : KernelInv k)
    (hop : ∀ process stack level, op ≠ .addThread process stack level)
    (hs : schedStep k.toSched op = some s) : Progress k (k.onSched s) where
  keeps := schedStep_keeps hop hs
  ended _ ht := ht.step h.sched hs
  nextProc := rfl
  newlyOver _ hover := .inl hover
  reaped := .inl ⟨rfl, fun _ => rfl⟩

/-- A step that leaves the scheduler and the processes alone. -/
theorem progress_of_eq {k k' : Kernel} (hkeeps : Keeps k.toSched k'.toSched)
    (hended : ∀ t, Ended k.toSched t → Ended k'.toSched t) (hprocs : k'.procs = k.procs)
    (hnext : k'.nextProc = k.nextProc) (hreaped : k'.reaped = k.reaped) : Progress k k' where
  keeps := hkeeps
  ended := hended
  nextProc := hnext
  newlyOver p hover := by
    left
    unfold Over at hover ⊢
    rw [hprocs] at hover
    exact hover
  reaped := .inl ⟨hreaped, fun p => by rw [hprocs]⟩

/-- The scheduler's own steps bring nobody back. -/
theorem sched_progress {k k' : Kernel} {op : SchedOp} (h : KernelInv k)
    (hop : ∀ process stack level, op ≠ .addThread process stack level)
    (hstep : k.sched op = some k') : Progress k k' := by
  unfold Kernel.sched at hstep
  split at hstep
  · rcases Option.map_eq_some_iff.mp hstep with ⟨s, hs, rfl⟩
    exact progress_sched h hop hs
  · cases hstep

/-- `bury` unlinks a process and changes no state. -/
theorem bury_state (k : Kernel) (p c q : ProcId) :
    ((k.bury p c).procs q).state = (k.procs q).state := by
  rw [bury_procs]
  exact (updProc_field Process.state _ c rfl q).trans (updProc_field Process.state k p rfl q)

/-- `waitpid` reaps a child that is a zombie. -/
theorem collect_progress {k : Kernel} {p c : ProcId} (h : KernelInv k) (t : Tid)
    (hchild : c ∈ (k.procs p).children) (hz : (k.procs c).isZombie = true) :
    Progress k ((k.setWaiting t none).collect p c).2 := by
  have hsched : ((k.setWaiting t none).collect p c).2.toSched = k.toSched :=
    bury_toSched (k.setWaiting t none) p c
  have hstate : ∀ q, (((k.setWaiting t none).collect p c).2.procs q).state = (k.procs q).state :=
    bury_state (k.setWaiting t none) p c
  have hdeleted : ∀ q, (((k.setWaiting t none).collect p c).2.procs q).deleted = true ↔
      (k.procs q).deleted = true ∨ c = q := bury_deleted (k.setWaiting t none) p c
  have hover : Over k c := .inl (beq_iff_eq.mp hz)
  have hc := h.tree.child p c hchild
  constructor
  case keeps =>
    rw [hsched]
    exact Keeps.refl _
  case ended =>
    intro s hs
    rw [hsched]
    exact hs
  case nextProc => exact bury_nextProc (k.setWaiting t none) p c
  -- it was a zombie before, so nobody is over for the first time
  case newlyOver =>
    rintro q (hq | hq)
    · exact .inl (.inl ((hstate q).symm.trans hq))
    · rcases (hdeleted q).mp hq with hold | rfl
      · exact .inl (.inr hold)
      · exact .inl hover
  case reaped => exact .inr ⟨c, rfl, hc.old, hc.alive, hover, hdeleted⟩

/-- `waitpid`: the child it collects has retired already. -/
theorem waitpid_progress {k : Kernel} (h : KernelInv k) {t : Tid} {p : ProcId} {wpid : Int}
    {options : BitVec 32} (hcall : k.caller = some (t, p)) (hwait : k.waiting t = none) :
    Progress k (k.waitpid t p wpid options).2 := by
  have hsame : Progress k k := progress_of_eq (Keeps.refl _) (fun _ ht => ht) rfl rfl rfl
  unfold waitpid
  cases hfind : k.findChild p (searchPid wpid) with
  | none => exact hsame
  | some c =>
      have hmem : c ∈ (k.procs p).children := List.mem_of_find?_eq_some hfind
      dsimp only
      split
      · rename_i hz
        have hcollect := collect_progress h t hmem hz
        rw [setWaiting_eq hwait] at hcollect
        exact hcollect
      · split
        · exact hsame
        · -- the call blocks
          have hblock : schedStep k.toSched (.block (.process c)) =
              some (k.toSched.block (.process c)) := by
            simp only [schedStep]
            rw [if_neg (not_idle_of_caller h.tree hcall)]
          have hmoved := progress_sched h (fun _ _ _ he => by cases he) hblock
          exact progress_of_eq hmoved.keeps hmoved.ended rfl rfl rfl

/-- So has the one that a woken `waitpid` collects. -/
theorem resume_progress {k k' : Kernel} (h : KernelInv k) (hresume : k.resume = some k') :
    Progress k k' := by
  rcases Option.bind_eq_some_iff.mp hresume with ⟨⟨t, p⟩, hcall, hbind⟩
  rcases Option.bind_eq_some_iff.mp hbind with ⟨c, hc, hif⟩
  split at hif
  · cases hif
  · rename_i hdel
    cases hif
    rcases (h.tree.held t c hc).child (Bool.eq_false_iff.mpr hdel) with ⟨q, hq, hmem⟩
    have hpq : p = q := Option.some.inj ((caller_eq hcall).2.1.symm.trans hq)
    rw [← hpq] at hmem
    unfold waitResume
    split
    · rename_i hz
      exact collect_progress h t hmem hz
    · exact progress_of_eq (Keeps.refl _) (fun _ ht => ht) rfl rfl rfl

/-- `Exit` up to the end of the thread: a process becomes a zombie, a thread may
wake up. -/
theorem exitProcess_frame (k : Kernel) (p : ProcId) (status : Int) :
    (k.exitProcess p status).procs =
        (k.updProc p fun q => { q with state := .zombie, exitStatus := status }).procs ∧
      (k.exitProcess p status).nextProc = k.nextProc ∧
      (k.exitProcess p status).reaped = k.reaped := by
  unfold exitProcess
  dsimp only
  split
  · exact ⟨rfl, rfl, rfl⟩
  · exact ⟨rfl, rfl, rfl⟩

/-- `Exit` wakes a parent and leaves running and ended threads as they are. -/
theorem exitProcess_sched {k : Kernel} (h : KernelInv k) (p : ProcId) (status : Int) :
    (k.exitProcess p status).currentThread = k.currentThread ∧
      (k.exitProcess p status).idleThread = k.idleThread ∧
      ∀ u, Ended k.toSched u → Ended (k.exitProcess p status).toSched u := by
  unfold exitProcess
  dsimp only
  split
  · have hwake := (wake_inv h.sched.toListInv (.process p) false).2
    refine ⟨hwake.current, hwake.idle, ?_⟩
    intro u hu
    have hstep : schedStep k.toSched (.wake (.process p) false) =
        some (k.toSched.wake (.process p) false) := rfl
    exact hu.step h.sched hstep
  · exact ⟨rfl, rfl, fun _ hu => hu⟩

/-- `Exit` and the end of the thread: the process is over now, and its thread
has ended. -/
theorem exit_progress {k k' : Kernel} (h : KernelInv k) {t : Tid} {p : ProcId} {status : Int}
    (hcall : k.caller = some (t, p)) (hexit : k.exit t p status = some k') : Progress k k' := by
  have hkeeps := exit_keeps hexit
  have hnotIdle := not_idle_of_caller h.tree hcall
  obtain ⟨hcur, hprocess, -⟩ := caller_eq hcall
  obtain ⟨hprocs, hnext, hreaped⟩ := exitProcess_frame k p status
  obtain ⟨hsame, hidle, hkept⟩ := exitProcess_sched h p status
  rcases Option.map_eq_some_iff.mp hexit with ⟨s, hs, rfl⟩
  have hinv := exitProcess_inv h.sched p status
  have hnotIdle' : (k.exitProcess p status).currentThread ≠ (k.exitProcess p status).idleThread := by
    rw [hsame, hidle]
    exact hnotIdle
  have hcur' := hsame.trans hcur
  have hended : ∀ u, Ended k.toSched u → Ended s u := by
    intro u hu
    have hend : schedStep (k.exitProcess p status).toSched .exit = some s := by
      simp only [schedStep, hcur']
      rw [if_neg]
      · exact hs
      · rw [← hcur']
        exact hnotIdle'
    exact (hkept u hu).step hinv hend
  have hdeleted : ∀ q, ((k.exitProcess p status).procs q).deleted = (k.procs q).deleted := by
    intro q
    rw [hprocs]
    exact updProc_field Process.deleted k p rfl q
  refine ⟨hkeeps, hended, hnext, ?_, .inl ⟨hreaped, hdeleted⟩⟩
  intro q hover
  by_cases hq : q = p
  · -- the process that ends is that of the thread that ends
    rw [hq]
    exact .inr ⟨t, hprocess, exitThread_ended hinv hcur' hnotIdle' hs⟩
  · left
    rcases hover with hz | hdel
    · have hstate : ((k.exitProcess p status).procs q).state = (k.procs q).state := by
        rw [hprocs, updProc_ne _ _ hq]
      exact .inl (hstate.symm.trans hz)
    · exact .inr ((hdeleted q).symm.trans hdel)

/-- Every step of the kernel but `fork` and `clone`. -/
theorem kernelStep_progress {k k' : Kernel} {op : KernelOp} (h : KernelInv k)
    (hfork : ∀ alloc, op ≠ .fork alloc) (hclone : ∀ stack, op ≠ .clone stack)
    (hstep : kernelStep k op = some k') : Progress k k' := by
  -- the reaper moves threads that have ended from one list to another
  have hreaper : ∀ {dead loc : List Tid}, Progress k
      (k.onSched { k.toSched with deadList := dead, localDead := loc }) := by
    intro dead loc
    refine progress_of_eq (Keeps.of_same (fun _ => rfl) rfl rfl rfl rfl rfl rfl) ?_ rfl rfl rfl
    intro t ht
    exact ht.congr rfl rfl rfl rfl
  cases op with
  | fork alloc => exact absurd rfl (hfork alloc)
  | clone stack => exact absurd rfl (hclone stack)
  | exit status =>
      simp only [kernelStep] at hstep
      rcases syscall_eq hstep with ⟨t, p, hcall, -, hf⟩
      exact exit_progress h hcall hf
  | waitpid wpid options =>
      simp only [kernelStep] at hstep
      rcases syscall_eq hstep with ⟨t, p, hcall, hwait, hf⟩
      cases hf
      exact waitpid_progress h hcall hwait
  | resume => exact resume_progress h hstep
  | tick | yield | block addr | wake addr wakeAll =>
      refine sched_progress h ?_ hstep
      intro process stack level he
      cases he
  | drain =>
      have hdrain := reaper_eq hstep
      split at hdrain
      · cases hdrain
        exact hreaper
      · cases hdrain
  | reclaim =>
      have hreclaim := reaper_eq hstep
      unfold reclaim at hreclaim
      split at hreclaim
      · cases hreclaim
      · split at hreclaim
        · cases hreclaim
        · cases hreclaim
          exact hreaper

/-! ## Fork -/

/-- A `fork` that fails: processes may have been made, and are deleted again. -/
structure ForkFailed (k k' : Kernel) : Prop where
  sched : k'.toSched = k.toSched
  nextProc : k.nextProc ≤ k'.nextProc
  state : ∀ p, p < k.nextProc → (k'.procs p).state = (k.procs p).state
  deleted : ∀ p, p < k.nextProc → (k'.procs p).deleted = (k.procs p).deleted
  stillborn : ∀ p, k.nextProc ≤ p → p < k'.nextProc → (k'.procs p).deleted = true

/-- A `fork` that makes a process and its thread. -/
structure ForkedOff (k : Kernel) (stack : Nat) (k' : Kernel) : Prop where
  keeps : KeepsNew k.toSched (some k.nextProc) stack k'.toSched
  ended : ∀ t, Ended k.toSched t → Ended k'.toSched t
  nextProc : k'.nextProc = k.nextProc + 1
  state : ∀ p, p < k.nextProc → (k'.procs p).state = (k.procs p).state
  deleted : ∀ p, p < k.nextProc → (k'.procs p).deleted = (k.procs p).deleted
  new : ¬ Over k' k.nextProc

/-- `AddChild` changes no state. -/
theorem linkChild_state (k : Kernel) (p c q : ProcId) :
    ((k.linkChild p c).procs q).state = (k.procs q).state :=
  (updProc_field Process.state _ p rfl q).trans (updProc_field Process.state k c rfl q)

/-- A new process that is deleted at once, linked into the tree or not. -/
theorem bury_forkFailed {k k₁ k₂ : Kernel} {pid : Nat} (hsched : k₁.toSched = k.toSched)
    (hprocs : k₁.procs = k.procs) (hnext : k₁.nextProc = k.nextProc) (p : ProcId)
    (hsched₂ : k₂.toSched = (k₁.newProcess pid).2.toSched)
    (hnext₂ : k₂.nextProc = (k₁.newProcess pid).2.nextProc)
    (hstate : ∀ q, (k₂.procs q).state = ((k₁.newProcess pid).2.procs q).state)
    (hdeleted : ∀ q, (k₂.procs q).deleted = ((k₁.newProcess pid).2.procs q).deleted) :
    ForkFailed k (k₂.bury p k.nextProc) := by
  -- the failed fork touches the new process and its parent only
  have hold : ∀ q, q < k.nextProc → (k₁.newProcess pid).2.procs q = k.procs q := by
    intro q hq
    rw [← hprocs]
    exact newProcess_ne k₁ pid (hnext ▸ Nat.ne_of_lt hq)
  have hlast : (k₂.bury p k.nextProc).nextProc = k.nextProc + 1 := by
    rw [bury_nextProc, hnext₂, ← hnext]
    rfl
  constructor
  case sched => exact (bury_toSched k₂ p _).trans (hsched₂.trans hsched)
  case nextProc =>
    rw [hlast]
    exact Nat.le_succ _
  case state =>
    intro q hq
    rw [bury_state, hstate, hold q hq]
  case deleted =>
    intro q hq
    have hne : k.nextProc ≠ q := Nat.ne_of_gt hq
    have hiff := bury_deleted k₂ p k.nextProc q
    rw [hdeleted, hold q hq, or_iff_left hne] at hiff
    exact Bool.eq_iff_iff.mpr hiff
  -- there is one new process, and it is the buried one
  case stillborn =>
    intro q hlo hhi
    rw [hlast] at hhi
    have hq : k.nextProc = q := Nat.le_antisymm hlo (Nat.le_of_lt_succ hhi)
    exact (bury_deleted k₂ p k.nextProc q).mpr (.inr hq)

theorem ForkFailed.of_eq {k k' : Kernel} (hsched : k'.toSched = k.toSched)
    (hprocs : k'.procs = k.procs) (hnext : k'.nextProc = k.nextProc) : ForkFailed k k' where
  sched := hsched
  nextProc := Nat.le_of_eq hnext.symm
  state p _ := by rw [hprocs]
  deleted p _ := by rw [hprocs]
  stillborn p hlo hhi := absurd (hnext ▸ hhi) (Nat.not_lt.mpr hlo)

/-- A `fork` with a new thread. -/
theorem ForkedOff.of_start {k k₁ k' : Kernel} {p : ProcId} {pid stack : Nat} (h : KernelInv k)
    (halloc : k.pidAlloc = some (pid, k₁))
    (hstart : ((k₁.newProcess pid).2.linkChild p k.nextProc).startThread k.nextProc stack =
      some k') : ForkedOff k stack k' := by
  obtain ⟨hsched, hprocs, hnext⟩ := pidAlloc_frame halloc
  have hnew := startThread_keeps hstart
  have hbefore : ((k₁.newProcess pid).2.linkChild p k.nextProc).toSched = k.toSched := hsched
  rw [hbefore] at hnew
  rcases Option.map_eq_some_iff.mp hstart with ⟨s, hadd, rfl⟩
  rw [hbefore] at hadd
  have hself : (k₁.newProcess pid).2.procs k.nextProc = { pid := pid } := by
    rw [← hnext]
    exact newProcess_self k₁ pid
  have hold : ∀ q, q < k.nextProc → (k₁.newProcess pid).2.procs q = k.procs q := by
    intro q hq
    rw [← hprocs]
    exact newProcess_ne k₁ pid (hnext ▸ Nat.ne_of_lt hq)
  constructor
  case keeps => exact hnew
  case ended => exact fun t ht => ht.step h.sched hadd
  case nextProc => exact congrArg (· + 1) hnext
  case state =>
    intro q hq
    refine (linkChild_state _ p k.nextProc q).trans ?_
    rw [hold q hq]
  case deleted =>
    intro q hq
    refine (linkChild_deleted _ p k.nextProc q).trans ?_
    rw [hold q hq]
  case new =>
    -- a new process is neither a zombie nor deleted
    have hstate := linkChild_state (k₁.newProcess pid).2 p k.nextProc k.nextProc
    have hdel := linkChild_deleted (k₁.newProcess pid).2 p k.nextProc k.nextProc
    rw [hself] at hstate hdel
    rintro (hz | hd)
    · have hz' := hstate.symm.trans hz
      cases hz'
    · have hd' := hdel.symm.trans hd
      cases hd'

/-- Everything `Fork` can do, told apart by its result. -/
theorem fork_forkedOff {k k' : Kernel} {p : ProcId} {alloc : ForkAlloc} {rax : Int}
    (h : KernelInv k) (hfork : k.fork p alloc = some (rax, k')) :
    rax < 0 ∧ ForkFailed k k' ∨ 0 ≤ rax ∧ ∃ stack, ForkedOff k stack k' := by
  cases fork_cases hfork with
  | nothing hrax => exact .inl ⟨hrax, ForkFailed.of_eq rfl rfl rfl⟩
  -- no process was made yet
  | @pidBack pid k₁ halloc =>
      obtain ⟨hsched, hprocs, hnext⟩ := pidAlloc_frame halloc
      refine .inl ⟨by decide, ?_⟩
      unfold Kernel.pidFree
      split
      · exact ForkFailed.of_eq hsched hprocs hnext
      · exact ForkFailed.of_eq hsched hprocs hnext
  -- one was made, and is taken back
  | @stillborn _ pid k₁ linked halloc =>
      obtain ⟨hsched, hprocs, hnext⟩ := pidAlloc_frame halloc
      refine .inl ⟨by decide, ?_⟩
      cases linked with
      | false =>
          exact bury_forkFailed hsched hprocs hnext p rfl rfl (fun _ => rfl) fun _ => rfl
      | true =>
          exact bury_forkFailed hsched hprocs hnext p rfl rfl (linkChild_state _ p k.nextProc)
            (linkChild_deleted _ p k.nextProc)
  | forks halloc start =>
      exact .inr ⟨Int.natCast_nonneg _, _, ForkedOff.of_start h halloc start⟩

/-- A failed `fork` brings back nothing: what it created has no thread. -/
theorem Retired.forkFailed {k k' : Kernel} (hk : KernelInv k) (h : Retired k)
    (hf : ForkFailed k k') : Retired k' where
  fresh t ht := by
    rw [hf.sched] at ht ⊢
    exact h.fresh t ht
  sole t s p ht hs := by
    rw [hf.sched] at ht hs
    exact h.sole t s p ht hs
  ended t p ht hover := by
    rw [hf.sched] at ht ⊢
    have hp := hk.tree.threadProcess t p ht
    apply h.ended t p ht
    rcases hover with hz | hdel
    · exact .inl ((hf.state p hp).symm.trans hz)
    · exact .inr ((hf.deleted p hp).symm.trans hdel)

/-- Nor does a successful one: its child is new. -/
theorem Retired.forkedOff {k k' : Kernel} {stack : Nat} (hk : KernelInv k) (h : Retired k)
    (hf : ForkedOff k stack k') : Retired k' := by
  have hnew : (k'.threads k.nextTid).process = some k.nextProc := congrArg Prod.fst hf.keeps.new
  have hold : ∀ t, t ≠ k.nextTid → (k'.threads t).process = (k.threads t).process :=
    fun t ht => kept_process (hf.keeps.kept t ht)
  have hother : ∀ t, t ≠ k.nextTid → (k'.threads t).process ≠ some k.nextProc := by
    intro t ht he
    rw [hold t ht] at he
    exact Nat.lt_irrefl _ (hk.tree.threadProcess t _ he)
  constructor
  case fresh =>
    intro t ht
    rw [hf.keeps.next] at ht
    have hlt : k.nextTid < t := ht
    rw [hold t (Nat.ne_of_gt hlt)]
    exact h.fresh t (Nat.le_of_lt hlt)
  case sole =>
    intro t s p ht hs
    by_cases htn : t = k.nextTid
    · by_cases hsn : s = k.nextTid
      · exact htn.trans hsn.symm
      · rw [htn, hnew] at ht
        exact absurd (hs.trans ht.symm) (hother s hsn)
    · by_cases hsn : s = k.nextTid
      · rw [hsn, hnew] at hs
        exact absurd (ht.trans hs.symm) (hother t htn)
      · rw [hold t htn] at ht
        rw [hold s hsn] at hs
        exact h.sole t s p ht hs
  case ended =>
    intro t p ht hover
    by_cases htn : t = k.nextTid
    · -- the child is not over
      rw [htn, hnew] at ht
      cases ht
      exact absurd hover hf.new
    · rw [hold t htn] at ht
      have hp := hk.tree.threadProcess t p ht
      apply hf.ended
      apply h.ended t p ht
      rcases hover with hz | hdel
      · exact .inl ((hf.state p hp).symm.trans hz)
      · exact .inr ((hf.deleted p hp).symm.trans hdel)

end Ceryx.Proc
