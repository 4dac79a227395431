import Ceryx.Lib.Simulation
import Ceryx.Proc.ProcTree

/-!
# Ceryx.Proc.WaitStatus — what `waitpid` tells the parent

A process learns of its children from three results: the pid that `fork` returns, and
the pid and the status word of `waitpid`. The pids are used again, the status goes
through the child's `Process` object.

* `Event`: what a step shows to user code. `childEvent` reads it off the calls, and
  `loggedStep` is a step with it.
* `Recorded`: the invariant. The events so far say who the children are and with which
  status the zombies have exited.
* `waits_match`: in every run, what `waitpid` returns is the pid that `fork` returned to
  the same process for this child, and its status word, read with `WEXITSTATUS`, the
  status of the child's last exit before; no child is returned twice.
-/

namespace Ceryx.Proc

open Sched Kernel Lib

/-! ## Events -/

/-- The results that concern children. `forked` and `waited` are those of a call of
process `p`, and `c` is the child's object. -/
inductive Event where
  | forked (p c : ProcId) (rax : Int)
  | exited (p : ProcId) (status : Int)
  | waited (p c : ProcId) (rax wstatus : Int)
deriving DecidableEq, Repr

/-- A stretch of `sys_waitpid` of process `p` that stores a status word. -/
def waitedEvent (p : ProcId) (child : Option ProcId) : WaitResult → Option Event
  | .returned rax (some wstatus) => child.map fun c => .waited p c rax wstatus
  | _ => none

/-- What a call shows of children: a `fork`, an exit, or a status that was handed out.
-/
def childEvent (k : Kernel) : KernelOp → Option Event
  | .fork alloc =>
      k.caller.bind fun (_, p) => (k.fork p alloc).bind fun (rax, _) =>
        if 0 < rax then some (.forked p k.nextProc rax) else none
  | .exit status => k.caller.map fun (_, p) => .exited p status
  | .waitpid wpid options =>
      k.caller.bind fun (t, p) =>
        waitedEvent p (reapedBy k (.waitpid wpid options)) (k.waitpid t p wpid options).1
  | .resume =>
      k.caller.bind fun (t, p) => (k.waiting t).bind fun c =>
        waitedEvent p (reapedBy k .resume) (k.waitResume t p c).1
  | _ => none

/-- A step, with what it shows. -/
def loggedStep (k : Kernel) (op : KernelOp) : Option (Option Event × Kernel) :=
  (kernelStep k op).map fun k' => (childEvent k op, k')

/-- `WEXITSTATUS` of `init.c`: `((s) >> 8) & 0xFF`. -/
def wexitstatus (s : Int) : Int := (s >>> (8 : Nat)) % 256

/-- The status of an exit of process `c`. -/
def exitOf (c : ProcId) : Option Event → Option Int
  | some (.exited p status) => if p = c then some status else none
  | _ => none

/-- The status of the last exit of process `c`. -/
def lastStatus (log : List (Option Event)) (c : ProcId) : Option Int :=
  (log.filterMap (exitOf c)).getLast?

/-! ## What a step shows -/

/-- A step from `k` to `k'` that shows `e`. -/
structure Shown (k : Kernel) (e : Option Event) (k' : Kernel) : Prop where
  children : ∀ p c, c ∈ (k'.procs p).children →
    c ∈ (k.procs p).children ∧ (k'.procs c).pid = (k.procs c).pid ∨
      e = some (.forked p c (k'.procs c).pid)
  zombie : ∀ c, (k'.procs c).state = .zombie →
    e = some (.exited c (k'.procs c).exitStatus) ∨
      (k.procs c).state = .zombie ∧ (k'.procs c).exitStatus = (k.procs c).exitStatus ∧
        ∀ status, e ≠ some (.exited c status)
  waited : ∀ p c rax wstatus, e = some (.waited p c rax wstatus) →
    c ∈ (k.procs p).children ∧ (k.procs c).state = .zombie ∧ rax = (k.procs c).pid ∧
      wstatus = (k.procs c).exitStatus % 256 * 256
  returned : ∀ c, (∃ p rax wstatus, e = some (.waited p c rax wstatus)) → c ∈ k'.returned
  kept : ∀ c ∈ k.returned, c ∈ k'.returned

/-- A step that shows nothing and changes no process. -/
theorem Shown.quiet {k k' : Kernel} (hprocs : k'.procs = k.procs)
    (hreturned : k'.returned = k.returned) : Shown k none k' where
  children p c hc := by
    rw [hprocs] at hc ⊢
    exact Or.inl ⟨hc, rfl⟩
  zombie c hc := by
    rw [hprocs] at hc ⊢
    refine Or.inr ⟨hc, rfl, ?_⟩
    intro status h
    cases h
  waited p c rax wstatus h := by cases h
  returned c h := by
    obtain ⟨p, rax, wstatus, h⟩ := h
    cases h
  kept c hc := hreturned ▸ hc

/-- `exit` shows the exit of the caller's process. -/
theorem exit_shown {k k' : Kernel} {t : Tid} {p : ProcId} {status : Int}
    (hexit : k.exit t p status = some k') : Shown k (some (.exited p status)) k' := by
  rcases Option.map_eq_some_iff.mp hexit with ⟨s, -, rfl⟩
  -- the scheduler does not look at the processes
  have hprocs : (k.exitProcess p status).procs =
      (k.updProc p fun q => { q with state := .zombie, exitStatus := status }).procs := by
    unfold exitProcess
    dsimp only
    split
    · rfl
    · rfl
  have hreturned : (k.exitProcess p status).returned = k.returned := by
    unfold exitProcess
    dsimp only
    split
    · rfl
    · rfl
  constructor
  case children =>
    intro q c hc
    left
    change c ∈ ((k.exitProcess p status).procs q).children at hc
    change _ ∧ ((k.exitProcess p status).procs c).pid = _
    rw [hprocs] at hc ⊢
    rw [updProc_field Process.children k p rfl] at hc
    exact ⟨hc, updProc_field Process.pid k p rfl c⟩
  case zombie =>
    intro c hc
    change ((k.exitProcess p status).procs c).state = .zombie at hc
    change some _ = some (Event.exited c ((k.exitProcess p status).procs c).exitStatus) ∨
      _ ∧ ((k.exitProcess p status).procs c).exitStatus = _ ∧ _
    rw [hprocs] at hc ⊢
    by_cases hcp : c = p
    · subst hcp
      rw [updProc_self]
      exact Or.inl rfl
    · rw [updProc_ne k _ hcp] at hc ⊢
      refine Or.inr ⟨hc, rfl, ?_⟩
      intro status' h
      cases h
      exact hcp rfl
  case waited =>
    intro q c rax wstatus h
    cases h
  case returned =>
    rintro c ⟨q, rax, wstatus, h⟩
    cases h
  case kept =>
    intro c hc
    change c ∈ (k.exitProcess p status).returned
    rw [hreturned]
    exact hc

/-- The child that `waitpid` collects. -/
theorem collect_shown {k : Kernel} {p c : ProcId} (t : Tid) (hc : c ∈ (k.procs p).children)
    (hz : (k.procs c).isZombie = true) {rax wstatus : Int}
    (hend : (k.collect p c).1 = .returned rax (some wstatus)) :
    Shown k (some (.waited p c rax wstatus)) ((k.setWaiting t none).collect p c).2 := by
  obtain ⟨hrax, hword⟩ := WaitResult.returned.inj hend
  have hword := Option.some.inj hword
  have hprocs : ∀ q, (((k.setWaiting t none).collect p c).2.procs q) =
      ((k.setWaiting t none).bury p c).procs q := fun q => rfl
  constructor
  -- the reaped child is off the list, the others stay
  case children =>
    intro q b hb
    left
    rw [hprocs, bury_children] at hb
    rw [hprocs, bury_pid]
    refine ⟨?_, rfl⟩
    split at hb
    · exact List.mem_of_mem_erase hb
    · exact hb
  -- neither a state nor a status is written
  case zombie =>
    intro b hb
    right
    rw [hprocs, bury_procs] at hb
    rw [hprocs, bury_procs]
    have hstate := (updProc_field Process.state ((k.setWaiting t none).removeChild p c) c
      (f := fun x => { x with deleted := true }) rfl b).trans
        (updProc_field Process.state (k.setWaiting t none) p rfl b)
    have hstatus := (updProc_field Process.exitStatus ((k.setWaiting t none).removeChild p c) c
      (f := fun x => { x with deleted := true }) rfl b).trans
        (updProc_field Process.exitStatus (k.setWaiting t none) p rfl b)
    refine ⟨hstate.symm.trans hb, hstatus, ?_⟩
    intro status h
    cases h
  -- pid and status word are read from the child before it goes
  case waited =>
    intro q b rax' wstatus' h
    cases h
    exact ⟨hc, by simpa [Process.isZombie] using hz, hrax.symm, hword.symm⟩
  case returned =>
    rintro b ⟨q, rax', wstatus', h⟩
    cases h
    exact List.mem_append_right _ List.mem_cons_self
  case kept =>
    intro b hb
    exact List.mem_append_left _ hb

/-! ### Fork -/

/-- A process that has just been made. -/
structure Newborn (k k' : Kernel) (c : ProcId) : Prop where
  state : (k'.procs c).state = .running
  others : ∀ q, q ≠ c → (k'.procs q).state = (k.procs q).state ∧
    (k'.procs q).exitStatus = (k.procs q).exitStatus ∧ (k'.procs q).pid = (k.procs q).pid
  returned : k'.returned = k.returned

/-- `Process::Create` makes a process that no one knows yet. -/
theorem newProcess_newborn {k k₁ : Kernel} {pid : Nat}
    (halloc : k.pidAlloc = some (pid, k₁)) : Newborn k (k₁.newProcess pid).2 k.nextProc := by
  obtain ⟨-, hprocs, hnext⟩ := pidAlloc_frame halloc
  rcases Option.map_eq_some_iff.mp halloc with ⟨i, -, heq⟩
  have hreturned : k₁.returned = k.returned := by
    cases heq
    rfl
  constructor
  · rw [← hnext, newProcess_self]
  · intro q hq
    rw [← hnext] at hq
    rw [newProcess_ne k₁ pid hq, hprocs]
    exact ⟨rfl, rfl, rfl⟩
  · exact hreturned

/-- An update that keeps the three fields. -/
theorem Newborn.updProc {k k' : Kernel} {c : ProcId} (h : Newborn k k' c) (p : ProcId)
    {f : Process → Process} (hstate : (f (k'.procs p)).state = (k'.procs p).state)
    (hstatus : (f (k'.procs p)).exitStatus = (k'.procs p).exitStatus)
    (hpid : (f (k'.procs p)).pid = (k'.procs p).pid) : Newborn k (k'.updProc p f) c where
  state := (updProc_field Process.state k' p hstate c).trans h.state
  others q hq := by
    obtain ⟨hq₁, hq₂, hq₃⟩ := h.others q hq
    rw [updProc_field Process.state k' p hstate, updProc_field Process.exitStatus k' p hstatus,
      updProc_field Process.pid k' p hpid]
    exact ⟨hq₁, hq₂, hq₃⟩
  returned := h.returned

/-- It remains unknown when it is linked below its parent, -/
theorem Newborn.linkChild {k k' : Kernel} {c : ProcId} (h : Newborn k k' c) (p : ProcId) :
    Newborn k (k'.linkChild p c) c :=
  (h.updProc c rfl rfl rfl).updProc p rfl rfl rfl

/-- and when it is buried again. -/
theorem Newborn.bury {k k' : Kernel} {c : ProcId} (h : Newborn k k' c) (p : ProcId) :
    Newborn k (k'.bury p c) c := by
  have hgone := (h.updProc p (f := fun q => { q with children := q.children.erase c }) rfl rfl
    rfl).updProc c (f := fun q => { q with deleted := true }) rfl rfl rfl
  constructor
  · rw [bury_procs]
    exact hgone.state
  · intro q hq
    rw [bury_procs]
    exact hgone.others q hq
  · rw [bury_returned]
    exact h.returned

/-- What is left to show for a `fork`: who the children are. -/
theorem Newborn.shown {k k' : Kernel} {c : ProcId} {e : Option Event} (h : Newborn k k' c)
    (hchildren : ∀ p b, b ∈ (k'.procs p).children →
      b ∈ (k.procs p).children ∧ b ≠ c ∨ e = some (.forked p b (k'.procs b).pid))
    (hexited : ∀ b status, e ≠ some (.exited b status))
    (hwaited : ∀ p b rax wstatus, e ≠ some (.waited p b rax wstatus)) : Shown k e k' where
  children p b hb := by
    rcases hchildren p b hb with ⟨hold, hne⟩ | hnew
    · exact Or.inl ⟨hold, (h.others b hne).2.2⟩
    · exact Or.inr hnew
  zombie b hb := by
    -- the new process is alive, so no zombie is new
    have hne : b ≠ c := by
      rintro rfl
      rw [h.state] at hb
      cases hb
    obtain ⟨hstate, hstatus, -⟩ := h.others b hne
    exact Or.inr ⟨hstate.symm.trans hb, hstatus, hexited b⟩
  waited p b rax wstatus hb := absurd hb (hwaited p b rax wstatus)
  returned b hb := by
    obtain ⟨p, rax, wstatus, hb⟩ := hb
    exact absurd hb (hwaited p b rax wstatus)
  kept b hb := by
    rw [h.returned]
    exact hb

/-- A new process is on no list yet. -/
theorem newProcess_children {k k₁ : Kernel} (hinv : ProcInv k) {pid : Nat}
    (halloc : k.pidAlloc = some (pid, k₁)) {q b : ProcId}
    (hb : b ∈ ((k₁.newProcess pid).2.procs q).children) :
    b ∈ (k.procs q).children ∧ b ≠ k.nextProc := by
  obtain ⟨-, hprocs, -⟩ := pidAlloc_frame halloc
  by_cases hqn : q = k₁.nextProc
  · rw [hqn, newProcess_self] at hb
    cases hb
  · rw [newProcess_ne k₁ pid hqn, hprocs] at hb
    exact ⟨hb, Nat.ne_of_lt (hinv.child q b hb).old⟩

/-- The children before a `fork` and behind it. -/
theorem linkChild_children {k k₁ : Kernel} (hinv : ProcInv k) {p : ProcId} {pid : Nat}
    (halloc : k.pidAlloc = some (pid, k₁)) {q b : ProcId}
    (hb : b ∈ (((k₁.newProcess pid).2.linkChild p k.nextProc).procs q).children) :
    b ∈ (k.procs q).children ∧ b ≠ k.nextProc ∨ q = p ∧ b = k.nextProc := by
  by_cases hqp : q = p
  · subst hqp
    rw [linkChild_children_self] at hb
    rcases List.mem_append.mp hb with hold | hnew
    · exact Or.inl (newProcess_children hinv halloc hold)
    · exact Or.inr ⟨rfl, List.mem_singleton.mp hnew⟩
  · rw [linkChild_children_ne _ _ hqp] at hb
    exact Or.inl (newProcess_children hinv halloc hb)

/-- `fork` shows the child when it succeeds, and nothing when it fails. -/
theorem fork_shown {k k' : Kernel} (h : KernelInv k) {p : ProcId} {alloc : ForkAlloc} {rax : Int}
    (hfork : k.fork p alloc = some (rax, k')) :
    Shown k (if 0 < rax then some (.forked p k.nextProc rax) else none) k' := by
  cases fork_cases hfork with
  | nothing hrax =>
      rw [if_neg (Int.not_lt.mpr (Int.le_of_lt hrax))]
      exact Shown.quiet rfl rfl
  | @pidBack pid k₁ halloc =>
      rw [if_neg (by decide)]
      rcases Option.map_eq_some_iff.mp halloc with ⟨i, -, heq⟩
      cases heq
      unfold Kernel.pidFree
      split
      · exact Shown.quiet rfl rfl
      · exact Shown.quiet rfl rfl
  | @stillborn alloc pid k₁ linked halloc =>
      -- the child is off its parent's list again
      obtain ⟨hpid, -, htree⟩ := pidAlloc_spec h.tree halloc
      have hnew := newProcess_newborn halloc
      rw [if_neg (by decide)]
      cases linked with
      | false =>
          rw [if_neg Bool.false_ne_true]
          refine (hnew.bury p).shown ?_ (fun b status he => by cases he)
            (fun q b r w he => by cases he)
          intro q b hb
          left
          apply newProcess_children h.tree halloc
          rw [bury_children] at hb
          split at hb
          · exact List.mem_of_mem_erase hb
          · exact hb
      | true =>
          rw [if_pos rfl]
          refine ((hnew.linkChild p).bury p).shown ?_ (fun b status he => by cases he)
            (fun q b r w he => by cases he)
          intro q b hb
          left
          have hchild := h.tree.newChild htree (p := p) hpid
          have hb' : b ∈ (((k₁.newProcess pid).2.linkChild p k.nextProc).procs q).children ∧
              (q = p → b ≠ k.nextProc) := by
            rw [bury_children] at hb
            split at hb
            · rename_i hqp
              have hmem := (hchild.nodup q).mem_erase_iff.mp hb
              exact ⟨hmem.2, fun _ => hmem.1⟩
            · rename_i hqp
              exact ⟨hb, fun hq => absurd hq hqp⟩
          rcases linkChild_children h.tree halloc hb'.1 with hold | ⟨hq, hbn⟩
          · exact hold
          · exact absurd hbn (hb'.2 hq)
  | @forks pid stack k₁ k' halloc start =>
      obtain ⟨hpid, -, -⟩ := pidAlloc_spec h.tree halloc
      have hnew := (newProcess_newborn halloc).linkChild p
      have hpos : (0 : Int) < pid := Int.natCast_pos.mpr (Nat.pos_of_ne_zero hpid)
      rw [if_pos hpos]
      rcases Option.map_eq_some_iff.mp start with ⟨s, -, rfl⟩
      have hborn : Newborn k (((k₁.newProcess pid).2.linkChild p k.nextProc).onSched s)
          k.nextProc := ⟨hnew.state, hnew.others, hnew.returned⟩
      refine hborn.shown ?_ (fun b status he => by cases he) (fun q b r w he => by cases he)
      intro q b hb
      rcases linkChild_children h.tree halloc hb with hold | ⟨rfl, rfl⟩
      · exact Or.inl hold
      · right
        have hself : (((k₁.newProcess pid).2.linkChild q k.nextProc).procs k.nextProc).pid =
            pid := by
          rw [linkChild_pid, ← (pidAlloc_frame halloc).2.2, newProcess_self]
        change some _ = some (Event.forked q k.nextProc
          (((k₁.newProcess pid).2.linkChild q k.nextProc).procs k.nextProc).pid)
        rw [hself]

/-! ### Waitpid -/

/-- A call that collects a child, or shows nothing. -/
theorem waitpid_shown {k : Kernel} {t : Tid} {p : ProcId} {wpid : Int} {options : BitVec 32}
    (hcall : k.caller = some (t, p)) (hidle : k.waiting t = none) :
    Shown k (waitedEvent p (reapedBy k (.waitpid wpid options)) (k.waitpid t p wpid options).1)
      (k.waitpid t p wpid options).2 := by
  unfold reapedBy
  simp only [hcall, Option.bind_some]
  unfold waitpid
  cases hfind : k.findChild p (searchPid wpid) with
  | none => exact Shown.quiet rfl rfl
  | some c =>
      have hmem : c ∈ (k.procs p).children := List.mem_of_find?_eq_some hfind
      dsimp only
      -- only a zombie is collected here; a caller that blocks does it later
      by_cases hz : (k.procs c).isZombie
      · rw [if_pos hz, Option.filter_some, if_pos hz]
        have hshown := collect_shown t hmem hz rfl
        rw [setWaiting_eq hidle] at hshown
        exact hshown
      · rw [if_neg hz]
        split
        · exact Shown.quiet rfl rfl
        · exact Shown.quiet rfl rfl

/-- A woken `waitpid` shows the status that it hands out, if any. -/
theorem resume_shown {k k' : Kernel} (h : KernelInv k) (hresume : k.resume = some k') :
    Shown k (childEvent k .resume) k' := by
  rcases Option.bind_eq_some_iff.mp hresume with ⟨⟨t, p⟩, hcall, hbind⟩
  rcases Option.bind_eq_some_iff.mp hbind with ⟨c, hc, hif⟩
  obtain ⟨ht, hp, -⟩ := caller_eq hcall
  split at hif
  · cases hif
  · rename_i hdel
    cases hif
    unfold childEvent reapedBy
    simp only [hcall, hc, Option.bind_some]
    -- the child is still one of the caller's
    rcases (h.tree.held t c hc).child (Bool.eq_false_iff.mpr hdel) with ⟨q, hq, hmem⟩
    obtain rfl : p = q := Option.some.inj (hp.symm.trans hq)
    unfold waitResume
    by_cases hz : (k.procs c).isZombie
    · rw [if_pos hz, Option.filter_some, if_pos hz]
      exact collect_shown t hmem hz rfl
    · rw [if_neg hz]
      exact Shown.quiet rfl rfl

/-! ### A step -/

/-- The scheduler shows nothing. -/
theorem sched_shown {k k' : Kernel} {op : SchedOp} (hstep : k.sched op = some k') :
    Shown k none k' := by
  unfold Kernel.sched at hstep
  split at hstep
  · rcases Option.map_eq_some_iff.mp hstep with ⟨s, -, rfl⟩
    exact Shown.quiet rfl rfl
  · cases hstep

/-- One step shows what the log records of it. -/
theorem kernelStep_shown {k k' : Kernel} (h : KernelInv k) {op : KernelOp}
    (hstep : kernelStep k op = some k') : Shown k (childEvent k op) k' := by
  cases op with
  -- the four calls that show something: `fork`, `exit`, `waitpid`, and its wake-up
  | fork alloc =>
      simp only [kernelStep] at hstep
      rcases syscall_eq hstep with ⟨t, p, hcall, -, hf⟩
      rcases Option.map_eq_some_iff.mp hf with ⟨⟨rax, k''⟩, hfork, rfl⟩
      have hevent : childEvent k (.fork alloc) =
          if 0 < rax then some (.forked p k.nextProc rax) else none := by
        unfold childEvent
        simp only [hcall, hfork, Option.bind_some]
      rw [hevent]
      exact fork_shown h hfork
  | clone stack =>
      simp only [kernelStep] at hstep
      rcases syscall_eq hstep with ⟨t, p, hcall, -, hf⟩
      rcases Option.map_eq_some_iff.mp hf with ⟨res, hclone, rfl⟩
      rcases Option.map_eq_some_iff.mp hclone with ⟨k'', hstart, rfl⟩
      rcases Option.map_eq_some_iff.mp hstart with ⟨s, -, rfl⟩
      exact Shown.quiet rfl rfl
  | exit status =>
      simp only [kernelStep] at hstep
      rcases syscall_eq hstep with ⟨t, p, hcall, -, hf⟩
      have hevent : childEvent k (.exit status) = some (.exited p status) := by
        unfold childEvent
        simp only [hcall, Option.map_some]
      rw [hevent]
      exact exit_shown hf
  | waitpid wpid options =>
      simp only [kernelStep] at hstep
      rcases syscall_eq hstep with ⟨t, p, hcall, hidle, hf⟩
      cases hf
      have hevent : childEvent k (.waitpid wpid options) =
          waitedEvent p (reapedBy k (.waitpid wpid options)) (k.waitpid t p wpid options).1 := by
        unfold childEvent
        simp only [hcall, Option.bind_some]
      rw [hevent]
      exact waitpid_shown hcall hidle
  | resume => exact resume_shown h hstep
  -- the rest shows nothing
  | tick => exact sched_shown hstep
  | yield => exact sched_shown hstep
  | block addr => exact sched_shown hstep
  | wake addr wakeAll => exact sched_shown hstep
  | drain =>
      have hdrain := reaper_eq hstep
      split at hdrain
      · cases hdrain
        exact Shown.quiet rfl rfl
      · cases hdrain
  | reclaim =>
      have hreclaim := reaper_eq hstep
      unfold reclaim at hreclaim
      split at hreclaim
      · cases hreclaim
      · split at hreclaim
        · cases hreclaim
        · cases hreclaim
          exact Shown.quiet rfl rfl

/-! ## Runs -/

/-- The events so far and the processes agree. -/
structure Recorded (log : List (Option Event)) (k : Kernel) : Prop where
  inv : KernelInv k
  forked : ∀ p c, c ∈ (k.procs p).children → some (.forked p c (k.procs c).pid) ∈ log
  exited : ∀ c, (k.procs c).state = .zombie → lastStatus log c = some (k.procs c).exitStatus
  waited : ∀ p c rax wstatus, some (.waited p c rax wstatus) ∈ log → c ∈ k.returned

/-- What is known of a child that `waitpid` of process `p` returns, after these
events. -/
structure Matched (log : List (Option Event)) (p c : ProcId) (rax wstatus : Int) : Prop where
  forked : some (.forked p c rax) ∈ log
  exited : ∃ status, lastStatus log c = some status ∧ wexitstatus wstatus = status % 256
  once : ∀ q rax' wstatus', some (.waited q c rax' wstatus') ∉ log

/-- The last exit of a process in a longer log. -/
theorem lastStatus_append (log : List (Option Event)) (e : Option Event) (c : ProcId) :
    lastStatus (log ++ [e]) c = (exitOf c e).orElse fun _ => lastStatus log c := by
  unfold lastStatus
  rw [List.filterMap_append]
  cases he : exitOf c e with
  | none => simp [he]
  | some status => simp [he]

/-- The status word of `sys_waitpid`, decoded. -/
theorem wexitstatus_word (status : Int) : wexitstatus (status % 256 * 256) = status % 256 := by
  have hshift : (status % 256 * 256) >>> (8 : Nat) = status % 256 := by
    rw [Int.shiftRight_eq_div_pow]
    exact Int.mul_ediv_cancel _ (by decide)
  unfold wexitstatus
  rw [hshift]
  omega

/-- One step, with what it adds to the events. -/
theorem Recorded.step {log : List (Option Event)} {k k' : Kernel} (h : Recorded log k)
    {op : KernelOp} {e : Option Event} (hstep : loggedStep k op = some (e, k')) :
    (∀ p c rax wstatus, e = some (.waited p c rax wstatus) → Matched log p c rax wstatus) ∧
      Recorded (log ++ [e]) k' := by
  rcases Option.map_eq_some_iff.mp hstep with ⟨k'', hkernel, heq⟩
  cases heq
  have hshown := kernelStep_shown h.inv hkernel
  refine ⟨?_, h.inv.step hkernel, ?_, ?_, ?_⟩
  · intro p c rax wstatus he
    obtain ⟨hmem, hz, rfl, rfl⟩ := hshown.waited p c rax wstatus he
    refine ⟨h.forked p c hmem, ⟨_, h.exited c hz, wexitstatus_word _⟩, ?_⟩
    -- a child that was returned is deleted, and is on no list
    intro q rax' wstatus' hbefore
    have hdeleted := h.inv.tree.reaped c
      (h.inv.tree.returned.subset (h.waited q c rax' wstatus' hbefore))
    rw [(h.inv.tree.child p c hmem).alive] at hdeleted
    cases hdeleted
  · intro p c hc
    rcases hshown.children p c hc with ⟨hold, hpid⟩ | hnew
    · rw [hpid]
      exact List.mem_append_left _ (h.forked p c hold)
    · rw [hnew]
      exact List.mem_append_right _ List.mem_cons_self
  · intro c hc
    rw [lastStatus_append]
    rcases hshown.zombie c hc with hnow | ⟨hold, hstatus, hother⟩
    · rw [hnow]
      simp [exitOf]
    · have hnone : exitOf c (childEvent k op) = none := by
        cases he : childEvent k op with
        | none => rfl
        | some e =>
            cases e with
            | forked p b rax => rfl
            | waited p b rax wstatus => rfl
            | exited p status =>
                have hne : p ≠ c := by
                  rintro rfl
                  exact hother status he
                exact if_neg hne
      rw [hnone, hstatus]
      exact h.exited c hold
  · intro p c rax wstatus hmem
    rcases List.mem_append.mp hmem with hold | hnew
    · exact hshown.kept c (h.waited p c rax wstatus hold)
    · exact hshown.returned c ⟨p, rax, wstatus, (List.mem_singleton.mp hnew).symm⟩

/-- Before the first event there are no children and no zombies. -/
theorem boot_recorded {rootPa : Option ProcId → Nat} {idleStack reaperStack initStack : Nat}
    {load : Bool} {k : Kernel} (hboot : boot rootPa idleStack reaperStack initStack load = some k) :
    Recorded [] k := by
  have hnone : ∀ q, (k.procs q).children = [] ∧ (k.procs q).state = .running := by
    rcases Option.bind_eq_some_iff.mp hboot with ⟨s, -, hspawn⟩
    -- the process that `Spawn` makes
    obtain ⟨⟨pid, k₁⟩, hpid⟩ : ∃ r, (ofSched s).pidAlloc.getD (0, ofSched s) = r := ⟨_, rfl⟩
    have hprocs : k₁.procs = fun _ => { pid := 0 } := by
      cases halloc : (ofSched s).pidAlloc with
      | none =>
          rw [halloc] at hpid
          cases hpid
          rfl
      | some r =>
          rw [halloc] at hpid
          cases hpid
          exact (pidAlloc_frame halloc).2.1
    have hnew : ∀ q, ((k₁.newProcess pid).2.procs q).children = [] ∧
        ((k₁.newProcess pid).2.procs q).state = .running := by
      intro q
      by_cases hq : q = k₁.nextProc
      · rw [hq, newProcess_self]
        exact ⟨rfl, rfl⟩
      · rw [newProcess_ne k₁ pid hq, hprocs]
        exact ⟨rfl, rfl⟩
    unfold spawn at hspawn
    simp only [hpid] at hspawn
    intro q
    split at hspawn
    · rcases Option.map_eq_some_iff.mp hspawn with ⟨s', -, rfl⟩
      exact hnew q
    · cases hspawn
      unfold destroy
      rw [(delete_frame _ _).2.2.2.2.2,
        updProc_field Process.children _ _ (f := fun x => { x with deleted := true }) rfl q,
        updProc_field Process.state _ _ (f := fun x => { x with deleted := true }) rfl q]
      exact hnew q
  refine ⟨(boot_inv hboot).1, ?_, ?_, ?_⟩
  · intro p c hc
    rw [(hnone p).1] at hc
    cases hc
  · intro c hc
    rw [(hnone c).2] at hc
    cases hc
  · intro p c rax wstatus h
    cases h

/-- Every result of `waitpid` in a run. -/
theorem waits_match {rootPa : Option ProcId → Nat} {idleStack reaperStack initStack : Nat}
    {load : Bool} {k k' : Kernel}
    (hboot : boot rootPa idleStack reaperStack initStack load = some k) {ops : List KernelOp}
    {log : List (Option Event)} (hrun : trace loggedStep k ops = some (log, k')) :
    ∀ before p c rax wstatus after, log = before ++ some (.waited p c rax wstatus) :: after →
      Matched before p c rax wstatus := by
  have hstep : ∀ log s a e s', Recorded log s → loggedStep s a = some (e, s') →
      (∀ p c rax wstatus, e = some (.waited p c rax wstatus) → Matched log p c rax wstatus) ∧
        Recorded (log ++ [e]) s' := fun _ _ _ _ _ h hs => h.step hs
  have hhistory := (trace_history hstep (boot_recorded hboot) hrun).2
  intro before p c rax wstatus after heq
  exact hhistory before _ after heq p c rax wstatus rfl

/-- `/sbin/init` waits for a child that calls `_exit(-5)`. -/
theorem init_waits :
    ∃ k, boot (fun _ => 0) 0x10000 0x20000 0x30000 true = some k ∧
      ∃ log k', trace loggedStep k
          [.yield, .fork (.enough 0x40000), .waitpid 2 0, .exit (-5), .resume] = some (log, k') ∧
        log = [none, some (.forked 0 1 2), none, some (.exited 1 (-5)),
          some (.waited 0 1 2 0xFB00)] ∧
        Matched (log.take 4) 0 1 2 0xFB00 ∧ wexitstatus 0xFB00 = 251 := by
  rcases exists_start (o := boot (fun _ => 0) 0x10000 0x20000 0x30000 true)
    (P := fun k => (trace loggedStep k
        [.yield, .fork (.enough 0x40000), .waitpid 2 0, .exit (-5), .resume]).map Prod.fst =
      some [none, some (.forked 0 1 2), none, some (.exited 1 (-5)),
        some (.waited 0 1 2 0xFB00)])
    (by decide +kernel) with ⟨k, hboot, htrace⟩
  rcases Option.map_eq_some_iff.mp htrace with ⟨⟨log, k'⟩, hrun, rfl⟩
  refine ⟨k, hboot, _, k', hrun, rfl, ?_, by decide⟩
  exact waits_match hboot hrun _ 0 1 2 0xFB00 [] rfl

end Ceryx.Proc
