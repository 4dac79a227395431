import Ceryx.Proc.ProcTree

/-!
# Ceryx.Proc.WaitAny — `waitpid` for any child

For `waitpid(-1)` the code takes the first child of the list and looks at
nothing else: it returns that child if it is a zombie, and otherwise blocks on
that child alone.

* `WaitAny`: the call finds a zombie child if there is one, returns 0 only if
  there is none, and when it blocks, the exits of children make it ready.
* `HeadDecides`: looking at the first child is enough.
* `waitAny_iff_headDecides`: the two are equivalent in every state that keeps
  `KernelInv`, hence in every reachable one.
-/

namespace Ceryx.Proc

open Sched Kernel Lib

/-! ## The property and the condition -/

/-- Children that exit one after the other, with their statuses. -/
def exitAll (k : Kernel) (exits : List (ProcId × Int)) : Kernel :=
  exits.foldl (fun k e => k.exitProcess e.1 e.2) k

/-- What `waitpid` for any child is for, of a call by thread `t` of process
`p`. -/
structure WaitAny (k : Kernel) (t : Tid) (p : ProcId) (wpid : Int) (options : BitVec 32) :
    Prop where
  finds : (∃ c ∈ (k.procs p).children, (k.procs c).isZombie = true) →
    ∃ c ∈ (k.procs p).children, (k.procs c).isZombie = true ∧
      ∃ status, (k.waitpid t p wpid options).1 = .returned (k.procs c).pid status
  nohang : options &&& WNOHANG ≠ 0 → (∃ status, (k.waitpid t p wpid options).1 = .returned 0 status) →
    ∀ c ∈ (k.procs p).children, (k.procs c).isZombie = false
  woken : (k.waitpid t p wpid options).1 = .blocked →
    ∀ exits : List (ProcId × Int), exits ≠ [] → (exits.map Prod.fst).Nodup →
      (∀ e ∈ exits, e.1 ∈ (k.procs p).children) →
        ((exitAll (k.waitpid t p wpid options).2 exits).threads t).state = .ready

/-- The first child is a zombie, or no child is one and either the call does
not block or the first child is the only one and no other thread is blocked on
it. -/
def HeadDecides (k : Kernel) (p : ProcId) (options : BitVec 32) : Prop :=
  (∃ c ∈ (k.procs p).children.head?, (k.procs c).isZombie = true) ∨
    ((∀ c ∈ (k.procs p).children, (k.procs c).isZombie = false) ∧
      (options &&& WNOHANG ≠ 0 ∨
        ∃ c ∈ (k.procs p).children.head?, (k.procs p).children = [c] ∧
          ∀ u ∈ k.waitQueue, (k.threads u).waitChannel ≠ some (.process c)))

instance (k : Kernel) (p : ProcId) (options : BitVec 32) : Decidable (HeadDecides k p options) :=
  inferInstanceAs (Decidable (_ ∨ _))

/-! ## Wake, for one thread -/

/-- `Wake` of one thread wakes the first one that waits on the channel. -/
theorem wakeLoop_one (ch : Channel) (rest : List Tid) (s : Sched) :
    ((∀ u ∈ rest, (s.threads u).waitChannel ≠ some ch) ∧ wakeLoop ch false rest s = s) ∨
    ∃ before u after, rest = before ++ u :: after ∧
      (∀ v ∈ before, (s.threads v).waitChannel ≠ some ch) ∧
      (s.threads u).waitChannel = some ch ∧ wakeLoop ch false rest s = s.wakeOne u := by
  -- over the wait queue: the loop walks on until somebody waits on the channel
  induction rest with
  | nil => exact Or.inl ⟨fun u hu => absurd hu List.not_mem_nil, rfl⟩
  | cons t rest ih =>
      unfold wakeLoop
      by_cases hch : (s.threads t).waitChannel = some ch
      · right
        refine ⟨[], t, rest, rfl, fun v hv => absurd hv List.not_mem_nil, hch, ?_⟩
        rw [if_pos hch, if_neg Bool.false_ne_true]
      · rw [if_neg hch]
        rcases ih with ⟨hnone, heq⟩ | ⟨before, u, after, hrest, hbefore, hu, heq⟩
        · left
          refine ⟨fun u hu => ?_, heq⟩
          rcases List.mem_cons.mp hu with rfl | hmem
          · exact hch
          · exact hnone u hmem
        · right
          refine ⟨t :: before, u, after, by rw [hrest]; rfl, fun v hv => ?_, hu, heq⟩
          rcases List.mem_cons.mp hv with rfl | hmem
          · exact hch
          · exact hbefore v hmem

theorem wakeOne_state (s : Sched) (t : Tid) : ((s.wakeOne t).threads t).state = .ready := by
  rw [wakeOne_eq, pushReady_threads, updThread_self]

theorem wakeOne_ne (s : Sched) {t u : Tid} (h : u ≠ t) :
    (s.wakeOne t).threads u = s.threads u := by
  rw [wakeOne_eq, pushReady_threads, updThread_ne _ _ h]
  rfl

/-! ## Block, for the caller -/

/-- After `Block` the thread is last on the wait queue with its channel; the
channels of the others have not changed. -/
structure Parked (s : Sched) (t : Tid) (ch : Channel) (s' : Sched) : Prop where
  queue : s'.waitQueue = s.waitQueue ++ [t]
  state : (s'.threads t).state = .blocked
  channel : (s'.threads t).waitChannel = some ch
  others : ∀ u, u ≠ t → (s'.threads u).waitChannel = (s.threads u).waitChannel

theorem scheduleLocked_waitQueue (s : Sched) : s.scheduleLocked.waitQueue = s.waitQueue :=
  scheduleLocked_frame Sched.waitQueue (fun _ _ _ => rfl) (fun _ _ => rfl) s

theorem scheduleLocked_channel (s : Sched) (u : Tid) :
    (s.scheduleLocked.threads u).waitChannel = (s.threads u).waitChannel :=
  scheduleLocked_frame (fun s => (s.threads u).waitChannel) (fun _ _ _ => rfl)
    (fun s n => updThread_field Thread.waitChannel s n (f := fun th => { th with state := .running })
      rfl u) s

theorem block_parked {s : Sched} (h : SchedInv s) {t : Tid} (ht : s.currentThread = some t)
    (hne : s.currentThread ≠ s.idleThread) (ch : Channel) : Parked s t ch (s.block ch) := by
  have hblock : s.block ch = (s.parkOn t ch).scheduleLocked := by
    unfold block
    rw [ht]
  have hqueue : (s.block ch).waitQueue = s.waitQueue ++ [t] := by
    rw [hblock, scheduleLocked_waitQueue]
    rfl
  have hmem : t ∈ (s.block ch).waitQueue := by
    rw [hqueue]
    exact List.mem_append_right _ List.mem_cons_self
  refine ⟨hqueue, (block_inv h hne ch).blocked t hmem, ?_, fun u hu => ?_⟩
  · rw [hblock, scheduleLocked_channel]
    simp [parkOn, setWaitChannel, setState, updThread]
  · rw [hblock, scheduleLocked_channel]
    simp [parkOn, setWaitChannel, setState, updThread, hu]

/-- One exit makes the parked thread ready if and only if the exiting process
is the one it waits for and no thread before it waits for that one too. -/
theorem exitProcess_wakes {k : Kernel} {s : Sched} {t : Tid} {c : ProcId}
    (hpark : Parked s t (.process c) k.toSched) (ht : t ∉ s.waitQueue) {e : ProcId}
    (hparent : (k.procs e).parent.isSome = true) (status : Int) :
    ((k.exitProcess e status).threads t).state = .ready ↔
      e = c ∧ ∀ u ∈ s.waitQueue, (s.threads u).waitChannel ≠ some (.process c) := by
  have hexit : (k.exitProcess e status).toSched = k.toSched.wake (.process e) false := by
    unfold exitProcess
    dsimp only
    rw [if_pos]
    · rfl
    · rw [updProc_self]
      exact hparent
  have hother : ∀ u ∈ s.waitQueue, (k.threads u).waitChannel = (s.threads u).waitChannel := by
    intro u hu
    apply hpark.others
    rintro rfl
    exact ht hu
  rw [hexit]
  unfold wake
  rw [hpark.queue]
  rcases wakeLoop_one (.process e) (s.waitQueue ++ [t]) k.toSched with
    ⟨hnone, heq⟩ | ⟨before, u, after, hrest, hbefore, hu, heq⟩
  · -- nobody waits for the exiting process, so `t` waits for another one
    rw [heq, hpark.state]
    refine iff_of_false (by decide) ?_
    rintro ⟨rfl, -⟩
    exact hnone t (List.mem_append_right _ List.mem_cons_self) hpark.channel
  · rw [heq]
    by_cases hut : t = u
    · subst hut
      rw [wakeOne_state]
      refine iff_of_true rfl ?_
      have hce : Channel.process c = Channel.process e :=
        Option.some.inj (hpark.channel.symm.trans hu)
      obtain rfl : c = e := Channel.process.inj hce
      refine ⟨rfl, fun v hv => ?_⟩
      rw [← hother v hv]
      apply hbefore
      -- `t` is the last one of the queue and occurs once
      have hsplit : before ++ t :: after = s.waitQueue ++ [t] := hrest.symm
      have hafter : after = [] := by
        rcases List.eq_nil_or_concat after with hnil | ⟨l, b, rfl⟩
        · exact hnil
        · exfalso
          have hreassoc : (before ++ t :: l) ++ [b] = s.waitQueue ++ [t] := by
            rw [← hsplit]
            simp
          have hprefix := (List.append_inj' hreassoc rfl).1
          apply ht
          rw [← hprefix]
          exact List.mem_append_right _ List.mem_cons_self
      subst hafter
      rw [(List.append_inj' hsplit rfl).1]
      exact hv
    · rw [wakeOne_ne _ hut, hpark.state]
      refine iff_of_false (by decide) ?_
      rintro ⟨rfl, hno⟩
      have hmem : u ∈ s.waitQueue ++ [t] := by
        rw [hrest]
        exact List.mem_append_right _ List.mem_cons_self
      rcases List.mem_append.mp hmem with hold | hself
      · exact hno u hold ((hother u hold).symm.trans hu)
      · exact hut (List.mem_singleton.mp hself).symm

/-! ## The call -/

theorem findChild_any {k : Kernel} {p c : ProcId} {rest : List ProcId} {wpid : Int}
    (hlist : (k.procs p).children = c :: rest) (hany : wpid ≤ 0) :
    k.findChild p (searchPid wpid) = some c := by
  unfold findChild searchPid
  rw [hlist, if_pos hany]
  simp

/-- When the call blocks on the first child, later exits make it ready if and
only if that child is the only one and no other thread waits for it. -/
theorem woken_iff {k : Kernel} (h : KernelInv k) {t : Tid} {p c : ProcId} {rest : List ProcId}
    (hcall : k.caller = some (t, p)) (hlist : (k.procs p).children = c :: rest) :
    (∀ exits : List (ProcId × Int), exits ≠ [] → (exits.map Prod.fst).Nodup →
      (∀ e ∈ exits, e.1 ∈ (k.procs p).children) →
        ((exitAll ((k.setWaiting t (some c)).onSched (k.toSched.block (.process c)))
          exits).threads t).state = .ready) ↔
    rest = [] ∧ ∀ u ∈ k.waitQueue, (k.threads u).waitChannel ≠ some (.process c) := by
  have ht := (caller_eq hcall).1
  have hnotin : t ∉ k.waitQueue := ListInv.not_mem_waitQueue (h.sched.current_count ht)
  have hpark : Parked k.toSched t (.process c)
      ((k.setWaiting t (some c)).onSched (k.toSched.block (.process c))).toSched :=
    block_parked h.sched ht (not_idle_of_caller h.tree hcall) _
  have hparent : ∀ e ∈ (k.procs p).children, (k.procs e).parent.isSome = true := by
    intro e he
    rw [(h.tree.child p e he).parent]
    rfl
  have hc : c ∈ (k.procs p).children := by
    rw [hlist]
    exact List.mem_cons_self
  constructor
  · intro hready
    -- the exit of a single child decides
    have hone : ∀ e ∈ (k.procs p).children,
        e = c ∧ ∀ u ∈ k.waitQueue, (k.threads u).waitChannel ≠ some (.process c) := by
      intro e he
      refine (exitProcess_wakes hpark hnotin (hparent e he) 0).mp ?_
      exact hready [(e, 0)] (by simp) (by simp) (by simpa using he)
    refine ⟨?_, (hone c hc).2⟩
    cases rest with
    | nil => rfl
    | cons b rest =>
        have hb : b ∈ (k.procs p).children := by
          rw [hlist]
          exact List.mem_cons_of_mem _ List.mem_cons_self
        have hnodup := h.tree.nodup p
        rw [hlist, (hone b hb).1] at hnodup
        exact absurd List.mem_cons_self (List.nodup_cons.mp hnodup).1
  · rintro ⟨rfl, hno⟩ exits hne hnodup hmem
    rw [hlist] at hmem
    cases exits with
    | nil => contradiction
    | cons e exits =>
        have he : e.1 = c := List.mem_singleton.mp (hmem e List.mem_cons_self)
        cases exits with
        | nil =>
            refine (exitProcess_wakes hpark hnotin ?_ e.2).mpr ⟨he, hno⟩
            rw [he]
            exact hparent c hc
        | cons e' exits =>
            have he' : e'.1 = c :=
              List.mem_singleton.mp (hmem e' (List.mem_cons_of_mem _ List.mem_cons_self))
            simp [he, he'] at hnodup

/-- `waitpid` for any child does what it is for if and only if looking at the
first child is enough. -/
theorem waitAny_iff_headDecides {k : Kernel} (h : KernelInv k) {t : Tid} {p : ProcId}
    (hcall : k.caller = some (t, p)) (hchildren : (k.procs p).children ≠ []) {wpid : Int}
    (hany : wpid ≤ 0) (options : BitVec 32) :
    WaitAny k t p wpid options ↔ HeadDecides k p options := by
  rcases List.exists_cons_of_ne_nil hchildren with ⟨c, rest, hlist⟩
  have hc : c ∈ (k.procs p).children := by
    rw [hlist]
    exact List.mem_cons_self
  have hhead : (k.procs p).children.head? = some c := by
    rw [hlist]
    rfl
  have hfind := findChild_any (k := k) hlist hany
  by_cases hz : (k.procs c).isZombie = true
  · -- the first child is a zombie: it is returned
    have hres : k.waitpid t p wpid options = k.collect p c := by
      unfold waitpid
      simp only [hfind]
      rw [if_pos hz]
    refine iff_of_true ⟨fun _ => ⟨c, hc, hz, _, by rw [hres]; rfl⟩, ?_, ?_⟩
      (Or.inl ⟨c, hhead, hz⟩)
    · rintro - ⟨status, hzero⟩
      rw [hres] at hzero
      have hpid : ((k.procs c).pid : Int) = 0 := (WaitResult.returned.inj hzero).1
      exact absurd (Int.ofNat_eq_zero.mp hpid) (h.tree.child p c hc).pid
    · intro hblocked
      rw [hres] at hblocked
      cases hblocked
  · have hnot : ¬ ∃ b ∈ (k.procs p).children.head?, (k.procs b).isZombie = true := by
      rintro ⟨b, hb, hzb⟩
      obtain rfl : c = b := Option.some.inj (hhead.symm.trans hb)
      exact hz hzb
    unfold HeadDecides
    rw [or_iff_right hnot]
    by_cases hopt : options &&& WNOHANG ≠ 0
    · -- the call returns 0 without looking further
      have hres : k.waitpid t p wpid options = (.returned 0 none, k) := by
        unfold waitpid
        simp only [hfind]
        rw [if_neg hz, if_pos hopt]
      constructor
      · intro hw
        exact ⟨hw.nohang hopt ⟨none, by rw [hres]⟩, Or.inl hopt⟩
      · rintro ⟨hnone, -⟩
        refine ⟨?_, fun _ _ => hnone, fun hblocked => ?_⟩
        · rintro ⟨b, hb, hzb⟩
          rw [hnone b hb] at hzb
          cases hzb
        · rw [hres] at hblocked
          cases hblocked
    · have hres : k.waitpid t p wpid options = (.blocked,
          (k.setWaiting t (some c)).onSched (k.toSched.block (.process c))) := by
        unfold waitpid
        simp only [hfind]
        rw [if_neg hz, if_neg hopt]
      have hwoken := woken_iff h hcall hlist
      constructor
      · intro hw
        have hno : ∀ b ∈ (k.procs p).children, (k.procs b).isZombie = false := by
          intro b hb
          rw [Bool.eq_false_iff]
          intro hzb
          rcases hw.finds ⟨b, hb, hzb⟩ with ⟨a, -, -, status, hret⟩
          rw [hres] at hret
          cases hret
        have hready := hw.woken (by rw [hres])
        rw [hres] at hready
        obtain ⟨rfl, hfree⟩ := hwoken.mp hready
        exact ⟨hno, Or.inr ⟨c, hhead, hlist, hfree⟩⟩
      · rintro ⟨hnone, hwnohang | ⟨b, hb, honly, hfree⟩⟩
        · exact absurd hwnohang hopt
        · obtain rfl : c = b := Option.some.inj (hhead.symm.trans hb)
          have hrest : rest = [] := (List.cons.inj (hlist.symm.trans honly)).2
          refine ⟨?_, fun hno => absurd hno hopt, fun _ => ?_⟩
          · rintro ⟨a, ha, hza⟩
            rw [hnone a ha] at hza
            cases hza
          · rw [hres]
            exact hwoken.mpr ⟨hrest, hfree⟩

/-- A reachable state keeps the invariant. -/
theorem reachable_inv {rootPa : Option ProcId → Nat} {idleStack reaperStack initStack : Nat}
    {load : Bool} {k k' : Kernel}
    (hboot : boot rootPa idleStack reaperStack initStack load = some k) {ops : List KernelOp}
    (hrun : run kernelStep k ops = some k') : KernelInv k' :=
  inv_of_run (fun _ _ _ h hstep => h.step hstep) (boot_inv hboot).1 hrun

/-- The fork test of `/sbin/init` has a single child. -/
theorem single_child_waitAny :
    ∃ k k', boot (fun _ => 0) 0x10000 0x20000 0x30000 true = some k ∧
      run kernelStep k [.yield, .fork (.enough 0x40000)] = some k' ∧
      WaitAny k' 3 0 (-1) 0 := by
  rcases exists_run kernelStep
    [.yield, .fork (.enough 0x40000)]
    (o := boot (fun _ => 0) 0x10000 0x20000 0x30000 true)
    (P := fun k' => k'.caller = some (3, 0) ∧ (k'.procs 0).children ≠ [] ∧ HeadDecides k' 0 0)
    (by decide +kernel) with ⟨k, k', hboot, hrun, hcall, hchildren, hhead⟩
  refine ⟨k, k', hboot, hrun, ?_⟩
  exact (waitAny_iff_headDecides (reachable_inv hboot hrun) hcall hchildren (by decide) 0).mpr hhead

/-- Two children, of which the second one has exited: `waitpid(-1)` blocks. -/
theorem second_child_zombie_blocks :
    ∃ k k', boot (fun _ => 0) 0x10000 0x20000 0x30000 true = some k ∧
      run kernelStep k
        [.yield, .fork (.enough 0x40000), .fork (.enough 0x50000), .yield, .yield, .exit 7] =
        some k' ∧
      k'.caller = some (3, 0) ∧ (k'.procs 0).children = [1, 2] ∧
      (k'.procs 2).isZombie = true ∧ (k'.waitpid 3 0 (-1) 0).1 = .blocked ∧
      ¬ WaitAny k' 3 0 (-1) 0 := by
  rcases exists_run kernelStep
    [.yield, .fork (.enough 0x40000), .fork (.enough 0x50000), .yield, .yield, .exit 7]
    (o := boot (fun _ => 0) 0x10000 0x20000 0x30000 true)
    (P := fun k' => k'.caller = some (3, 0) ∧ (k'.procs 0).children = [1, 2] ∧
      (k'.procs 2).isZombie = true ∧ (k'.waitpid 3 0 (-1) 0).1 = .blocked)
    (by decide +kernel) with ⟨k, k', hboot, hrun, hcall, hchildren, hz, hblocked⟩
  refine ⟨k, k', hboot, hrun, hcall, hchildren, hz, hblocked, fun hw => ?_⟩
  -- there is a zombie among the children, and the call does not return it
  rcases hw.finds ⟨2, by rw [hchildren]; decide, hz⟩ with ⟨c, -, -, status, hret⟩
  rw [hblocked] at hret
  cases hret

end Ceryx.Proc
