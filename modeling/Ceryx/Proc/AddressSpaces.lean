import Ceryx.Proc.BlockedMask
import Ceryx.Proc.Pids
import Ceryx.Proc.RetiredProcs

/-!
# Ceryx.Proc.AddressSpaces — the running thread, CR3 and the kernel stack

Processes of one thread and kernel threads, from the boot on: system calls,
`execve` with every way to end, signals, scheduling and the reaper.

* `Coherent`: CR3 is the root of the running thread's address space, which
  exists, and both kernel stack pointers are the top of its kernel stack.
* `ExecFailed`, `ExecLoaded`: what `execve` leaves behind.
* `SpaceInv`: the invariant. Live processes have address spaces of their own
  that are not destroyed, and the CPU has loaded the running thread's values.
-/

namespace Ceryx.Proc

open Kernel Lib

/-- Five pieces of state agree. `kernelRoot` is the root of the kernel's own
page tables. -/
structure Coherent (kernelRoot : Nat) (u : UserKernel) : Prop where
  running : ∃ t, u.currentThread = some t
  kernelThread : ∀ t, u.currentThread = some t → (u.threads t).process = none →
    u.cr3 = kernelRoot
  process : ∀ t p, u.currentThread = some t → (u.threads t).process = some p →
    u.cr3 = u.spaceRoot (u.image p).addressSpace ∧ (u.image p).addressSpace ∉ u.destroyed
  kernelStack : ∀ t, u.currentThread = some t →
    u.kernelStack = (u.threads t).kernelStack + 32768 ∧
      u.tssRsp0 = (u.threads t).kernelStack + 32768

/-- Steps that make no second thread of a process: all but `CLONE_VM`. -/
def SingleThreaded : UserOp → Prop
  | .kernel (.clone _) => False
  | _ => True

/-- What ties spaces, roots and CR3 together between two calls. -/
structure SpaceInv (kernelRoot : Nat) (u : UserKernel) : Prop where
  kernel : KernelInv u.toKernel
  retired : Retired u.toKernel
  loaded : Loaded u.toSched
  kernelRoot : u.rootPa none = kernelRoot
  roots : ∀ p, Alive u.toKernel p → u.rootPa (some p) = u.spaceRoot (u.image p).addressSpace
  made : ∀ p, Alive u.toKernel p → (u.image p).addressSpace < u.nextSpace
  intact : ∀ p, Alive u.toKernel p → (u.image p).addressSpace ∉ u.destroyed
  distinct : ∀ p q, Alive u.toKernel p → Alive u.toKernel q →
    (u.image p).addressSpace = (u.image q).addressSpace → p = q
  old : ∀ a ∈ u.destroyed, a < u.nextSpace

/-- The process of the running thread is live. -/
theorem SpaceInv.current_live {root : Nat} {u : UserKernel} (h : SpaceInv root u) {t : Tid}
    {p : ProcId} (ht : u.currentThread = some t) (hp : (u.threads t).process = some p) :
    Alive u.toKernel p := by
  refine ⟨h.kernel.tree.threadProcess t p hp, ?_⟩
  cases hdel : (u.procs p).deleted with
  | false => rfl
  | true => exact absurd ht (h.retired.ended t p hp (.inr hdel)).off

/-- It gives the property: the running thread has the CR3 of its process's own space. -/
theorem SpaceInv.coherent {root : Nat} {u : UserKernel} (h : SpaceInv root u) :
    Coherent root u where
  running := by
    rcases h.kernel.sched.current with ⟨c, hc, -⟩
    exact ⟨c, hc⟩
  kernelThread t ht hnone := by
    rw [(h.loaded t ht).cr3, hnone]
    exact h.kernelRoot
  process t p ht hp := by
    have hlive := h.current_live ht hp
    rw [(h.loaded t ht).cr3, hp]
    exact ⟨h.roots p hlive, h.intact p hlive⟩
  kernelStack t ht := ⟨(h.loaded t ht).kernelStack, (h.loaded t ht).tssRsp0⟩

/-! ## Steps of the kernel -/

/-- A step that makes no thread and gives no process another address space. What
it destroys belonged to a process that is live no more. -/
theorem SpaceInv.progress {root : Nat} {u u' : UserKernel} (h : SpaceInv root u)
    (hk : KernelInv u'.toKernel) (hp : Progress u.toKernel u'.toKernel)
    (hspace : ∀ p, (u'.image p).addressSpace = (u.image p).addressSpace)
    (hroot : u'.spaceRoot = u.spaceRoot) (hnext : u'.nextSpace = u.nextSpace)
    (hdestroyed : ∀ a ∈ u'.destroyed, a ∈ u.destroyed ∨
      ∃ c, Alive u.toKernel c ∧ ¬ Alive u'.toKernel c ∧ a = (u.image c).addressSpace) : SpaceInv root u' := by
  -- a step makes no process live again
  have hlive : ∀ p, Alive u'.toKernel p → Alive u.toKernel p := by
    intro p hlive
    refine ⟨hp.nextProc ▸ hlive.1, ?_⟩
    rcases hp.reaped with ⟨-, hsame⟩ | ⟨c, -, -, -, -, hdeleted⟩
    · rw [← hsame p]
      exact hlive.2
    · cases hdel : (u.procs p).deleted with
      | false => rfl
      | true =>
          have hgone := (hdeleted p).mpr (.inl hdel)
          rw [hlive.2] at hgone
          cases hgone
  constructor
  case kernel => exact hk
  case retired => exact h.retired.progress hp
  case loaded => exact hp.keeps.loaded h.loaded
  case kernelRoot =>
    rw [hp.keeps.rootPa]
    exact h.kernelRoot
  case roots =>
    intro p hp'
    rw [hp.keeps.rootPa, hroot, hspace]
    exact h.roots p (hlive p hp')
  case made =>
    intro p hp'
    rw [hspace, hnext]
    exact h.made p (hlive p hp')
  case intact =>
    intro p hp' hmem
    rw [hspace] at hmem
    rcases hdestroyed _ hmem with hold | ⟨c, hc, hgone, heq⟩
    · exact h.intact p (hlive p hp') hold
    · -- the space of the process that is gone is no one else's
      rw [h.distinct p c (hlive p hp') hc heq] at hp'
      exact hgone hp'
  case distinct =>
    intro p q hp' hq heq
    rw [hspace, hspace] at heq
    exact h.distinct p q (hlive p hp') (hlive q hq) heq
  case old =>
    intro a ha
    rw [hnext]
    rcases hdestroyed a ha with hold | ⟨c, hc, -, heq⟩
    · exact h.old a hold
    · rw [heq]
      exact h.made c hc

/-- A step of the kernel, with the address spaces of what it reaps. -/
theorem SpaceInv.onKernel {root : Nat} {u : UserKernel} {k : Kernel} (h : SpaceInv root u)
    (hk : KernelInv k) (hp : Progress u.toKernel k) : SpaceInv root (u.onKernel k) := by
  refine h.progress hk hp (fun _ => rfl) rfl rfl ?_
  intro a ha
  rcases List.mem_append.mp ha with hold | hnew
  · exact .inl hold
  · right
    rcases List.mem_map.mp hnew with ⟨c, hc, heq⟩
    rcases hp.reaped with ⟨hsame, -⟩ | ⟨d, hreaped, hlt, hdel, -, hdeleted⟩
    · -- nothing is reaped
      rw [hsame, List.drop_length] at hc
      exact absurd hc List.not_mem_nil
    · rw [hreaped, List.drop_left] at hc
      have hcd : c = d := List.mem_singleton.mp hc
      subst hcd
      refine ⟨c, ⟨hlt, hdel⟩, ?_, heq.symm⟩
      intro hlive
      have hgone := (hdeleted c).mpr (.inr rfl)
      rw [show (k.procs c).deleted = false from hlive.2] at hgone
      cases hgone

/-- An exiting process keeps its space until it is reaped. -/
theorem SpaceInv.exit {root : Nat} {u u' : UserKernel} {t : Tid} {p : ProcId} {status : Int}
    (h : SpaceInv root u) (hcall : u.caller = some (t, p)) (hwait : u.waiting t = none)
    (hexit : u.exit t p status = some u') : SpaceInv root u' := by
  have hk := userExit_eq hexit
  have hinv := h.kernel.step (kernelStep_exit hcall hwait hk)
  rcases Option.map_eq_some_iff.mp hexit with ⟨k, hk', rfl⟩
  refine h.progress hinv (exit_progress h.kernel hcall hk) ?_ rfl rfl fun a ha => .inl ha
  intro q
  by_cases hq : q = p
  · subst hq
    simp [UserKernel.setImage]
  · simp [UserKernel.setImage, hq]

theorem SpaceInv.setSignals {root : Nat} {u : UserKernel} (h : SpaceInv root u) (t : Tid)
    (st : SigThread) : SpaceInv root (u.setSignals t st) := by
  have hlists := setSignals_lists u t st
  have hstack : ∀ s, ((u.setSignals t st).threads s).kernelStack = (u.threads s).kernelStack :=
    setSignals_field Thread.kernelStack (fun _ _ _ => rfl) u t st
  refine ⟨h.kernel.setSignals t st, ?_, ?_, h.kernelRoot, h.roots, h.made, h.intact, h.distinct,
    h.old⟩
  · constructor
    case fresh =>
      intro s hs
      rw [hlists.process]
      exact h.retired.fresh s hs
    case sole =>
      intro s s' p hs hs'
      rw [hlists.process] at hs hs'
      exact h.retired.sole s s' p hs hs'
    case ended =>
      intro s p hs hover
      rw [hlists.process] at hs
      exact (h.retired.ended s p hs hover).congr (hlists.state s) rfl rfl rfl
  · intro s hs
    -- process and stack of a thread are the old ones
    have hold := h.loaded s hs
    constructor
    · rw [hlists.process]
      exact hold.cr3
    · rw [hstack]
      exact hold.kernelStack
    · rw [hstack]
      exact hold.tssRsp0

theorem Retired.setRoots {k : Kernel} (h : Retired k) (root : Option ProcId → Nat)
    (value : Nat) : Retired (k.setRoots root value) :=
  ⟨h.fresh, h.sole, fun t p hp hover => (h.ended t p hp hover).congr rfl rfl rfl rfl⟩

/-! ## Fork -/

/-- A `fork` that fails. Its clone of the address space, if it made one, is
destroyed. -/
theorem SpaceInv.forkFailed {root : Nat} {u u' : UserKernel} (h : SpaceInv root u)
    (hk : KernelInv u'.toKernel) (hf : ForkFailed u.toKernel u'.toKernel)
    (himage : u'.image = u.image) (hroot : u'.spaceRoot = u.spaceRoot)
    (hnext : u.nextSpace ≤ u'.nextSpace)
    (hdestroyed : ∀ a ∈ u'.destroyed, a ∈ u.destroyed ∨ u.nextSpace ≤ a ∧ a < u'.nextSpace) :
    SpaceInv root u' := by
  have halive : ∀ p, Alive u'.toKernel p → Alive u.toKernel p := by
    intro p hp
    by_cases hlt : p < u.nextProc
    · exact ⟨hlt, (hf.deleted p hlt).symm.trans hp.2⟩
    · -- a child that could not be finished is gone
      have hgone := hf.stillborn p (Nat.le_of_not_lt hlt) hp.1
      rw [hp.2] at hgone
      cases hgone
  constructor
  case kernel => exact hk
  case retired => exact h.retired.forkFailed h.kernel hf
  case loaded =>
    rw [hf.sched]
    exact h.loaded
  case kernelRoot =>
    rw [hf.sched]
    exact h.kernelRoot
  case roots =>
    intro p hp
    rw [hf.sched, himage, hroot]
    exact h.roots p (halive p hp)
  case made =>
    intro p hp
    rw [himage]
    exact Nat.lt_of_lt_of_le (h.made p (halive p hp)) hnext
  case intact =>
    intro p hp hmem
    rw [himage] at hmem
    rcases hdestroyed _ hmem with hold | ⟨hge, -⟩
    · exact h.intact p (halive p hp) hold
    · exact absurd (h.made p (halive p hp)) (Nat.not_lt.mpr hge)
  case distinct =>
    intro p q hp hq heq
    rw [himage] at heq
    exact h.distinct p q (halive p hp) (halive q hq) heq
  case old =>
    intro a ha
    rcases hdestroyed a ha with hold | ⟨-, hlt⟩
    · exact Nat.lt_of_lt_of_le (h.old a hold) hnext
    · exact hlt

/-- A new number for one process keeps the numbers of live processes distinct. -/
theorem distinct_of_fresh {f f' : ProcId → SpaceId} {live live' : ProcId → Prop} {p : ProcId}
    {n : SpaceId} (hmade : ∀ q, live q → f q < n)
    (hdistinct : ∀ q r, live q → live r → f q = f r → q = r) (hself : f' p = n)
    (hothers : ∀ q, q ≠ p → f' q = f q) (hlive : ∀ q, live' q → q ≠ p → live q) :
    ∀ q r, live' q → live' r → f' q = f' r → q = r := by
  intro q r hq hr heq
  by_cases hqp : q = p
  · by_cases hrp : r = p
    · exact hqp.trans hrp.symm
    · rw [hqp, hself, hothers r hrp] at heq
      exact absurd heq.symm (Nat.ne_of_lt (hmade r (hlive r hr hrp)))
  · by_cases hrp : r = p
    · rw [hrp, hself, hothers q hqp] at heq
      exact absurd heq (Nat.ne_of_lt (hmade q (hlive q hq hqp)))
    · rw [hothers q hqp, hothers r hrp] at heq
      exact hdistinct q r (hlive q hq hqp) (hlive r hr hrp) heq

/-- A `fork` that makes a process with the next address space. -/
theorem SpaceInv.forkedOff {root : Nat} {u : UserKernel} {k : Kernel} {stack : Nat}
    (h : SpaceInv root u) (hk : KernelInv k) (hf : ForkedOff u.toKernel stack k)
    {im : ProcessImage} (him : im.addressSpace = u.nextSpace) :
    SpaceInv root (({ u with toKernel := k }.newSpace).giveImage u.nextProc im) := by
  have hretired := h.retired.forkedOff h.kernel hf
  have hspace : ∀ q, q ≠ u.nextProc →
      ((({ u with toKernel := k }.newSpace).giveImage u.nextProc im).image q).addressSpace =
        (u.image q).addressSpace := by
    intro q hq
    rw [UserKernel.giveImage_ne _ im hq]
    rfl
  have hnew : ((({ u with toKernel := k }.newSpace).giveImage u.nextProc im).image
      u.nextProc).addressSpace = u.nextSpace := by
    rw [UserKernel.giveImage_self]
    exact him
  have hrootNe : ∀ o, o ≠ some u.nextProc →
      (({ u with toKernel := k }.newSpace).giveImage u.nextProc im).rootPa o = u.rootPa o := by
    intro o ho
    refine (Function.update_of_ne ho _ _).trans ?_
    exact congrFun hf.keeps.rootPa o
  have halive : ∀ q, Alive k q → q ≠ u.nextProc → Alive u.toKernel q := by
    intro q hq hne
    have hlt : q < u.nextProc := by
      have hlt := hq.1
      rw [hf.nextProc] at hlt
      exact Nat.lt_of_le_of_ne (Nat.le_of_lt_succ hlt) hne
    exact ⟨hlt, (hf.deleted q hlt).symm.trans hq.2⟩
  constructor
  case kernel => exact hk.setRoots _ _
  case retired => exact hretired.setRoots _ _
  case loaded =>
    rcases h.kernel.sched.current with ⟨c, hc, -, hcreated, -⟩
    have hnot : c ≠ u.nextTid := Nat.ne_of_lt hcreated.2
    have hloaded := hf.keeps.loaded h.loaded (fun he => hnot (Option.some.inj (hc.symm.trans he)))
    intro t ht
    have htc : c = t := Option.some.inj (hc.symm.trans (hf.keeps.current.symm.trans ht))
    subst htc
    have hprocess := kept_process (hf.keeps.kept c hnot)
    have hchild : (k.threads c).process ≠ some u.nextProc := by
      -- the running thread is not the child's
      intro he
      rw [hprocess] at he
      exact Nat.lt_irrefl _ (h.kernel.tree.threadProcess c _ he)
    have hold := hloaded c ht
    refine ⟨?_, hold.kernelStack, hold.tssRsp0⟩
    refine hold.cr3.trans ?_
    refine (congrFun hf.keeps.rootPa _).trans ?_
    exact (hrootNe _ hchild).symm
  case kernelRoot =>
    rw [hrootNe none (fun he => by cases he)]
    exact h.kernelRoot
  case roots =>
    intro q hq
    by_cases hne : q = u.nextProc
    · rw [hne, hnew]
      exact (Function.update_self _ _ _).trans (congrArg u.spaceRoot him)
    · rw [hspace q hne, hrootNe _ (fun he => hne (Option.some.inj he))]
      exact h.roots q (halive q hq hne)
  case made =>
    intro q hq
    by_cases hne : q = u.nextProc
    · rw [hne, hnew]
      exact Nat.lt_succ_self _
    · rw [hspace q hne]
      exact Nat.lt_succ_of_lt (h.made q (halive q hq hne))
  case intact =>
    intro q hq hmem
    by_cases hne : q = u.nextProc
    · rw [hne, hnew] at hmem
      exact Nat.lt_irrefl _ (h.old _ hmem)
    · rw [hspace q hne] at hmem
      exact h.intact q (halive q hq hne) hmem
  case distinct => exact distinct_of_fresh h.made h.distinct hnew hspace halive
  case old =>
    intro a ha
    exact Nat.lt_succ_of_lt (h.old a ha)

/-- The child of a `fork` has a new space, which nobody else has. -/
theorem SpaceInv.fork {root : Nat} {u u' : UserKernel} {t : Tid} {p : ProcId}
    {alloc : ForkAlloc} {rax : Int} (h : SpaceInv root u) (hcall : u.caller = some (t, p))
    (hwait : u.waiting t = none) (hfork : u.fork p alloc = some (rax, u')) : SpaceInv root u' := by
  rcases Option.map_eq_some_iff.mp hfork with ⟨⟨r, k⟩, hk, heq⟩
  have hinv := h.kernel.step (kernelStep_fork hcall hwait hk)
  dsimp only at heq
  rcases fork_forkedOff h.kernel hk with ⟨hneg, hf⟩ | ⟨hpos, stack, hf⟩
  · split at heq
    · -- without an address space
      cases heq
      exact h.forkFailed hinv hf rfl rfl (Nat.le_refl _) fun a ha => .inl ha
    · cases heq
      refine h.forkFailed hinv hf rfl rfl (Nat.le_succ _) ?_
      intro a ha
      rcases List.mem_append.mp ha with hold | hnew
      · exact .inl hold
      · rw [List.mem_singleton.mp hnew]
        exact .inr ⟨Nat.le_refl _, Nat.lt_succ_self _⟩
  · split at heq
    · rename_i halloc
      rcases kernelFork_success hk hpos with ⟨_, _, _, _, henough, _⟩
      rw [halloc] at henough
      cases henough
    · rw [if_neg (Int.not_lt.mpr hpos)] at heq
      cases heq
      exact h.forkedOff hinv hf rfl

/-! ## execve -/

/-- `execve` of process `p` has failed behind `Create`. -/
structure ExecFailed (u : UserKernel) (p : ProcId) (u' : UserKernel) : Prop where
  kernel : u'.toKernel = u.toKernel.setRoots
    (Function.update u.rootPa (some p) (u.spaceRoot (u.image p).addressSpace)) u.cr3
  image : u'.image = u.image
  nextSpace : u'.nextSpace = u.nextSpace + 1
  spaceRoot : u'.spaceRoot = u.spaceRoot
  destroyed : u'.destroyed = u.destroyed ++ [u.nextSpace]

/-- `execve` of process `p` has succeeded. -/
structure ExecLoaded (u : UserKernel) (p : ProcId) (u' : UserKernel) : Prop where
  kernel : u'.toKernel = u.toKernel.setRoots
    (Function.update u.rootPa (some p) (u.spaceRoot u.nextSpace)) (u.spaceRoot u.nextSpace)
  space : (u'.image p).addressSpace = u.nextSpace
  others : ∀ q, q ≠ p → u'.image q = u.image q
  nextSpace : u'.nextSpace = u.nextSpace + 1
  spaceRoot : u'.spaceRoot = u.spaceRoot
  destroyed : u'.destroyed = u.destroyed ++ [(u.image p).addressSpace]

@[simp] theorem enterSpace_nextSpace (u : UserKernel) (p : ProcId) :
    (u.enterSpace p).nextSpace = u.nextSpace + 1 := rfl

@[simp] theorem enterSpace_spaceRoot (u : UserKernel) (p : ProcId) :
    (u.enterSpace p).spaceRoot = u.spaceRoot := rfl

@[simp] theorem enterSpace_destroyed (u : UserKernel) (p : ProcId) :
    (u.enterSpace p).destroyed = u.destroyed := rfl

/-- The space that is entered is the one that was created last. -/
theorem enterSpace_space (u : UserKernel) (p : ProcId) :
    ((u.enterSpace p).image p).addressSpace = u.nextSpace := by
  simp [UserKernel.enterSpace, UserKernel.setAddressSpace, UserKernel.setImage,
    UserKernel.newSpace, UserKernel.writeCr3]

/-- The process gets its old address space back. -/
theorem enterSpace_back (u : UserKernel) (p : ProcId) :
    ((u.enterSpace p).setAddressSpace p (u.image p).addressSpace).image = u.image := by
  simp [UserKernel.enterSpace, UserKernel.setAddressSpace, UserKernel.setImage,
    UserKernel.newSpace, UserKernel.writeCr3]

/-- `execve` fails before there is a new space, or behind it with the old one put back,
or runs the image in the new one. -/
theorem execve_spec (u : UserKernel) (p : ProcId) (outcome : UserKernel.ExecOutcome) :
    (∃ e, (u.execve p outcome).1 = .error e ∧
      ((u.execve p outcome).2 = u ∨ ExecFailed u p (u.execve p outcome).2)) ∨
    ∃ result, (u.execve p outcome).1 = .ok result ∧ ExecLoaded u p (u.execve p outcome).2 := by
  cases outcome with
  | noFile e => exact .inl ⟨e, rfl, .inl rfl⟩
  | noAddressSpace => exact .inl ⟨-Proc.ENOMEM, rfl, .inl rfl⟩
  | load outcome =>
      cases hresult : outcome.result with
      | error e =>
          rw [UserKernel.execve_error hresult]
          refine .inl ⟨e, rfl, .inr ?_⟩
          -- CR3 and the root go back to the old space; the new one is destroyed
          constructor
          case kernel =>
            have hroot : Function.update (u.enterSpace p).rootPa (some p)
                (u.spaceRoot (u.image p).addressSpace) =
                Function.update u.rootPa (some p) (u.spaceRoot (u.image p).addressSpace) :=
              Function.update_idem _ _ _
            simp only [destroySpace_kernel, writeCr3_kernel, setAddressSpace_kernel,
              setRoots_setRoots, enterSpace_spaceRoot, enterSpace_kernel, ← hroot]
            rfl
          case image => exact enterSpace_back u p
          case nextSpace => simp
          case spaceRoot => simp
          case destroyed => simp
      | ok result =>
          rw [UserKernel.execve_ok hresult]
          refine .inr ⟨result, rfl, ?_⟩
          constructor
          case kernel => exact enterSpace_kernel u p
          case space => simp [UserKernel.setHeap, UserKernel.setImage, enterSpace_space]
          case others =>
            intro q hq
            simp [UserKernel.setHeap, UserKernel.setImage, UserKernel.enterSpace,
              UserKernel.writeCr3, UserKernel.setAddressSpace, UserKernel.newSpace, hq]
          case nextSpace => simp
          case spaceRoot => simp
          case destroyed => simp

/-- Only CR3 and the roots have changed, for the values they are to have. -/
theorem Loaded.setRoots {k : Kernel} {root : Option ProcId → Nat} {value : Nat} {t : Tid}
    (h : Loaded k.toSched) (ht : k.currentThread = some t)
    (hvalue : value = root (k.threads t).process) : Loaded (k.setRoots root value).toSched := by
  intro s hs
  have hst : t = s := Option.some.inj (ht.symm.trans hs)
  subst hst
  exact ⟨hvalue, (h t ht).kernelStack, (h t ht).tssRsp0⟩

/-- A failure has put the old space back, and CR3 with it. -/
theorem SpaceInv.execFailed {root : Nat} {u u' : UserKernel} {t : Tid} {p : ProcId}
    (h : SpaceInv root u) (hcall : u.caller = some (t, p)) (he : ExecFailed u p u') :
    SpaceInv root u' := by
  obtain ⟨hcur, hprocess, -⟩ := caller_eq hcall
  have hcaller := h.current_live hcur hprocess
  have hsame : Function.update u.rootPa (some p) (u.spaceRoot (u.image p).addressSpace) =
      u.rootPa := by
    rw [← h.roots p hcaller]
    exact Function.update_eq_self _ _
  have hkernel : u'.toKernel = u.toKernel := by
    rw [he.kernel, hsame]
    rfl
  constructor
  case kernel =>
    rw [hkernel]
    exact h.kernel
  case retired =>
    rw [hkernel]
    exact h.retired
  case loaded =>
    rw [hkernel]
    exact h.loaded
  case kernelRoot =>
    rw [hkernel]
    exact h.kernelRoot
  case roots =>
    rw [hkernel, he.image, he.spaceRoot]
    exact h.roots
  case made =>
    rw [hkernel, he.image, he.nextSpace]
    intro q hq
    exact Nat.lt_succ_of_lt (h.made q hq)
  case intact =>
    rw [hkernel, he.image, he.destroyed]
    intro q hq hmem
    rcases List.mem_append.mp hmem with hold | hnew
    · exact h.intact q hq hold
    · -- the new space is nobody's
      have hlt := h.made q hq
      rw [List.mem_singleton.mp hnew] at hlt
      exact Nat.lt_irrefl _ hlt
  case distinct =>
    rw [hkernel, he.image]
    exact h.distinct
  case old =>
    rw [he.destroyed, he.nextSpace]
    intro a ha
    rcases List.mem_append.mp ha with hold | hnew
    · exact Nat.lt_succ_of_lt (h.old a hold)
    · rw [List.mem_singleton.mp hnew]
      exact Nat.lt_succ_self _

/-- A success has destroyed the old space, which nobody runs in any more. -/
theorem SpaceInv.execLoaded {root : Nat} {u u' : UserKernel} {t : Tid} {p : ProcId}
    (h : SpaceInv root u) (hcall : u.caller = some (t, p)) (he : ExecLoaded u p u') :
    SpaceInv root u' := by
  obtain ⟨hcur, hprocess, -⟩ := caller_eq hcall
  have hcaller := h.current_live hcur hprocess
  have halive : ∀ q, Alive u'.toKernel q → Alive u.toKernel q := by
    intro q hq
    rw [he.kernel] at hq
    exact hq
  have hrootSelf : u'.rootPa (some p) = u.spaceRoot u.nextSpace := by
    rw [he.kernel]
    exact Function.update_self _ _ _
  have hrootNe : ∀ o, o ≠ some p → u'.rootPa o = u.rootPa o := by
    intro o ho
    rw [he.kernel]
    exact Function.update_of_ne ho _ _
  constructor
  case kernel =>
    rw [he.kernel]
    exact h.kernel.setRoots _ _
  case retired =>
    rw [he.kernel]
    exact h.retired.setRoots _ _
  case loaded =>
    rw [he.kernel]
    refine h.loaded.setRoots hcur ?_
    rw [hprocess, Function.update_self]
  case kernelRoot =>
    rw [hrootNe none (fun hn => by cases hn)]
    exact h.kernelRoot
  case roots =>
    intro q hq
    by_cases hqp : q = p
    · rw [hqp, hrootSelf, he.space, he.spaceRoot]
    · rw [hrootNe _ (fun hs => hqp (Option.some.inj hs)), he.others q hqp, he.spaceRoot]
      exact h.roots q (halive q hq)
  case made =>
    intro q hq
    rw [he.nextSpace]
    by_cases hqp : q = p
    · rw [hqp, he.space]
      exact Nat.lt_succ_self _
    · rw [he.others q hqp]
      exact Nat.lt_succ_of_lt (h.made q (halive q hq))
  case intact =>
    intro q hq hmem
    rw [he.destroyed] at hmem
    by_cases hqp : q = p
    · rw [hqp, he.space] at hmem
      rcases List.mem_append.mp hmem with hold | hnew
      · exact Nat.lt_irrefl _ (h.old _ hold)
      · -- the new space is not the one it replaces
        have hlt := h.made p hcaller
        rw [← List.mem_singleton.mp hnew] at hlt
        exact Nat.lt_irrefl _ hlt
    · rw [he.others q hqp] at hmem
      rcases List.mem_append.mp hmem with hold | hnew
      · exact h.intact q (halive q hq) hold
      · exact hqp (h.distinct q p (halive q hq) hcaller (List.mem_singleton.mp hnew))
  case distinct =>
    have hothers : ∀ q, q ≠ p → (u'.image q).addressSpace = (u.image q).addressSpace := by
      intro q hq
      rw [he.others q hq]
    exact distinct_of_fresh h.made h.distinct he.space hothers fun q hq _ => halive q hq
  case old =>
    intro a ha
    rw [he.destroyed] at ha
    rw [he.nextSpace]
    rcases List.mem_append.mp ha with hold | hnew
    · exact Nat.lt_succ_of_lt (h.old a hold)
    · rw [List.mem_singleton.mp hnew]
      exact Nat.lt_succ_of_lt (h.made p hcaller)

/-! ## Every step -/

/-- Another image of the same address space. -/
theorem SpaceInv.setImage {root : Nat} {u : UserKernel} (h : SpaceInv root u) (p : ProcId)
    {im : ProcessImage} (hspace : im.addressSpace = (u.image p).addressSpace) :
    SpaceInv root (u.setImage p im) := by
  -- no space has changed
  have hsame : ∀ q, ((u.setImage p im).image q).addressSpace = (u.image q).addressSpace := by
    intro q
    by_cases hq : q = p
    · subst hq
      simp [UserKernel.setImage, hspace]
    · simp [UserKernel.setImage, hq]
  constructor
  case kernel => exact h.kernel
  case retired => exact h.retired
  case loaded => exact h.loaded
  case kernelRoot => exact h.kernelRoot
  case roots =>
    intro q hq
    rw [hsame]
    exact h.roots q hq
  case made =>
    intro q hq
    rw [hsame]
    exact h.made q hq
  case intact =>
    intro q hq
    rw [hsame]
    exact h.intact q hq
  case distinct =>
    intro q r hq hr heq
    rw [hsame, hsame] at heq
    exact h.distinct q r hq hr heq
  case old => exact h.old

/-- One step of processes with one thread each. -/
theorem SpaceInv.step {root : Nat} {u u' : UserKernel} {op : UserOp} (h : SpaceInv root u)
    (hop : SingleThreaded op) (hstep : userStep u op = some u') : SpaceInv root u' := by
  cases op with
  | kernel op =>
      rcases userStep_kernel hstep with ⟨alloc, t, p, rax, rfl, hcall, hwait, hfork⟩ |
        ⟨status, t, p, rfl, hcall, hwait, hexit⟩ | ⟨hfork, hexit, k, hk, rfl⟩
      · exact h.fork hcall hwait hfork
      · exact h.exit hcall hwait hexit
      · have hclone : ∀ stack, op ≠ .clone stack := by
          rintro stack rfl
          exact hop
        exact h.onKernel (h.kernel.step hk) (kernelStep_progress h.kernel hfork hclone hk)
  | execve outcome =>
      simp only [userStep] at hstep
      rcases userSyscall_eq hstep with ⟨t, p, hcall, -, hf⟩
      cases hf
      rcases execve_spec u p outcome with ⟨e, -, hsame | hfailed⟩ | ⟨result, -, hloaded⟩
      · rw [hsame]
        exact h
      · exact h.execFailed hcall hfailed
      · exact h.execLoaded hcall hloaded
  | rtSigaction sig act =>
      simp only [userStep] at hstep
      rcases userSyscall_eq hstep with ⟨t, p, -, -, hf⟩
      cases hf
      unfold UserKernel.rtSigaction
      split
      · exact h
      · exact h.setImage p rfl
  | rtSigprocmask frame mem how set =>
      simp only [userStep] at hstep
      rcases userSyscall_eq hstep with ⟨t, p, -, -, hf⟩
      cases hf
      unfold UserKernel.rtSigprocmask
      split
      · exact h
      · exact h.setSignals t _
  | rtSigreturn frame mem userRsp =>
      simp only [userStep] at hstep
      rcases userSyscall_eq hstep with ⟨t, p, -, -, hf⟩
      cases hf
      exact h.setSignals t _
  | send frame mem sig =>
      simp only [userStep] at hstep
      rcases userSyscall_eq hstep with ⟨t, p, -, -, hf⟩
      cases hf
      exact h.setSignals t _
  | doPending frame mem =>
      simp only [userStep] at hstep
      rcases userSyscall_eq hstep with ⟨t, p, hcall, hwait, hf⟩
      rcases doPending_eq hf with ⟨st, -, rfl | ⟨status, hexit⟩⟩
      · exact h.setSignals t st
      · -- a fatal signal
        exact (h.setSignals t st).exit ((setSignals_caller u t st).trans hcall) hwait hexit

/-! ## The boot -/

/-- What the boot leaves behind, besides `KernelInv`. -/
structure Started (rootPa : Option ProcId → Nat) (load : Bool) (k : Kernel) : Prop where
  retired : Retired k
  loaded : Loaded k.toSched
  rootPa : k.rootPa = rootPa
  current : ∀ t, k.currentThread = some t → (k.threads t).process = none
  process : ∀ p, Alive k p → load = true ∧ p = 0

theorem startReaper_loaded (rootPa : Option ProcId → Nat) (idleStack reaperStack : Nat) :
    Loaded (startReaper rootPa idleStack reaperStack) := by
  intro t ht
  have h1 : 1 = t := Option.some.inj ht
  subst h1
  -- the idle thread is thread 1
  have hidle : (startReaper rootPa idleStack reaperStack).threads 1 =
      (Sched.startIdle rootPa idleStack).threads 1 := by
    have hne : (1 : Tid) ≠ (Sched.startIdle rootPa idleStack).nextTid := by
      intro he
      cases he
    exact Function.update_of_ne hne { kernelStack := reaperStack } _
  have hkept : ((Sched.startIdle rootPa idleStack).threads 1).kept = (none, idleStack, 0, 0) := by
    simp [Sched.startIdle, Sched.newThread, Sched.setState, Sched.setMlfqLevel, Sched.updThread,
      Sched.boot, Thread.kept]
  have hprocess : ((Sched.startIdle rootPa idleStack).threads 1).process = none :=
    congrArg Prod.fst hkept
  have hstack : ((Sched.startIdle rootPa idleStack).threads 1).kernelStack = idleStack :=
    congrArg (fun th => th.2.1) hkept
  constructor
  case cr3 =>
    rw [hidle, hprocess]
    rfl
  case kernelStack =>
    rw [hidle, hstack]
    rfl
  case tssRsp0 =>
    rw [hidle, hstack]
    rfl

theorem start_loaded {rootPa : Option ProcId → Nat} {idleStack reaperStack : Nat} {s : Sched}
    (hstart : Sched.start rootPa idleStack reaperStack = some s) :
    Loaded s ∧ s.rootPa = rootPa := by
  rw [start_eq] at hstart
  obtain ⟨-, rfl⟩ := addThread_eq hstart
  have hkeeps : Keeps (startReaper rootPa idleStack reaperStack)
      (((startReaper rootPa idleStack reaperStack).updThread 2 fun th =>
        { th with mlfqLevel := kNumLevels - 1, ticksRemaining := kQuantum (kNumLevels - 1),
                  state := .ready }).pushReady (kNumLevels - 1) 2) :=
    (Keeps.updThread _ 2 rfl).trans (Keeps.pushReady _ _ 2)
  exact ⟨hkeeps.loaded (startReaper_loaded rootPa idleStack reaperStack), hkeeps.rootPa⟩

/-- No thread is left that belongs to a process that is over, when no thread
belongs to any process. -/
theorem Retired.of_none {k : Kernel} (hnone : ∀ t, (k.threads t).process = none) : Retired k where
  fresh t _ := hnone t
  sole t s p ht := by
    rw [hnone] at ht
    cases ht
  ended t p ht := by
    rw [hnone] at ht
    cases ht

/-- `/sbin/init` was loaded: its thread is the only one with a process. -/
theorem Started.spawned {rootPa : Option ProcId → Nat} {initStack pid : Nat} {s s' : Sched}
    {k : Kernel} (hs : SchedInv s) (hloaded : Loaded s) (hroot : s.rootPa = rootPa)
    (hnone : ∀ t, (s.threads t).process = none) (hnew : KeepsNew s (some 0) initStack s')
    (hproc : k.procs 0 = { pid := pid }) (hone : k.nextProc = 1) :
    Started rootPa true (k.onSched s') := by
  have hold : ∀ t, t ≠ s.nextTid → (s'.threads t).process = none := by
    intro t ht
    exact (kept_process (hnew.kept t ht)).trans (hnone t)
  have hinit : (s'.threads s.nextTid).process = some 0 := congrArg Prod.fst hnew.new
  have hthread : ∀ t p, (s'.threads t).process = some p → t = s.nextTid ∧ p = 0 := by
    intro t p hp
    by_cases ht : t = s.nextTid
    · rw [ht, hinit] at hp
      exact ⟨ht, (Option.some.inj hp).symm⟩
    · rw [hold t ht] at hp
      cases hp
  -- the thread that boots is older than the new one
  have hcur : ∀ t, s'.currentThread = some t → t ≠ s.nextTid := by
    intro t ht
    rcases hs.current with ⟨c, hc, -, hcreated, -⟩
    have hct : c = t := Option.some.inj (hc.symm.trans (hnew.current.symm.trans ht))
    rw [← hct]
    exact Nat.ne_of_lt hcreated.2
  constructor
  case retired =>
    constructor
    case fresh =>
      intro t ht
      have hnext : s'.nextTid ≤ t := ht
      rw [hnew.next] at hnext
      exact hold t (Nat.ne_of_gt hnext)
    case sole =>
      intro t t' p ht ht'
      rw [(hthread t p ht).1, (hthread t' p ht').1]
    case ended =>
      intro t p hp hover
      rw [(hthread t p hp).2] at hover
      unfold Over at hover
      rw [show (k.onSched s').procs 0 = { pid := pid } from hproc] at hover
      rcases hover with hz | hd
      · cases hz
      · cases hd
  case loaded =>
    apply hnew.loaded hloaded
    intro he
    exact hcur s.nextTid (hnew.current.trans he) rfl
  case rootPa => exact hnew.rootPa.trans hroot
  case current => exact fun t ht => hold t (hcur t ht)
  case process =>
    intro p hp
    have hlt : p < k.nextProc := hp.1
    rw [hone] at hlt
    exact ⟨rfl, Nat.lt_one_iff.mp hlt⟩

/-- What the boot leaves to the kernel part. -/
theorem boot_started {rootPa : Option ProcId → Nat} {idleStack reaperStack initStack : Nat}
    {load : Bool} {k : Kernel} (hboot : boot rootPa idleStack reaperStack initStack load = some k) :
    Started rootPa load k := by
  rcases Option.bind_eq_some_iff.mp hboot with ⟨s, hstart, hspawn⟩
  obtain ⟨hloaded, hroot⟩ := start_loaded hstart
  have hnone := start_process hstart
  rcases spawn_eq s load initStack with ⟨k₁, pid, htree, hsched, heq⟩
  have hbefore : (k₁.newProcess pid).2.toSched = s := hsched
  have hone : (k₁.newProcess pid).2.nextProc = 1 := congrArg Nat.succ htree.nextProc
  rw [heq] at hspawn
  cases load with
  | false =>
      rw [if_neg Bool.false_ne_true] at hspawn
      cases hspawn
      obtain ⟨hsame, -, hnext, -, -, hprocs⟩ := delete_frame (k₁.newProcess pid).2 0
      rw [hbefore] at hsame
      have hdeleted : (((k₁.newProcess pid).2.delete 0).procs 0).deleted = true := by
        rw [hprocs, updProc_self]
      change Started rootPa false ((k₁.newProcess pid).2.delete 0)
      constructor
      case retired =>
        apply Retired.of_none
        intro t
        rw [hsame]
        exact hnone t
      case loaded =>
        rw [hsame]
        exact hloaded
      case rootPa =>
        rw [hsame]
        exact hroot
      case current =>
        intro t _
        rw [hsame]
        exact hnone t
      case process =>
        -- the only process is the one that was deleted
        intro p hp
        have hp0 : p = 0 := by
          have hlt := hp.1
          rw [hnext, hone] at hlt
          exact Nat.lt_one_iff.mp hlt
        rw [hp0] at hp
        exact absurd hp.2 (by rw [hdeleted]; exact Bool.true_eq_false_eq_False)
  | true =>
      rw [if_pos rfl] at hspawn
      have hnew := startThread_keeps hspawn
      rw [hbefore] at hnew
      rcases Option.map_eq_some_iff.mp hspawn with ⟨s', _, rfl⟩
      have hproc : (k₁.newProcess pid).2.procs 0 = { pid := pid } := by
        have hself := newProcess_self k₁ pid
        rwa [htree.nextProc] at hself
      exact Started.spawned (start_inv hstart) hloaded hroot hnone hnew hproc hone

/-- The state before the first step. -/
theorem SpaceInv.ofKernel {rootPa : Option ProcId → Nat} {load : Bool} {k : Kernel}
    (hk : KernelInv k) (hs : Started rootPa load k) (spaceRoot : SpaceId → Nat)
    {im : ProcessImage} (him : im.addressSpace = 0) :
    SpaceInv (rootPa none) ((UserKernel.ofKernel k spaceRoot).newSpace.giveImage 0 im) := by
  have hkernel : ((UserKernel.ofKernel k spaceRoot).newSpace.giveImage 0 im).toKernel =
      k.setRoots (Function.update k.rootPa (some 0) (spaceRoot 0)) k.cr3 := by
    rw [← him]
    rfl
  have hnone : Function.update k.rootPa (some 0) (spaceRoot 0) none = k.rootPa none :=
    Function.update_of_ne (Option.some_ne_none 0).symm _ _
  -- `/sbin/init` is the only process
  have halive : ∀ p, Alive ((UserKernel.ofKernel k spaceRoot).newSpace.giveImage 0 im).toKernel p →
      p = 0 := by
    intro p hp
    rw [hkernel] at hp
    exact (hs.process p hp).2
  constructor
  case kernel =>
    rw [hkernel]
    exact hk.setRoots _ _
  case retired =>
    rw [hkernel]
    exact hs.retired.setRoots _ _
  case loaded =>
    rcases hk.sched.current with ⟨c, hc, -⟩
    rw [hkernel]
    refine hs.loaded.setRoots hc ?_
    rw [(hs.loaded c hc).cr3, hs.current c hc, hnone]
  case kernelRoot =>
    rw [hkernel]
    exact hnone.trans (congrFun hs.rootPa none)
  case roots =>
    intro p hp
    rw [halive p hp, hkernel, UserKernel.giveImage_self, him]
    exact Function.update_self (some 0) (spaceRoot 0) k.rootPa
  case made =>
    intro p hp
    rw [halive p hp, UserKernel.giveImage_self, him]
    exact Nat.one_pos
  case intact =>
    intro p _ hmem
    cases hmem
  case distinct =>
    intro p q hp hq _
    rw [halive p hp, halive q hq]
  case old =>
    intro a ha
    cases ha

/-- The first process runs in the first space. -/
theorem boot_spaceInv {rootPa : Option ProcId → Nat} {spaceRoot : SpaceId → Nat} {root : VnodeRef}
    {idleStack reaperStack initStack : Nat} {outcome : UserKernel.LoadOutcome} {u : UserKernel}
    (hboot : UserKernel.boot rootPa spaceRoot root idleStack reaperStack initStack outcome =
      some u) : SpaceInv (rootPa none) u := by
  unfold UserKernel.boot at hboot
  split at hboot
  · rcases Option.map_eq_some_iff.mp hboot with ⟨k, hk, rfl⟩
    exact (SpaceInv.ofKernel (boot_inv hk).1 (boot_started hk) spaceRoot rfl).setImage 0 rfl
  · rcases Option.map_eq_some_iff.mp hboot with ⟨k, hk, rfl⟩
    have hstarted := boot_started hk
    have hinv : SpaceInv (rootPa none) ((UserKernel.ofKernel k spaceRoot).newSpace.giveImage 0
        { addressSpace := 0, root := root, cwd := root }) :=
      SpaceInv.ofKernel (boot_inv hk).1 hstarted spaceRoot rfl
    refine ⟨hinv.kernel, hinv.retired, hinv.loaded, hinv.kernelRoot, hinv.roots, hinv.made, ?_,
      hinv.distinct, ?_⟩
    · -- no process is left
      intro p hp
      cases (hstarted.process p hp).1
    · intro a ha
      rw [List.mem_singleton.mp ha]
      exact Nat.one_pos

/-! ## Runs -/

/-- In every state that a run from the boot reaches, the running thread, CR3 and
the kernel stack pointers agree. -/
theorem coherent_always {rootPa : Option ProcId → Nat} {spaceRoot : SpaceId → Nat}
    {root : VnodeRef} {idleStack reaperStack initStack : Nat} {outcome : UserKernel.LoadOutcome}
    {u : UserKernel}
    (hboot : UserKernel.boot rootPa spaceRoot root idleStack reaperStack initStack outcome = some u)
    (ops : List UserOp) (hops : ∀ op ∈ ops, SingleThreaded op) :
    Always userStep (Coherent (rootPa none)) u ops := by
  have hinv : Always userStep (SpaceInv (rootPa none)) u ops := by
    apply always_of_forall ?_ (boot_spaceInv hboot) hops
    intro u op u' h hop hstep
    exact h.step hop hstep
  exact hinv.mono fun u h => h.coherent

/-- `/sbin/init` fails to load a file, loads another one, forks and waits for
the child, which ends. -/
theorem init_coherent :
    ∃ u, initBoot = some u ∧
      ((run userStep u [.kernel .yield, .execve (.load (.failed (-Proc.ENOMEM))),
        .execve (.load (.loaded ⟨0x402000, 0x7FFE0000, 0x600000⟩)),
        .kernel (.fork (.enough 0x40000)), .kernel (.waitpid (-1) 0), .kernel (.exit 0),
        .kernel .resume]).map fun u' => (u'.currentThread, u'.cr3, u'.destroyed)) =
          some (some 3, 0x3000, [1, 0, 3]) ∧
      Always userStep (Coherent 0) u [.kernel .yield, .execve (.load (.failed (-Proc.ENOMEM))),
        .execve (.load (.loaded ⟨0x402000, 0x7FFE0000, 0x600000⟩)),
        .kernel (.fork (.enough 0x40000)), .kernel (.waitpid (-1) 0), .kernel (.exit 0),
        .kernel .resume] := by
  -- an `execve` that fails, one that does not, a `fork` and a `waitpid`
  rcases exists_start (o := initBoot)
    (P := fun u => ((run userStep u [.kernel .yield, .execve (.load (.failed (-Proc.ENOMEM))),
      .execve (.load (.loaded ⟨0x402000, 0x7FFE0000, 0x600000⟩)),
      .kernel (.fork (.enough 0x40000)), .kernel (.waitpid (-1) 0), .kernel (.exit 0),
      .kernel .resume]).map fun u' => (u'.currentThread, u'.cr3, u'.destroyed)) =
        some (some 3, 0x3000, [1, 0, 3]))
    (by decide +kernel) with ⟨u, hboot, hend⟩
  refine ⟨u, hboot, hend, coherent_always hboot _ ?_⟩
  simp [SingleThreaded]

end Ceryx.Proc
