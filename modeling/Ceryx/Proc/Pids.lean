import Mathlib.Data.Finset.Card
import Mathlib.Order.Interval.Finset.Nat
import Ceryx.Proc.ProcTree

/-!
# Ceryx.Proc.Pids — issuing and recycling process ids

`PidAlloc` takes the lowest clear bit of the bitmap, `PidFree` clears a bit
again, except those of the swapper and of init. `Create` and `Fork` issue pids,
`Reap` and `Destroy` give them back, and so do the ways in which `Fork` fails.

* `pidStep`: the calls that touch the pids, on processes not yet deleted.
* `PidsConserved`: the pids of the processes not yet deleted are distinct and
  not zero, and together with 0 and 1 they are the bits that are set.
* `PidLeft`: the condition on a step; `Create` is called with a pid left. With
  an empty pool it goes on with pid 0, which the swapper has.
* `pidsConserved_iff_pidLeft`: it is exactly what a run needs.
-/

namespace Ceryx.Proc

open Kernel Lib

/-! ## The calls -/

namespace Kernel

/-- `Process::Create`; `uas` says whether `UserAddressSpace::Create`
succeeds. -/
def create (k : Kernel) (uas : Bool) : Option ProcId × Kernel :=
  if uas then
    let (pid, k) := k.pidAlloc.getD (0, k)
    let (p, k) := k.newProcess pid
    (some p, k)
  else (none, k)

/-- A call on a process that is there. -/
def onAlive (k : Kernel) (p : ProcId) (f : Kernel → Option Kernel) : Option Kernel :=
  if p < k.nextProc ∧ (k.procs p).deleted = false then f k else none

end Kernel

/-- The calls that issue pids and give them back, and `Exit`, which does neither. -/
inductive PidOp where
  | create (uas : Bool)
  | fork (p : ProcId) (alloc : ForkAlloc)
  | exit (p : ProcId) (status : Int)
  | reap (p : ProcId)
  | destroy (p : ProcId)
deriving DecidableEq, Repr

/-- One call; all but `Create` are made on a process that is there. -/
def pidStep (k : Kernel) : PidOp → Option Kernel
  | .create uas => some (k.create uas).2
  | .fork p alloc => k.onAlive p fun k => (k.fork p alloc).map Prod.snd
  | .exit p status => k.onAlive p fun k => some (k.exitProcess p status)
  | .reap p => k.onAlive p fun k => some (k.reap p)
  | .destroy p => k.onAlive p fun k => some (k.destroy p)

/-! ## The property -/

/-- A process that has been made and not deleted. -/
def Alive (k : Kernel) (p : ProcId) : Prop := p < k.nextProc ∧ (k.procs p).deleted = false

structure PidsConserved (k : Kernel) : Prop where
  distinct : ∀ p q, Alive k p → Alive k q → (k.procs p).pid = (k.procs q).pid → p = q
  nonzero : ∀ p, Alive k p → (k.procs p).pid ≠ 0
  /-- The bits that are set: the swapper's, init's once it has been issued, and
  those of the processes not yet deleted. -/
  bits : ∀ i, k.pidBitmap i = true ↔
    i = 0 ∨ (i = 1 ∧ ∃ p, p < k.nextProc ∧ (k.procs p).pid = 1) ∨
      ∃ p, Alive k p ∧ (k.procs p).pid = i

/-- `Create` finds a clear bit. -/
def PidLeft (k : Kernel) (op : PidOp) : Prop :=
  op = .create true → ∃ i, i < kMaxPid ∧ k.pidBitmap i = false

/-- What every run keeps: pids are in range, the first process has pid 1, and
pids 0 and 1 are not recycled. -/
structure PidInv (k : Kernel) : Prop where
  range : ∀ p, p < k.nextProc → (k.procs p).pid < kMaxPid
  first : 0 < k.nextProc → (k.procs 0).pid = 1
  empty : k.nextProc = 0 → ∀ i, k.pidBitmap i = (i == 0)
  swapper : k.pidBitmap 0 = true
  init : 0 < k.nextProc → k.pidBitmap 1 = true

/-! ## The allocator -/

/-- The search stays in its range, -/
theorem firstUnset_lt {b : Nat → Bool} {i n j : Nat} (h : firstUnset b i n = some j) :
    j < i + n := by
  induction n generalizing i with
  | zero => cases h
  | succ n ih =>
      unfold firstUnset at h
      split at h
      · have := ih h
        omega
      · have := Option.some.inj h
        omega

/-- and fails only when all of it is set. -/
theorem firstUnset_none {b : Nat → Bool} {i n : Nat} (h : firstUnset b i n = none) {j : Nat}
    (hij : i ≤ j) (hj : j < i + n) : b j = true := by
  induction n generalizing i with
  | zero => omega
  | succ n ih =>
      unfold firstUnset at h
      split at h
      · rename_i hb
        rcases Nat.eq_or_lt_of_le hij with rfl | hlt
        · exact hb
        · exact ih h hlt (by omega)
      · cases h

/-- What `PidAlloc` returns: the bit was clear, and only it changes. -/
theorem pidAlloc_some {k k' : Kernel} {pid : Nat} (h : k.pidAlloc = some (pid, k')) :
    pid < kMaxPid ∧ k.pidBitmap pid = false ∧
      k' = { k with pidBitmap := Function.update k.pidBitmap pid true } := by
  rcases Option.map_eq_some_iff.mp h with ⟨i, hi, heq⟩
  obtain ⟨rfl, rfl⟩ := Prod.mk.inj heq
  refine ⟨?_, firstUnset_unset hi, rfl⟩
  have := firstUnset_lt hi
  omega

/-- So `PidAlloc` fails only when every pid is taken. -/
theorem pidAlloc_none {k : Kernel} (h : k.pidAlloc = none) {i : Nat} (hi : i < kMaxPid) :
    k.pidBitmap i = true :=
  firstUnset_none (Option.map_eq_none_iff.mp h) (Nat.zero_le i) (by omega)

/-- The first pid that is issued is 1. -/
theorem first_pid {k : Kernel} (h : ∀ i, k.pidBitmap i = (i == 0)) :
    k.pidAlloc = some (1, { k with pidBitmap := Function.update k.pidBitmap 1 true }) := by
  have hfirst : firstUnset k.pidBitmap 0 (kMaxPid - 2 + 1 + 1) = some 1 := by
    simp [firstUnset, h]
  have hmax : kMaxPid - 2 + 1 + 1 = kMaxPid := rfl
  rw [hmax] at hfirst
  rw [pidAlloc, hfirst]
  rfl

/-! ## The pieces of a call -/

/-- Nothing that the pids depend on has changed. -/
structure SamePids (k k' : Kernel) : Prop where
  bitmap : k'.pidBitmap = k.pidBitmap
  next : k'.nextProc = k.nextProc
  pid : ∀ p, (k'.procs p).pid = (k.procs p).pid
  deleted : ∀ p, (k'.procs p).deleted = (k.procs p).deleted

/-- Who is alive depends on the processes' own fields. -/
theorem SamePids.alive {k k' : Kernel} (h : SamePids k k') (p : ProcId) :
    Alive k' p ↔ Alive k p := by
  rw [Alive, Alive, h.next, h.deleted]

/-- A change of a process that keeps its pid and does not delete it. -/
theorem SamePids.updProc (k : Kernel) (p : ProcId) {f : Process → Process}
    (hpid : (f (k.procs p)).pid = (k.procs p).pid)
    (hdeleted : (f (k.procs p)).deleted = (k.procs p).deleted) : SamePids k (k.updProc p f) :=
  ⟨rfl, rfl, updProc_field Process.pid k p hpid, updProc_field Process.deleted k p hdeleted⟩

/-- One such change after another. -/
theorem SamePids.trans {k k' k'' : Kernel} (h : SamePids k k') (h' : SamePids k' k'') :
    SamePids k k'' where
  bitmap := h'.bitmap.trans h.bitmap
  next := h'.next.trans h.next
  pid p := (h'.pid p).trans (h.pid p)
  deleted p := (h'.deleted p).trans (h.deleted p)

/-- `Exit` makes a zombie, which keeps its pid. -/
theorem exitProcess_samePids (k : Kernel) (p : ProcId) (status : Int) :
    SamePids k (k.exitProcess p status) := by
  have hupd : SamePids k (k.updProc p fun q => { q with state := .zombie, exitStatus := status }) :=
    SamePids.updProc k p rfl rfl
  unfold exitProcess
  dsimp only
  split
  · exact ⟨hupd.bitmap, hupd.next, hupd.pid, hupd.deleted⟩
  · exact hupd

/-- The list of children has nothing to do with pids, -/
theorem removeChild_samePids (k : Kernel) (p c : ProcId) : SamePids k (k.removeChild p c) :=
  SamePids.updProc k p rfl rfl

/-- whether it gets shorter or longer. -/
theorem linkChild_samePids (k : Kernel) (p c : ProcId) : SamePids k (k.linkChild p c) :=
  (SamePids.updProc k c rfl rfl).trans (SamePids.updProc _ p rfl rfl)

/-- Deleting a process changes that process only. -/
theorem delete_procs (k : Kernel) (c q : ProcId) :
    (k.delete c).procs q = (k.updProc c fun x => { x with deleted := true }).procs q := by
  unfold delete Kernel.pidFree
  split <;> rfl

/-- It creates none. -/
theorem delete_nextProc (k : Kernel) (c : ProcId) : (k.delete c).nextProc = k.nextProc := by
  unfold delete Kernel.pidFree
  split <;> rfl

/-- The pid is still written in what has been deleted. -/
theorem delete_pid (k : Kernel) (c q : ProcId) : ((k.delete c).procs q).pid = (k.procs q).pid := by
  rw [delete_procs]
  exact updProc_field Process.pid k c rfl q

/-- One fewer is alive. -/
theorem delete_alive (k : Kernel) (c q : ProcId) : Alive (k.delete c) q ↔ Alive k q ∧ q ≠ c := by
  rw [Alive, Alive, delete_nextProc, delete_procs]
  by_cases hqc : q = c
  · subst hqc
    rw [updProc_self]
    simp
  · rw [updProc_ne k _ hqc]
    simp [hqc]

/-- And its pid is given back. -/
theorem delete_bitmap (k : Kernel) (c : ProcId) :
    (k.delete c).pidBitmap = (k.pidFree (k.procs c).pid).pidBitmap := rfl

/-- `PidFree` clears one bit, of a pid that may be issued at all. -/
theorem pidFree_bitmap {k : Kernel} {pid : Nat} (hmax : pid < kMaxPid) (i : Nat) :
    (k.pidFree pid).pidBitmap i = true ↔ k.pidBitmap i = true ∧ (i = pid → pid < 2) := by
  unfold Kernel.pidFree
  by_cases hlow : pid < 2
  · rw [if_pos (Or.inl hlow)]
    simp [hlow]
  · rw [if_neg (by omega)]
    by_cases hi : i = pid
    · subst hi
      simp [hlow]
    · simp [hi]

/-! ## The invariant -/

/-- The invariant reads pids, bitmap and who is alive. -/
theorem PidInv.congr {k k' : Kernel} (h : PidInv k) (hs : SamePids k k') : PidInv k' where
  range p hp := by
    rw [hs.pid]
    exact h.range p (hs.next ▸ hp)
  first hpos := by
    rw [hs.pid]
    exact h.first (hs.next ▸ hpos)
  empty hzero i := by
    rw [hs.bitmap]
    exact h.empty (hs.next ▸ hzero) i
  swapper := by rw [hs.bitmap]; exact h.swapper
  init hpos := by
    rw [hs.bitmap]
    exact h.init (hs.next ▸ hpos)

/-- A new process. Its pid is in range, and the first one has pid 1. -/
theorem PidInv.newProcess {k : Kernel} {b : Nat → Bool} {pid : Nat} (h : PidInv k)
    (hmax : pid < kMaxPid) (h0 : b 0 = true) (h1 : b 1 = true)
    (hfirst : k.nextProc = 0 → pid = 1) :
    PidInv ({ k with pidBitmap := b }.newProcess pid).2 where
  range p hp := by
    -- the new process, or one from before
    by_cases hpn : p = k.nextProc
    · rw [hpn, show k.nextProc = { k with pidBitmap := b }.nextProc from rfl, newProcess_self]
      exact hmax
    · rw [newProcess_ne { k with pidBitmap := b } pid hpn]
      exact h.range p (Nat.lt_of_le_of_ne (Nat.le_of_lt_succ hp) hpn)
  first _ := by
    by_cases hzero : k.nextProc = 0
    · rw [show (0 : Nat) = { k with pidBitmap := b }.nextProc from hzero.symm, newProcess_self]
      exact hfirst hzero
    · rw [newProcess_ne { k with pidBitmap := b } pid (Ne.symm hzero)]
      exact h.first (Nat.pos_of_ne_zero hzero)
  empty hzero := absurd hzero (Nat.succ_ne_zero _)
  swapper := h0
  init _ := h1

/-- A new process has the pid that was just issued. -/
theorem PidInv.issue {k k' : Kernel} {pid : Nat} (h : PidInv k)
    (halloc : k.pidAlloc = some (pid, k')) : PidInv (k'.newProcess pid).2 := by
  rcases pidAlloc_some halloc with ⟨hmax, hclear, rfl⟩
  have h0 : (0 : Nat) ≠ pid := by
    rintro rfl
    rw [h.swapper] at hclear
    cases hclear
  -- the search starts at 1, so the first process gets it
  have hfirst : k.nextProc = 0 → pid = 1 := by
    intro hzero
    rw [first_pid (h.empty hzero)] at halloc
    exact (congrArg Prod.fst (Option.some.inj halloc)).symm
  refine h.newProcess hmax ?_ ?_ hfirst
  · rw [Function.update_of_ne h0]
    exact h.swapper
  · by_cases h1 : 1 = pid
    · rw [← h1, Function.update_self]
    · rw [Function.update_of_ne h1]
      refine h.init (Nat.pos_of_ne_zero ?_)
      intro hzero
      exact h1 (hfirst hzero).symm

/-- `Create` keeps it, even when `PidAlloc` has failed and the pid is 0. -/
theorem PidInv.create {k : Kernel} (h : PidInv k) (uas : Bool) : PidInv (k.create uas).2 := by
  unfold Kernel.create
  cases uas with
  | false => exact h
  | true =>
      rw [if_pos rfl]
      cases halloc : k.pidAlloc with
      | some res => exact h.issue halloc
      | none =>
          -- the pool is empty: pid 0, and this is not the first process
          have hne : k.nextProc ≠ 0 := by
            intro hzero
            rw [first_pid (h.empty hzero)] at halloc
            cases halloc
          have hpos : 0 < k.nextProc := Nat.pos_of_ne_zero hne
          exact h.newProcess (b := k.pidBitmap) (Nat.succ_pos _) h.swapper (h.init hpos)
            fun hzero => absurd hzero hne

/-- Deleting gives one pid back and takes its holder away. -/
theorem PidInv.delete {k : Kernel} (h : PidInv k) {c : ProcId} (hc : c < k.nextProc) :
    PidInv (k.delete c) where
  range p hp := by
    rw [delete_nextProc] at hp
    rw [delete_pid]
    exact h.range p hp
  first hpos := by
    rw [delete_nextProc] at hpos
    rw [delete_pid]
    exact h.first hpos
  empty hzero := by
    rw [delete_nextProc] at hzero
    exact absurd (hzero ▸ hc) (Nat.not_lt_zero c)
  -- the freed pid is the process's own; `PidFree` leaves 0 and 1 alone
  swapper := by
    rw [delete_bitmap, pidFree_bitmap (h.range c hc)]
    exact ⟨h.swapper, fun h0 => h0 ▸ Nat.two_pos⟩
  init hpos := by
    rw [delete_nextProc] at hpos
    rw [delete_bitmap, pidFree_bitmap (h.range c hc)]
    exact ⟨h.init hpos, fun h1 => h1 ▸ Nat.one_lt_two⟩

/-! ## The property -/

/-- Conservation reads the same. -/
theorem PidsConserved.congr {k k' : Kernel} (h : PidsConserved k) (hs : SamePids k k') :
    PidsConserved k' where
  distinct p q hp hq heq := by
    rw [hs.pid, hs.pid] at heq
    exact h.distinct p q ((hs.alive p).mp hp) ((hs.alive q).mp hq) heq
  nonzero p hp := by
    rw [hs.pid]
    exact h.nonzero p ((hs.alive p).mp hp)
  bits i := by
    rw [hs.bitmap, h.bits i, hs.next]
    simp only [hs.alive, hs.pid]

/-- A process that has just been made. -/
theorem newProcess_isAlive (k : Kernel) (pid : Nat) (q : ProcId) :
    Alive (k.newProcess pid).2 q ↔ Alive k q ∨ q = k.nextProc := by
  rw [Alive, Alive]
  by_cases hq : q = k.nextProc
  · subst hq
    rw [newProcess_self]
    exact iff_of_true ⟨Nat.lt_succ_self _, rfl⟩ (Or.inr rfl)
  · rw [newProcess_ne k pid hq]
    constructor
    · rintro ⟨hlt, hdel⟩
      exact Or.inl ⟨Nat.lt_of_le_of_ne (Nat.le_of_lt_succ hlt) hq, hdel⟩
    · rintro (⟨hlt, hdel⟩ | heq)
      · exact ⟨Nat.lt_succ_of_lt hlt, hdel⟩
      · exact absurd heq hq

/-- `PidAlloc` and `new Process`. -/
theorem PidsConserved.issue {k k' : Kernel} {pid : Nat} (h : PidsConserved k)
    (halloc : k.pidAlloc = some (pid, k')) : PidsConserved (k'.newProcess pid).2 := by
  rcases pidAlloc_some halloc with ⟨-, hclear, rfl⟩
  have hbit : ∀ i, k.pidBitmap i = true → i ≠ pid := by
    rintro i hi rfl
    rw [hi] at hclear
    cases hclear
  -- nobody has the new pid
  have hfresh : ∀ p, Alive k p → (k.procs p).pid ≠ pid := by
    intro p hp
    exact hbit _ ((h.bits _).mpr (Or.inr (Or.inr ⟨p, hp, rfl⟩)))
  have h0 : pid ≠ 0 := (hbit 0 ((h.bits 0).mpr (Or.inl rfl))).symm
  let k₁ : Kernel := { k with pidBitmap := Function.update k.pidBitmap pid true }
  have halive : ∀ p, Alive (k₁.newProcess pid).2 p ↔ Alive k p ∨ p = k.nextProc :=
    newProcess_isAlive k₁ pid
  have hnew : ((k₁.newProcess pid).2.procs k.nextProc).pid = pid :=
    congrArg Process.pid (newProcess_self k₁ pid)
  have hold : ∀ p, p < k.nextProc → ((k₁.newProcess pid).2.procs p).pid = (k.procs p).pid :=
    fun p hp => congrArg Process.pid (newProcess_ne k₁ pid (Nat.ne_of_lt hp))
  refine ⟨?_, ?_, ?_⟩
  · intro p q hp hq heq
    rcases (halive p).mp hp with hp' | rfl
    · rcases (halive q).mp hq with hq' | rfl
      · rw [hold p hp'.1, hold q hq'.1] at heq
        exact h.distinct p q hp' hq' heq
      · rw [hold p hp'.1, hnew] at heq
        exact absurd heq (hfresh p hp')
    · rcases (halive q).mp hq with hq' | rfl
      · rw [hnew, hold q hq'.1] at heq
        exact absurd heq.symm (hfresh q hq')
      · rfl
  · intro p hp
    rcases (halive p).mp hp with hp' | rfl
    · rw [hold p hp'.1]
      exact h.nonzero p hp'
    · rw [hnew]
      exact h0
  · intro i
    have hset : (k₁.newProcess pid).2.pidBitmap i = true ↔ k.pidBitmap i = true ∨ i = pid := by
      change Function.update k.pidBitmap pid true i = true ↔ _
      by_cases hi : i = pid
      · simp [hi]
      · simp [hi]
    rw [hset, h.bits i]
    constructor
    · rintro ((hi | ⟨hi, p, hp, hone⟩ | ⟨p, hp, hpid⟩) | hi)
      · exact Or.inl hi
      · exact Or.inr (Or.inl ⟨hi, p, Nat.lt_succ_of_lt hp, (hold p hp).trans hone⟩)
      · exact Or.inr (Or.inr ⟨p, (halive p).mpr (Or.inl hp), (hold p hp.1).trans hpid⟩)
      · exact Or.inr (Or.inr ⟨k.nextProc, (halive _).mpr (Or.inr rfl), hnew.trans hi.symm⟩)
    · rintro (hi | ⟨hi, p, hp, hone⟩ | ⟨p, hp, hpid⟩)
      · exact Or.inl (Or.inl hi)
      · by_cases hpn : p = k.nextProc
        · rw [hpn, hnew] at hone
          exact Or.inr (hi.trans hone.symm)
        · have hlt : p < k.nextProc := Nat.lt_of_le_of_ne (Nat.le_of_lt_succ hp) hpn
          rw [hold p hlt] at hone
          exact Or.inl (Or.inr (Or.inl ⟨hi, p, hlt, hone⟩))
      · rcases (halive p).mp hp with hp' | rfl
        · rw [hold p hp'.1] at hpid
          exact Or.inl (Or.inr (Or.inr ⟨p, hp', hpid⟩))
        · rw [hnew] at hpid
          exact Or.inr hpid.symm

/-- `PidFree` and `delete this`. -/
theorem PidsConserved.delete {k : Kernel} (hk : PidInv k) (h : PidsConserved k) {c : ProcId}
    (hc : Alive k c) : PidsConserved (k.delete c) := by
  refine ⟨?_, ?_, ?_⟩
  · intro p q hp hq heq
    rw [delete_pid, delete_pid] at heq
    exact h.distinct p q ((delete_alive k c p).mp hp).1 ((delete_alive k c q).mp hq).1 heq
  · intro p hp
    rw [delete_pid]
    exact h.nonzero p ((delete_alive k c p).mp hp).1
  · intro i
    rw [delete_bitmap, pidFree_bitmap (hk.range c hc.1), h.bits i]
    simp only [delete_nextProc, delete_pid, delete_alive]
    constructor
    · rintro ⟨hi | hi | ⟨p, hp, hpid⟩, hlow⟩
      · exact Or.inl hi
      · exact Or.inr (Or.inl hi)
      · by_cases hpc : p = c
        · -- the pid that stays set is init's
          subst hpc
          have hnz := h.nonzero p hp
          have := hlow hpid.symm
          exact Or.inr (Or.inl ⟨by omega, p, hp.1, by omega⟩)
        · exact Or.inr (Or.inr ⟨p, ⟨hp, hpc⟩, hpid⟩)
    · rintro (hi | ⟨hi, hone⟩ | ⟨p, ⟨hp, hpc⟩, hpid⟩)
      · exact ⟨Or.inl hi, fun _ => by omega⟩
      · exact ⟨Or.inr (Or.inl ⟨hi, hone⟩), fun _ => by omega⟩
      · refine ⟨Or.inr (Or.inr ⟨p, hp, hpid⟩), fun hi => ?_⟩
        exact absurd (h.distinct p c hp hc (hpid.trans hi)) hpc

/-- Deleting the same process keeps two states alike. -/
theorem SamePids.delete {k k' : Kernel} (h : SamePids k k') (c : ProcId) :
    SamePids (k.delete c) (k'.delete c) where
  bitmap := by
    rw [delete_bitmap, delete_bitmap, h.pid]
    unfold Kernel.pidFree
    split
    · exact h.bitmap
    · rw [← h.bitmap]
  next := by rw [delete_nextProc, delete_nextProc, h.next]
  pid p := by rw [delete_pid, delete_pid, h.pid]
  deleted p := by
    rw [delete_procs, delete_procs]
    by_cases hpc : p = c
    · rw [hpc, updProc_self, updProc_self]
    · rw [updProc_ne _ _ hpc, updProc_ne _ _ hpc]
      exact h.deleted p

/-- What `Fork` does to the pids: nothing, one issued, or one issued and given
back with the child it was for. -/
theorem fork_pids {k k' : Kernel} (h : PidInv k) {p : ProcId} (hp : p < k.nextProc)
    {alloc : ForkAlloc} {rax : Int} (hfork : k.fork p alloc = some (rax, k')) :
    SamePids k k' ∨ ∃ pid k₁, k.pidAlloc = some (pid, k₁) ∧
      (SamePids (k₁.newProcess pid).2 k' ∨
        SamePids ((k₁.newProcess pid).2.delete k.nextProc) k') := by
  cases fork_cases hfork with
  | nothing _ => exact Or.inl ⟨rfl, rfl, fun _ => rfl, fun _ => rfl⟩
  | @pidBack pid k₁ halloc =>
      -- the pid is none of the two that `PidFree` leaves alone
      have hspec := pidAlloc_some halloc
      have hlow : ∀ i, k.pidBitmap i = true → i ≠ pid := by
        rintro i hi rfl
        rw [hi] at hspec
        cases hspec.2.1
      have h0 := hlow 0 h.swapper
      have h1 := hlow 1 (h.init (Nat.lt_of_le_of_lt (Nat.zero_le p) hp))
      have hmax := hspec.1
      obtain rfl := hspec.2.2
      left
      unfold Kernel.pidFree
      rw [if_neg (by omega)]
      refine ⟨?_, rfl, fun _ => rfl, fun _ => rfl⟩
      dsimp only
      rw [Function.update_idem, ← hspec.2.1, Function.update_eq_self]
  | @stillborn _ pid k₁ linked halloc =>
      refine Or.inr ⟨pid, k₁, halloc, Or.inr ?_⟩
      cases linked with
      | false =>
          have hsame := (removeChild_samePids (k₁.newProcess pid).2 p k.nextProc).delete k.nextProc
          exact ⟨hsame.bitmap, hsame.next, hsame.pid, hsame.deleted⟩
      | true =>
          have hsame := ((linkChild_samePids (k₁.newProcess pid).2 p k.nextProc).trans
            (removeChild_samePids _ p k.nextProc)).delete k.nextProc
          exact ⟨hsame.bitmap, hsame.next, hsame.pid, hsame.deleted⟩
  | @forks pid stack k₁ _ halloc start =>
      rcases Option.map_eq_some_iff.mp start with ⟨s, -, rfl⟩
      have hsame := linkChild_samePids (k₁.newProcess pid).2 p k.nextProc
      exact Or.inr ⟨pid, k₁, halloc, Or.inl ⟨hsame.bitmap, hsame.next, hsame.pid, hsame.deleted⟩⟩

/-! ## One call -/

/-- A call by a process is one by a live process. -/
theorem onAlive_eq {k k' : Kernel} {p : ProcId} {f : Kernel → Option Kernel}
    (h : k.onAlive p f = some k') : Alive k p ∧ f k = some k' := by
  unfold onAlive at h
  split at h
  · rename_i halive
    exact ⟨halive, h⟩
  · cases h

/-- Everything a call can do to the pids: nothing, one issued (and given back
again), one given back, or a `Create` with the pool empty. -/
theorem pidStep_cases {k k' : Kernel} (h : PidInv k) {op : PidOp} (hstep : pidStep k op = some k') :
    (op ≠ .create true ∧ SamePids k k') ∨
      (∃ pid k₁, k.pidAlloc = some (pid, k₁) ∧
        (SamePids (k₁.newProcess pid).2 k' ∨
          SamePids ((k₁.newProcess pid).2.delete k.nextProc) k')) ∨
      (op ≠ .create true ∧ ∃ c, Alive k c ∧ SamePids (k.delete c) k') ∨
      (op = .create true ∧ k.pidAlloc = none ∧ k' = (k.newProcess 0).2) := by
  cases op with
  | create uas =>
      obtain rfl := Option.some.inj hstep
      unfold Kernel.create
      -- a kernel process takes no pid
      cases uas with
      | false => exact Or.inl ⟨by decide, rfl, rfl, fun _ => rfl, fun _ => rfl⟩
      | true =>
          cases halloc : k.pidAlloc with
          | some res =>
              have hself : SamePids (res.2.newProcess res.1).2 (res.2.newProcess res.1).2 :=
                ⟨rfl, rfl, fun _ => rfl, fun _ => rfl⟩
              exact Or.inr (Or.inl ⟨res.1, res.2, rfl, Or.inl hself⟩)
          | none => exact Or.inr (Or.inr (Or.inr ⟨rfl, rfl, rfl⟩))
  | fork p alloc =>
      simp only [pidStep] at hstep
      rcases onAlive_eq hstep with ⟨hp, hf⟩
      rcases Option.map_eq_some_iff.mp hf with ⟨⟨rax, k''⟩, hfork, rfl⟩
      rcases fork_pids h hp.1 hfork with hsame | hissue
      · exact Or.inl ⟨PidOp.noConfusion, hsame⟩
      · exact Or.inr (Or.inl hissue)
  | exit p status =>
      simp only [pidStep] at hstep
      rcases onAlive_eq hstep with ⟨-, hf⟩
      obtain rfl := Option.some.inj hf
      exact Or.inl ⟨PidOp.noConfusion, exitProcess_samePids k p status⟩
  | reap p =>
      simp only [pidStep] at hstep
      rcases onAlive_eq hstep with ⟨hp, hf⟩
      obtain rfl := Option.some.inj hf
      exact Or.inr (Or.inr (Or.inl
        ⟨PidOp.noConfusion, p, hp, rfl, rfl, fun _ => rfl, fun _ => rfl⟩))
  | destroy p =>
      simp only [pidStep] at hstep
      rcases onAlive_eq hstep with ⟨hp, hf⟩
      obtain rfl := Option.some.inj hf
      exact Or.inr (Or.inr (Or.inl
        ⟨PidOp.noConfusion, p, hp, rfl, rfl, fun _ => rfl, fun _ => rfl⟩))

/-- The new process is alive. -/
theorem newProcess_hasNew {k k₁ : Kernel} {pid : Nat} (halloc : k.pidAlloc = some (pid, k₁)) :
    Alive (k₁.newProcess pid).2 k.nextProc := by
  rcases pidAlloc_some halloc with ⟨-, -, rfl⟩
  exact (newProcess_isAlive _ pid k.nextProc).mpr (Or.inr rfl)

/-- `PidInv` is inductive. -/
theorem PidInv.step {k k' : Kernel} (h : PidInv k) {op : PidOp} (hstep : pidStep k op = some k') :
    PidInv k' := by
  rcases pidStep_cases h hstep with ⟨-, hsame⟩ | ⟨pid, k₁, halloc, hsame | hsame⟩ |
    ⟨-, c, hc, hsame⟩ | ⟨rfl, -, -⟩
  · exact h.congr hsame
  · exact (h.issue halloc).congr hsame
  · exact ((h.issue halloc).delete (newProcess_hasNew halloc).1).congr hsame
  · exact (h.delete hc.1).congr hsame
  · obtain rfl := Option.some.inj hstep
    exact h.create true

/-- A call from a state in which the pids are right keeps them right exactly
when it meets the condition. -/
theorem step_pidsConserved {k k' : Kernel} (hk : PidInv k) (h : PidsConserved k) {op : PidOp}
    (hstep : pidStep k op = some k') : PidsConserved k' ↔ PidLeft k op := by
  have hleft : ∀ pid k₁, k.pidAlloc = some (pid, k₁) → PidLeft k op := by
    intro pid k₁ halloc _
    have hspec := pidAlloc_some halloc
    exact ⟨pid, hspec.1, hspec.2.1⟩
  -- nothing happens to pids, one is issued, issued and freed, freed, or none is left
  rcases pidStep_cases hk hstep with ⟨hop, hsame⟩ | ⟨pid, k₁, halloc, hsame | hsame⟩ |
    ⟨hop, c, hc, hsame⟩ | ⟨rfl, halloc, rfl⟩
  · exact iff_of_true (h.congr hsame) fun he => absurd he hop
  · exact iff_of_true ((h.issue halloc).congr hsame) (hleft pid k₁ halloc)
  · have hnew := (h.issue halloc).delete (hk.issue halloc) (newProcess_hasNew halloc)
    exact iff_of_true (hnew.congr hsame) (hleft pid k₁ halloc)
  · exact iff_of_true ((h.delete hk hc).congr hsame) fun he => absurd he hop
  · -- `Process::Create` goes on with pid 0
    refine iff_of_false ?_ ?_
    · intro h'
      refine h'.nonzero k.nextProc ?_ ?_
      · exact (newProcess_isAlive k 0 k.nextProc).mpr (Or.inr rfl)
      · rw [newProcess_self]
    · intro hleft'
      rcases hleft' rfl with ⟨i, hi, hclear⟩
      rw [pidAlloc_none halloc hi] at hclear
      cases hclear

/-! ## Runs -/

/-- At the start no pid has been issued. -/
theorem ofSched_pids (s : Sched) : PidInv (ofSched s) ∧ PidsConserved (ofSched s) := by
  -- before the first process nobody is alive, and only pid 0 is taken
  have hnone : ∀ p, ¬ Alive (ofSched s) p := fun p hp => Nat.not_lt_zero p hp.1
  refine ⟨⟨?_, ?_, fun _ _ => rfl, rfl, ?_⟩, ⟨?_, ?_, ?_⟩⟩
  · intro p hp
    exact absurd hp (Nat.not_lt_zero p)
  · intro hpos
    exact absurd hpos (Nat.not_lt_zero 0)
  · intro hpos
    exact absurd hpos (Nat.not_lt_zero 0)
  · intro p q hp
    exact absurd hp (hnone p)
  · intro p hp
    exact absurd hp (hnone p)
  · intro i
    constructor
    · intro hi
      exact Or.inl (beq_iff_eq.mp hi)
    · rintro (hi | ⟨-, p, hp, -⟩ | ⟨p, hp, -⟩)
      · exact beq_iff_eq.mpr hi
      · exact absurd hp (Nat.not_lt_zero p)
      · exact absurd hp (hnone p)

/-- On every run from the first `Create` on, the pids are distinct, not zero and
the bits of the bitmap throughout if and only if `Create` always finds a pid. -/
theorem pidsConserved_iff_pidLeft (s : Sched) (ops : List PidOp) :
    Always pidStep PidsConserved (ofSched s) ops ↔ StepsMeet pidStep PidLeft (ofSched s) ops := by
  rcases ofSched_pids s with ⟨hinv, hpids⟩
  refine always_iff_stepsMeet (B := PidInv) ?_ ?_ ?_ ops hinv hpids
  · intro k op k' h hstep
    exact h.step hstep
  · intro k op k' h hp hok hstep
    exact (step_pidsConserved h hp hstep).mpr hok
  · intro k op k' h hp hok hstep hp'
    exact hok ((step_pidsConserved h hp hstep).mp hp')

/-- `n` calls of `Create`: `n` more processes, and all of them alive. -/
theorem run_creates (n : Nat) {k : Kernel} (hall : ∀ p, p < k.nextProc → Alive k p) :
    ∃ k', run pidStep k (List.replicate n (.create true)) = some k' ∧
      k'.nextProc = k.nextProc + n ∧ ∀ p, p < k'.nextProc → Alive k' p := by
  -- over the calls: each makes one process more, whether it finds a pid or not
  induction n generalizing k with
  | zero => exact ⟨k, rfl, rfl, hall⟩
  | succ n ih =>
      have hone : (k.create true).2.nextProc = k.nextProc + 1 ∧
          ∀ p, p < k.nextProc + 1 → Alive (k.create true).2 p := by
        unfold Kernel.create
        cases halloc : k.pidAlloc with
        | none =>
            refine ⟨rfl, fun p hp => (newProcess_isAlive k 0 p).mpr ?_⟩
            rcases Nat.lt_succ_iff_lt_or_eq.mp hp with hlt | heq
            · exact Or.inl (hall p hlt)
            · exact Or.inr heq
        | some res =>
            rcases pidAlloc_some halloc with ⟨-, -, hres⟩
            refine ⟨?_, fun p hp => (newProcess_isAlive res.2 res.1 p).mpr ?_⟩
            · change res.2.nextProc + 1 = _
              rw [hres]
            · rw [hres]
              rcases Nat.lt_succ_iff_lt_or_eq.mp hp with hlt | heq
              · exact Or.inl (hall p hlt)
              · exact Or.inr heq
      rcases ih (k := (k.create true).2) (fun p hp => hone.2 p (hone.1 ▸ hp)) with
        ⟨k', hrun, hnext, halive⟩
      refine ⟨k', hrun, ?_, halive⟩
      rw [hnext, hone.1]
      exact Nat.add_right_comm _ 1 n

/-- 32768 calls of `Spawn` and no process reaped: there are only 32767 pids. -/
theorem spawns_exhaust_pids :
    ∃ k', run pidStep (ofSched (Sched.boot fun _ => 0)) (List.replicate kMaxPid (.create true)) =
      some k' ∧ ¬ PidsConserved k' := by
  rcases ofSched_pids (Sched.boot fun _ => 0) with ⟨hinv, -⟩
  have hnone : ∀ p, p < (ofSched (Sched.boot fun _ => 0)).nextProc →
      Alive (ofSched (Sched.boot fun _ => 0)) p := fun p hp => absurd hp (Nat.not_lt_zero p)
  rcases run_creates kMaxPid hnone with ⟨k', hrun, hnext, halive⟩
  refine ⟨k', hrun, ?_⟩
  intro hpids
  have hinv' : PidInv k' := inv_of_run (fun _ _ _ h hstep => h.step hstep) hinv hrun
  have hcount : k'.nextProc = kMaxPid := by
    rw [hnext]
    exact Nat.zero_add _
  -- pigeonhole: the processes' pids lie between 1 and 32767
  have hmaps : ∀ p ∈ Finset.range kMaxPid, (k'.procs p).pid ∈ Finset.Ico 1 kMaxPid := by
    intro p hp
    have hlt : p < k'.nextProc := hcount ▸ Finset.mem_range.mp hp
    rw [Finset.mem_Ico]
    exact ⟨Nat.pos_of_ne_zero (hpids.nonzero p (halive p hlt)), hinv'.range p hlt⟩
  have hcard : (Finset.Ico 1 kMaxPid).card < (Finset.range kMaxPid).card := by
    rw [Nat.card_Ico, Finset.card_range]
    decide
  rcases Finset.exists_ne_map_eq_of_card_lt_of_maps_to hcard hmaps with ⟨p, hp, q, hq, hne, heq⟩
  have hpl : p < k'.nextProc := hcount ▸ Finset.mem_range.mp hp
  have hql : q < k'.nextProc := hcount ▸ Finset.mem_range.mp hq
  exact hne (hpids.distinct p q (halive p hpl) (halive q hql) heq)

end Ceryx.Proc
