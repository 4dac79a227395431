import Ceryx.Fs.FdCalls

/-!
# Ceryx.Fs.ClosedFds — calls on a descriptor that is not open

Each of the twelve system calls asks `GetFd` for its description. `sys_close` does not
look at the answer, and `sys_dup2` returns before it asks when both numbers are the
same.

* `RejectsClosed`: on a descriptor that is not open the call returns `-EBADF` and
  leaves the whole state as it was.
* `Dup2Installs`: `sys_dup2` of an open descriptor to a number below the limit.
* `rejects_iff`: both hold for all calls but `sys_close`, `sys_dup2` of a closed
  descriptor onto itself, and `sys_dup2` when the table cannot grow.
* `close_twice`: closing a descriptor that is not open returns 0.
-/

namespace Ceryx.Fs

open Lib Proc Vfs

section
variable {V : Type} (vm : RamFs.VmObject V) (addr : Nat → BitVec 64) (descAddr : DescId → BitVec 64)
  (s : FdState V) (p : ProcId) (fd : Nat)

def RejectsClosed (c : FdCall) : Prop :=
  getFd (s.tables p) fd = none → s.call vm addr descAddr p fd c = some (.returns (-EBADF), s)

/-- `sys_dup2` succeeds, and makes the new descriptor one of the old one's
description. -/
def Dup2Installs : FdCall → Prop
  | .dup2 newFd grow => ∀ d, getFd (s.tables p) fd = some d → newFd < kMaxFds →
      ∃ s', s.call vm addr descAddr p fd (.dup2 newFd grow) = some (.returns newFd, s') ∧
        getFd (s'.tables p) newFd = some d ∧
        (∀ i, i ≠ newFd → getFd (s'.tables p) i = getFd (s.tables p) i) ∧
        ∀ q, q ≠ p → s'.tables q = s.tables q
  | _ => True

/-- The table of the process has slot `newFd`, or can grow to it. -/
def CanHold (newFd : Nat) (grow : Nat → Bool) : Prop :=
  newFd < (s.tables p).length ∨ grow newFd = true

/-- The calls that look before they act, and have the memory for it. -/
def Looks : FdCall → Prop
  | .close => getFd (s.tables p) fd ≠ none
  | .dup2 newFd grow =>
      if getFd (s.tables p) fd = none then newFd ≠ fd
      else newFd < kMaxFds → newFd = fd ∨ CanHold s p newFd grow
  | _ => True

end

variable {V : Type} {vm : RamFs.VmObject V} {addr : Nat → BitVec 64} {descAddr : DescId → BitVec 64}
  {s : FdState V} {p : ProcId} {fd : Nat}

theorem looks_dup2 {newFd : Nat} {grow : Nat → Bool} :
    Looks s p fd (.dup2 newFd grow) ↔ if getFd (s.tables p) fd = none then newFd ≠ fd
      else newFd < kMaxFds → newFd = fd ∨ CanHold s p newFd grow := Iff.rfl

theorem call_dup2 (newFd : Nat) (grow : Nat → Bool) :
    s.call vm addr descAddr p fd (.dup2 newFd grow) =
      done (s.onFileSys (s.sysDup2 p fd newFd grow)) := rfl

/-! ## Closed descriptors -/

/-- The check that all calls but two begin with. -/
theorem rejects_of_looks (c : FdCall) (h : Looks s p fd c) :
    RejectsClosed vm addr descAddr s p fd c := by
  intro hclosed
  unfold FdState.call
  cases c with
  | read size =>
      unfold FdState.sysRead
      rw [hclosed]
  | write src =>
      unfold FdState.sysWrite
      rw [hclosed]
  | close => exact absurd hclosed h
  | lseek offset whence =>
      unfold FdState.sysLseek
      rw [hclosed]
      rfl
  | dup grow =>
      unfold FileSys.sysDup
      rw [hclosed]
      rfl
  | dup2 newFd grow =>
      -- the shortcut is not taken
      have hne : newFd ≠ fd := by
        rw [looks_dup2, if_pos hclosed] at h
        exact h
      dsimp only
      unfold FileSys.sysDup2
      rw [if_neg (Ne.symm hne), hclosed]
      rfl
  | fstat =>
      unfold FdState.sysFstat
      rw [hclosed]
      rfl
  | getdents64 buf bufLen =>
      unfold FdState.sysGetdents64
      rw [hclosed]
      rfl
  | fcntl cmd arg grow =>
      unfold FileSys.sysFcntl
      rw [hclosed]
      rfl
  | ioctl request arg =>
      unfold FdState.sysIoctl
      rw [hclosed]
      rfl
  | readv iov =>
      unfold FdState.sysReadv
      rw [hclosed]
  | writev iov =>
      unfold FdState.sysWritev
      rw [hclosed]

/-- `sys_close` returns 0, whatever it is given. -/
theorem close_returns : (s.call vm addr descAddr p fd .close).map Prod.fst = some (.returns 0) :=
  rfl

/-- `sys_dup2` of a number onto itself returns the number. -/
theorem dup2_self (grow : Nat → Bool) :
    s.call vm addr descAddr p fd (.dup2 fd grow) = some (.returns fd, s) := by
  rw [call_dup2]
  unfold FileSys.sysDup2
  rw [if_pos rfl]
  rfl

theorem looks_of_rejects {c : FdCall} (h : RejectsClosed vm addr descAddr s p fd c)
    (hclosed : getFd (s.tables p) fd = none) : Looks s p fd c := by
  have hcall := h hclosed
  cases c with
  | close =>
      have hzero := @close_returns V vm addr descAddr s p fd
      rw [hcall] at hzero
      cases hzero
  -- onto itself the call returns the number, which is no -EBADF
  | dup2 newFd grow =>
      rw [looks_dup2, if_pos hclosed]
      rintro rfl
      rw [dup2_self] at hcall
      injection hcall with hpair
      have hnumber := congrArg (fun r : CallEnd × FdState V => r.1) hpair
      injection hnumber with hrax
      have hneg : (newFd : Int) = -9 := hrax
      omega
  | _ => trivial

/-! ## dup2 -/

/-- What `sys_dup2` of an open descriptor does, by the table's room for the new one. -/
theorem dup2_open {d : DescId} {newFd : Nat} {grow : Nat → Bool}
    (hopen : getFd (s.tables p) fd = some d) (hlt : newFd < kMaxFds) (hne : newFd ≠ fd) :
    (CanHold s p newFd grow ∧
      ∃ s', s.call vm addr descAddr p fd (.dup2 newFd grow) = some (.returns newFd, s') ∧
        s'.tables = Function.update s.tables p
          ((resizeFor (s.tables p) newFd).set newFd (some d))) ∨
    (¬ CanHold s p newFd grow ∧
      s.call vm addr descAddr p fd (.dup2 newFd grow) = some (.returns (-Proc.ENOMEM), s)) := by
  rw [call_dup2]
  unfold FileSys.sysDup2 FileSys.installAt allocateFdAt
  rw [if_neg (Ne.symm hne), hopen]
  dsimp only
  rw [if_neg (Nat.not_le.mpr hlt)]
  -- the one way to fail: the table must grow and does not
  by_cases hgrow : (s.tables p).length ≤ newFd ∧ grow newFd = false
  · right
    rw [if_pos hgrow]
    refine ⟨?_, rfl⟩
    rintro (hin | hok)
    · omega
    · rw [hgrow.2] at hok
      cases hok
  · left
    rw [if_neg hgrow]
    refine ⟨?_, _, rfl, ?_⟩
    · rcases Nat.lt_or_ge newFd (s.tables p).length with hin | hout
      · exact .inl hin
      · right
        rw [← Bool.not_eq_false]
        intro hfalse
        exact hgrow ⟨hout, hfalse⟩
    · exact (settleSlot_tables _ _).1

theorem dup2_installs_iff (newFd : Nat) (grow : Nat → Bool) :
    Dup2Installs vm addr descAddr s p fd (.dup2 newFd grow) ↔
      (getFd (s.tables p) fd ≠ none → newFd < kMaxFds → newFd = fd ∨ CanHold s p newFd grow) := by
  constructor
  · intro h hopen hlt
    by_cases hself : newFd = fd
    · exact .inl hself
    · right
      obtain ⟨d, hd⟩ := Option.ne_none_iff_exists'.mp hopen
      obtain ⟨s', hcall, -⟩ := h d hd hlt
      rcases @dup2_open V vm addr descAddr s p fd d newFd grow hd hlt hself
        with ⟨hcan, -⟩ | ⟨-, hfail⟩
      · exact hcan
      · -- the number returned is no error
        rw [hfail] at hcall
        injection hcall with hpair
        have hnumber := congrArg (fun r : CallEnd × FdState V => r.1) hpair
        injection hnumber with hrax
        have hneg : (-12 : Int) = newFd := hrax
        omega
  · intro h d hd hlt
    have hopen : getFd (s.tables p) fd ≠ none := by
      rw [hd]
      exact Option.some_ne_none d
    by_cases hself : newFd = fd
    · subst hself
      exact ⟨s, dup2_self grow, hd, fun _ _ => rfl, fun _ _ => rfl⟩
    · have hcan := (h hopen hlt).resolve_left hself
      rcases @dup2_open V vm addr descAddr s p fd d newFd grow hd hlt hself
        with ⟨-, s', hcall, htables⟩ | ⟨hno, -⟩
      · refine ⟨s', hcall, ?_, ?_, ?_⟩
        · rw [htables, Function.update_self, getFd_set _ (lt_length_resizeFor _ _), if_pos rfl]
        · intro i hi
          rw [htables, Function.update_self, getFd_set _ (lt_length_resizeFor _ _), if_neg hi,
            getFd_resizeFor]
        · intro q hq
          rw [htables, Function.update_of_ne hq]
      · exact absurd hcan hno

/-! ## All calls -/

/-- Every call rejects a closed descriptor without effect, and `sys_dup2` installs an
open one, if and only if the call looks before it acts. -/
theorem rejects_iff (c : FdCall) :
    RejectsClosed vm addr descAddr s p fd c ∧ Dup2Installs vm addr descAddr s p fd c ↔
      Looks s p fd c := by
  constructor
  · rintro ⟨hrejects, hinstalls⟩
    -- a closed descriptor is a matter of the first law, an open one of the second
    by_cases hclosed : getFd (s.tables p) fd = none
    · exact looks_of_rejects hrejects hclosed
    · cases c with
      | close => exact hclosed
      | dup2 newFd grow =>
          rw [looks_dup2, if_neg hclosed]
          exact (dup2_installs_iff newFd grow).mp hinstalls hclosed
      | _ => trivial
  · intro h
    refine ⟨rejects_of_looks c h, ?_⟩
    cases c with
    | dup2 newFd grow =>
        rw [dup2_installs_iff]
        intro hopen
        rw [looks_dup2, if_neg hopen] at h
        exact h
    | _ => trivial

/-- A process without open descriptors. -/
def noneOpen : FdState (List RamFs.VmPage) where
  mem := fun _ => 0
  used := []
  tree := (RamFsTree.emptyRoot (List RamFs.VmPage)).toVnodes

/-- `sys_close` of a descriptor that is not open, and `sys_dup2` of it onto itself, are
not rejected. -/
theorem close_twice :
    ¬ RejectsClosed (RamFs.pageList .base) (fun _ => 0) (fun _ => 0) noneOpen 0 5 .close ∧
    ¬ RejectsClosed (RamFs.pageList .base) (fun _ => 0) (fun _ => 0) noneOpen 0 5
      (.dup2 5 fun _ => true) := by
  have hclosed : getFd (noneOpen.tables 0) 5 = none := rfl
  constructor
  · intro h
    exact looks_of_rejects h hclosed hclosed
  · intro h
    have hlooks := looks_of_rejects h hclosed
    rw [looks_dup2, if_pos hclosed] at hlooks
    exact hlooks rfl

end Ceryx.Fs
