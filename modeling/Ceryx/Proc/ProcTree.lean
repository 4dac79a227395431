import Ceryx.Proc.Process

/-!
# Ceryx.Proc.ProcTree — the process tree along every run

`KernelInv` is what every run keeps, also the runs that go wrong: the children
lists form a forest of processes that are not deleted, and a thread inside
`waitpid` holds one of its process's children or a deleted process.

* `Effect k r k'`: everything a step can do, `r` being the child that it reaps
  for `waitpid`; `kernelStep_effect` is the one inversion lemma of
  `kernelStep`.
* `KernelInv.step`: the invariant is inductive. `boot_inv`: it holds at start.
* `Frame k r k'`: what the step leaves alone, from which the properties of the
  next modules are derived.
-/

namespace Ceryx.Proc

open Sched Kernel

/-! ## The invariant -/

/-- What a process on a children list is like. -/
structure IsChild (k : Kernel) (p c : ProcId) : Prop where
  parent : (k.procs c).parent = some p
  alive : (k.procs c).deleted = false
  pid : (k.procs c).pid ≠ 0
  old : c < k.nextProc

/-- The pointer a thread inside `waitpid` holds. -/
structure Held (k : Kernel) (t : Tid) (c : ProcId) : Prop where
  created : t < k.nextTid
  old : c < k.nextProc
  child : (k.procs c).deleted = false →
    ∃ p, (k.threads t).process = some p ∧ c ∈ (k.procs p).children

/-- The tree, the threads inside `waitpid`, and the history of reaped children. -/
structure ProcInv (k : Kernel) : Prop where
  idleProcess : ∀ d, k.idleThread = some d → (k.threads d).process = none
  threadProcess : ∀ t p, (k.threads t).process = some p → p < k.nextProc
  deleted : ∀ p, (k.procs p).deleted = true → p < k.nextProc
  child : ∀ p, ∀ c ∈ (k.procs p).children, IsChild k p c
  nodup : ∀ p, (k.procs p).children.Nodup
  held : ∀ t c, k.waiting t = some c → Held k t c
  reaped : ∀ c ∈ k.reaped, (k.procs c).deleted = true
  once : k.reaped.Nodup
  returned : k.returned.Sublist k.reaped
  /-- Pid 0 is never free. -/
  swapper : k.pidBitmap 0 = true

/-- What every run keeps of the kernel. -/
structure KernelInv (k : Kernel) : Prop where
  sched : SchedInv k.toSched
  tree : ProcInv k

/-! ## Steps that the tree does not see -/

/-- The updated process. -/
theorem updProc_self (k : Kernel) (p : ProcId) (f : Process → Process) :
    (k.updProc p f).procs p = f (k.procs p) := by
  simp [updProc]

/-- An update of one process is no update of another. -/
theorem updProc_ne (k : Kernel) {p q : ProcId} (f : Process → Process) (h : q ≠ p) :
    (k.updProc p f).procs q = k.procs q := by
  simp [updProc, h]

/-- An update that keeps a field keeps it for all processes. -/
theorem updProc_field {β : Type} (g : Process → β) (k : Kernel) (p : ProcId)
    {f : Process → Process} (h : g (f (k.procs p)) = g (k.procs p)) (q : ProcId) :
    g ((k.updProc p f).procs q) = g (k.procs q) := by
  by_cases hq : q = p
  · subst hq
    rw [updProc_self, h]
  · rw [updProc_ne k f hq]

/-- Nothing that `ProcInv` reads has changed. -/
structure SameTree (k k' : Kernel) : Prop where
  process : ∀ t, (k'.threads t).process = (k.threads t).process
  nextTid : k'.nextTid = k.nextTid
  idle : k'.idleThread = k.idleThread
  parent : ∀ p, (k'.procs p).parent = (k.procs p).parent
  children : ∀ p, (k'.procs p).children = (k.procs p).children
  deleted : ∀ p, (k'.procs p).deleted = (k.procs p).deleted
  pid : ∀ p, (k'.procs p).pid = (k.procs p).pid
  nextProc : k'.nextProc = k.nextProc
  waiting : k'.waiting = k.waiting
  reaped : k'.reaped = k.reaped
  returned : k'.returned = k.returned
  swapper : k'.pidBitmap 0 = k.pidBitmap 0

/-- Nothing has changed, -/
theorem SameTree.refl (k : Kernel) : SameTree k k :=
  ⟨fun _ => rfl, rfl, rfl, fun _ => rfl, fun _ => rfl, fun _ => rfl, fun _ => rfl, rfl, rfl, rfl,
    rfl, rfl⟩

/-- and nothing changes in two steps in which nothing does. -/
theorem SameTree.trans {k k' k'' : Kernel} (h : SameTree k k') (h' : SameTree k' k'') :
    SameTree k k'' where
  process t := (h'.process t).trans (h.process t)
  nextTid := h'.nextTid.trans h.nextTid
  idle := h'.idle.trans h.idle
  parent p := (h'.parent p).trans (h.parent p)
  children p := (h'.children p).trans (h.children p)
  deleted p := (h'.deleted p).trans (h.deleted p)
  pid p := (h'.pid p).trans (h.pid p)
  nextProc := h'.nextProc.trans h.nextProc
  waiting := h'.waiting.trans h.waiting
  reaped := h'.reaped.trans h.reaped
  returned := h'.returned.trans h.returned
  swapper := h'.swapper.trans h.swapper

/-- Scheduling. -/
theorem SameTree.onSched (k : Kernel) {s : Sched} (h : Moves k.toSched s) :
    SameTree k (k.onSched s) :=
  ⟨h.process, h.next, h.idle, fun _ => rfl, fun _ => rfl, fun _ => rfl, fun _ => rfl, rfl, rfl, rfl,
    rfl, rfl⟩

/-- Another exit status or state. -/
theorem SameTree.updProc (k : Kernel) (p : ProcId) {f : Process → Process}
    (hparent : (f (k.procs p)).parent = (k.procs p).parent)
    (hchildren : (f (k.procs p)).children = (k.procs p).children)
    (hdeleted : (f (k.procs p)).deleted = (k.procs p).deleted)
    (hpid : (f (k.procs p)).pid = (k.procs p).pid) : SameTree k (k.updProc p f) where
  process _ := rfl
  nextTid := rfl
  idle := rfl
  parent := updProc_field Process.parent k p hparent
  children := updProc_field Process.children k p hchildren
  deleted := updProc_field Process.deleted k p hdeleted
  pid := updProc_field Process.pid k p hpid
  nextProc := rfl
  waiting := rfl
  reaped := rfl
  returned := rfl
  swapper := rfl

/-- A bitmap that still has bit 0 set. -/
theorem SameTree.setBitmap (k : Kernel) {b : Nat → Bool} (hb : b 0 = k.pidBitmap 0) :
    SameTree k { k with pidBitmap := b } :=
  ⟨fun _ => rfl, rfl, rfl, fun _ => rfl, fun _ => rfl, fun _ => rfl, fun _ => rfl, rfl, rfl, rfl,
    rfl, hb⟩

/-- Giving a pid back does not touch the tree. -/
theorem SameTree.pidFree (k : Kernel) (pid : Nat) : SameTree k (k.pidFree pid) := by
  unfold Kernel.pidFree
  split
  · exact SameTree.refl k
  · rename_i hpid
    have h0 : (0 : Nat) ≠ pid := by omega
    exact SameTree.setBitmap k (Function.update_of_ne h0 _ _)

/-- Being a child depends on the tree only. -/
theorem IsChild.congr {k k' : Kernel} (h : SameTree k k') {p c : ProcId} (hc : IsChild k p c) :
    IsChild k' p c where
  parent := (h.parent c).trans hc.parent
  alive := (h.deleted c).trans hc.alive
  pid := by rw [h.pid]; exact hc.pid
  old := by rw [h.nextProc]; exact hc.old

/-- So does the pointer that a thread inside `waitpid` holds. -/
theorem Held.congr {k k' : Kernel} (h : SameTree k k') {t : Tid} {c : ProcId} (hc : Held k t c) :
    Held k' t c where
  created := by rw [h.nextTid]; exact hc.created
  old := by rw [h.nextProc]; exact hc.old
  child halive := by
    rw [h.deleted] at halive
    rcases hc.child halive with ⟨p, hp, hmem⟩
    exact ⟨p, (h.process t).trans hp, by rw [h.children]; exact hmem⟩

/-- A step that the tree does not see keeps its invariant. -/
theorem ProcInv.of_same {k k' : Kernel} (hk : ProcInv k) (h : SameTree k k') : ProcInv k' where
  idleProcess d hd := by
    rw [h.process]
    exact hk.idleProcess d (h.idle ▸ hd)
  threadProcess t p hp := by
    rw [h.nextProc]
    exact hk.threadProcess t p ((h.process t).symm.trans hp)
  deleted p hp := by
    rw [h.nextProc]
    exact hk.deleted p ((h.deleted p).symm.trans hp)
  child p c hc := by
    rw [h.children] at hc
    exact (hk.child p c hc).congr h
  nodup p := by rw [h.children]; exact hk.nodup p
  held t c hc := by
    rw [h.waiting] at hc
    exact (hk.held t c hc).congr h
  reaped c hc := by
    rw [h.reaped] at hc
    exact (h.deleted c).trans (hk.reaped c hc)
  once := by rw [h.reaped]; exact hk.once
  returned := by rw [h.returned, h.reaped]; exact hk.returned
  swapper := h.swapper.trans hk.swapper

/-! ## New processes and threads -/

/-- The pid that the bitmap search finds is free. -/
theorem firstUnset_unset {b : Nat → Bool} {i n j : Nat} (h : firstUnset b i n = some j) :
    b j = false := by
  induction n generalizing i with
  | zero => cases h
  | succ n ih =>
      unfold firstUnset at h
      split at h
      · exact ih h
      · rename_i hb
        cases h
        simpa using hb

/-- `PidAlloc` never issues pid 0. -/
theorem pidAlloc_spec {k k' : Kernel} {pid : Nat} (h : ProcInv k)
    (halloc : k.pidAlloc = some (pid, k')) :
    pid ≠ 0 ∧ k'.toSched = k.toSched ∧ SameTree k k' := by
  rcases Option.map_eq_some_iff.mp halloc with ⟨i, hi, heq⟩
  cases heq
  have h0 : pid ≠ 0 := by
    rintro rfl
    have := firstUnset_unset hi
    rw [h.swapper] at this
    cases this
  exact ⟨h0, rfl, SameTree.setBitmap k (Function.update_of_ne (Ne.symm h0) _ _)⟩

/-- The processes from before are untouched. -/
theorem newProcess_ne (k : Kernel) (pid : Nat) {q : ProcId} (hq : q ≠ k.nextProc) :
    (k.newProcess pid).2.procs q = k.procs q := by
  simp [newProcess, hq]

/-- A new process has its pid and nothing else. -/
theorem newProcess_self (k : Kernel) (pid : Nat) :
    (k.newProcess pid).2.procs k.nextProc = { pid := pid } := by
  simp [newProcess]

/-- Nobody's child yet, so the forest stays one. -/
theorem ProcInv.newProcess {k : Kernel} (h : ProcInv k) (pid : Nat) :
    ProcInv (k.newProcess pid).2 where
  idleProcess := h.idleProcess
  threadProcess t p hp := Nat.lt_succ_of_lt (h.threadProcess t p hp)
  deleted p hp := by
    by_cases hpn : p = k.nextProc
    · exact hpn ▸ Nat.lt_succ_self _
    · rw [newProcess_ne k pid hpn] at hp
      exact Nat.lt_succ_of_lt (h.deleted p hp)
  child p c hc := by
    by_cases hpn : p = k.nextProc
    · subst hpn
      rw [newProcess_self] at hc
      cases hc
    · -- a child on a list is older than the new process
      rw [newProcess_ne k pid hpn] at hc
      have hchild := h.child p c hc
      have hcn : c ≠ k.nextProc := Nat.ne_of_lt hchild.old
      refine ⟨?_, ?_, ?_, Nat.lt_succ_of_lt hchild.old⟩ <;> rw [newProcess_ne k pid hcn]
      · exact hchild.parent
      · exact hchild.alive
      · exact hchild.pid
  nodup p := by
    by_cases hpn : p = k.nextProc
    · subst hpn
      rw [newProcess_self]
      exact List.nodup_nil
    · rw [newProcess_ne k pid hpn]
      exact h.nodup p
  held t c hc := by
    have hheld := h.held t c hc
    refine ⟨hheld.created, Nat.lt_succ_of_lt hheld.old, fun halive => ?_⟩
    rw [newProcess_ne k pid (Nat.ne_of_lt hheld.old)] at halive
    rcases hheld.child halive with ⟨p, hp, hmem⟩
    refine ⟨p, hp, ?_⟩
    rw [newProcess_ne k pid (Nat.ne_of_lt (h.threadProcess t p hp))]
    exact hmem
  reaped c hc := by
    have hdel := h.reaped c hc
    rw [newProcess_ne k pid (Nat.ne_of_lt (h.deleted c hdel))]
    exact hdel
  once := h.once
  returned := h.returned
  swapper := h.swapper

/-- A process on no children list. -/
def Unlinked (k : Kernel) (c : ProcId) : Prop := ∀ p, c ∉ (k.procs p).children

/-- A new process is on no children list. -/
theorem newProcess_unlinked {k : Kernel} (h : ProcInv k) (pid : Nat) :
    Unlinked (k.newProcess pid).2 k.nextProc := by
  intro p hmem
  by_cases hpn : p = k.nextProc
  · subst hpn
    rw [newProcess_self] at hmem
    cases hmem
  · rw [newProcess_ne k pid hpn] at hmem
    exact Nat.lt_irrefl _ (h.child p _ hmem).old

/-- Only the parent gets a child; -/
theorem linkChild_children_ne (k : Kernel) {p q : ProcId} (c : ProcId) (hq : q ≠ p) :
    ((k.linkChild p c).procs q).children = (k.procs q).children := by
  unfold linkChild
  rw [updProc_ne _ _ hq]
  exact updProc_field Process.children k c rfl q

/-- `AddChild` appends, so that children stay in the order of their creation. -/
theorem linkChild_children_self (k : Kernel) (p c : ProcId) :
    ((k.linkChild p c).procs p).children = (k.procs p).children ++ [c] := by
  unfold linkChild
  rw [updProc_self]
  exact congrArg (· ++ [c]) (updProc_field Process.children k c rfl p)

/-- linking deletes nobody, -/
theorem linkChild_deleted (k : Kernel) (p c q : ProcId) :
    ((k.linkChild p c).procs q).deleted = (k.procs q).deleted :=
  (updProc_field Process.deleted _ p (f := fun x => { x with children := x.children ++ [c] })
    rfl q).trans (updProc_field Process.deleted k c rfl q)

/-- and gives nobody another pid. -/
theorem linkChild_pid (k : Kernel) (p c q : ProcId) :
    ((k.linkChild p c).procs q).pid = (k.procs q).pid :=
  (updProc_field Process.pid _ p (f := fun x => { x with children := x.children ++ [c] })
    rfl q).trans (updProc_field Process.pid k c rfl q)

/-- It is the child that gets the parent; nobody else's changes. -/
theorem linkChild_parent (k : Kernel) (p c q : ProcId) :
    ((k.linkChild p c).procs q).parent = if q = c then some p else (k.procs q).parent := by
  have hlist := updProc_field Process.parent (k.updProc c fun x => { x with parent := some p }) p
    (f := fun x => { x with children := x.children ++ [c] }) rfl q
  refine hlist.trans ?_
  by_cases hqc : q = c
  · subst hqc
    rw [updProc_self, if_pos rfl]
  · rw [updProc_ne _ _ hqc, if_neg hqc]

/-- `Fork` links a new child. -/
theorem ProcInv.linkChild {k : Kernel} (h : ProcInv k) {p c : ProcId} (hc : Unlinked k c)
    (halive : (k.procs c).deleted = false) (hpid : (k.procs c).pid ≠ 0) (hold : c < k.nextProc) :
    ProcInv (k.linkChild p c) where
  idleProcess := h.idleProcess
  threadProcess := h.threadProcess
  deleted q hq := h.deleted q (linkChild_deleted k p c q ▸ hq)
  child q b hb := by
    -- on the list before, or the new child itself
    have hcases : IsChild k q b ∧ b ≠ c ∨ q = p ∧ b = c := by
      by_cases hqp : q = p
      · subst hqp
        rw [linkChild_children_self] at hb
        rcases List.mem_append.mp hb with hmem | hnew
        · exact Or.inl ⟨h.child q b hmem, fun hbc => hc q (hbc ▸ hmem)⟩
        · exact Or.inr ⟨rfl, List.mem_singleton.mp hnew⟩
      · rw [linkChild_children_ne k c hqp] at hb
        exact Or.inl ⟨h.child q b hb, fun hbc => hc q (hbc ▸ hb)⟩
    rcases hcases with ⟨hchild, hne⟩ | ⟨rfl, rfl⟩
    · refine ⟨?_, ?_, ?_, hchild.old⟩
      · rw [linkChild_parent, if_neg hne]
        exact hchild.parent
      · rw [linkChild_deleted]
        exact hchild.alive
      · rw [linkChild_pid]
        exact hchild.pid
    · refine ⟨?_, ?_, ?_, hold⟩
      · rw [linkChild_parent, if_pos rfl]
      · rw [linkChild_deleted]
        exact halive
      · rw [linkChild_pid]
        exact hpid
  nodup q := by
    by_cases hqp : q = p
    · subst hqp
      rw [linkChild_children_self]
      refine List.nodup_append.mpr ⟨h.nodup q, List.nodup_singleton c, ?_⟩
      intro a ha b hb hab
      exact hc q (List.mem_singleton.mp hb ▸ hab ▸ ha)
    · rw [linkChild_children_ne k c hqp]
      exact h.nodup q
  held t b hb := by
    have hheld := h.held t b hb
    refine ⟨hheld.created, hheld.old, fun hdel => ?_⟩
    rw [linkChild_deleted] at hdel
    rcases hheld.child hdel with ⟨q, hq, hmem⟩
    refine ⟨q, hq, ?_⟩
    by_cases hqp : q = p
    · subst hqp
      rw [linkChild_children_self]
      exact List.mem_append_left _ hmem
    · rw [linkChild_children_ne k c hqp]
      exact hmem
  reaped b hb := (linkChild_deleted k p c b).trans (h.reaped b hb)
  once := h.once
  returned := h.returned
  swapper := h.swapper

/-- A new thread of an existing process. -/
theorem ProcInv.startThread {k k' : Kernel} (h : ProcInv k) (hs : SchedInv k.toSched) {p : ProcId}
    (hp : p < k.nextProc) {stack : Nat} (hstart : k.startThread p stack = some k') :
    ProcInv k' := by
  rcases Option.map_eq_some_iff.mp hstart with ⟨s, hadd, rfl⟩
  have hadds := addThread_adds hadd
  refine ⟨?_, ?_, h.deleted, ?_, h.nodup, ?_, h.reaped, h.once, h.returned,
    h.swapper⟩
  · intro d hd
    have hd' : k.idleThread = some d := hadds.idle ▸ hd
    rcases hs.idle with ⟨d', hd'', -, hcreated⟩
    obtain rfl : d' = d := Option.some.inj (hd''.symm.trans hd')
    exact (hadds.process d' (Nat.ne_of_lt hcreated.2)).trans (h.idleProcess d' hd')
  · -- the new thread has the process it was made for, the others keep theirs
    intro t q hq
    by_cases ht : t = k.nextTid
    · subst ht
      exact Option.some.inj (hadds.new.symm.trans hq) ▸ hp
    · exact h.threadProcess t q ((hadds.process t ht).symm.trans hq)
  · intro q c hc
    have hchild := h.child q c hc
    exact ⟨hchild.parent, hchild.alive, hchild.pid, hchild.old⟩
  · intro t c hc
    have hheld := h.held t c hc
    refine ⟨?_, hheld.old, fun halive => ?_⟩
    · change t < s.nextTid
      rw [hadds.next]
      exact Nat.lt_succ_of_lt hheld.created
    · rcases hheld.child halive with ⟨q, hq, hmem⟩
      exact ⟨q, (hadds.process t (Nat.ne_of_lt hheld.created)).trans hq, hmem⟩

/-! ## Deleting a child -/

/-- `RemoveChild` and `Reap`, always together. -/
def Kernel.bury (k : Kernel) (p c : ProcId) : Kernel := (k.removeChild p c).reap c

/-- `RemoveChild` and `delete`, process by process. -/
theorem bury_procs (k : Kernel) (p c q : ProcId) :
    (k.bury p c).procs q = ((k.removeChild p c).updProc c fun x => { x with deleted := true }).procs
      q := by
  unfold bury reap delete Kernel.pidFree
  split <;> rfl

/-- Burying a child moves no thread, -/
theorem bury_toSched (k : Kernel) (p c : ProcId) : (k.bury p c).toSched = k.toSched := by
  unfold bury reap delete Kernel.pidFree
  split <;> rfl

/-- makes no process, -/
theorem bury_nextProc (k : Kernel) (p c : ProcId) : (k.bury p c).nextProc = k.nextProc := by
  unfold bury reap delete Kernel.pidFree
  split <;> rfl

/-- leaves who waits for whom, -/
theorem bury_waiting (k : Kernel) (p c : ProcId) : (k.bury p c).waiting = k.waiting := by
  unfold bury reap delete Kernel.pidFree
  split <;> rfl

/-- counts the child as reaped, -/
theorem bury_reaped (k : Kernel) (p c : ProcId) : (k.bury p c).reaped = k.reaped ++ [c] := rfl

/-- and not yet as returned; -/
theorem bury_returned (k : Kernel) (p c : ProcId) : (k.bury p c).returned = k.returned := by
  unfold bury reap delete Kernel.pidFree
  split <;> rfl

/-- it leaves pid 0 alone, -/
theorem bury_swapper (k : Kernel) (p c : ProcId) :
    (k.bury p c).pidBitmap 0 = k.pidBitmap 0 :=
  (SameTree.pidFree (k.removeChild p c) _).swapper

/-- and all parents -/
theorem bury_parent (k : Kernel) (p c q : ProcId) :
    ((k.bury p c).procs q).parent = (k.procs q).parent := by
  rw [bury_procs]
  exact (updProc_field Process.parent _ c rfl q).trans (updProc_field Process.parent k p rfl q)

/-- and pids. -/
theorem bury_pid (k : Kernel) (p c q : ProcId) :
    ((k.bury p c).procs q).pid = (k.procs q).pid := by
  rw [bury_procs]
  exact (updProc_field Process.pid _ c rfl q).trans (updProc_field Process.pid k p rfl q)

/-- Of the processes only the child is deleted. -/
theorem bury_deleted (k : Kernel) (p c q : ProcId) :
    ((k.bury p c).procs q).deleted = true ↔ (k.procs q).deleted = true ∨ c = q := by
  rw [bury_procs]
  by_cases hqc : q = c
  · subst hqc
    rw [updProc_self]
    simp
  · rw [updProc_ne _ _ hqc]
    have := updProc_field Process.deleted k p (f := fun x => { x with children := x.children.erase c })
      rfl q
    unfold removeChild
    rw [this]
    simp [Ne.symm hqc]

/-- Of the children lists only its parent's loses it. -/
theorem bury_children (k : Kernel) (p c q : ProcId) :
    ((k.bury p c).procs q).children =
      if q = p then (k.procs q).children.erase c else (k.procs q).children := by
  rw [bury_procs]
  refine (updProc_field Process.children _ c rfl q).trans ?_
  unfold removeChild
  by_cases hqp : q = p
  · subst hqp
    rw [updProc_self, if_pos rfl]
  · rw [updProc_ne _ _ hqp, if_neg hqp]

/-- After `RemoveChild` no list has the child: it was on no other. -/
theorem bury_unlinked {k : Kernel} (h : ProcInv k) {p c : ProcId}
    (hc : ∀ q, c ∈ (k.procs q).children → q = p) : Unlinked (k.bury p c) c := by
  intro q hmem
  rw [bury_children] at hmem
  split at hmem
  · exact (List.Nodup.mem_erase_iff (h.nodup q)).mp hmem |>.1 rfl
  · rename_i hqp
    exact hqp (hc q hmem)

/-- A child that is reaped leaves its parent's list, and the pointers that are left hold
a deleted process. -/
theorem ProcInv.bury {k : Kernel} (h : ProcInv k) {p c : ProcId}
    (hc : ∀ q, c ∈ (k.procs q).children → q = p) (hold : c < k.nextProc)
    (halive : (k.procs c).deleted = false) : ProcInv (k.bury p c) where
  idleProcess d hd := by
    rw [bury_toSched] at hd ⊢
    exact h.idleProcess d hd
  threadProcess t q hq := by
    rw [bury_nextProc]
    rw [bury_toSched] at hq
    exact h.threadProcess t q hq
  deleted q hq := by
    rw [bury_nextProc]
    rcases (bury_deleted k p c q).mp hq with hdel | rfl
    · exact h.deleted q hdel
    · exact hold
  child q b hb := by
    -- the buried process is in no list any more
    have hne : b ≠ c := fun hbc => bury_unlinked h hc q (hbc ▸ hb)
    have hmem : b ∈ (k.procs q).children := by
      rw [bury_children] at hb
      split at hb
      · exact List.mem_of_mem_erase hb
      · exact hb
    have hchild := h.child q b hmem
    refine ⟨(bury_parent k p c b).trans hchild.parent, ?_, ?_, ?_⟩
    · rw [Bool.eq_false_iff]
      intro hdel
      rcases (bury_deleted k p c b).mp hdel with hdel' | rfl
      · rw [hchild.alive] at hdel'
        cases hdel'
      · exact hne rfl
    · rw [bury_pid]
      exact hchild.pid
    · rw [bury_nextProc]
      exact hchild.old
  nodup q := by
    rw [bury_children]
    split
    · exact (h.nodup q).erase c
    · exact h.nodup q
  held t b hb := by
    rw [bury_waiting] at hb
    have hheld := h.held t b hb
    refine ⟨?_, ?_, fun halive => ?_⟩
    · rw [bury_toSched]
      exact hheld.created
    · rw [bury_nextProc]
      exact hheld.old
    · have hdead : ¬ ((k.procs b).deleted = true ∨ c = b) := by
        rw [← bury_deleted k p c b, halive]
        decide
      rw [not_or] at hdead
      rcases hheld.child (Bool.eq_false_iff.mpr hdead.1) with ⟨q, hq, hmem⟩
      refine ⟨q, by rw [bury_toSched]; exact hq, ?_⟩
      rw [bury_children]
      split
      · exact (List.mem_erase_of_ne (Ne.symm hdead.2)).mpr hmem
      · exact hmem
  reaped b hb := by
    rw [bury_reaped] at hb
    rw [bury_deleted]
    rcases List.mem_append.mp hb with hmem | hnew
    · exact Or.inl (h.reaped b hmem)
    · exact Or.inr (List.mem_singleton.mp hnew).symm
  once := by
    rw [bury_reaped]
    refine List.nodup_append.mpr ⟨h.once, List.nodup_singleton c, ?_⟩
    intro a ha b hb hab
    have hdel := h.reaped a ha
    rw [hab, List.mem_singleton.mp hb, halive] at hdel
    cases hdel
  returned := by
    rw [bury_returned, bury_reaped]
    exact h.returned.trans (List.sublist_append_left _ _)
  swapper := (bury_swapper k p c).trans h.swapper

/-! ## What a step can do -/

/-- The process of a running thread is there. -/
theorem caller_eq {k : Kernel} {t : Tid} {p : ProcId} (h : k.caller = some (t, p)) :
    k.currentThread = some t ∧ (k.threads t).process = some p ∧ (k.procs p).deleted = false := by
  rcases Option.bind_eq_some_iff.mp h with ⟨u, hu, hbind⟩
  rcases Option.bind_eq_some_iff.mp hbind with ⟨q, hq, hif⟩
  split at hif
  · cases hif
  · rename_i hdel
    cases hif
    exact ⟨hu, hq, Bool.eq_false_iff.mpr hdel⟩

/-- The child that a step reaps for `waitpid`: the one found, or held across
`Block`, when it is a zombie. -/
def reapedBy (k : Kernel) : KernelOp → Option ProcId
  | .waitpid wpid _ =>
      k.caller.bind fun (_, p) =>
        (k.findChild p (searchPid wpid)).filter fun c => (k.procs c).isZombie
  | .resume =>
      k.caller.bind fun (t, _) => (k.waiting t).filter fun c => (k.procs c).isZombie
  | _ => none

/-- Everything a step can do, with the child it reaps for `waitpid`. -/
inductive Effect (k : Kernel) : Option ProcId → Kernel → Prop where
  /-- Scheduling, exit, and calls that fail early. -/
  | same {k' : Kernel} (tree : SameTree k k') (moves : Moves k.toSched k'.toSched)
      (inv : SchedInv k'.toSched) : Effect k none k'
  /-- `waitpid` gives up after `Block`. -/
  | forgets {t : Tid} (running : k.currentThread = some t) : Effect k none (k.setWaiting t none)
  /-- `waitpid` blocks. -/
  | blocks {t : Tid} {p c : ProcId} (call : k.caller = some (t, p))
      (child : c ∈ (k.procs p).children) (inv : SchedInv (k.toSched.block (.process c))) :
      Effect k none ((k.setWaiting t (some c)).onSched (k.toSched.block (.process c)))
  /-- `clone`. -/
  | clones {t : Tid} {p : ProcId} {stack : Nat} {k' : Kernel} (call : k.caller = some (t, p))
      (start : k.startThread p stack = some k') : Effect k none k'
  /-- `fork` reaps the child it could not finish. -/
  | stillborn {k₁ : Kernel} {t : Tid} {p : ProcId} {pid : Nat} {linked : Bool}
      (call : k.caller = some (t, p)) (tree : SameTree k k₁)
      (sched : k₁.toSched = k.toSched) (hpid : pid ≠ 0) :
      Effect k none
        ((if linked then (k₁.newProcess pid).2.linkChild p k.nextProc
          else (k₁.newProcess pid).2).bury p k.nextProc)
  /-- `fork`. -/
  | forks {k₁ k' : Kernel} {t : Tid} {p : ProcId} {pid stack : Nat}
      (call : k.caller = some (t, p)) (tree : SameTree k k₁)
      (sched : k₁.toSched = k.toSched) (hpid : pid ≠ 0)
      (start : ((k₁.newProcess pid).2.linkChild p k.nextProc).startThread k.nextProc stack =
        some k') : Effect k none k'
  /-- `waitpid` reaps a child. -/
  | reaps {t : Tid} {p c : ProcId} (call : k.caller = some (t, p))
      (child : c ∈ (k.procs p).children) : Effect k (some c) ((k.setWaiting t none).collect p c).2

/-- The idle thread has no process, so it makes no system calls. -/
theorem not_idle_of_caller {k : Kernel} (h : ProcInv k) {t : Tid} {p : ProcId}
    (hcall : k.caller = some (t, p)) : k.currentThread ≠ k.idleThread := by
  obtain ⟨ht, hp, -⟩ := caller_eq hcall
  intro hidle
  have := h.idleProcess t (hidle.symm.trans ht)
  rw [hp] at this
  cases this

/-- Scheduler entry points outside `waitpid`. -/
theorem sched_effect {k k' : Kernel} (h : KernelInv k) {op : SchedOp}
    (hmoves : ∀ s, schedStep k.toSched op = some s → Moves k.toSched s)
    (hstep : k.sched op = some k') : Effect k none k' := by
  unfold Kernel.sched at hstep
  split at hstep
  · rcases Option.map_eq_some_iff.mp hstep with ⟨s, hs, rfl⟩
    have hm := hmoves s hs
    exact Effect.same (SameTree.onSched k hm) hm (schedStep_inv h.sched hs)
  · cases hstep

/-- Before its threads `sys_exit` changes no tree and moves no thread, -/
theorem exitProcess_same (k : Kernel) (p : ProcId) (status : Int) :
    SameTree k (k.exitProcess p status) ∧ Moves k.toSched (k.exitProcess p status).toSched := by
  have htree : SameTree k (k.updProc p fun q => { q with state := .zombie, exitStatus := status }) :=
    SameTree.updProc k p rfl rfl rfl rfl
  unfold exitProcess
  dsimp only
  split
  · have hwake := wake_moves k.toSched (.process p) false
    exact ⟨htree.trans (SameTree.onSched _ hwake), hwake⟩
  · exact ⟨htree, Moves.refl _⟩

/-- so the invariant of the scheduler is kept. -/
theorem exitProcess_inv {k : Kernel} (h : SchedInv k.toSched) (p : ProcId) (status : Int) :
    SchedInv (k.exitProcess p status).toSched := by
  unfold exitProcess
  dsimp only
  split
  · exact h.wake _ false
  · exact h

/-- `sys_exit` marks and wakes; the thread itself is left to the reaper. -/
theorem exit_effect {k k' : Kernel} (h : KernelInv k) {t : Tid} {p : ProcId} {status : Int}
    (hcall : k.caller = some (t, p)) (hexit : k.exit t p status = some k') : Effect k none k' := by
  rcases Option.map_eq_some_iff.mp hexit with ⟨s, hs, rfl⟩
  obtain ⟨htree, hmoves⟩ := exitProcess_same k p status
  have hinv := exitProcess_inv h.sched p status
  have hcur : (k.exitProcess p status).currentThread = some t := by
    have hk := (caller_eq hcall).1
    unfold exitProcess
    dsimp only
    split
    · exact (wake_inv h.sched.toListInv _ false).2.current.trans hk
    · exact hk
  have hthread := exitThread_moves hcur hs
  exact Effect.same (htree.trans (SameTree.onSched _ hthread)) (hmoves.trans hthread)
    (exitThread_inv hinv hcur hs)

/-- A pid is taken from the bitmap and from nowhere else. -/
theorem pidAlloc_frame {k k' : Kernel} {pid : Nat} (h : k.pidAlloc = some (pid, k')) :
    k'.toSched = k.toSched ∧ k'.procs = k.procs ∧ k'.nextProc = k.nextProc := by
  rcases Option.map_eq_some_iff.mp h with ⟨_, _, heq⟩
  cases heq
  exact ⟨rfl, rfl, rfl⟩

/-- How `fork` ends; `k₁` is the kernel that has given out the pid. -/
inductive ForkCase (k : Kernel) (p : ProcId) : ForkAlloc → Int → Kernel → Prop where
  | nothing {alloc : ForkAlloc} {rax : Int} (hrax : rax < 0) : ForkCase k p alloc rax k
  | pidBack {pid : Nat} {k₁ : Kernel} (halloc : k.pidAlloc = some (pid, k₁)) :
      ForkCase k p .noProcess (-ENOMEM) (k₁.pidFree pid)
  /-- The child that could not be finished is reaped. -/
  | stillborn {alloc : ForkAlloc} {pid : Nat} {k₁ : Kernel} (linked : Bool)
      (halloc : k.pidAlloc = some (pid, k₁)) :
      ForkCase k p alloc (-ENOMEM)
        ((if linked then (k₁.newProcess pid).2.linkChild p k.nextProc
          else (k₁.newProcess pid).2).bury p k.nextProc)
  | forks {pid stack : Nat} {k₁ k' : Kernel} (halloc : k.pidAlloc = some (pid, k₁))
      (start : ((k₁.newProcess pid).2.linkChild p k.nextProc).startThread k.nextProc stack =
        some k') : ForkCase k p (.enough stack) pid k'

/-- `Fork` by the allocation that fails, in the order of the source. -/
theorem fork_cases {k k' : Kernel} {p : ProcId} {alloc : ForkAlloc} {rax : Int}
    (hfork : k.fork p alloc = some (rax, k')) : ForkCase k p alloc rax k' := by
  unfold fork at hfork
  split at hfork
  · cases hfork
    exact .nothing (by decide)
  · cases halloc : k.pidAlloc with
    | none =>
        rw [halloc] at hfork
        cases hfork
        exact .nothing (by decide)
    | some res =>
        obtain ⟨pid, k₁⟩ := res
        obtain ⟨-, -, hnext⟩ := pidAlloc_frame halloc
        have hchild : (k₁.newProcess pid).1 = k.nextProc := hnext
        simp only [halloc, hchild] at hfork
        -- one case per allocation of `Process::Fork`, in its order
        cases alloc with
        | noAddressSpace => contradiction
        | noProcess =>
            cases hfork
            exact .pidBack halloc
        | noFdTable =>
            cases hfork
            exact .stillborn false halloc
        | noThread =>
            cases hfork
            exact .stillborn true halloc
        | enough stack =>
            rcases Option.map_eq_some_iff.mp hfork with ⟨k₂, hstart, heq⟩
            cases heq
            exact .forks halloc hstart

/-- No thread notices. -/
theorem pidFree_toSched (k : Kernel) (pid : Nat) : (k.pidFree pid).toSched = k.toSched := by
  unfold Kernel.pidFree
  split
  · rfl
  · rfl

/-- Whichever allocation fails, what was made before is unmade, or buried. -/
theorem fork_effect {k k' : Kernel} (h : KernelInv k) {t : Tid} {p : ProcId} {alloc : ForkAlloc}
    {rax : Int} (hcall : k.caller = some (t, p))
    (hfork : k.fork p alloc = some (rax, k')) : Effect k none k' := by
  cases fork_cases hfork with
  | nothing _ => exact Effect.same (SameTree.refl k) (Moves.refl _) h.sched
  -- taken and given back: only the bitmap has changed
  | @pidBack pid k₁ halloc =>
      obtain ⟨-, hsched, htree⟩ := pidAlloc_spec h.tree halloc
      have hfree : (k₁.pidFree pid).toSched = k.toSched := (pidFree_toSched k₁ pid).trans hsched
      refine Effect.same (htree.trans (SameTree.pidFree k₁ pid)) ?_ ?_
      · rw [hfree]
        exact Moves.refl _
      · rw [hfree]
        exact h.sched
  | stillborn linked halloc =>
      obtain ⟨hpid, hsched, htree⟩ := pidAlloc_spec h.tree halloc
      exact Effect.stillborn hcall htree hsched hpid
  | forks halloc start =>
      obtain ⟨hpid, hsched, htree⟩ := pidAlloc_spec h.tree halloc
      exact Effect.forks hcall htree hsched hpid start

/-- Setting it to what it is changes nothing. -/
theorem setWaiting_eq {k : Kernel} {t : Tid} {c : Option ProcId} (h : k.waiting t = c) :
    k.setWaiting t c = k := by
  unfold setWaiting
  rw [← h, Function.update_eq_self]

/-- `waitpid` reaps a zombie at once, blocks on a child, or fails. -/
theorem waitpid_effect {k : Kernel} (h : KernelInv k) {t : Tid} {p : ProcId} {wpid : Int}
    {options : BitVec 32} (hcall : k.caller = some (t, p)) (hidle : k.waiting t = none) :
    Effect k (reapedBy k (.waitpid wpid options)) (k.waitpid t p wpid options).2 := by
  have hsame : Effect k none k := Effect.same (SameTree.refl k) (Moves.refl _) h.sched
  unfold reapedBy
  simp only [hcall, Option.bind_some]
  unfold waitpid
  cases hfind : k.findChild p (searchPid wpid) with
  | none => exact hsame
  | some c =>
      have hmem : c ∈ (k.procs p).children := List.mem_of_find?_eq_some hfind
      dsimp only
      -- a zombie is reaped at once; for the others the caller blocks or returns
      by_cases hz : (k.procs c).isZombie
      · rw [if_pos hz, Option.filter_some, if_pos hz]
        have hreap := Effect.reaps hcall hmem
        rw [setWaiting_eq hidle] at hreap
        exact hreap
      · rw [if_neg hz, Option.filter_some, if_neg hz]
        split
        · exact hsame
        · exact Effect.blocks hcall hmem
            (block_inv h.sched (not_idle_of_caller h.tree hcall) _)

/-- After the wait it looks at the child that it has blocked on, and at no other. -/
theorem resume_effect {k k' : Kernel} (h : KernelInv k) (hresume : k.resume = some k') :
    Effect k (reapedBy k .resume) k' := by
  rcases Option.bind_eq_some_iff.mp hresume with ⟨⟨t, p⟩, hcall, hbind⟩
  rcases Option.bind_eq_some_iff.mp hbind with ⟨c, hc, hif⟩
  obtain ⟨ht, hp, -⟩ := caller_eq hcall
  split at hif
  · cases hif
  · rename_i hdel
    cases hif
    unfold reapedBy
    simp only [hcall, hc, Option.bind_some]
    -- the held child is alive, so it is still a child of the caller's process
    rcases (h.tree.held t c hc).child (Bool.eq_false_iff.mpr hdel) with ⟨q, hq, hmem⟩
    obtain rfl : p = q := Option.some.inj (hp.symm.trans hq)
    unfold waitResume
    by_cases hz : (k.procs c).isZombie
    · rw [if_pos hz, Option.filter_some, if_pos hz]
      exact Effect.reaps hcall hmem
    · rw [if_neg hz, Option.filter_some, if_neg hz]
      exact Effect.forgets ht

/-- The reaper frees threads, not processes. -/
theorem reclaim_effect {k k' : Kernel} (h : KernelInv k) (hstep : k.reclaim = some k') :
    Effect k none k' := by
  unfold reclaim at hstep
  split at hstep
  · cases hstep
  · rename_i t rest hdead
    split at hstep
    · cases hstep
    · cases hstep
      -- whoever is on the shorter list was on the longer one
      have hmoves : Moves k.toSched { k.toSched with localDead := rest } := by
        refine ⟨fun _ => rfl, fun u hu => Or.inl ?_, rfl, rfl, rfl⟩
        rcases hu with hc | hready | hwait | hlist | hloc
        · exact Or.inl hc
        · exact Or.inr (Or.inl hready)
        · exact Or.inr (Or.inr (Or.inl hwait))
        · exact Or.inr (Or.inr (Or.inr (Or.inl hlist)))
        · refine Or.inr (Or.inr (Or.inr (Or.inr ?_)))
          rw [hdead]
          exact List.mem_cons_of_mem _ hloc
      exact Effect.same (SameTree.onSched k hmoves) hmoves (h.sched.setReaperLists _ _)

/-- The drain moves threads from one of the reaper's lists to the other. -/
theorem drain_effect {k : Kernel} (h : KernelInv k) : Effect k none k.drain := by
  have hmoves : Moves k.toSched k.drain.toSched := by
    refine ⟨fun _ => rfl, fun u hu => Or.inl ?_, rfl, rfl, rfl⟩
    rcases hu with hc | hready | hwait | hlist | hloc
    · exact Or.inl hc
    · exact Or.inr (Or.inl hready)
    · exact Or.inr (Or.inr (Or.inl hwait))
    · cases hlist
    · rcases List.mem_append.mp hloc with hold | hnew
      · exact Or.inr (Or.inr (Or.inr (Or.inr hold)))
      · exact Or.inr (Or.inr (Or.inr (Or.inl hnew)))
  exact Effect.same (SameTree.onSched k hmoves) hmoves (h.sched.setReaperLists _ _)

/-- A system call of the kernel part comes from a thread that is not inside another. -/
theorem syscall_eq {k k' : Kernel} {f : Tid → ProcId → Option Kernel}
    (h : k.syscall f = some k') :
    ∃ t p, k.caller = some (t, p) ∧ k.waiting t = none ∧ f t p = some k' := by
  rcases Option.bind_eq_some_iff.mp h with ⟨⟨t, p⟩, hcall, hif⟩
  dsimp only at hif
  split at hif
  · rename_i hw
    exact ⟨t, p, hcall, hw, hif⟩
  · cases hif

/-- The steps of the reaper, where it runs. -/
theorem reaper_eq {k k' : Kernel} {f : Option Kernel} (h : k.reaper f = some k') :
    f = some k' := by
  unfold Kernel.reaper at h
  split at h
  · exact h
  · cases h

/-- The inversion lemma of `kernelStep`. -/
theorem kernelStep_effect {k k' : Kernel} (h : KernelInv k) {op : KernelOp}
    (hstep : kernelStep k op = some k') : Effect k (reapedBy k op) k' := by
  cases op with
  | fork alloc =>
      simp only [kernelStep] at hstep
      rcases syscall_eq hstep with ⟨t, p, hcall, -, hf⟩
      rcases Option.map_eq_some_iff.mp hf with ⟨⟨rax, k''⟩, hfork, rfl⟩
      exact fork_effect h hcall hfork
  | clone stack =>
      simp only [kernelStep] at hstep
      rcases syscall_eq hstep with ⟨t, p, hcall, -, hf⟩
      rcases Option.map_eq_some_iff.mp hf with ⟨res, hclone, rfl⟩
      rcases Option.map_eq_some_iff.mp hclone with ⟨k'', hstart, rfl⟩
      exact Effect.clones hcall hstart
  | exit status =>
      simp only [kernelStep] at hstep
      rcases syscall_eq hstep with ⟨t, p, hcall, -, hf⟩
      exact exit_effect h hcall hf
  | waitpid wpid options =>
      simp only [kernelStep] at hstep
      rcases syscall_eq hstep with ⟨t, p, hcall, hidle, hf⟩
      cases hf
      exact waitpid_effect h hcall hidle
  | resume => exact resume_effect h hstep
  | tick => exact sched_effect h (fun s hs => by cases hs; exact tick_moves _) hstep
  | yield => exact sched_effect h (fun s hs => by cases hs; exact yield_moves (Moves.refl _)) hstep
  | block addr =>
      -- the idle thread does not block
      refine sched_effect h (fun s hs => ?_) hstep
      simp only [schedStep] at hs
      split at hs
      · cases hs
      · cases hs
        exact block_moves _ _
  | wake addr wakeAll =>
      exact sched_effect h (fun s hs => by cases hs; exact wake_moves _ _ _) hstep
  | drain =>
      have hdrain := reaper_eq hstep
      split at hdrain
      · cases hdrain
        exact drain_effect h
      · cases hdrain
  | reclaim => exact reclaim_effect h (reaper_eq hstep)

/-! ## The invariant is inductive -/

/-- A child is on one list only. -/
theorem ProcInv.parent_unique {k : Kernel} (h : ProcInv k) {p q c : ProcId}
    (hp : c ∈ (k.procs p).children) (hq : c ∈ (k.procs q).children) : q = p :=
  Option.some.inj ((h.child q c hq).parent.symm.trans (h.child p c hp).parent)

/-- A thread may hold a child of its own process, or none. -/
theorem ProcInv.setWaiting {k : Kernel} (h : ProcInv k) {t : Tid} {c : Option ProcId}
    (hc : ∀ b, c = some b → Held k t b) : ProcInv (k.setWaiting t c) := by
  refine ⟨h.idleProcess, h.threadProcess, h.deleted, ?_, h.nodup, ?_, h.reaped, h.once, h.returned,
    h.swapper⟩
  · intro q b hb
    have hchild := h.child q b hb
    exact ⟨hchild.parent, hchild.alive, hchild.pid, hchild.old⟩
  · intro u b hb
    have hheld : Held k u b := by
      by_cases hut : u = t
      · subst hut
        exact hc b (by simpa [Kernel.setWaiting] using hb)
      · exact h.held u b (by simpa [Kernel.setWaiting, hut] using hb)
    exact ⟨hheld.created, hheld.old, hheld.child⟩

/-- Collecting buries the child. -/
theorem ProcInv.collect {k : Kernel} (h : ProcInv k) {p c : ProcId}
    (hc : c ∈ (k.procs p).children) : ProcInv (k.collect p c).2 := by
  have hchild := h.child p c hc
  have hbury := h.bury (fun q hq => h.parent_unique hc hq) hchild.old hchild.alive
  refine ⟨hbury.idleProcess, hbury.threadProcess, hbury.deleted, ?_, hbury.nodup, ?_, hbury.reaped,
    hbury.once, ?_, hbury.swapper⟩
  · intro q b hb
    have hb' := hbury.child q b hb
    exact ⟨hb'.parent, hb'.alive, hb'.pid, hb'.old⟩
  · intro t b hb
    have hheld := hbury.held t b hb
    exact ⟨hheld.created, hheld.old, hheld.child⟩
  · exact h.returned.append (List.Sublist.refl [c])

/-- The child of `fork`, before it is deleted again or gets its thread. -/
theorem ProcInv.newChild {k k₁ : Kernel} (h : ProcInv k) (tree : SameTree k k₁) {p : ProcId}
    {pid : Nat} (hpid : pid ≠ 0) :
    ProcInv ((k₁.newProcess pid).2.linkChild p k.nextProc) := by
  have h₁ := h.of_same tree
  rw [← tree.nextProc]
  apply (h₁.newProcess pid).linkChild (newProcess_unlinked h₁ pid)
  · rw [newProcess_self]
  · rw [newProcess_self]
    exact hpid
  · exact Nat.lt_succ_self _

/-- The child of a fork is there, -/
theorem newChild_alive {k k₁ : Kernel} (tree : SameTree k k₁) (p : ProcId) (pid : Nat) :
    (((k₁.newProcess pid).2.linkChild p k.nextProc).procs k.nextProc).deleted = false := by
  rw [linkChild_deleted, ← tree.nextProc, newProcess_self]

/-- and was before it was linked. -/
theorem newProcess_alive {k k₁ : Kernel} (tree : SameTree k k₁) (pid : Nat) :
    ((k₁.newProcess pid).2.procs k.nextProc).deleted = false := by
  rw [← tree.nextProc, newProcess_self]

/-- The invariant is kept by whatever a step does: one case per constructor. -/
theorem Effect.inv {k k' : Kernel} {r : Option ProcId} (h : KernelInv k) (he : Effect k r k') :
    KernelInv k' := by
  cases he with
  | same tree moves inv => exact ⟨inv, h.tree.of_same tree⟩
  | forgets running => exact ⟨h.sched, h.tree.setWaiting fun b hb => by cases hb⟩
  | @blocks t p c call child inv =>
      obtain ⟨ht, hp, -⟩ := caller_eq call
      have hchild := h.tree.child _ _ child
      have hset : ProcInv (k.setWaiting t (some c)) := by
        apply h.tree.setWaiting
        intro b hb
        cases hb
        exact ⟨(h.sched.current_created ht).2, hchild.old, fun _ => ⟨p, hp, child⟩⟩
      exact ⟨inv, hset.of_same (SameTree.onSched _ (block_moves _ _))⟩
  | clones call start =>
      obtain ⟨-, hp, -⟩ := caller_eq call
      rcases Option.map_eq_some_iff.mp start with ⟨s, hs, rfl⟩
      exact ⟨schedStep_inv h.sched hs,
        h.tree.startThread h.sched (h.tree.threadProcess _ _ hp) start⟩
  | @stillborn k₁ t p pid linked call tree sched hpid =>
      have h₁ := h.tree.of_same tree
      cases linked with
      | false =>
          -- the child was linked nowhere
          rw [if_neg Bool.false_ne_true]
          have hun : Unlinked (k₁.newProcess pid).2 k.nextProc :=
            tree.nextProc ▸ newProcess_unlinked h₁ pid
          constructor
          · rw [bury_toSched]
            change SchedInv k₁.toSched
            rw [sched]
            exact h.sched
          · apply (h₁.newProcess pid).bury (fun q hq => absurd hq (hun q))
            · rw [← tree.nextProc]
              exact Nat.lt_succ_self _
            · exact newProcess_alive tree pid
      | true =>
          -- it was a child of the caller and of nobody else
          rw [if_pos rfl]
          have hchild := h.tree.newChild tree (p := p) hpid
          constructor
          · rw [bury_toSched]
            change SchedInv k₁.toSched
            rw [sched]
            exact h.sched
          · have hmem : k.nextProc ∈
                (((k₁.newProcess pid).2.linkChild p k.nextProc).procs p).children := by
              rw [linkChild_children_self]
              exact List.mem_append_right _ List.mem_cons_self
            exact hchild.bury (fun q hq => hchild.parent_unique hmem hq)
              (hchild.child p _ hmem).old (newChild_alive tree p pid)
  | @forks k₁ k' t p pid stack call tree sched hpid start =>
      have hchild := h.tree.newChild tree (p := p) hpid
      have hs : SchedInv ((k₁.newProcess pid).2.linkChild p k.nextProc).toSched := by
        change SchedInv k₁.toSched
        rw [sched]
        exact h.sched
      have hold : k.nextProc < ((k₁.newProcess pid).2.linkChild p k.nextProc).nextProc := by
        rw [← tree.nextProc]
        exact Nat.lt_succ_self _
      refine ⟨?_, hchild.startThread hs hold start⟩
      rcases Option.map_eq_some_iff.mp start with ⟨s, hadd, rfl⟩
      exact schedStep_inv hs hadd
  | @reaps t p c call child =>
      have hset : ProcInv (k.setWaiting t none) := h.tree.setWaiting fun b hb => by cases hb
      refine ⟨?_, hset.collect child⟩
      change SchedInv ((k.setWaiting t none).bury p c).toSched
      rw [bury_toSched]
      exact h.sched

/-- `KernelInv` is inductive. -/
theorem KernelInv.step {k k' : Kernel} (h : KernelInv k) {op : KernelOp}
    (hstep : kernelStep k op = some k') : KernelInv k' := (kernelStep_effect h hstep).inv h

/-! ## What a step leaves alone -/

/-- What a step that reaps `r` for `waitpid` does to processes, threads and
held pointers. -/
structure Frame (k : Kernel) (r : Option ProcId) (k' : Kernel) : Prop where
  deleted : ∀ p, p < k.nextProc →
    ((k'.procs p).deleted = true ↔ (k.procs p).deleted = true ∨ r = some p)
  occupied : ∀ t p, Occupied k'.toSched t → (k'.threads t).process = some p →
    (Occupied k.toSched t ∧ (k.threads t).process = some p) ∨ (k'.procs p).deleted = false
  waiting : ∀ t c, k'.waiting t = some c → k.waiting t = some c ∨ (k'.procs c).deleted = false
  old : ∀ c, r = some c → c < k.nextProc
  sched : ∀ c, r = some c → k'.toSched = k.toSched
  others : ∀ c, r = some c → ∀ t, k.currentThread ≠ some t → k'.waiting t = k.waiting t
  released : ∀ c, r = some c → ∀ t, k.currentThread = some t → ∀ b, k'.waiting t ≠ some b

/-- Other threads wait for what they waited for. -/
theorem setWaiting_ne (k : Kernel) {t u : Tid} (c : Option ProcId) (h : u ≠ t) :
    (k.setWaiting t c).waiting u = k.waiting u := by
  simp [setWaiting, h]

/-- What the thread holds now. -/
theorem setWaiting_self (k : Kernel) (t : Tid) (c : Option ProcId) :
    (k.setWaiting t c).waiting t = c := by
  simp [setWaiting]

/-- Threads that a scheduler step leaves occupied were occupied before: the
idle thread has no process. -/
theorem occupied_of_moves {k : Kernel} (h : ProcInv k) {s : Sched} (hm : Moves k.toSched s)
    {t : Tid} {p : ProcId} (hocc : Occupied s t) (hp : (s.threads t).process = some p) :
    Occupied k.toSched t ∧ (k.threads t).process = some p := by
  have hp' : (k.threads t).process = some p := (hm.process t).symm.trans hp
  rcases hm.occupied t hocc with hold | hidle
  · exact ⟨hold, hp'⟩
  · have := h.idleProcess t hidle
    rw [hp'] at this
    cases this

/-- The new thread of an entry point that adds one. -/
theorem occupied_of_adds {b s : Sched} {owner : Option ProcId} (hadds : Adds b owner s) {t : Tid}
    {p : ProcId} (hocc : Occupied s t) (hp : (s.threads t).process = some p) :
    (Occupied b t ∧ (b.threads t).process = some p) ∨ owner = some p := by
  by_cases ht : t = b.nextTid
  · exact Or.inr (hadds.new.symm.trans (ht ▸ hp))
  · have hold := (hadds.occupied t hocc).resolve_right ht
    exact Or.inl ⟨hold, (hadds.process t ht).symm.trans hp⟩

/-- A child that fails to be born leaves the processes that were there before as they
were. -/
theorem deleted_stillborn {k k₁ : Kernel} (tree : SameTree k k₁) (linked : Bool) (p : ProcId)
    (pid : Nat) {q : ProcId} (hq : q < k.nextProc) :
    (((if linked then (k₁.newProcess pid).2.linkChild p k.nextProc
      else (k₁.newProcess pid).2).bury p k.nextProc).procs q).deleted = true ↔
      (k.procs q).deleted = true := by
  have hne : q ≠ k₁.nextProc := tree.nextProc ▸ Nat.ne_of_lt hq
  have hnew : ((k₁.newProcess pid).2.procs q).deleted = (k.procs q).deleted := by
    rw [newProcess_ne k₁ pid hne, tree.deleted]
  rw [bury_deleted]
  have hne' : k.nextProc ≠ q := Ne.symm (Nat.ne_of_lt hq)
  cases linked with
  | false => rw [if_neg Bool.false_ne_true, hnew, or_iff_left hne']
  | true => rw [if_pos rfl, linkChild_deleted, hnew, or_iff_left hne']

/-- A step that reaps no process. -/
theorem Frame.of_none {k k' : Kernel}
    (hdeleted : ∀ p, p < k.nextProc → ((k'.procs p).deleted = true ↔ (k.procs p).deleted = true))
    (hoccupied : ∀ t p, Occupied k'.toSched t → (k'.threads t).process = some p →
      (Occupied k.toSched t ∧ (k.threads t).process = some p) ∨ (k'.procs p).deleted = false)
    (hwaiting : ∀ t c, k'.waiting t = some c →
      k.waiting t = some c ∨ (k'.procs c).deleted = false) : Frame k none k' where
  deleted p hp := (hdeleted p hp).trans (or_iff_left (Option.some_ne_none p).symm).symm
  occupied := hoccupied
  waiting := hwaiting
  old c hc := absurd hc (Option.some_ne_none c).symm
  sched c hc := absurd hc (Option.some_ne_none c).symm
  others c hc := absurd hc (Option.some_ne_none c).symm
  released c hc := absurd hc (Option.some_ne_none c).symm

/-- `waitpid` that reaps a child. -/
theorem Frame.reaps {k : Kernel} (h : KernelInv k) {t : Tid} {p c : ProcId}
    (hcall : k.caller = some (t, p)) (hchild : c ∈ (k.procs p).children) :
    Frame k (some c) ((k.setWaiting t none).collect p c).2 := by
  have htoSched : ((k.setWaiting t none).collect p c).2.toSched = k.toSched :=
    bury_toSched (k.setWaiting t none) p c
  have hwaiting : ((k.setWaiting t none).collect p c).2.waiting =
      (k.setWaiting t none).waiting := bury_waiting (k.setWaiting t none) p c
  constructor
  case deleted =>
    intro q _
    exact (bury_deleted (k.setWaiting t none) p c q).trans (by simp [setWaiting])
  case occupied =>
    intro u q hu hq
    rw [htoSched] at hu hq
    exact Or.inl ⟨hu, hq⟩
  case waiting =>
    intro u b hb
    left
    rw [hwaiting] at hb
    by_cases hut : u = t
    · rw [hut, setWaiting_self] at hb
      cases hb
    · rwa [setWaiting_ne k none hut] at hb
  case old =>
    intro b hb
    cases hb
    exact (h.tree.child _ _ hchild).old
  case sched => exact fun _ _ => htoSched
  case others =>
    intro b hb u hu
    rw [hwaiting]
    apply setWaiting_ne
    rintro rfl
    exact hu (caller_eq hcall).1
  case released =>
    -- the call that returns holds nothing any more
    intro b hb u hu a ha
    obtain rfl : t = u := Option.some.inj ((caller_eq hcall).1.symm.trans hu)
    rw [hwaiting, setWaiting_self] at ha
    cases ha

/-- What a step leaves alone, again one case per constructor. -/
theorem Effect.frame {k k' : Kernel} {r : Option ProcId} (h : KernelInv k) (he : Effect k r k') :
    Frame k r k' := by
  cases he with
  | same tree moves inv =>
      refine Frame.of_none (fun p _ => ?_) (fun t p ht hp => ?_) (fun t c hc => ?_)
      · rw [tree.deleted]
      · exact Or.inl (occupied_of_moves h.tree moves ht hp)
      · exact Or.inl (tree.waiting ▸ hc)
  | @forgets t running =>
      -- only what thread `t` waits for has changed
      refine Frame.of_none (fun p _ => Iff.rfl) (fun u p hu hp => Or.inl ⟨hu, hp⟩) (fun u c hc => ?_)
      by_cases hut : u = t
      · rw [hut, setWaiting_self] at hc
        cases hc
      · rw [setWaiting_ne k none hut] at hc
        exact Or.inl hc
  | @blocks t p c call child inv =>
      have hchild := h.tree.child _ _ child
      refine Frame.of_none (fun p _ => Iff.rfl) (fun u q hu hq => ?_) (fun u b hb => ?_)
      · exact Or.inl (occupied_of_moves h.tree (block_moves _ _) hu hq)
      · by_cases hut : u = t
        · subst hut
          have hcb : some c = some b := (setWaiting_self k u (some c)).symm.trans hb
          cases hcb
          exact Or.inr hchild.alive
        · exact Or.inl ((setWaiting_ne k (some c) hut).symm.trans hb)
  | @clones t p stack k' call start =>
      rcases Option.map_eq_some_iff.mp start with ⟨s, hs, rfl⟩
      refine Frame.of_none (fun p _ => Iff.rfl) (fun u q hu hq => ?_) (fun u b hb => Or.inl hb)
      -- the new thread is one of the caller's process, which is alive
      rcases occupied_of_adds (addThread_adds hs) hu hq with hold | hnew
      · exact Or.inl hold
      · cases hnew
        exact Or.inr (caller_eq call).2.2
  | @stillborn k₁ t p pid linked call tree sched hpid =>
      have htoSched : ((if linked then (k₁.newProcess pid).2.linkChild p k.nextProc
          else (k₁.newProcess pid).2).bury p k.nextProc).toSched = k.toSched := by
        rw [bury_toSched, ← sched]
        cases linked <;> rfl
      have hwaiting : ((if linked then (k₁.newProcess pid).2.linkChild p k.nextProc
          else (k₁.newProcess pid).2).bury p k.nextProc).waiting = k.waiting := by
        rw [bury_waiting, ← tree.waiting]
        cases linked <;> rfl
      refine Frame.of_none (fun q hq => deleted_stillborn tree linked p pid hq)
        (fun u q hu hq => Or.inl ?_) (fun u b hb => Or.inl ?_)
      · rw [htoSched] at hu hq
        exact ⟨hu, hq⟩
      · rw [hwaiting] at hb
        exact hb
  | @forks k₁ k' t p pid stack call tree sched hpid start =>
      rcases Option.map_eq_some_iff.mp start with ⟨s, hs, rfl⟩
      refine Frame.of_none (fun q hq => ?_) (fun u q hu hq => ?_) (fun u b hb => Or.inl ?_)
      · have hne : q ≠ k₁.nextProc := tree.nextProc ▸ Nat.ne_of_lt hq
        have hsame : ((((k₁.newProcess pid).2.linkChild p k.nextProc).onSched s).procs q).deleted =
            (k.procs q).deleted := by
          refine (linkChild_deleted _ p k.nextProc q).trans ?_
          rw [newProcess_ne k₁ pid hne, tree.deleted]
        rw [hsame]
      · rcases occupied_of_adds (addThread_adds hs) hu hq with hold | hnew
        · left
          change Occupied k₁.toSched u ∧ (k₁.toSched.threads u).process = some q at hold
          rw [sched] at hold
          exact hold
        · cases hnew
          exact Or.inr (newChild_alive tree p pid)
      · exact tree.waiting ▸ hb
  | @reaps t p c call child => exact Frame.reaps h call child

/-! ## Start -/

/-- Before the first process there is nothing to say. -/
theorem ofSched_inv {s : Sched} (hprocess : ∀ t, (s.threads t).process = none) :
    ProcInv (ofSched s) where
  idleProcess d _ := hprocess d
  threadProcess t p hp := by
    have hnone := hprocess t
    change (s.threads t).process = some p at hp
    rw [hnone] at hp
    cases hp
  deleted p hp := by cases hp
  child p c hc := by cases hc
  nodup _ := List.nodup_nil
  held t c hc := by cases hc
  reaped c hc := by cases hc
  once := List.nodup_nil
  returned := List.Sublist.refl _
  swapper := rfl

/-- Idle thread and reaper have no process. -/
theorem start_process {rootPa : Option ProcId → Nat} {idleStack reaperStack : Nat} {s : Sched}
    (hstart : start rootPa idleStack reaperStack = some s) (t : Tid) :
    (s.threads t).process = none := by
  rw [start_eq] at hstart
  obtain ⟨-, rfl⟩ := addThread_eq hstart
  have hadd : (((startReaper rootPa idleStack reaperStack).updThread 2 fun th =>
      { th with mlfqLevel := kNumLevels - 1, ticksRemaining := kQuantum (kNumLevels - 1),
                state := .ready }).threads t).process =
      ((startReaper rootPa idleStack reaperStack).threads t).process :=
    updThread_field Thread.process _ 2 rfl t
  refine hadd.trans ?_
  by_cases h2 : t = 2
  · simp [startReaper, startIdle, newThread, setState, setMlfqLevel, updThread, Sched.boot, h2]
  · by_cases h1 : t = 1
    · simp [startReaper, startIdle, newThread, setState, setMlfqLevel, updThread, Sched.boot, h1]
    · simp [startReaper, startIdle, newThread, setState, setMlfqLevel, updThread, Sched.boot, h1,
        h2]

/-- The state in which `Spawn` has made the process of `/sbin/init`. -/
theorem spawn_eq (s : Sched) (load : Bool) (stack : Nat) : ∃ k₁ pid,
    SameTree (ofSched s) k₁ ∧ k₁.toSched = s ∧
      (ofSched s).spawn load stack =
        if load then (k₁.newProcess pid).2.startThread 0 stack
        else some ((k₁.newProcess pid).2.destroy 0) := by
  unfold spawn
  cases halloc : (ofSched s).pidAlloc with
  | none => exact ⟨ofSched s, 0, SameTree.refl _, rfl, rfl⟩
  | some res =>
      rcases Option.map_eq_some_iff.mp halloc with ⟨pid, hpid, rfl⟩
      have h0 : (0 : Nat) ≠ pid := by
        rintro rfl
        have := firstUnset_unset hpid
        cases this
      exact ⟨_, pid, SameTree.setBitmap (ofSched s) (Function.update_of_ne h0 _ _), rfl, rfl⟩

/-- What `delete` leaves alone besides the pids. -/
theorem delete_frame (k : Kernel) (c : ProcId) :
    (k.delete c).toSched = k.toSched ∧ (k.delete c).waiting = k.waiting ∧
      (k.delete c).nextProc = k.nextProc ∧ (k.delete c).reaped = k.reaped ∧
      (k.delete c).returned = k.returned ∧
      (k.delete c).procs = (k.updProc c fun q => { q with deleted := true }).procs := by
  unfold delete Kernel.pidFree
  split
  · exact ⟨rfl, rfl, rfl, rfl, rfl, rfl⟩
  · exact ⟨rfl, rfl, rfl, rfl, rfl, rfl⟩

/-- `/sbin/init` that was not loaded: the only process is gone, and it had no
thread. -/
theorem ProcInv.unloaded {k : Kernel} {pid : Nat} (h : ProcInv (k.newProcess pid).2)
    (hchildren : ∀ q, (k.procs q).children = []) (hprocess : ∀ t, (k.threads t).process = none)
    (hwaiting : ∀ t, k.waiting t = none) (hreaped : k.reaped = []) :
    ProcInv ((k.newProcess pid).2.destroy 0) := by
  obtain ⟨hto, hwait, hnext, hreap, hreturn, hprocs⟩ := delete_frame (k.newProcess pid).2 0
  have hthreads : ∀ t, (((k.newProcess pid).2.delete 0).threads t).process = none := by
    intro t
    rw [hto]
    exact hprocess t
  -- no lists, no threads and no waits, so little is left to show
  have hnone : ∀ q, (((k.newProcess pid).2.delete 0).procs q).children = [] := by
    intro q
    rw [hprocs]
    refine (updProc_field Process.children _ 0 rfl q).trans ?_
    by_cases hq : q = k.nextProc
    · rw [hq, newProcess_self]
    · rw [newProcess_ne k pid hq, hchildren]
  change ProcInv ((k.newProcess pid).2.delete 0)
  constructor
  case idleProcess => exact fun d _ => hthreads d
  case threadProcess =>
    intro t p hp
    rw [hthreads] at hp
    cases hp
  case deleted =>
    intro p hp
    rw [hnext]
    by_cases hp0 : p = 0
    · rw [hp0]
      exact Nat.succ_pos _
    · rw [hprocs, updProc_ne _ _ hp0] at hp
      exact h.deleted p hp
  case child =>
    intro p c hc
    rw [hnone] at hc
    cases hc
  case nodup =>
    intro p
    rw [hnone]
    exact List.nodup_nil
  case held =>
    intro t c hc
    rw [hwait] at hc
    exact absurd ((hwaiting t).symm.trans hc) (Option.some_ne_none c).symm
  case reaped =>
    intro c hc
    rw [hreap] at hc
    exact absurd (hreaped ▸ hc) List.not_mem_nil
  case once =>
    rw [hreap]
    exact h.once
  case returned =>
    rw [hreap, hreturn]
    exact h.returned
  case swapper => exact (SameTree.pidFree (k.newProcess pid).2 _).swapper.trans h.swapper

/-- Nothing is wrong after the boot: the invariant holds, no thread belongs to
a deleted process and none is inside `waitpid`. -/
theorem boot_inv {rootPa : Option ProcId → Nat} {idleStack reaperStack initStack : Nat}
    {load : Bool} {k : Kernel} (hboot : boot rootPa idleStack reaperStack initStack load = some k) :
    KernelInv k ∧ (∀ t p, (k.threads t).process = some p → (k.procs p).deleted = false) ∧
      ∀ t, k.waiting t = none := by
  rcases Option.bind_eq_some_iff.mp hboot with ⟨s, hstart, hspawn⟩
  have hs := start_inv hstart
  have hnone := start_process hstart
  obtain ⟨k₁, pid, tree, sched, heq⟩ := spawn_eq s load initStack
  rw [heq] at hspawn
  have h₁ : ProcInv k₁ := (ofSched_inv hnone).of_same tree
  have hnew := h₁.newProcess pid
  have hsched : SchedInv (k₁.newProcess pid).2.toSched := by
    change SchedInv k₁.toSched
    rw [sched]
    exact hs
  have hwaiting : ∀ t, k₁.waiting t = none := fun t => congrFun tree.waiting t
  have hzero : k₁.nextProc = 0 := tree.nextProc
  cases load with
  | true =>
      rw [if_pos rfl] at hspawn
      have hold : 0 < (k₁.newProcess pid).2.nextProc := Nat.succ_pos _
      have hinv := hnew.startThread hsched hold hspawn
      rcases Option.map_eq_some_iff.mp hspawn with ⟨s', hadd, rfl⟩
      refine ⟨⟨schedStep_inv hsched hadd, hinv⟩, fun t p hp => ?_, hwaiting⟩
      -- the only process is the new one
      have hp0 : p = 0 := Nat.le_zero.mp (hzero ▸ Nat.le_of_lt_succ (hinv.threadProcess t p hp))
      subst hp0
      change ((k₁.newProcess pid).2.procs 0).deleted = false
      rw [← hzero, newProcess_self]
  | false =>
      rw [if_neg Bool.false_ne_true] at hspawn
      cases hspawn
      obtain ⟨hto, hwait, -⟩ := delete_frame (k₁.newProcess pid).2 0
      have hbefore : (k₁.newProcess pid).2.toSched = s := sched
      have hprocess : ∀ t, (k₁.threads t).process = none := by
        intro t
        rw [sched]
        exact hnone t
      have hunloaded := hnew.unloaded tree.children hprocess hwaiting tree.reaped
      refine ⟨⟨?_, hunloaded⟩, fun t p hp => ?_, fun t => ?_⟩
      · change SchedInv ((k₁.newProcess pid).2.delete 0).toSched
        rw [hto]
        exact hsched
      · change (((k₁.newProcess pid).2.delete 0).threads t).process = some p at hp
        rw [hto, hbefore, hnone] at hp
        cases hp
      · exact (congrFun hwait t).trans (hwaiting t)

end Ceryx.Proc
