import Ceryx.Proc.ProcTree

/-!
# Ceryx.Proc.TreeSound — parents that are reaped before their children

A process knows its parent by `m_parent` and its children by the nodes of
`m_children`. `Fork` sets both sides; `sys_waitpid` takes a zombie off the list
with `RemoveChild` and deletes it with `Reap`, whatever children the zombie
still has: their `m_parent` then points to a deleted process.

* `TreeSound`: the two sides agree and neither points to a deleted process.
* `TreeInv`: what every run keeps, also the runs that go wrong: a process whose
  parent pointer is set is on that parent's list.
* `ReapsLeaf`: the condition on a step; the child it reaps has no children.
* `treeSound_iff_reapsLeaf`: it is exactly what a run needs.
-/

namespace Ceryx.Proc

open Sched Kernel Lib

/-! ## The property -/

/-- What the tree of processes has to be. -/
structure TreeSound (k : Kernel) : Prop where
  /-- The parent of a process is there and has it on its list exactly once. -/
  parent : ∀ c p, (k.procs c).deleted = false → (k.procs c).parent = some p →
    (k.procs p).deleted = false ∧ (k.procs p).children.count c = 1
  /-- A node on a children list is a process whose parent is the owner. -/
  child : ∀ p, (k.procs p).deleted = false → ∀ c ∈ (k.procs p).children,
    (k.procs c).deleted = false ∧ (k.procs c).parent = some p

/-- What every run keeps besides `KernelInv`. -/
structure TreeInv (k : Kernel) : Prop where
  linked : ∀ c p, (k.procs c).deleted = false → (k.procs c).parent = some p →
    c ∈ (k.procs p).children
  /-- A child is younger than its parent. -/
  older : ∀ p, ∀ c ∈ (k.procs p).children, p < c
  /-- No process, no children. -/
  fresh : ∀ p, k.nextProc ≤ p → (k.procs p).children = []

/-- The parent of a process has not been deleted. -/
def NoOrphan (k : Kernel) : Prop :=
  ∀ c p, (k.procs c).deleted = false → (k.procs c).parent = some p → (k.procs p).deleted = false

/-- Under the invariants only one thing can be wrong. -/
theorem treeSound_iff_noOrphan {k : Kernel} (h : ProcInv k) (ht : TreeInv k) :
    TreeSound k ↔ NoOrphan k := by
  constructor
  · intro hs c p halive hparent
    exact (hs.parent c p halive hparent).1
  · intro ho
    constructor
    · intro c p halive hparent
      refine ⟨ho c p halive hparent, ?_⟩
      exact List.count_eq_one_of_mem (h.nodup p) (ht.linked c p halive hparent)
    · intro p _ c hc
      have hchild := h.child p c hc
      exact ⟨hchild.alive, hchild.parent⟩

/-- The child that the step reaps for `waitpid` has no children. -/
def ReapsLeaf (k : Kernel) (op : KernelOp) : Prop :=
  ∀ c, reapedBy k op = some c → (k.procs c).children = []

instance (k : Kernel) (op : KernelOp) : Decidable (ReapsLeaf k op) :=
  inferInstanceAs (Decidable (∀ c ∈ reapedBy k op, (k.procs c).children = []))

/-! ## The pieces of a step -/

/-- The processes of `k'` are those of `k`. -/
theorem TreeInv.congr {k k' : Kernel} (h : TreeInv k)
    (hdeleted : ∀ p, (k'.procs p).deleted = (k.procs p).deleted)
    (hparent : ∀ p, (k'.procs p).parent = (k.procs p).parent)
    (hchildren : ∀ p, (k'.procs p).children = (k.procs p).children)
    (hnext : k'.nextProc = k.nextProc) : TreeInv k' where
  linked c p halive hp := by
    rw [hdeleted] at halive
    rw [hparent] at hp
    rw [hchildren]
    exact h.linked c p halive hp
  older p c hc := by
    rw [hchildren] at hc
    exact h.older p c hc
  fresh p hp := by
    rw [hnext] at hp
    rw [hchildren]
    exact h.fresh p hp

/-- It is a matter of parents, and of who is deleted. -/
theorem NoOrphan.congr {k k' : Kernel} (h : NoOrphan k)
    (hdeleted : ∀ p, (k'.procs p).deleted = (k.procs p).deleted)
    (hparent : ∀ p, (k'.procs p).parent = (k.procs p).parent) : NoOrphan k' := by
  intro c p halive hp
  rw [hdeleted] at halive ⊢
  rw [hparent] at hp
  exact h c p halive hp

/-- A new process is in no list yet, -/
theorem TreeInv.newProcess {k : Kernel} (h : TreeInv k) (pid : Nat) :
    TreeInv (k.newProcess pid).2 where
  linked c p halive hp := by
    -- the new process has no parent and no children
    by_cases hc : c = k.nextProc
    · rw [hc, newProcess_self] at hp
      cases hp
    · rw [newProcess_ne k pid hc] at halive hp
      have hmem := h.linked c p halive hp
      by_cases hpn : p = k.nextProc
      · rw [hpn, h.fresh _ (Nat.le_refl _)] at hmem
        cases hmem
      · rw [newProcess_ne k pid hpn]
        exact hmem
  older p c hc := by
    by_cases hpn : p = k.nextProc
    · rw [hpn, newProcess_self] at hc
      cases hc
    · rw [newProcess_ne k pid hpn] at hc
      exact h.older p c hc
  fresh p hp := by
    have hpn : p ≠ k.nextProc := Nat.ne_of_gt hp
    rw [newProcess_ne k pid hpn]
    exact h.fresh p (Nat.le_of_succ_le hp)

/-- and has no parent. -/
theorem NoOrphan.newProcess {k : Kernel} (h : NoOrphan k) (pid : Nat) :
    NoOrphan (k.newProcess pid).2 := by
  intro c p halive hp
  by_cases hc : c = k.nextProc
  · rw [hc, newProcess_self] at hp
    cases hp
  · rw [newProcess_ne k pid hc] at halive hp
    by_cases hpn : p = k.nextProc
    · rw [hpn, newProcess_self]
    · rw [newProcess_ne k pid hpn]
      exact h c p halive hp

/-- `Fork` links a process to an older one. -/
theorem TreeInv.linkChild {k : Kernel} (h : TreeInv k) {p c : ProcId} (hpc : p < c)
    (hold : c < k.nextProc) : TreeInv (k.linkChild p c) where
  linked b q halive hq := by
    rw [linkChild_deleted] at halive
    rw [linkChild_parent] at hq
    -- the new child, or one that was there before
    by_cases hbc : b = c
    · rw [if_pos hbc] at hq
      obtain rfl : p = q := Option.some.inj hq
      rw [hbc, linkChild_children_self]
      exact List.mem_append_right _ List.mem_cons_self
    · rw [if_neg hbc] at hq
      have hmem := h.linked b q halive hq
      by_cases hqp : q = p
      · subst hqp
        rw [linkChild_children_self]
        exact List.mem_append_left _ hmem
      · rw [linkChild_children_ne k c hqp]
        exact hmem
  older q b hb := by
    by_cases hqp : q = p
    · subst hqp
      rw [linkChild_children_self] at hb
      rcases List.mem_append.mp hb with hmem | hnew
      · exact h.older q b hmem
      · exact List.mem_singleton.mp hnew ▸ hpc
    · rw [linkChild_children_ne k c hqp] at hb
      exact h.older q b hb
  fresh q hq := by
    have hqp : q ≠ p := by
      rintro rfl
      exact absurd (Nat.lt_of_lt_of_le (Nat.lt_trans hpc hold) hq) (Nat.lt_irrefl _)
    rw [linkChild_children_ne k c hqp]
    exact h.fresh q hq

/-- A child of a process that is not deleted. -/
theorem NoOrphan.linkChild {k : Kernel} (h : NoOrphan k) {p : ProcId} (c : ProcId)
    (hp : (k.procs p).deleted = false) : NoOrphan (k.linkChild p c) := by
  intro b q halive hq
  rw [linkChild_deleted] at halive ⊢
  rw [linkChild_parent] at hq
  by_cases hbc : b = c
  · rw [if_pos hbc] at hq
    exact Option.some.inj hq ▸ hp
  · rw [if_neg hbc] at hq
    exact h b q halive hq

/-- What is alive after a process was deleted. -/
theorem bury_alive {k : Kernel} {p c q : ProcId} (h : ((k.bury p c).procs q).deleted = false) :
    (k.procs q).deleted = false ∧ q ≠ c := by
  have hnot : ¬ ((k.procs q).deleted = true ∨ c = q) := by
    rw [← bury_deleted k p c q, h]
    decide
  rw [not_or] at hnot
  exact ⟨Bool.eq_false_iff.mpr hnot.1, Ne.symm hnot.2⟩

/-- A process that is deleted has left its parent's list first. -/
theorem TreeInv.bury {k : Kernel} (h : TreeInv k) (p c : ProcId) : TreeInv (k.bury p c) where
  -- of the child lists only `p`'s changes, and only `c` leaves it
  linked b q halive hq := by
    rcases bury_alive halive with ⟨halive', hbc⟩
    rw [bury_parent] at hq
    have hmem := h.linked b q halive' hq
    rw [bury_children]
    split
    · exact (List.mem_erase_of_ne hbc).mpr hmem
    · exact hmem
  older q b hb := by
    rw [bury_children] at hb
    split at hb
    · exact h.older q b (List.mem_of_mem_erase hb)
    · exact h.older q b hb
  fresh q hq := by
    rw [bury_nextProc] at hq
    rw [bury_children, h.fresh q hq]
    split <;> rfl

/-- Deleting a process leaves no orphan exactly when it has no children. -/
theorem bury_noOrphan {k : Kernel} (hk : ProcInv k) (h : TreeInv k) (ho : NoOrphan k)
    (p c : ProcId) : NoOrphan (k.bury p c) ↔ (k.procs c).children = [] := by
  constructor
  · intro ho'
    -- a child that is left keeps its parent pointer
    by_contra hne
    rcases List.exists_mem_of_ne_nil _ hne with ⟨b, hb⟩
    have hchild := hk.child c b hb
    have hbc : b ≠ c := Nat.ne_of_gt (h.older c b hb)
    have halive : ((k.bury p c).procs b).deleted = false := by
      rw [Bool.eq_false_iff]
      intro hdel
      rcases (bury_deleted k p c b).mp hdel with hdel' | hcb
      · rw [hchild.alive] at hdel'
        cases hdel'
      · exact hbc hcb.symm
    have hparent := ho' b c halive ((bury_parent k p c b).trans hchild.parent)
    exact (bury_alive hparent).2 rfl
  · intro hnil b q halive hq
    rcases bury_alive halive with ⟨halive', hbc⟩
    rw [bury_parent] at hq
    have hmem := h.linked b q halive' hq
    -- nobody has the deleted process as its parent
    have hqc : q ≠ c := by
      rintro rfl
      rw [hnil] at hmem
      cases hmem
    rw [Bool.eq_false_iff]
    intro hdel
    rcases (bury_deleted k p c q).mp hdel with hdel' | hcq
    · rw [ho b q halive' hq] at hdel'
      cases hdel'
    · exact hqc hcq.symm

/-! ## One step -/

/-- The parent of the child that `fork` makes is still there. -/
theorem newProcess_parent {k k₁ : Kernel} (tree : SameTree k k₁) {p : ProcId}
    (hp : p < k.nextProc) (halive : (k.procs p).deleted = false) (pid : Nat) :
    ((k₁.newProcess pid).2.procs p).deleted = false := by
  rw [newProcess_ne k₁ pid (Nat.ne_of_lt (tree.nextProc ▸ hp)), tree.deleted]
  exact halive

/-- `TreeInv` is inductive. -/
theorem Effect.treeInv {k k' : Kernel} {r : Option ProcId} (hk : KernelInv k) (h : TreeInv k)
    (he : Effect k r k') : TreeInv k' := by
  have hnew : ∀ {k₁ : Kernel} (pid : Nat), SameTree k k₁ → TreeInv (k₁.newProcess pid).2 :=
    fun pid tree =>
      (h.congr tree.deleted tree.parent tree.children tree.nextProc).newProcess pid
  have hlink : ∀ {k₁ : Kernel} {t : Tid} {p : ProcId} (pid : Nat), SameTree k k₁ →
      k.caller = some (t, p) → TreeInv ((k₁.newProcess pid).2.linkChild p k.nextProc) := by
    intro k₁ t p pid tree call
    have hp := hk.tree.threadProcess t p (caller_eq call).2.1
    rw [← tree.nextProc] at hp ⊢
    exact (hnew pid tree).linkChild hp (Nat.lt_succ_self _)
  cases he with
  | same tree moves inv => exact h.congr tree.deleted tree.parent tree.children tree.nextProc
  | forgets running => exact h.congr (fun _ => rfl) (fun _ => rfl) (fun _ => rfl) rfl
  | blocks call child inv => exact h.congr (fun _ => rfl) (fun _ => rfl) (fun _ => rfl) rfl
  | clones call start =>
      rcases Option.map_eq_some_iff.mp start with ⟨s, -, rfl⟩
      exact h.congr (fun _ => rfl) (fun _ => rfl) (fun _ => rfl) rfl
  -- the failed fork has linked the child, or has not come so far
  | @stillborn k₁ t p pid linked call tree sched hpid =>
      cases linked with
      | false => exact (hnew pid tree).bury p _
      | true => exact (hlink pid tree call).bury p _
  | @forks k₁ k' t p pid stack call tree sched hpid start =>
      rcases Option.map_eq_some_iff.mp start with ⟨s, -, rfl⟩
      exact (hlink pid tree call).congr (fun _ => rfl) (fun _ => rfl) (fun _ => rfl) rfl
  | @reaps t p c call child =>
      have hset : TreeInv (k.setWaiting t none) :=
        h.congr (fun _ => rfl) (fun _ => rfl) (fun _ => rfl) rfl
      exact (hset.bury p c).congr (fun _ => rfl) (fun _ => rfl) (fun _ => rfl) rfl

/-- A step leaves no orphan exactly when the child it reaps has no children. -/
theorem Effect.noOrphan {k k' : Kernel} {r : Option ProcId} (hk : KernelInv k) (h : TreeInv k)
    (ho : NoOrphan k) (he : Effect k r k') :
    NoOrphan k' ↔ ∀ c, r = some c → (k.procs c).children = [] := by
  have hnone : ∀ {P : Prop}, P → (P ↔ ∀ c, (none : Option ProcId) = some c →
      (k.procs c).children = []) := by
    intro P hP
    refine iff_of_true hP ?_
    intro c hc
    cases hc
  cases he with
  | same tree moves inv => exact hnone (ho.congr tree.deleted tree.parent)
  | forgets running => exact hnone (ho.congr (fun _ => rfl) fun _ => rfl)
  | blocks call child inv => exact hnone (ho.congr (fun _ => rfl) fun _ => rfl)
  | clones call start =>
      rcases Option.map_eq_some_iff.mp start with ⟨s, -, rfl⟩
      exact hnone (ho.congr (fun _ => rfl) fun _ => rfl)
  | @stillborn k₁ t p pid linked call tree sched hpid =>
      rcases caller_eq call with ⟨-, hp, halive⟩
      have hold := hk.tree.threadProcess t p hp
      have hnew := (h.congr tree.deleted tree.parent tree.children tree.nextProc).newProcess pid
      have honew := (ho.congr tree.deleted tree.parent).newProcess pid
      have hleaf : ((k₁.newProcess pid).2.procs k.nextProc).children = [] := by
        rw [← tree.nextProc, newProcess_self]
      cases linked with
      | false =>
          have hkid := (hk.tree.of_same tree).newProcess pid
          exact hnone ((bury_noOrphan hkid hnew honew p _).mpr hleaf)
      | true =>
          have hkid := hk.tree.newChild tree (p := p) hpid
          have hlink : TreeInv ((k₁.newProcess pid).2.linkChild p k.nextProc) := by
            rw [← tree.nextProc] at hold ⊢
            exact hnew.linkChild hold (Nat.lt_succ_self _)
          have holink := honew.linkChild k.nextProc (newProcess_parent tree hold halive pid)
          refine hnone ((bury_noOrphan hkid hlink holink p _).mpr ?_)
          rw [linkChild_children_ne _ _ (Nat.ne_of_gt hold)]
          exact hleaf
  | @forks k₁ k' t p pid stack call tree sched hpid start =>
      rcases caller_eq call with ⟨-, hp, halive⟩
      have hold := hk.tree.threadProcess t p hp
      have honew := (ho.congr tree.deleted tree.parent).newProcess pid
      have holink := honew.linkChild k.nextProc (newProcess_parent tree hold halive pid)
      rcases Option.map_eq_some_iff.mp start with ⟨s, -, rfl⟩
      exact hnone (holink.congr (fun _ => rfl) fun _ => rfl)
  | @reaps t p c call child =>
      -- only here a process with children can be deleted
      have hset : TreeInv (k.setWaiting t none) :=
        h.congr (fun _ => rfl) (fun _ => rfl) (fun _ => rfl) rfl
      have hoset : NoOrphan (k.setWaiting t none) := ho.congr (fun _ => rfl) fun _ => rfl
      have hkset : ProcInv (k.setWaiting t none) := by
        apply hk.tree.setWaiting
        intro b hb
        cases hb
      have hiff := bury_noOrphan hkset hset hoset p c
      constructor
      · intro ho' b hb
        obtain rfl : c = b := Option.some.inj hb
        exact hiff.mp (ho'.congr (fun _ => rfl) fun _ => rfl)
      · intro hleaf
        exact (hiff.mpr (hleaf c rfl)).congr (fun _ => rfl) fun _ => rfl

/-! ## Runs -/

/-- Nobody has a parent after the boot. -/
theorem boot_tree {rootPa : Option ProcId → Nat} {idleStack reaperStack initStack : Nat}
    {load : Bool} {k : Kernel} (hboot : boot rootPa idleStack reaperStack initStack load = some k) :
    TreeInv k ∧ NoOrphan k := by
  -- at boot there is one process at most: no parent, no children
  have hstart : ∀ k : Kernel, (∀ p, (k.procs p).parent = none) → (∀ p, (k.procs p).children = []) →
      TreeInv k ∧ NoOrphan k := by
    intro k hparent hchildren
    refine ⟨⟨?_, ?_, fun p _ => hchildren p⟩, ?_⟩
    · intro c p _ hp
      rw [hparent] at hp
      cases hp
    · intro p c hc
      rw [hchildren] at hc
      cases hc
    · intro c p _ hp
      rw [hparent] at hp
      cases hp
  rcases Option.bind_eq_some_iff.mp hboot with ⟨s, -, hspawn⟩
  rcases spawn_eq s load initStack with ⟨k₁, pid, tree, -, heq⟩
  have hnew : ∀ p, ((k₁.newProcess pid).2.procs p).parent = none ∧
      ((k₁.newProcess pid).2.procs p).children = [] := by
    intro p
    by_cases hp : p = k₁.nextProc
    · rw [hp, newProcess_self]
      exact ⟨rfl, rfl⟩
    · rw [newProcess_ne k₁ pid hp, tree.parent, tree.children]
      exact ⟨rfl, rfl⟩
  rw [heq] at hspawn
  cases load with
  | true =>
      rw [if_pos rfl] at hspawn
      rcases Option.map_eq_some_iff.mp hspawn with ⟨s', -, rfl⟩
      exact hstart _ (fun p => (hnew p).1) fun p => (hnew p).2
  -- the load has failed, and the process is deleted again
  | false =>
      rw [if_neg Bool.false_ne_true] at hspawn
      obtain rfl := Option.some.inj hspawn
      obtain ⟨-, -, -, -, -, hdestroy⟩ := delete_frame (k₁.newProcess pid).2 0
      refine hstart ((k₁.newProcess pid).2.delete 0) ?_ ?_
      · intro p
        rw [hdestroy]
        exact (updProc_field Process.parent _ 0 rfl p).trans (hnew p).1
      · intro p
        rw [hdestroy]
        exact (updProc_field Process.children _ 0 rfl p).trans (hnew p).2

/-- On every run from the boot the process tree is sound throughout if and only
if no `sys_waitpid` reaps a process that still has children. -/
theorem treeSound_iff_reapsLeaf {rootPa : Option ProcId → Nat}
    {idleStack reaperStack initStack : Nat} {load : Bool} {k : Kernel}
    (hboot : boot rootPa idleStack reaperStack initStack load = some k) (ops : List KernelOp) :
    Always kernelStep TreeSound k ops ↔ StepsMeet kernelStep ReapsLeaf k ops := by
  rcases boot_tree hboot with ⟨htree, horphan⟩
  have hinv := (boot_inv hboot).1
  have hsound := (treeSound_iff_noOrphan hinv.tree htree).mpr horphan
  -- a step keeps the invariants, and the tree exactly when it meets the condition
  have hstep : ∀ k op k', KernelInv k ∧ TreeInv k → TreeSound k → kernelStep k op = some k' →
      (TreeSound k' ↔ ReapsLeaf k op) := by
    rintro k op k' ⟨hk, ht⟩ hs hstep
    have ho := (treeSound_iff_noOrphan hk.tree ht).mp hs
    have heffect := kernelStep_effect hk hstep
    have ht' := heffect.treeInv hk ht
    exact (treeSound_iff_noOrphan (hk.step hstep).tree ht').trans (heffect.noOrphan hk ht ho)
  refine always_iff_stepsMeet (B := fun k => KernelInv k ∧ TreeInv k) ?_ ?_ ?_ ops ⟨hinv, htree⟩
    hsound
  · rintro k op k' ⟨hk, ht⟩ hop
    exact ⟨hk.step hop, (kernelStep_effect hk hop).treeInv hk ht⟩
  · intro k op k' h hs hok hop
    exact (hstep k op k' h hs hop).mpr hok
  · intro k op k' h hs hok hop hs'
    exact hok ((hstep k op k' h hs hop).mp hs')

/-- The parent waits for a child that has no children of its own. -/
theorem fork_wait_treeSound :
    ∃ k, boot (fun _ => 0) 0x10000 0x20000 0x30000 true = some k ∧
      (run kernelStep k [.yield, .fork (.enough 0x40000), .waitpid (-1) 0, .exit 42,
        .resume]).map Kernel.reaped = some [1] ∧
      Always kernelStep TreeSound k [.yield, .fork (.enough 0x40000), .waitpid (-1) 0, .exit 42,
        .resume] := by
  rcases exists_start (o := boot (fun _ => 0) 0x10000 0x20000 0x30000 true)
    (P := fun k =>
      (run kernelStep k [.yield, .fork (.enough 0x40000), .waitpid (-1) 0, .exit 42,
        .resume]).map Kernel.reaped = some [1] ∧
      StepsMeet kernelStep ReapsLeaf k [.yield, .fork (.enough 0x40000), .waitpid (-1) 0, .exit 42,
        .resume])
    (by decide +kernel) with ⟨k, hboot, hreaped, hok⟩
  exact ⟨k, hboot, hreaped, (treeSound_iff_reapsLeaf hboot _).mpr hok⟩

/-- A child forks and exits, its parent reaps it: the grandchild, process 2, has
a parent that is deleted. -/
theorem grandchild_dangles :
    ∃ k k', boot (fun _ => 0) 0x10000 0x20000 0x30000 true = some k ∧
      run kernelStep k [.yield, .fork (.enough 0x40000), .waitpid (-1) 0, .fork (.enough 0x50000),
        .exit 42, .yield, .resume] = some k' ∧
      (k'.procs 2).deleted = false ∧ (k'.procs 2).parent = some 1 ∧
      (k'.procs 1).deleted = true ∧ ¬ TreeSound k' := by
  rcases exists_run kernelStep
    [.yield, .fork (.enough 0x40000), .waitpid (-1) 0, .fork (.enough 0x50000), .exit 42, .yield,
      .resume]
    (o := boot (fun _ => 0) 0x10000 0x20000 0x30000 true)
    (P := fun k' => (k'.procs 2).deleted = false ∧ (k'.procs 2).parent = some 1 ∧
      (k'.procs 1).deleted = true) (by decide +kernel)
    with ⟨k, k', hboot, hrun, halive, hparent, hdel⟩
  refine ⟨k, k', hboot, hrun, halive, hparent, hdel, ?_⟩
  intro hs
  -- the parent pointer of process 2 is to the deleted process 1
  have hthere := (hs.parent 2 1 halive hparent).1
  rw [hdel] at hthere
  cases hthere

end Ceryx.Proc
