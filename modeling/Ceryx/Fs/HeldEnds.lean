import Ceryx.Fs.FdMap

/-!
# Ceryx.Fs.HeldEnds — who keeps a pipe open

`PipeEnds` counts the live descriptions of a pipe's ends. Here nothing is live
that nobody can name: the descriptor tables and the calls that wait hold every
description, so that a pipe is at its end when, and only when, the last of them
has let go.

* `Kept`: every live description is referenced, but for those a call has in
  its local `RefPtr`s.
* One lemma for each operation says that it gives its locals back.
* `endsExact_always`: `Read` reports the end of the file, and `Write` fails
  with `EPIPE`, exactly when nobody holds the other end; nobody waits for an
  end that is not held.
-/

namespace Ceryx.Fs

open Lib Proc FileSys

variable {s s' : FileSys}

/-! ## The property -/

/-- A table slot or a call that waits holds a description of the end. -/
def FileSys.Holds (s : FileSys) (v : PipeId) (bit : BitVec 32) : Prop :=
  ∃ d, s.Referenced d ∧ hasEnd (s.descs d).vnode (s.descs d).flags v bit = true

/-- The end a call waits for. -/
def Request.otherEnd : Request → BitVec 32
  | .read _ => kPipeWrite
  | .write _ => kPipeRead

/-- The counts of a pipe are the numbers of its ends that somebody holds: end of file
and EPIPE mean that nobody does. -/
structure EndsExact (s : FileSys) : Prop where
  /-- No description is lost. -/
  named : ∀ d, Live s d ↔ s.Referenced d
  eof : ∀ p fd d v size, p < s.nextProc → getFd (s.tables p) fd = some d →
    (s.descs d).vnode = .pipe v → size ≠ 0 →
    ((s.sysIo p fd (.read size)).1 = .returns 0 ↔
      (s.pipes v).buffer.items = [] ∧ ¬ s.Holds v kPipeWrite)
  epipe : ∀ p fd d v src, p < s.nextProc → getFd (s.tables p) fd = some d →
    (s.descs d).vnode = .pipe v →
    ((s.sysIo p fd (.write src)).1 = .returns (-EPIPE) ↔ ¬ s.Holds v kPipeRead)
  waits : ∀ p fd d v request written, p < s.nextProc → getFd (s.tables p) fd = some d →
    (s.descs d).vnode = .pipe v → (s.sysIo p fd request).1 = .waits written →
    s.Holds v request.otherEnd
  /-- A call that is woken goes back to sleep only when somebody can wake it. -/
  stillWaits : ∀ i c v written, s.blocked[i]? = some c → (s.descs c.desc).vnode = .pipe v →
    (s.resume i c).1 = .waits written → s.Holds v c.request.otherEnd
  lateEof : ∀ i c v size, s.blocked[i]? = some c → (s.descs c.desc).vnode = .pipe v →
    c.request = .read size → size ≠ 0 →
    ((s.resume i c).1 = .returns 0 ↔
      (s.pipes v).buffer.items = [] ∧ ¬ s.Holds v kPipeWrite)

/-! ## References of a call in progress -/

/-- A live description is referenced, or one of the `locals` of a call. -/
def Kept (s : FileSys) (locals : List DescId) : Prop :=
  ∀ d, Live s d → s.Referenced d ∨ d ∈ locals

variable {locals locals' : List DescId}

/-- More local references keep more. -/
theorem Kept.mono (h : Kept s locals) (hsub : ∀ d, d ∈ locals → d ∈ locals') : Kept s locals' :=
  fun d hd => (h d hd).imp_right (hsub d)

/-- Between calls there are no locals. -/
theorem Kept.referenced (h : Kept s []) {d : DescId} (hd : Live s d) : s.Referenced d := by
  rcases h d hd with href | hnone
  · exact href
  · exact absurd hnone List.not_mem_nil

/-- The order of the held ones does not matter. -/
theorem Kept.swap {d e : DescId} (h : Kept s [d, e]) : Kept s [e, d] :=
  h.mono fun _ hf => (List.Perm.swap e d []).mem_iff.mp hf

/-- A step that keeps the descriptions and the references. -/
theorem Kept.of_same (h : Kept s locals) (hs : SameEnds s s')
    (hrefs : ∀ d, s.Referenced d → s'.Referenced d ∨ d ∈ locals) : Kept s' locals := by
  intro d hd
  have hlive : Live s d := by
    unfold Live at hd
    rw [hs.nextDesc, hs.destroyed] at hd
    exact hd
  rcases h d hlive with href | hlocal
  · exact hrefs d href
  · exact Or.inr hlocal

/-- A local `RefPtr` goes. -/
theorem settle_kept {d : DescId} (h : Kept s (d :: locals)) : Kept (s.settle d) locals := by
  unfold settle
  intro e he
  split at he
  · rename_i hor
    rw [if_pos hor]
    rcases h e he with href | hmem
    · exact Or.inl href
    · rcases List.mem_cons.mp hmem with rfl | hrest
      · -- it is live, so somebody else has a reference
        rcases hor with href | hgone
        · exact Or.inl href
        · rw [he.2] at hgone
          cases hgone
      · exact Or.inr hrest
  · rename_i hneither
    rw [if_neg hneither]
    have hne : e ≠ d := by
      rintro rfl
      have hgone := he.2
      rw [destroy_descs_self] at hgone
      cases hgone
    have hlive : Live s e := by
      unfold Live at he
      rw [destroy_descs_ne s hne, destroy_eq] at he
      exact he
    have href : ∀ f, s.Referenced f → (s.destroy d).Referenced f := by
      intro f hf
      rw [destroy_eq]
      exact hf
    rcases h e hlive with hold | hmem
    · exact Or.inl (href e hold)
    · rcases List.mem_cons.mp hmem with heq | hrest
      · exact absurd heq hne
      · exact Or.inr hrest

/-- A reference that leaves a slot is gone, or was the last one and its description with
it. -/
theorem settleSlot_kept {slot : Option DescId} (h : Kept s (slot.toList ++ locals)) :
    Kept (s.settleSlot slot) locals := by
  cases slot with
  | none => exact h
  | some d => exact settle_kept h

/-- A new description is held by the call that makes it. -/
theorem newDescription_kept (h : Kept s locals) (vnode : Vnode) (flags : BitVec 32) :
    Kept (s.newDescription vnode flags).2 (s.nextDesc :: locals) := by
  intro d hd
  by_cases hnew : d = s.nextDesc
  · exact Or.inr (hnew ▸ List.mem_cons_self)
  · have hlive : Live s d := by
      refine ⟨Nat.lt_of_le_of_ne (Nat.le_of_lt_succ hd.1) hnew, ?_⟩
      have hkept := hd.2
      rw [newDescription_descs_ne s vnode flags hnew] at hkept
      exact hkept
    rcases h d hlive with href | hlocal
    · refine Or.inl ?_
      unfold Referenced newDescription
      rw [openVnode_eq]
      exact href
    · exact Or.inr (List.mem_cons_of_mem _ hlocal)

/-! ## Tables -/

/-- Storing in a slot takes the reference of its old description only. -/
theorem mem_set_of_mem {table : FdTable} {d : DescId} (hd : some d ∈ table) (fd : Nat)
    (slot : Option DescId) : some d ∈ table.set fd slot ∨ getFd table fd = some d := by
  obtain ⟨i, hi⟩ := List.mem_iff_getElem?.mp hd
  by_cases hfd : fd = i
  · subst hfd
    refine Or.inr ?_
    unfold getFd
    rw [hi]
    rfl
  · refine Or.inl (List.mem_iff_getElem?.mpr ⟨i, ?_⟩)
    rw [List.getElem?_set_ne hfd]
    exact hi

/-- A new descriptor holds its description; the old ones hold theirs. -/
theorem allocateFdFrom_keeps {table table' : FdTable} {d : DescId} {grow : Nat → Bool}
    {n fd fd' : Nat} (h : allocateFdFrom table d grow n fd = .ok (fd', table')) :
    some d ∈ table' ∧ ∀ e, some e ∈ table → some e ∈ table' := by
  induction n generalizing fd with
  | zero => cases h
  | succ n ih =>
      unfold allocateFdFrom at h
      split at h
      · split at h
        · cases h
          exact ⟨List.mem_append_right _ List.mem_cons_self, fun e he => List.mem_append_left _ he⟩
        · cases h
      · rename_i hlt
        split at h
        · rename_i hfree
          cases h
          refine ⟨List.mem_set (Nat.lt_of_not_le hlt) _, fun e he => ?_⟩
          rcases mem_set_of_mem he _ (some d) with hkept | hold
          · exact hkept
          · -- the slot was empty
            rw [hold] at hfree
            cases hfree
        · exact ih h

/-- `AllocateFdAt` drops no description of the table. -/
theorem allocateFdAt_keeps {table table' : FdTable} {fd fd' : Nat} {d : DescId}
    {grow : Nat → Bool} (h : allocateFdAt table fd d grow = .ok (fd', table')) :
    ∀ e, some e ∈ table → some e ∈ table' ∨ getFd table fd = some e := by
  unfold allocateFdAt at h
  split at h
  · cases h
  · split at h
    · cases h
    · cases h
      intro e he
      have hin : some e ∈ resizeFor table fd := List.mem_append_left _ he
      have hor := mem_set_of_mem hin fd (some d)
      rw [getFd_resizeFor] at hor
      exact hor

/-- What a table had is in the new one, or is now local to the call. -/
theorem setTable_kept (h : Kept s locals) {p : ProcId} (hp : p < s.nextProc) {table : FdTable}
    (htable : ∀ d, some d ∈ s.tables p → some d ∈ table ∨ d ∈ locals')
    (hlocals : ∀ d, d ∈ locals → some d ∈ table ∨ d ∈ locals') :
    Kept (s.setTable p table) locals' := by
  have hnew : ∀ d, some d ∈ table → (s.setTable p table).Referenced d := by
    intro d hd
    refine Or.inl ⟨p, hp, ?_⟩
    show some d ∈ Function.update s.tables p table p
    rw [Function.update_self]
    exact hd
  intro d hd
  -- who refers to it: a table, a blocked call, or the running one
  rcases h d hd with (⟨q, hq, hmem⟩ | hblocked) | hlocal
  · by_cases hqp : q = p
    · subst hqp
      exact (htable d hmem).imp_left (hnew d)
    · refine Or.inl (Or.inl ⟨q, hq, ?_⟩)
      show some d ∈ Function.update s.tables p table q
      rw [Function.update_of_ne hqp]
      exact hmem
  · exact Or.inl (Or.inr hblocked)
  · exact (hlocals d hlocal).imp_left (hnew d)

/-- The call hands its reference to the table. -/
theorem allocateFd_kept {p : ProcId} {d : DescId} (h : Kept s (d :: locals)) (hp : p < s.nextProc)
    {grow : Nat → Bool} {fd : Nat} {table : FdTable}
    (halloc : allocateFd (s.tables p) d grow = .ok (fd, table)) :
    Kept (s.setTable p table) locals := by
  obtain ⟨hin, hold⟩ := allocateFdFrom_keeps halloc
  apply setTable_kept h hp (fun e he => Or.inl (hold e he))
  intro e he
  rcases List.mem_cons.mp he with rfl | hrest
  · exact Or.inl hin
  · exact Or.inr hrest

/-- `close` gives a reference back, and settles the description when it was the last. -/
theorem freeFd_kept (h : Kept s locals) {p : ProcId} (hp : p < s.nextProc) (fd : Nat) :
    Kept (s.freeFd p fd) locals := by
  unfold freeFd
  apply settleSlot_kept
  apply setTable_kept h hp
  · intro d hd
    rcases mem_set_of_mem hd fd none with hkept | hslot
    · exact Or.inl hkept
    · rw [hslot]
      exact Or.inr List.mem_cons_self
  · exact fun d hd => Or.inr (List.mem_append_right _ hd)

/-! ## The system calls -/

/-- `open` hands its own reference to the descriptor, or settles it. -/
theorem sysOpen_kept (h : Kept s []) {p : ProcId} (hp : p < s.nextProc) (flags : BitVec 32)
    (grow : Nat → Bool) : Kept (s.sysOpen p flags grow).2 [] := by
  have hnew := newDescription_kept h .other flags
  have hp' : p < (s.newDescription .other flags).2.nextProc := by
    rw [(newDescription_names s .other flags).1]
    exact hp
  unfold sysOpen
  dsimp only
  split
  · rename_i fd table halloc
    exact allocateFd_kept hnew hp' halloc
  · exact settle_kept hnew

/-- The calls, one by one: `dup`, -/
theorem sysDup_kept (h : Kept s []) {p : ProcId} (hp : p < s.nextProc) (fd : Nat)
    (grow : Nat → Bool) : Kept (s.sysDup p fd grow).2 [] := by
  unfold sysDup
  split
  · exact h
  · rename_i desc hfd
    split
    · rename_i newFd table halloc
      have hlocal : Kept s [desc] := h.mono fun d hd => absurd hd List.not_mem_nil
      exact allocateFd_kept hlocal hp halloc
    · exact h

/-- `dup2` and `dup3` let go of what was in the slot. -/
theorem installAt_kept (h : Kept s []) {p : ProcId} (hp : p < s.nextProc) {fd fd' : Nat}
    {desc : DescId} {grow : Nat → Bool} (hinstall : s.installAt p fd desc grow = .ok (fd', s')) :
    Kept s' [] := by
  unfold installAt at hinstall
  split at hinstall
  · rename_i newFd table halloc
    cases hinstall
    apply settleSlot_kept
    apply setTable_kept h hp
    · intro d hd
      rcases allocateFdAt_keeps halloc d hd with hkept | hslot
      · exact Or.inl hkept
      · rw [hslot]
        exact Or.inr List.mem_cons_self
    · exact fun d hd => absurd hd List.not_mem_nil
  · cases hinstall

/-- `dup2`, -/
theorem sysDup2_kept (h : Kept s []) {p : ProcId} (hp : p < s.nextProc) (oldFd newFd : Nat)
    (grow : Nat → Bool) : Kept (s.sysDup2 p oldFd newFd grow).2 [] := by
  unfold sysDup2
  split
  · exact h
  · split
    · exact h
    · split
      · rename_i fd s' hinstall
        exact installAt_kept h hp hinstall
      · exact h

/-- `F_DUPFD`, -/
theorem dupFdFrom_kept (h : Kept s []) {p : ProcId} (hp : p < s.nextProc) (desc : DescId)
    (grow : Nat → Bool) (n newFd : Nat) : Kept (s.dupFdFrom p desc grow n newFd).2 [] := by
  induction n generalizing newFd with
  | zero => exact h
  | succ n ih =>
      unfold dupFdFrom
      split
      · split
        · rename_i fd s' hinstall
          exact installAt_kept h hp hinstall
        · exact ih (newFd + 1)
      · exact ih (newFd + 1)

/-- `F_DUPFD` takes a descriptor from a number on; the other commands move no reference.
-/
theorem sysFcntl_kept (h : Kept s []) {p : ProcId} (hp : p < s.nextProc) (fd : Nat) (cmd : Int)
    (arg : BitVec 64) (grow : Nat → Bool) : Kept (s.sysFcntl p fd cmd arg grow).2 [] := by
  unfold sysFcntl
  split
  · exact h
  · rename_i desc hfd
    split
    · exact dupFdFrom_kept h hp desc grow _ _
    · split
      · exact h
      · split
        · exact h
        · split
          · exact h.of_same (SameEnds.setfl s desc _) fun d hd => Or.inl hd
          · exact h

/-- An allocation of `sys_pipe`: the table takes the reference, or the call
keeps it. -/
theorem tryAllocate_kept {p : ProcId} {d : DescId} (h : Kept s (d :: locals))
    (hp : p < s.nextProc) (grow : Nat → Bool) :
    Kept (s.tryAllocate p d grow).2 (d :: locals) ∧
      ∀ fd, (s.tryAllocate p d grow).1 = some fd → Kept (s.tryAllocate p d grow).2 locals := by
  unfold tryAllocate
  split
  · rename_i fd table halloc
    have hset := allocateFd_kept h hp halloc
    exact ⟨hset.mono fun e he => List.mem_cons_of_mem _ he, fun _ _ => hset⟩
  · exact ⟨h, fun _ hfd => by cases hfd⟩

/-- `FreeFd`, -/
theorem freeIf_kept (h : Kept s locals) {p : ProcId} (hp : p < s.nextProc) (fd : Option Nat) :
    Kept (s.freeIf p fd) locals := by
  cases fd with
  | none => exact h
  | some fd => exact freeFd_kept h hp fd

/-- The end of `sys_pipe` when an allocation has failed. -/
theorem undoPipe_kept {rd wr : DescId} (h : Kept s [rd, wr]) {p : ProcId} (hp : p < s.nextProc)
    (fd1 fd2 : Option Nat) : Kept ((((s.freeIf p fd1).freeIf p fd2).settle rd).settle wr) [] := by
  have hfree₁ := freeIf_kept h hp fd1
  have hp₁ : p < (s.freeIf p fd1).nextProc := by
    rw [(freeIf_names s p fd1).1]
    exact hp
  exact settle_kept (settle_kept (freeIf_kept hfree₁ hp₁ fd2))

/-- `pipe` has two references of its own until both descriptors are there. -/
theorem sysPipe_kept (h : Kept s []) {p : ProcId} (hp : p < s.nextProc)
    (grow₁ grow₂ : Nat → Bool) : Kept (s.sysPipe p grow₁ grow₂).2 [] := by
  -- the states after the pipe, the two descriptions and the two allocations
  let s₀ : FileSys := { s.setPipe s.nextPipe {} with nextPipe := s.nextPipe + 1 }
  have h₀ : Kept s₀ [] := h
  let s₁ := (s₀.newDescription (.pipe s.nextPipe) kPipeRead).2
  have h₁ : Kept s₁ [s₀.nextDesc] := newDescription_kept h₀ _ _
  let s₂ := (s₁.newDescription (.pipe s.nextPipe) kPipeWrite).2
  have h₂ : Kept s₂ [s₁.nextDesc, s₀.nextDesc] := newDescription_kept h₁ _ _
  have hp₂ : p < s₂.nextProc := by
    rw [(newDescription_names s₁ (.pipe s.nextPipe) kPipeWrite).1,
      (newDescription_names s₀ (.pipe s.nextPipe) kPipeRead).1]
    exact hp
  obtain ⟨hkept₃, hgiven₃⟩ := tryAllocate_kept h₂.swap hp₂ grow₁
  let s₃ := (s₂.tryAllocate p s₀.nextDesc grow₁).2
  have hp₃ : p < s₃.nextProc := by
    rw [(tryAllocate_names s₂ p s₀.nextDesc grow₁).1]
    exact hp₂
  obtain ⟨hkept₄, -⟩ := tryAllocate_kept hkept₃.swap hp₃ grow₂
  let s₄ := (s₃.tryAllocate p s₁.nextDesc grow₂).2
  have hp₄ : p < s₄.nextProc := by
    rw [(tryAllocate_names s₃ p s₁.nextDesc grow₂).1]
    exact hp₃
  dsimp only [sysPipe]
  split
  · -- the table has both references
    rename_i fd1 fd2 hfd1 hfd2
    exact (tryAllocate_kept (hgiven₃ fd1 hfd1) hp₃ grow₂).2 fd2 hfd2
  · exact undoPipe_kept hkept₄.swap hp₄ _ _

/-! ## Read and write -/

/-- Between two waits nobody's references change. -/
theorem Stretched.kept (h : Kept s locals) (hs : Stretched s s') : Kept s' locals := by
  apply h.of_same hs.ends
  intro d hd
  unfold Referenced
  rw [hs.tables, hs.nextProc, hs.blocked]
  exact Or.inl hd

/-- Other waiting calls. -/
theorem blocked_kept (h : Kept s []) {blocked : List BlockedCall}
    (hblocked : ∀ c ∈ s.blocked, (∃ c' ∈ blocked, c'.desc = c.desc) ∨ c.desc ∈ locals) :
    Kept { s with blocked := blocked } locals := by
  intro d hd
  rcases h.referenced hd with htable | ⟨c, hc, rfl⟩
  · exact Or.inl (Or.inl htable)
  · exact (hblocked c hc).imp_left Or.inr

/-- A call that waits holds its description itself, whatever happens to the descriptor.
-/
theorem sysIo_kept (h : Kept s []) (p : ProcId) (fd : Nat) (request : Request) :
    Kept (s.sysIo p fd request).2 [] := by
  unfold sysIo
  split
  · exact h
  · rename_i desc hfd
    have hstretch := stretch_spec s desc request none
    split
    · rename_i rax s' heq
      rw [heq] at hstretch
      exact Stretched.kept h hstretch
    · rename_i written s' heq
      rw [heq] at hstretch
      apply blocked_kept (Stretched.kept h hstretch)
      exact fun c hc => Or.inl ⟨c, List.mem_append_left _ hc, rfl⟩

/-- It lets go when it returns. -/
theorem resume_kept (h : Kept s []) {i : Nat} {c : BlockedCall} (hc : s.blocked[i]? = some c) :
    Kept (s.resume i c).2 [] := by
  have hstretch := stretch_spec s c.desc c.request (some c.written)
  unfold resume
  split
  · rename_i written s' heq
    rw [heq] at hstretch
    rw [← hstretch.blocked] at hc
    apply blocked_kept (Stretched.kept h hstretch)
    intro c' hc'
    refine Or.inl ?_
    obtain ⟨j, hj⟩ := List.mem_iff_getElem?.mp hc'
    by_cases hij : i = j
    · -- the call that goes on waiting keeps its description
      subst hij
      have hlt : i < s'.blocked.length := (List.getElem?_eq_some_iff.mp hj).1
      rw [hc] at hj
      cases hj
      exact ⟨_, List.mem_set hlt _, rfl⟩
    · refine ⟨c', List.mem_iff_getElem?.mpr ⟨j, ?_⟩, rfl⟩
      rw [List.getElem?_set_ne hij]
      exact hj
  · rename_i rax s' heq
    rw [heq] at hstretch
    rw [← hstretch.blocked] at hc
    apply settle_kept
    apply blocked_kept (Stretched.kept h hstretch)
    intro c' hc'
    obtain ⟨j, hj⟩ := List.mem_iff_getElem?.mp hc'
    by_cases hij : i = j
    · subst hij
      rw [hc] at hj
      cases hj
      exact Or.inr List.mem_cons_self
    · refine Or.inl ⟨c', List.mem_eraseIdx_iff_getElem?.mpr ⟨j, Ne.symm hij, hj⟩, rfl⟩

/-! ## Processes -/

/-- The slots that are reset are empty afterwards. -/
theorem freeFds_empty (p : ProcId) (fds : List Nat) (s : FileSys) {fd : Nat} {d : DescId}
    (h : getFd ((fds.foldl (fun s fd => s.freeFd p fd) s).tables p) fd = some d) :
    fd ∉ fds ∧ getFd (s.tables p) fd = some d := by
  induction fds generalizing s with
  | nil => exact ⟨List.not_mem_nil, h⟩
  | cons i fds ih =>
      obtain ⟨hrest, hold⟩ := ih (s.freeFd p i) h
      rw [freeFd_tables, Function.update_self, getFd_reset] at hold
      split at hold
      · cases hold
      · rename_i hne
        exact ⟨List.not_mem_cons_of_ne_of_not_mem hne hrest, hold⟩

/-- An exiting process closes its descriptors one by one. -/
theorem freeFds_kept (p : ProcId) (fds : List Nat) (h : Kept s []) (hp : p < s.nextProc) :
    Kept (fds.foldl (fun s fd => s.freeFd p fd) s) [] := by
  induction fds generalizing s with
  | nil => exact h
  | cons fd fds ih =>
      have hnext := (freeFd_names s p fd).1
      exact ih (freeFd_kept h hp fd) (by rw [hnext]; exact hp)

/-- `CloseAll`, -/
theorem closeAll_kept (h : Kept s []) {p : ProcId} (hp : p < s.nextProc) :
    Kept (s.closeAll p) [] := by
  unfold closeAll
  apply setTable_kept (freeFds_kept p _ h hp)
  · rw [(freeFds_frame p _ s).2]
    exact hp
  · -- every slot has been reset before `Clear`
    intro d hd
    obtain ⟨fd, hfd⟩ := List.mem_iff_getElem?.mp hd
    have hget : getFd (((List.range (s.tables p).length).foldl (fun s fd => s.freeFd p fd)
        s).tables p) fd = some d := by
      unfold getFd
      rw [hfd]
      rfl
    obtain ⟨hbeyond, hold⟩ := freeFds_empty p _ s hget
    have hle : (s.tables p).length ≤ fd := by
      rw [List.mem_range] at hbeyond
      exact Nat.le_of_not_lt hbeyond
    rw [getFd_beyond hle] at hold
    cases hold
  · exact fun d hd => absurd hd List.not_mem_nil

/-- a process that is deleted, -/
theorem deleteProcess_kept (h : Kept s []) {p : ProcId} (hp : p < s.nextProc) :
    Kept (s.deleteProcess p) [] := closeAll_kept h hp

/-- one that is made, -/
theorem newProcess_kept (h : Kept s []) (table : FdTable) : Kept (s.newProcess table) [] := by
  intro d hd
  rcases h.referenced hd with ⟨q, hq, hmem⟩ | hblocked
  · refine Or.inl (Or.inl ⟨q, Nat.lt_succ_of_lt hq, ?_⟩)
    show some d ∈ Function.update s.tables s.nextProc table q
    rw [Function.update_of_ne (Nat.ne_of_lt hq)]
    exact hmem
  · exact Or.inl (Or.inr hblocked)

/-- The child of a `fork` holds all that its parent holds. A fork that fails behind the
copy deletes the child, which lets go of it. -/
theorem fork_kept (h : Kept s []) (p : ProcId) (alloc : Kernel.ForkAlloc) :
    Kept (s.fork p alloc) [] := by
  cases alloc with
  | noAddressSpace => exact h
  | noProcess => exact h
  | noFdTable => exact deleteProcess_kept (newProcess_kept h []) (Nat.lt_succ_self _)
  | noThread => exact deleteProcess_kept (newProcess_kept h (s.tables p)) (Nat.lt_succ_self _)
  | enough _ => exact newProcess_kept h (s.tables p)

/-! ## The machine -/

/-- One step: every call gives its locals back. -/
theorem Kept.step {op : FileOp} (h : Kept s []) (hstep : fileStep s op = some s') : Kept s' [] := by
  -- a call is made by a process that exists
  have hcall : ∀ {p : ProcId} {t : FileSys}, (p < s.nextProc → Kept t []) →
      s.callBy p t = some s' → Kept s' [] := by
    intro p t ht hcall
    unfold callBy at hcall
    split at hcall
    · rename_i hguard
      cases hcall
      exact ht hguard.1
    · cases hcall
  cases op with
  | openFile p flags grow => exact hcall (fun hp => sysOpen_kept h hp flags grow) hstep
  | pipe p grow₁ grow₂ => exact hcall (fun hp => sysPipe_kept h hp grow₁ grow₂) hstep
  | dup p fd grow => exact hcall (fun hp => sysDup_kept h hp fd grow) hstep
  | dup2 p oldFd newFd grow => exact hcall (fun hp => sysDup2_kept h hp oldFd newFd grow) hstep
  | fcntl p fd cmd arg grow => exact hcall (fun hp => sysFcntl_kept h hp fd cmd arg grow) hstep
  | close p fd => exact hcall (fun hp => freeFd_kept h hp fd) hstep
  | read p fd size => exact hcall (fun _ => sysIo_kept h p fd (.read size)) hstep
  | write p fd src => exact hcall (fun _ => sysIo_kept h p fd (.write src)) hstep
  | resume i =>
      unfold fileStep at hstep
      dsimp only at hstep
      split at hstep
      · cases hstep
      · rename_i c hc
        exact hcall (fun _ => resume_kept h hc) hstep
  | fork p alloc => exact hcall (fun _ => fork_kept h p alloc) hstep
  | exit p => exact hcall (fun hp => closeAll_kept h hp) hstep
  | reap p => exact hcall (fun hp => deleteProcess_kept h hp) hstep

/-- and the boot, where there is no description. -/
theorem boot_kept : Kept FileSys.boot [] := fun d hd => absurd hd.1 (Nat.not_lt_zero d)

/-! ## What the counts say -/

/-- An end without live descriptions is one that nobody holds. -/
theorem liveEnds_eq_zero_iff (hinv : FileInv s) (hkept : Kept s []) (v : PipeId)
    (bit : BitVec 32) : s.liveEnds v bit = 0 ↔ ¬ s.Holds v bit := by
  unfold liveEnds
  rw [census_eq_zero]
  constructor
  · rintro hnone ⟨d, href, hend⟩
    obtain ⟨hlt, hlive⟩ := hinv.refs d href
    have hfalse := hnone d hlt
    rw [isEnd_eq, hlive, hend] at hfalse
    cases hfalse
  · intro hnobody d hlt
    rw [isEnd_eq]
    cases hgone : (s.descs d).destroyed with
    | true => rfl
    | false =>
        -- it is live, so it is referenced, and nobody holds an end of the pipe
        have href := hkept.referenced ⟨hlt, hgone⟩
        cases hend : hasEnd (s.descs d).vnode (s.descs d).flags v bit with
        | true => exact absurd ⟨d, href, hend⟩ hnobody
        | false => rfl

/-- A pipe has no writers exactly when nobody holds a write end. -/
theorem writers_eq_zero_iff (hinv : FileInv s) (hkept : Kept s []) (v : PipeId) :
    (s.pipes v).writers = 0 ↔ ¬ s.Holds v kPipeWrite := by
  rw [hinv.writers, Int.natCast_eq_zero]
  exact liveEnds_eq_zero_iff hinv hkept v kPipeWrite

/-- And no readers exactly when nobody holds a read end. -/
theorem readers_eq_zero_iff (hinv : FileInv s) (hkept : Kept s []) (v : PipeId) :
    (s.pipes v).readers = 0 ↔ ¬ s.Holds v kPipeRead := by
  rw [hinv.readers, Int.natCast_eq_zero]
  exact liveEnds_eq_zero_iff hinv hkept v kPipeRead

/-! ## What a stretch says -/

/-- A read goes to the pipe's read end. -/
theorem stretch_read {d : DescId} {v : PipeId} (hv : (s.descs d).vnode = .pipe v) (size : Nat)
    (after : Option Nat) : s.stretch d (.read size) after = s.readStretch d v size := by
  unfold stretch
  rw [hv]

/-- A read returns 0 when the pipe is empty and has no writers. -/
theorem readStretch_eof (d : DescId) (v : PipeId) {size : Nat} (hsize : size ≠ 0) :
    (s.readStretch d v size).1 = .returns 0 ↔
      (s.pipes v).buffer.items = [] ∧ (s.pipes v).writers = 0 := by
  unfold readStretch
  rcases Pipe.read_cases (s.pipes v) size with
    ⟨-, hw, heq⟩ | ⟨hempty, hw, heq⟩ | ⟨hne, heq⟩
  · rw [heq]
    exact ⟨fun h => (by cases h), fun h => absurd h.2 hw⟩
  · rw [heq]
    exact ⟨fun _ => ⟨hempty, hw⟩, fun _ => rfl⟩
  · rw [heq]
    refine ⟨fun h => ?_, fun h => absurd h.1 hne⟩
    have hlength : (((s.pipes v).buffer.popMany size).1.length : Int) = 0 := by
      injection h
    exact absurd (List.eq_nil_of_length_eq_zero (Int.natCast_eq_zero.mp hlength))
      (Fifo.popMany_ne_nil hsize hne)

/-- A read waits only while there is a writer. -/
theorem readStretch_waits {d : DescId} {v : PipeId} {size written : Nat}
    (h : (s.readStretch d v size).1 = .waits written) : (s.pipes v).writers ≠ 0 := by
  unfold readStretch at h
  rcases Pipe.read_cases (s.pipes v) size with ⟨-, hw, -⟩ | ⟨-, -, heq⟩ | ⟨-, heq⟩
  · exact hw
  · rw [heq] at h
    cases h
  · rw [heq] at h
    cases h

/-- A write returns EPIPE when there are no readers. -/
theorem writeStretch_epipe (d : DescId) (v : PipeId)
    (res : WriteOutcome × Pipe kDefaultCapacity) :
    (s.writeStretch d v res).1 = .returns (-EPIPE) ↔ res.1 = .returned .epipe := by
  obtain ⟨out, pipe⟩ := res
  unfold writeStretch
  rcases out with (n | _) | written
  · -- a number of bytes is not negative
    refine ⟨fun h => ?_, fun h => (by cases h)⟩
    have hneg : ((n : Nat) : Int) = -EPIPE := by injection h
    unfold EPIPE at hneg
    omega
  · exact ⟨fun _ => rfl, fun _ => rfl⟩
  · exact ⟨fun h => (by cases h), fun h => (by cases h)⟩

/-- A write waits where `Pipe::Write` does, -/
theorem writeStretch_waits {d : DescId} {v : PipeId} {written : Nat}
    {res : WriteOutcome × Pipe kDefaultCapacity}
    (h : (s.writeStretch d v res).1 = .waits written) : res.1 = .waits written := by
  obtain ⟨out, pipe⟩ := res
  unfold writeStretch at h
  rcases out with (n | _) | w
  · cases h
  · cases h
  · cases h
    rfl

namespace Pipe

variable {capacity : Nat}

/-- A write waits only while there are readers. -/
theorem writeLoop_waits (src : List UInt8) (n written : Nat) (p : Pipe capacity) {w : Nat}
    (h : (writeLoop src n written p).1 = .waits w) : p.readers ≠ 0 := by
  induction n generalizing written p with
  | zero => cases h
  | succ n ih =>
      unfold writeLoop at h
      split at h
      · cases h
      · split at h
        · dsimp only at h
          split at h
          · cases h
          · assumption
        · -- the turn keeps the ends
          exact ih _ { p with buffer := (pushLoop (src.drop written) written p.buffer).2 } h

/-- which fails if and only if there is no reader, -/
theorem write_epipe_iff (p : Pipe capacity) (src : List UInt8) :
    (p.write src).1 = .returned .epipe ↔ p.readers = 0 := by
  refine ⟨fun h => ?_, fun h => congrArg Prod.fst (write_broken src h)⟩
  obtain ⟨total, hw⟩ := p.write_spec src
  rcases hw.outcome with ⟨hout, -⟩ | ⟨-, hzero⟩ | ⟨hout, -⟩
  · rw [hout] at h
    cases h
  · exact hzero
  · rw [hout] at h
    cases h

/-- and waits only while there is one. -/
theorem write_waits (p : Pipe capacity) (src : List UInt8) {w : Nat}
    (h : (p.write src).1 = .waits w) : p.readers ≠ 0 := by
  intro hzero
  -- without a reader it fails before its loop
  rw [write_broken src hzero] at h
  cases h

end Pipe

/-- A call waits only while the pipe has the other end. -/
theorem stretch_waits (hinv : FileInv s) (hkept : Kept s []) {d : DescId} {v : PipeId}
    (hv : (s.descs d).vnode = .pipe v) {request : Request} {after : Option Nat} {written : Nat}
    (h : (s.stretch d request after).1 = .waits written) : s.Holds v request.otherEnd := by
  by_contra hnobody
  cases request with
  | read size =>
      rw [stretch_read hv] at h
      exact readStretch_waits h ((writers_eq_zero_iff hinv hkept v).mpr hnobody)
  | write src =>
      have hzero := (readers_eq_zero_iff hinv hkept v).mpr hnobody
      unfold stretch at h
      rw [hv] at h
      cases after with
      | none => exact Pipe.write_waits _ src (writeStretch_waits h) hzero
      | some done => exact Pipe.writeLoop_waits src _ done _ (writeStretch_waits h) hzero

/-- What the first stretch of a call comes to, -/
theorem sysIo_result {p : ProcId} {fd : Nat} {d : DescId} (hfd : getFd (s.tables p) fd = some d)
    (request : Request) : (s.sysIo p fd request).1 = (s.stretch d request none).1 := by
  unfold sysIo
  rw [hfd]
  dsimp only
  split <;> rename_i heq <;> rw [heq]

/-- and what a later one does. -/
theorem resume_result (i : Nat) (c : BlockedCall) :
    (s.resume i c).1 = (s.stretch c.desc c.request (some c.written)).1 := by
  unfold resume
  split <;> rename_i heq <;> rw [heq]

/-- The counts from the invariant of the ends, the holders from the one above. -/
theorem endsExact_of_kept (hinv : FileInv s) (hkept : Kept s []) : EndsExact s where
  named d := ⟨hkept.referenced, hinv.refs d⟩
  -- end of file is read off the writer count, which is zero when no description is left
  eof p fd d v size _ hfd hv hsize := by
    rw [sysIo_result hfd, stretch_read hv, readStretch_eof d v hsize,
      writers_eq_zero_iff hinv hkept]
  epipe p fd d v src _ hfd hv := by
    rw [sysIo_result hfd, ← readers_eq_zero_iff hinv hkept, ← Pipe.write_epipe_iff _ src,
      ← writeStretch_epipe (s := s) d v]
    unfold stretch
    rw [hv]
  waits p fd d v request written _ hfd hv hwaits := by
    rw [sysIo_result hfd] at hwaits
    exact stretch_waits hinv hkept hv hwaits
  stillWaits i c v written _ hv hwaits := by
    rw [resume_result] at hwaits
    exact stretch_waits hinv hkept hv hwaits
  lateEof i c v size _ hv hrequest hsize := by
    rw [resume_result, hrequest, stretch_read hv, readStretch_eof c.desc v hsize,
      writers_eq_zero_iff hinv hkept]

/-- The end of the file, the broken pipe and the waiting calls, in every state
of every run. -/
theorem endsExact_always (ops : List FileOp) : Always fileStep EndsExact FileSys.boot ops := by
  have hrun : Always fileStep (fun s => FileInv s ∧ Kept s []) FileSys.boot ops := by
    refine always_of_inv (fun s op s' h hstep => ?_) ops ⟨boot_inv, boot_kept⟩
    exact ⟨h.1.step hstep, h.2.step hstep⟩
  exact Always.mono (fun _ h => endsExact_of_kept h.1 h.2) hrun

end Ceryx.Fs
