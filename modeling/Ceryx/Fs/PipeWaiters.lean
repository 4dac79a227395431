import Mathlib.Data.Int.Order.Basic
import Ceryx.Fs.PipeBytes

/-!
# Ceryx.Fs.PipeWaiters — who waits on a pipe

The condition variables `m_can_read` and `m_can_write` of `Pipe`, on top of the
calls of `Ceryx.Fs.PipeBytes`. `Wait` puts the call among the waiters in the
step in which it sleeps, `NotifyAll` takes all of them off. A call that is
notified goes on at some later step; one that is not may also go on, as
`ConditionVariable` does not exclude it.

* `PipeSync`: the run of the pipe with the two lists of waiters not yet
  notified. Without the lists its steps are those of `pipeStep`
  (`syncStep_pipeStep`).
* `NoStuck`: a waiting reader that is not notified has nothing to read and a
  writer to wait for, a writer that is not notified has no room and a reader.
* `noStuck_always`: this holds in every state of every run.
-/

namespace Ceryx.Fs

open Lib

variable {capacity : Nat}

/-! ## Write with its notifications -/

namespace Pipe

/-- `writeLoop` with the waiters of `m_can_read`, which a turn notifies when
something has been written. -/
def writeLoopSync (src : List UInt8) :
    Nat → Nat → Pipe capacity → List Nat → (WriteOutcome × Pipe capacity) × List Nat
  | 0, written, p, canRead => ((.returned (.bytes written), p), canRead)
  | n + 1, written, p, canRead =>
      if src.length ≤ written then ((.returned (.bytes written), p), canRead)
      else if capacity ≤ p.buffer.items.length then
        ((if p.readers = 0 then .returned .epipe else .waits written, p), canRead)
      else
        let (written, buffer) := pushLoop (src.drop written) written p.buffer
        writeLoopSync src n written { p with buffer := buffer }
          (if 0 < written then [] else canRead)

/-- `Pipe::Write` from its start. -/
def writeSync (p : Pipe capacity) (src : List UInt8) (canRead : List Nat) :
    (WriteOutcome × Pipe capacity) × List Nat :=
  if p.readers = 0 then ((.returned .epipe, p), canRead)
  else writeLoopSync src src.length 0 p canRead

/-- `Pipe::Write` after a wait. -/
def rewriteSync (p : Pipe capacity) (src : List UInt8) (written : Nat) (canRead : List Nat) :
    (WriteOutcome × Pipe capacity) × List Nat :=
  writeLoopSync src (src.length - written) written p canRead

/-- The notifications change nothing else. -/
theorem writeLoopSync_fst (src : List UInt8) (n written : Nat) (p : Pipe capacity)
    (canRead : List Nat) : (writeLoopSync src n written p canRead).1 = writeLoop src n written p := by
  induction n generalizing written p canRead with
  | zero => rfl
  | succ n ih =>
      unfold writeLoopSync writeLoop
      split
      · rfl
      · split
        · rfl
        · exact ih _ _ _

theorem writeSync_fst (p : Pipe capacity) (src : List UInt8) (canRead : List Nat) :
    (p.writeSync src canRead).1 = p.write src := by
  unfold writeSync write
  split
  · rfl
  · exact writeLoopSync_fst src _ 0 p canRead

/-- What a stretch of `Write` does to the two conditions: it leaves the buffer
and the waiting readers alone or notifies them all, and waits itself only at a
full buffer with a reader. -/
structure WroteSync (p : Pipe capacity) (canRead : List Nat)
    (res : (WriteOutcome × Pipe capacity) × List Nat) : Prop where
  notifies : res.2 = [] ∨ res.1.2.buffer = p.buffer ∧ res.2 = canRead
  /-- A full buffer stays full. -/
  full : p.buffer.items.length = capacity → res.1.2.buffer = p.buffer
  waits : ∀ written, res.1.1 = .waits written →
    res.1.2.buffer.items.length = capacity ∧ p.readers ≠ 0
  readers : res.1.2.readers = p.readers
  writers : res.1.2.writers = p.writers

theorem writeLoopSync_spec (src : List UInt8) (n written : Nat) (p : Pipe capacity)
    (canRead : List Nat) : WroteSync p canRead (writeLoopSync src n written p canRead) := by
  induction n generalizing written p canRead with
  | zero => exact ⟨Or.inr ⟨rfl, rfl⟩, fun _ => rfl, nofun, rfl, rfl⟩
  | succ n ih =>
      unfold writeLoopSync
      split
      · -- nothing is left to write
        exact ⟨Or.inr ⟨rfl, rfl⟩, fun _ => rfl, nofun, rfl, rfl⟩
      · split
        · -- the buffer is full: without readers the call fails, with one it waits
          rename_i hfull
          refine ⟨Or.inr ⟨rfl, rfl⟩, fun _ => rfl, fun w hw => ?_, rfl, rfl⟩
          refine ⟨Nat.le_antisymm p.buffer.fits hfull, fun hzero => ?_⟩
          dsimp only at hw
          rw [if_pos hzero] at hw
          cases hw
        · -- a byte is pushed, and whoever waits for it is notified
          rename_i hleft hroom
          rw [pushLoop_eq]
          dsimp only
          have hpos : 0 < (p.buffer.pushMany (src.drop written)).1 := by
            apply Fifo.pushMany_pos
            · apply List.ne_nil_of_length_pos
              rw [List.length_drop]
              omega
            · exact Nat.lt_of_not_le hroom
          rw [if_pos (by omega)]
          have hrest := ih (written + (p.buffer.pushMany (src.drop written)).1)
            { p with buffer := (p.buffer.pushMany (src.drop written)).2 } []
          constructor
          · left
            rcases hrest.notifies with hnil | ⟨-, hnil⟩
            · exact hnil
            · exact hnil
          · intro hfull
            exact absurd (Nat.le_of_eq hfull.symm) hroom
          · exact hrest.waits
          · exact hrest.readers
          · exact hrest.writers

theorem writeSync_spec (p : Pipe capacity) (src : List UInt8) (canRead : List Nat) :
    WroteSync p canRead (p.writeSync src canRead) := by
  unfold writeSync
  split
  · exact ⟨Or.inr ⟨rfl, rfl⟩, fun _ => rfl, nofun, rfl, rfl⟩
  · exact writeLoopSync_spec src _ 0 p canRead

end Pipe

/-! ## The waiters -/

/-- The calls on a pipe with the waiters that have not been notified. -/
structure PipeSync (capacity : Nat) extends PipeRun capacity where
  canRead : List Nat := []
  canWrite : List Nat := []

namespace PipeSync

/-- Call `i` goes on: it is no waiter any more. -/
def awake (s : PipeSync capacity) (i : Nat) : PipeSync capacity :=
  { s with
    canRead := s.canRead.filter fun j => j ≠ i
    canWrite := s.canWrite.filter fun j => j ≠ i }

def newCall (s : PipeSync capacity) : PipeSync capacity :=
  { s with toPipeRun := s.toPipeRun.newCall }

/-- A stretch of the `Read` of call `i`: it waits, or notifies the writers when
it has taken something. -/
def readTurn (s : PipeSync capacity) (i size : Nat) : PipeSync capacity :=
  let run := s.toPipeRun.readTurn i size
  match s.pipe.read size with
  | none => { s with toPipeRun := run, canRead := s.canRead ++ [i] }
  | some (n, _, _) => { s with toPipeRun := run, canWrite := if 0 < n then [] else s.canWrite }

/-- A stretch of the `Write` of call `i`, with its outcome. -/
def writeTurn (s : PipeSync capacity) (i : Nat) (src : List UInt8)
    (res : (WriteOutcome × Pipe capacity) × List Nat) : PipeSync capacity :=
  { toPipeRun := s.toPipeRun.writeTurn i src res.1
    canRead := res.2
    canWrite :=
      match res.1.1 with
      | .waits _ => s.canWrite ++ [i]
      | .returned _ => s.canWrite }

/-- `DecrementReaders`. -/
def closeReader (s : PipeSync capacity) : PipeSync capacity :=
  let pipe := s.pipe.decrementReaders
  { s with pipe := pipe, canWrite := if pipe.readers = 0 then [] else s.canWrite }

/-- `DecrementWriters`. -/
def closeWriter (s : PipeSync capacity) : PipeSync capacity :=
  let pipe := s.pipe.decrementWriters
  { s with pipe := pipe, canRead := if pipe.writers = 0 then [] else s.canRead }

end PipeSync

/-- One step. An end is closed by a description that has it open. -/
def syncStep (s : PipeSync capacity) : PipeOp → Option (PipeSync capacity)
  | .read size => some (s.newCall.readTurn s.nextCall size)
  | .write src => some (s.newCall.writeTurn s.nextCall src (s.pipe.writeSync src s.canRead))
  | .resume i =>
      match s.calls i with
      | some ⟨.read size, .waiting _⟩ => some ((s.awake i).readTurn i size)
      | some ⟨.write src, .waiting written⟩ =>
          some ((s.awake i).writeTurn i src
            (s.pipe.rewriteSync src written (s.awake i).canRead))
      | _ => none
  | .openReader => some { s with pipe := s.pipe.incrementReaders }
  | .closeReader => if 0 < s.pipe.readers then some s.closeReader else none
  | .openWriter => some { s with pipe := s.pipe.incrementWriters }
  | .closeWriter => if 0 < s.pipe.writers then some s.closeWriter else none

theorem readTurn_run (s : PipeSync capacity) (i size : Nat) :
    (s.readTurn i size).toPipeRun = s.toPipeRun.readTurn i size := by
  unfold PipeSync.readTurn
  dsimp only
  split <;> rfl

/-- Without the waiters a step is one of `pipeStep`. -/
theorem syncStep_pipeStep {s s' : PipeSync capacity} {op : PipeOp}
    (hstep : syncStep s op = some s') : pipeStep s.toPipeRun op = some s'.toPipeRun := by
  cases op with
  | read size =>
      cases hstep
      exact congrArg some (readTurn_run s.newCall s.nextCall size).symm
  | write src =>
      cases hstep
      unfold pipeStep PipeSync.writeTurn
      rw [Pipe.writeSync_fst]
      rfl
  | resume i =>
      simp only [syncStep] at hstep
      split at hstep
      · rename_i size _ hcall
        cases hstep
        simp only [pipeStep, hcall]
        -- waking up changes the waiters only
        exact congrArg some (readTurn_run (s.awake i) i size).symm
      · rename_i src written hcall
        cases hstep
        simp only [pipeStep, hcall]
        unfold PipeSync.writeTurn Pipe.rewriteSync
        rw [Pipe.writeLoopSync_fst]
        rfl
      · cases hstep
  | openReader => cases hstep; rfl
  | openWriter => cases hstep; rfl
  | closeReader =>
      simp only [syncStep, Option.ite_none_right_eq_some] at hstep
      cases hstep.2
      rfl
  | closeWriter =>
      simp only [syncStep, Option.ite_none_right_eq_some] at hstep
      cases hstep.2
      rfl

/-! ## The property -/

/-- A waiter that has not been notified has to wait. -/
structure NoStuck (s : PipeSync capacity) : Prop where
  reader : ∀ i, i ∈ s.canRead → s.pipe.buffer.items = [] ∧ 0 < s.pipe.writers
  writer : ∀ i, i ∈ s.canWrite → s.pipe.buffer.items.length = capacity ∧ 0 < s.pipe.readers

/-- The calls on the lists are in the wait they are listed for, and the counts
of the ends are not negative. -/
structure SyncInv (s : PipeSync capacity) : Prop extends NoStuck s where
  readerWaits : ∀ i, i ∈ s.canRead → ∃ size written, s.calls i = some ⟨.read size, .waiting written⟩
  writerWaits : ∀ i, i ∈ s.canWrite → ∃ src written, s.calls i = some ⟨.write src, .waiting written⟩
  old : ∀ i, s.nextCall ≤ i → s.calls i = none
  readers : 0 ≤ s.pipe.readers
  writers : 0 ≤ s.pipe.writers

namespace SyncInv

variable {s s' : PipeSync capacity}

/-- The calls after a stretch of call `i`, given what became of the lists. -/
theorem turn (h : SyncInv s) {i : Nat} (hi : i < s.nextCall) (c : Call)
    (hcalls : s'.calls = Function.update s.calls i (some c)) (hnext : s'.nextCall = s.nextCall)
    (hread : ∀ j, j ∈ s'.canRead → j ∈ s.canRead ∧ j ≠ i ∨
      j = i ∧ ∃ size written, c = ⟨.read size, .waiting written⟩)
    (hwrite : ∀ j, j ∈ s'.canWrite → j ∈ s.canWrite ∧ j ≠ i ∨
      j = i ∧ ∃ src written, c = ⟨.write src, .waiting written⟩)
    (hreaders : s'.pipe.readers = s.pipe.readers) (hwriters : s'.pipe.writers = s.pipe.writers)
    (hstuck : NoStuck s') : SyncInv s' where
  toNoStuck := hstuck
  readerWaits j hj := by
    rw [hcalls]
    -- a queued reader waited before, or is the call of this turn
    rcases hread j hj with ⟨hmem, hne⟩ | ⟨rfl, size, written, rfl⟩
    · rw [Function.update_of_ne hne]
      exact h.readerWaits j hmem
    · exact ⟨size, written, Function.update_self _ _ _⟩
  writerWaits j hj := by
    rw [hcalls]
    rcases hwrite j hj with ⟨hmem, hne⟩ | ⟨rfl, src, written, rfl⟩
    · rw [Function.update_of_ne hne]
      exact h.writerWaits j hmem
    · exact ⟨src, written, Function.update_self _ _ _⟩
  old j hj := by
    rw [hnext] at hj
    rw [hcalls, Function.update_of_ne (Nat.ne_of_gt (Nat.lt_of_lt_of_le hi hj))]
    exact h.old j hj
  readers := hreaders ▸ h.readers
  writers := hwriters ▸ h.writers

theorem mem_other {l : List Nat} {i j : Nat} (hi : i ∉ l) (hj : j ∈ l) : j ∈ l ∧ j ≠ i :=
  ⟨hj, ne_of_mem_of_not_mem hj hi⟩

theorem readTurn (h : SyncInv s) {i : Nat} (hi : i < s.nextCall) (hr : i ∉ s.canRead)
    (hw : i ∉ s.canWrite) (size : Nat) : SyncInv (s.readTurn i size) := by
  unfold PipeSync.readTurn PipeRun.readTurn
  rcases Pipe.read_cases s.pipe size with ⟨hempty, hwriters, heq⟩ | ⟨-, -, heq⟩ | ⟨hitems, heq⟩
  · -- it waits, at an empty buffer with a writer
    simp only [heq]
    refine h.turn hi ⟨.read size, .waiting 0⟩ rfl rfl (fun j hj => ?_)
      (fun j hj => Or.inl (mem_other hw hj)) rfl rfl ⟨fun _ _ => ?_, h.writer⟩
    · rcases List.mem_append.mp hj with hold | hnew
      · exact Or.inl (mem_other hr hold)
      · exact Or.inr ⟨List.mem_singleton.mp hnew, size, 0, rfl⟩
    · exact ⟨hempty, lt_of_le_of_ne h.writers (Ne.symm hwriters)⟩
  · -- the end of the file
    simp only [heq]
    exact h.turn hi ⟨.read size, .readReturned 0⟩ rfl rfl (fun j hj => Or.inl (mem_other hr hj))
      (fun j hj => Or.inl (mem_other hw hj)) rfl rfl ⟨h.reader, h.writer⟩
  · -- nobody waits to read while the buffer has something in it
    have hnone : s.canRead = [] := by
      apply List.eq_nil_iff_forall_not_mem.mpr
      intro j hj
      exact hitems (h.reader j hj).1
    simp only [heq]
    refine h.turn hi ⟨.read size, .readReturned _⟩ rfl rfl (fun j hj => Or.inl (mem_other hr hj))
      (fun j hj => ?_) rfl rfl ⟨fun j hj => ?_, fun j hj => ?_⟩
    · split at hj
      · cases hj
      · exact Or.inl (mem_other hw hj)
    · rw [hnone] at hj
      cases hj
    · split at hj
      · cases hj
      · -- nothing was taken: the buffer is as it was
        rename_i hzero
        have hnil := List.eq_nil_of_length_eq_zero (Nat.eq_zero_of_not_pos hzero)
        have hkept := Fifo.popMany_items size s.pipe.buffer
        rw [hnil, List.nil_append] at hkept
        dsimp only
        rw [hkept]
        exact h.writer j hj

theorem writeTurn (h : SyncInv s) {i : Nat} (hi : i < s.nextCall) (hr : i ∉ s.canRead)
    (hw : i ∉ s.canWrite) (src : List UInt8) {res : (WriteOutcome × Pipe capacity) × List Nat}
    (hwrote : Pipe.WroteSync s.pipe s.canRead res) : SyncInv (s.writeTurn i src res) := by
  refine h.turn hi ⟨.write src, PipeRun.writeProgress res.1.1⟩ rfl rfl (fun j hj => ?_)
    (fun j hj => ?_) hwrote.readers hwrote.writers ⟨fun j hj => ?_, fun j hj => ?_⟩
  · have hmem : j ∈ res.2 := hj
    rcases hwrote.notifies with hnil | ⟨-, hsame⟩
    · rw [hnil] at hmem
      cases hmem
    · rw [hsame] at hmem
      exact Or.inl (mem_other hr hmem)
  · unfold PipeSync.writeTurn at hj
    dsimp only at hj
    split at hj
    · rename_i written hwaits
      rcases List.mem_append.mp hj with hold | hnew
      · exact Or.inl (mem_other hw hold)
      · refine Or.inr ⟨List.mem_singleton.mp hnew, src, written, ?_⟩
        rw [hwaits]
        rfl
    · exact Or.inl (mem_other hw hj)
  · -- a reader that is still not notified sees the buffer as it was
    have hmem : j ∈ res.2 := hj
    show res.1.2.buffer.items = [] ∧ 0 < res.1.2.writers
    rcases hwrote.notifies with hnil | ⟨hbuffer, hsame⟩
    · rw [hnil] at hmem
      cases hmem
    · rw [hsame] at hmem
      rw [hbuffer, hwrote.writers]
      exact h.reader j hmem
  · show res.1.2.buffer.items.length = capacity ∧ 0 < res.1.2.readers
    rw [hwrote.readers]
    unfold PipeSync.writeTurn at hj
    dsimp only at hj
    have hold : j ∈ s.canWrite → res.1.2.buffer.items.length = capacity ∧ 0 < s.pipe.readers := by
      intro hmem
      rcases h.writer j hmem with ⟨hfull, hreaders⟩
      rw [hwrote.full hfull]
      exact ⟨hfull, hreaders⟩
    split at hj
    · rename_i written hwaits
      rcases List.mem_append.mp hj with hmem | -
      · exact hold hmem
      · -- the call that waits now
        rcases hwrote.waits written hwaits with ⟨hfull, hne⟩
        exact ⟨hfull, lt_of_le_of_ne h.readers (Ne.symm hne)⟩
    · exact hold hj

/-- A call that goes on. -/
theorem awake (h : SyncInv s) (i : Nat) :
    SyncInv (s.awake i) ∧ i ∉ (s.awake i).canRead ∧ i ∉ (s.awake i).canWrite := by
  have hmem : ∀ {l : List Nat} {j : Nat}, j ∈ l.filter (fun j => j ≠ i) → j ∈ l :=
    fun hj => (List.mem_filter.mp hj).1
  have hgone : ∀ l : List Nat, i ∉ l.filter fun j => j ≠ i := by
    intro l hi
    exact of_decide_eq_true (List.mem_filter.mp hi).2 rfl
  refine ⟨⟨⟨?_, ?_⟩, ?_, ?_, h.old, h.readers, h.writers⟩, hgone _, hgone _⟩
  · exact fun j hj => h.reader j (hmem hj)
  · exact fun j hj => h.writer j (hmem hj)
  · exact fun j hj => h.readerWaits j (hmem hj)
  · exact fun j hj => h.writerWaits j (hmem hj)

/-- A new call is on no list. -/
theorem newCall (h : SyncInv s) :
    SyncInv s.newCall ∧ s.nextCall ∉ s.newCall.canRead ∧ s.nextCall ∉ s.newCall.canWrite := by
  have hnone := h.old s.nextCall (Nat.le_refl _)
  refine ⟨⟨⟨h.reader, h.writer⟩, h.readerWaits, h.writerWaits,
    fun j hj => h.old j (Nat.le_of_succ_le hj), h.readers, h.writers⟩, fun hmem => ?_, fun hmem => ?_⟩
  · rcases h.readerWaits _ hmem with ⟨size, written, hcall⟩
    rw [hnone] at hcall
    cases hcall
  · rcases h.writerWaits _ hmem with ⟨src, written, hcall⟩
    rw [hnone] at hcall
    cases hcall

theorem step (h : SyncInv s) {op : PipeOp} (hstep : syncStep s op = some s') : SyncInv s' := by
  cases op with
  | read size =>
      cases hstep
      rcases h.newCall with ⟨hnew, hr, hw⟩
      exact hnew.readTurn (Nat.lt_succ_self _) hr hw size
  | write src =>
      cases hstep
      rcases h.newCall with ⟨hnew, hr, hw⟩
      exact hnew.writeTurn (Nat.lt_succ_self _) hr hw src
        (Pipe.writeSync_spec s.pipe src s.canRead)
  | resume i =>
      rcases h.awake i with ⟨hawake, hr, hw⟩
      have hlt : ∀ {c : Call}, s.calls i = some c → i < s.nextCall := by
        intro c hc
        by_contra hge
        rw [h.old i (Nat.le_of_not_lt hge)] at hc
        cases hc
      simp only [syncStep] at hstep
      split at hstep
      · rename_i size _ hcall
        cases hstep
        exact hawake.readTurn (hlt hcall) hr hw size
      · rename_i src written hcall
        cases hstep
        exact hawake.writeTurn (hlt hcall) hr hw src
          (Pipe.writeLoopSync_spec src _ written s.pipe _)
      · cases hstep
  | openReader =>
      cases hstep
      refine ⟨⟨h.reader, fun j hj => ?_⟩, h.readerWaits, h.writerWaits, h.old, ?_, h.writers⟩
      · rcases h.writer j hj with ⟨hfull, hpos⟩
        exact ⟨hfull, Int.lt_add_one_of_le (Int.le_of_lt hpos)⟩
      · exact Int.le_of_lt (Int.lt_add_one_of_le h.readers)
  | openWriter =>
      cases hstep
      refine ⟨⟨fun j hj => ?_, h.writer⟩, h.readerWaits, h.writerWaits, h.old, h.readers, ?_⟩
      · rcases h.reader j hj with ⟨hempty, hpos⟩
        exact ⟨hempty, Int.lt_add_one_of_le (Int.le_of_lt hpos)⟩
      · exact Int.le_of_lt (Int.lt_add_one_of_le h.writers)
  | closeReader =>
      simp only [syncStep, Option.ite_none_right_eq_some, Option.some.injEq] at hstep
      rcases hstep with ⟨hpos, rfl⟩
      have hnonneg : 0 ≤ s.pipe.readers - 1 := Int.le_sub_one_of_lt hpos
      refine ⟨⟨h.reader, fun j hj => ?_⟩, h.readerWaits, fun j hj => ?_, h.old, hnonneg, h.writers⟩
      · -- the last reader notifies the writers
        unfold PipeSync.closeReader at hj
        dsimp only at hj
        split at hj
        · cases hj
        · rename_i hne
          exact ⟨(h.writer j hj).1, lt_of_le_of_ne hnonneg (Ne.symm hne)⟩
      · unfold PipeSync.closeReader at hj
        dsimp only at hj
        split at hj
        · cases hj
        · exact h.writerWaits j hj
  | closeWriter =>
      simp only [syncStep, Option.ite_none_right_eq_some, Option.some.injEq] at hstep
      rcases hstep with ⟨hpos, rfl⟩
      have hnonneg : 0 ≤ s.pipe.writers - 1 := Int.le_sub_one_of_lt hpos
      refine ⟨⟨fun j hj => ?_, h.writer⟩, fun j hj => ?_, h.writerWaits, h.old, h.readers, hnonneg⟩
      · -- the last writer notifies the readers
        unfold PipeSync.closeWriter at hj
        dsimp only at hj
        split at hj
        · cases hj
        · rename_i hne
          exact ⟨(h.reader j hj).1, lt_of_le_of_ne hnonneg (Ne.symm hne)⟩
      · unfold PipeSync.closeWriter at hj
        dsimp only at hj
        split at hj
        · cases hj
        · exact h.readerWaits j hj

end SyncInv

theorem newSync_inv (capacity : Nat) : SyncInv ({} : PipeSync capacity) where
  reader i hi := by cases hi
  writer i hi := by cases hi
  readerWaits i hi := by cases hi
  writerWaits i hi := by cases hi
  old _ _ := rfl
  readers := Int.le_refl 0
  writers := Int.le_refl 0

/-- On a new pipe of any capacity, whatever threads read, write and open and
close its ends: in every state a reader that waits and is not notified has an
empty buffer and a writer, and a writer a full buffer and a reader. -/
theorem noStuck_always (capacity : Nat) (ops : List PipeOp) :
    Always syncStep NoStuck ({} : PipeSync capacity) ops :=
  (always_of_inv (fun _ _ _ h hstep => h.step hstep) ops (newSync_inv capacity)).mono
    fun _ h => h.toNoStuck

end Ceryx.Fs
