import Ceryx.Fs.FileDescription

/-!
# Ceryx.Fs.PipeEnds — the counts of a pipe's ends

`m_readers` and `m_writers` change only when a description is constructed and
when it is destroyed, with the access bits of its flags at that moment. These
bits never change in between: `F_SETFL` keeps them.

* `EndsMatch`: the counts of every pipe are the numbers of live descriptions of
  its ends, and `Read` reports the end of the file only when it is true.
* `FileInv`: the invariant. Next to the counts it says that every reference is
  to a live description.
* `SameEnds`: what most steps are, as far as the counts go; `newDescription_inv`
  and `settle_inv` are the two others.
* `endsMatch_always`: `EndsMatch` holds in every state of every run.
-/

namespace Ceryx.Fs

open Lib Proc FileSys

namespace FileSys

/-! ## The property -/

/-- The description is live, on the pipe, and has the access bit. -/
def isEnd (s : FileSys) (v : PipeId) (bit : BitVec 32) (d : DescId) : Bool :=
  !(s.descs d).destroyed && decide ((s.descs d).vnode = .pipe v) &&
    decide ((s.descs d).flags &&& bit ≠ 0)

/-- The number of live descriptions of an end of a pipe. -/
def liveEnds (s : FileSys) (v : PipeId) (bit : BitVec 32) : Nat :=
  census s.nextDesc (s.isEnd v bit)

end FileSys

/-- Each pipe counts the descriptions that are its read ends, and the ones that are its
write ends. -/
structure EndsMatch (s : FileSys) : Prop where
  readers : ∀ v, (s.pipes v).readers = s.liveEnds v kPipeRead
  writers : ∀ v, (s.pipes v).writers = s.liveEnds v kPipeWrite
  readersNonneg : ∀ v, 0 ≤ (s.pipes v).readers
  writersNonneg : ∀ v, 0 ≤ (s.pipes v).writers
  /-- `Pipe::Read` of a nonzero size returns 0 only at the end of the file. -/
  eof : ∀ v size dest pipe, size ≠ 0 → (s.pipes v).read size = some (0, dest, pipe) →
    (s.pipes v).buffer.items = [] ∧
      ∀ d, d < s.nextDesc → (s.descs d).destroyed = false → (s.descs d).vnode = .pipe v →
        (s.descs d).flags &&& kPipeWrite = 0

/-! ## The invariant -/

/-- With what makes that inductive: who may refer to a description, and that descriptors
refer to live ones only. -/
structure FileInv (s : FileSys) : Prop where
  readers : ∀ v, (s.pipes v).readers = s.liveEnds v kPipeRead
  writers : ∀ v, (s.pipes v).writers = s.liveEnds v kPipeWrite
  /-- The pipe of a description has been made. -/
  old : ∀ d v, d < s.nextDesc → (s.descs d).vnode = .pipe v → v < s.nextPipe
  /-- A reference is to a live description. -/
  refs : ∀ d, s.Referenced d → d < s.nextDesc ∧ (s.descs d).destroyed = false

theorem FileInv.endsMatch {s : FileSys} (h : FileInv s) : EndsMatch s where
  readers := h.readers
  writers := h.writers
  readersNonneg v := by
    rw [h.readers]
    exact Int.natCast_nonneg _
  writersNonneg v := by
    rw [h.writers]
    exact Int.natCast_nonneg _
  eof v size dest pipe hsize hread := by
    rcases Pipe.read_cases (s.pipes v) size with ⟨-, -, heq⟩ | ⟨hempty, hw, -⟩ | ⟨hne, heq⟩
    · rw [heq] at hread
      cases hread
    · refine ⟨hempty, fun d hd hlive hvnode => ?_⟩
      have hzero : s.liveEnds v kPipeWrite = 0 := by
        rw [h.writers] at hw
        exact Int.natCast_eq_zero.mp hw
      have hnot := census_eq_zero.mp hzero d hd
      by_contra hbit
      have hend : s.isEnd v kPipeWrite d = true := by
        simp only [isEnd, hlive, hvnode, Bool.not_false, decide_true, Bool.and_true, Bool.true_and,
          decide_eq_true_eq]
        exact hbit
      rw [hnot] at hend
      cases hend
    · -- a nonempty buffer gives at least one byte
      rw [heq] at hread
      have hlength : (Fifo.popMany size (s.pipes v).buffer).1.length = 0 := by
        have := Option.some.inj hread
        exact congrArg Prod.fst this
      exact absurd (List.eq_nil_of_length_eq_zero hlength) (Fifo.popMany_ne_nil hsize hne)

/-! ## Steps that change no end -/

/-- Calls that neither open nor close: each description is the end that it was, and each
pipe counts as before. -/
structure SameEnds (s s' : FileSys) : Prop where
  nextDesc : s'.nextDesc = s.nextDesc
  nextPipe : s'.nextPipe = s.nextPipe
  vnode : ∀ d, (s'.descs d).vnode = (s.descs d).vnode
  destroyed : ∀ d, (s'.descs d).destroyed = (s.descs d).destroyed
  readBit : ∀ d, (s'.descs d).flags &&& kPipeRead = (s.descs d).flags &&& kPipeRead
  writeBit : ∀ d, (s'.descs d).flags &&& kPipeWrite = (s.descs d).flags &&& kPipeWrite
  readers : ∀ v, (s'.pipes v).readers = (s.pipes v).readers
  writers : ∀ v, (s'.pipes v).writers = (s.pipes v).writers

theorem SameEnds.refl (s : FileSys) : SameEnds s s :=
  ⟨rfl, rfl, fun _ => rfl, fun _ => rfl, fun _ => rfl, fun _ => rfl, fun _ => rfl, fun _ => rfl⟩

theorem SameEnds.trans {s s' s'' : FileSys} (h : SameEnds s s') (h' : SameEnds s' s'') :
    SameEnds s s'' where
  nextDesc := h'.nextDesc.trans h.nextDesc
  nextPipe := h'.nextPipe.trans h.nextPipe
  vnode d := (h'.vnode d).trans (h.vnode d)
  destroyed d := (h'.destroyed d).trans (h.destroyed d)
  readBit d := (h'.readBit d).trans (h.readBit d)
  writeBit d := (h'.writeBit d).trans (h.writeBit d)
  readers v := (h'.readers v).trans (h.readers v)
  writers v := (h'.writers v).trans (h.writers v)

/-- Tables, processes and waiting calls are not ends. -/
theorem SameEnds.of_eq {s s' : FileSys} (hdescs : s'.descs = s.descs) (hpipes : s'.pipes = s.pipes)
    (hnextDesc : s'.nextDesc = s.nextDesc) (hnextPipe : s'.nextPipe = s.nextPipe) :
    SameEnds s s' := by
  refine ⟨hnextDesc, hnextPipe, ?_, ?_, ?_, ?_, ?_, ?_⟩ <;> intro <;> simp [hdescs, hpipes]

/-- Reading and writing change the bytes in a pipe, not its counts. -/
theorem SameEnds.setPipe (s : FileSys) (v : PipeId) {pipe : Pipe kDefaultCapacity}
    (hreaders : pipe.readers = (s.pipes v).readers)
    (hwriters : pipe.writers = (s.pipes v).writers) : SameEnds s (s.setPipe v pipe) := by
  refine ⟨rfl, rfl, fun _ => rfl, fun _ => rfl, fun _ => rfl, fun _ => rfl, fun u => ?_, fun u => ?_⟩
  · by_cases hu : u = v
    · subst hu
      simpa [FileSys.setPipe] using hreaders
    · simp [FileSys.setPipe, hu]
  · by_cases hu : u = v
    · subst hu
      simpa [FileSys.setPipe] using hwriters
    · simp [FileSys.setPipe, hu]

/-- A field that an update keeps is the same in all descriptions. -/
theorem updDesc_field {β : Type} (g : FileDescription → β) (s : FileSys) (d : DescId)
    {f : FileDescription → FileDescription} (h : g (f (s.descs d)) = g (s.descs d)) (e : DescId) :
    g ((s.updDesc d f).descs e) = g (s.descs e) := by
  by_cases he : e = d
  · subst he
    simpa [updDesc] using h
  · simp [updDesc, he]

theorem SameEnds.updDesc (s : FileSys) (d : DescId) {f : FileDescription → FileDescription}
    (hvnode : (f (s.descs d)).vnode = (s.descs d).vnode)
    (hdestroyed : (f (s.descs d)).destroyed = (s.descs d).destroyed)
    (hread : (f (s.descs d)).flags &&& kPipeRead = (s.descs d).flags &&& kPipeRead)
    (hwrite : (f (s.descs d)).flags &&& kPipeWrite = (s.descs d).flags &&& kPipeWrite) :
    SameEnds s (s.updDesc d f) where
  nextDesc := rfl
  nextPipe := rfl
  vnode := updDesc_field FileDescription.vnode s d hvnode
  destroyed := updDesc_field FileDescription.destroyed s d hdestroyed
  readBit := updDesc_field (fun x => x.flags &&& kPipeRead) s d hread
  writeBit := updDesc_field (fun x => x.flags &&& kPipeWrite) s d hwrite
  readers _ := rfl
  writers _ := rfl

theorem SameEnds.advance (s : FileSys) (d : DescId) (n : Nat) : SameEnds s (s.advance d n) :=
  SameEnds.updDesc s d rfl rfl rfl rfl

/-- `F_SETFL` keeps the access bits. -/
theorem setflFlags_and {bit : BitVec 32} (hin : (3 : BitVec 32) &&& bit = bit)
    (hout : ~~~(3 : BitVec 32) &&& bit = 0) (flags arg : BitVec 32) :
    setflFlags flags arg &&& bit = flags &&& bit := by
  unfold setflFlags
  rw [BitVec.and_or_distrib_right, BitVec.and_assoc, BitVec.and_assoc, hin, hout]
  simp

/-- `F_SETFL` does not change the access mode that the ends are told by. -/
theorem SameEnds.setfl (s : FileSys) (d : DescId) (arg : BitVec 32) :
    SameEnds s (s.updDesc d fun x => { x with flags := setflFlags x.flags arg }) :=
  SameEnds.updDesc s d rfl rfl (setflFlags_and (by decide) (by decide) _ _)
    (setflFlags_and (by decide) (by decide) _ _)

/-- So a description is the same end as before. -/
theorem SameEnds.isEnd {s s' : FileSys} (h : SameEnds s s') (v : PipeId) (d : DescId) :
    s'.isEnd v kPipeRead d = s.isEnd v kPipeRead d ∧
      s'.isEnd v kPipeWrite d = s.isEnd v kPipeWrite d := by
  unfold FileSys.isEnd
  rw [h.destroyed, h.vnode, h.readBit, h.writeBit]
  exact ⟨rfl, rfl⟩

/-- A step that changes no end keeps the invariant when its new references are
to live descriptions. -/
theorem FileInv.of_same {s s' : FileSys} (h : FileInv s) (hs : SameEnds s s')
    (hrefs : ∀ d, s'.Referenced d →
      s.Referenced d ∨ (d < s.nextDesc ∧ (s.descs d).destroyed = false)) : FileInv s' where
  readers v := by
    unfold liveEnds
    rw [hs.readers, h.readers, hs.nextDesc]
    exact congrArg _ (census_congr fun d _ => ((hs.isEnd v d).1).symm)
  writers v := by
    unfold liveEnds
    rw [hs.writers, h.writers, hs.nextDesc]
    exact congrArg _ (census_congr fun d _ => ((hs.isEnd v d).2).symm)
  old d v hd hv := by
    rw [hs.nextDesc] at hd
    rw [hs.vnode] at hv
    rw [hs.nextPipe]
    exact h.old d v hd hv
  refs d hd := by
    rw [hs.nextDesc, hs.destroyed]
    -- what is referred to now was so before, or is live
    rcases hrefs d hd with hold | hlive
    · exact h.refs d hold
    · exact hlive

/-! ## Open and Close -/

/-- `Open` and `Close` touch the pipes only. -/
theorem openVnode_eq (s : FileSys) (vnode : Vnode) (flags : BitVec 32) :
    s.openVnode vnode flags = { s with pipes := (s.openVnode vnode flags).pipes } := by
  unfold openVnode
  cases vnode with
  | other => rfl
  | pipe v =>
      dsimp only
      split <;> split <;> rfl

/-- Closing a vnode is closing a pipe's end, and nothing else. -/
theorem closeVnode_eq (s : FileSys) (vnode : Vnode) (flags : BitVec 32) :
    s.closeVnode vnode flags = { s with pipes := (s.closeVnode vnode flags).pipes } := by
  unfold closeVnode
  cases vnode with
  | other => rfl
  | pipe v =>
      dsimp only
      split <;> split <;> rfl

/-- Whether a description with these fields is one of the ends. -/
def hasEnd (vnode : Vnode) (flags : BitVec 32) (v : PipeId) (bit : BitVec 32) : Bool :=
  decide (vnode = .pipe v) && decide (flags &&& bit ≠ 0)

/-- Opening one counts one end more, of each kind that the flags ask for. -/
theorem openVnode_counts (s : FileSys) (vnode : Vnode) (flags : BitVec 32) (v : PipeId) :
    ((s.openVnode vnode flags).pipes v).readers =
        (s.pipes v).readers + (if hasEnd vnode flags v kPipeRead then 1 else 0) ∧
      ((s.openVnode vnode flags).pipes v).writers =
        (s.pipes v).writers + (if hasEnd vnode flags v kPipeWrite then 1 else 0) := by
  unfold openVnode hasEnd
  cases vnode with
  | other => simp
  | pipe u =>
      -- the two bits are independent: only whether they are set matters
      generalize flags &&& kPipeRead = r
      generalize flags &&& kPipeWrite = w
      by_cases huv : u = v
      · subst huv
        by_cases hr : r = 0#32 <;> by_cases hw : w = 0#32 <;>
          simp [hr, hw, FileSys.setPipe, Pipe.incrementReaders, Pipe.incrementWriters]
      · have hvu : v ≠ u := Ne.symm huv
        by_cases hr : r = 0#32 <;> by_cases hw : w = 0#32 <;>
          simp [hr, hw, huv, hvu, FileSys.setPipe]

/-- Closing one counts one less of each. -/
theorem closeVnode_counts (s : FileSys) (vnode : Vnode) (flags : BitVec 32) (v : PipeId) :
    ((s.closeVnode vnode flags).pipes v).readers =
        (s.pipes v).readers - (if hasEnd vnode flags v kPipeRead then 1 else 0) ∧
      ((s.closeVnode vnode flags).pipes v).writers =
        (s.pipes v).writers - (if hasEnd vnode flags v kPipeWrite then 1 else 0) := by
  unfold closeVnode hasEnd
  cases vnode with
  | other => simp
  | pipe u =>
      -- the two bits are independent: only whether they are set matters
      generalize flags &&& kPipeRead = r
      generalize flags &&& kPipeWrite = w
      by_cases huv : u = v
      · subst huv
        by_cases hr : r = 0#32 <;> by_cases hw : w = 0#32 <;>
          simp [hr, hw, FileSys.setPipe, Pipe.decrementReaders, Pipe.decrementWriters]
      · have hvu : v ≠ u := Ne.symm huv
        by_cases hr : r = 0#32 <;> by_cases hw : w = 0#32 <;>
          simp [hr, hw, huv, hvu, FileSys.setPipe]

theorem isEnd_eq (s : FileSys) (v : PipeId) (bit : BitVec 32) (d : DescId) :
    s.isEnd v bit d =
      (!(s.descs d).destroyed && hasEnd (s.descs d).vnode (s.descs d).flags v bit) := by
  unfold FileSys.isEnd hasEnd
  rw [Bool.and_assoc]

/-! ## Construction -/

theorem newDescription_descs_ne (s : FileSys) (vnode : Vnode) (flags : BitVec 32) {d : DescId}
    (hd : d ≠ s.nextDesc) : (s.newDescription vnode flags).2.descs d = s.descs d := by
  simp [newDescription, hd]

theorem newDescription_descs_self (s : FileSys) (vnode : Vnode) (flags : BitVec 32) :
    (s.newDescription vnode flags).2.descs s.nextDesc = { vnode := vnode, flags := flags } := by
  simp [newDescription]

/-- A new description is referred to by nobody yet. -/
theorem newDescription_referenced {s : FileSys} {vnode : Vnode} {flags : BitVec 32} {d : DescId}
    (h : (s.newDescription vnode flags).2.Referenced d) : s.Referenced d := by
  unfold Referenced newDescription at h
  rw [openVnode_eq] at h
  exact h

/-- One more description is a live end. -/
theorem newDescription_liveEnds (s : FileSys) (vnode : Vnode) (flags : BitVec 32) (v : PipeId)
    (bit : BitVec 32) : (s.newDescription vnode flags).2.liveEnds v bit =
      s.liveEnds v bit + if hasEnd vnode flags v bit then 1 else 0 := by
  have hnew : (s.newDescription vnode flags).2.isEnd v bit s.nextDesc =
      hasEnd vnode flags v bit := by
    rw [isEnd_eq, newDescription_descs_self]
    simp
  unfold liveEnds
  rw [← hnew]
  apply census_new
  intro d hd
  unfold FileSys.isEnd
  rw [newDescription_descs_ne s vnode flags (Nat.ne_of_lt hd)]

/-- A new description, with `Open`. -/
theorem newDescription_inv {s : FileSys} (h : FileInv s) {vnode : Vnode} (flags : BitVec 32)
    (hvnode : ∀ v, vnode = .pipe v → v < s.nextPipe) :
    FileInv (s.newDescription vnode flags).2 where
  readers v := by
    rw [newDescription_liveEnds]
    have hcount := (openVnode_counts s vnode flags v).1
    rw [h.readers] at hcount
    refine hcount.trans ?_
    split <;> simp
  writers v := by
    rw [newDescription_liveEnds]
    have hcount := (openVnode_counts s vnode flags v).2
    rw [h.writers] at hcount
    refine hcount.trans ?_
    split <;> simp
  old d v hd hv := by
    have hnext : (s.newDescription vnode flags).2.nextPipe = s.nextPipe := by
      unfold newDescription
      rw [openVnode_eq]
    rw [hnext]
    -- the new description, and the older ones
    by_cases hdn : d = s.nextDesc
    · subst hdn
      rw [newDescription_descs_self] at hv
      exact hvnode v hv
    · rw [newDescription_descs_ne s vnode flags hdn] at hv
      exact h.old d v (Nat.lt_of_le_of_ne (Nat.le_of_lt_succ hd) hdn) hv
  refs d hd := by
    obtain ⟨hlt, hlive⟩ := h.refs d (newDescription_referenced hd)
    rw [newDescription_descs_ne s vnode flags (Nat.ne_of_lt hlt)]
    exact ⟨Nat.lt_succ_of_lt hlt, hlive⟩

/-! ## Destruction -/

theorem destroy_descs_ne (s : FileSys) {d e : DescId} (he : e ≠ d) :
    (s.destroy d).descs e = s.descs e := by
  unfold destroy updDesc
  rw [closeVnode_eq]
  simp [he]

theorem destroy_descs_self (s : FileSys) (d : DescId) :
    (s.destroy d).descs d = { s.descs d with destroyed := true } := by
  unfold destroy updDesc
  rw [closeVnode_eq]
  simp

/-- `Destroy` changes nothing but pipes and descriptions. -/
theorem destroy_eq (s : FileSys) (d : DescId) :
    s.destroy d = { s with pipes := (s.destroy d).pipes, descs := (s.destroy d).descs } := by
  unfold destroy updDesc
  rw [closeVnode_eq]

/-- One description fewer is a live end; `hlive` keeps one from being destroyed twice.
-/
theorem destroy_liveEnds {s : FileSys} {d : DescId} (hd : d < s.nextDesc)
    (hlive : (s.descs d).destroyed = false) (v : PipeId) (bit : BitVec 32) :
    (s.destroy d).liveEnds v bit + (if hasEnd (s.descs d).vnode (s.descs d).flags v bit then 1
      else 0) = s.liveEnds v bit := by
  have hnext : (s.destroy d).nextDesc = s.nextDesc := by rw [destroy_eq]
  have hother : ∀ e, e ≠ d → (s.destroy d).isEnd v bit e = s.isEnd v bit e := by
    intro e he
    unfold FileSys.isEnd
    rw [destroy_descs_ne s he]
  -- the description counted, if it had the end, and counts no more
  have hgone : (s.destroy d).isEnd v bit d = false := by
    rw [isEnd_eq, destroy_descs_self]
    simp
  have hwas : s.isEnd v bit d = hasEnd (s.descs d).vnode (s.descs d).flags v bit := by
    rw [isEnd_eq, hlive]
    simp
  unfold liveEnds
  rw [hnext]
  by_cases hend : hasEnd (s.descs d).vnode (s.descs d).flags v bit = true
  · rw [if_pos hend]
    exact census_lose hd (hwas.trans hend) hgone hother
  · rw [if_neg hend, Nat.add_zero]
    apply census_congr
    intro e _
    by_cases he : e = d
    · rw [he, hgone, hwas]
      exact (Bool.eq_false_iff.mpr hend).symm
    · exact hother e he

/-- A description that nobody refers to goes with its end. -/
theorem destroy_inv {s : FileSys} (h : FileInv s) {d : DescId} (hd : d < s.nextDesc)
    (hlive : (s.descs d).destroyed = false) (hunref : ¬ s.Referenced d) :
    FileInv (s.destroy d) where
  readers v := by
    have hcount := (closeVnode_counts s (s.descs d).vnode (s.descs d).flags v).1
    have hends := destroy_liveEnds hd hlive v kPipeRead
    rw [h.readers, ← hends] at hcount
    refine hcount.trans ?_
    split <;> simp
  writers v := by
    have hcount := (closeVnode_counts s (s.descs d).vnode (s.descs d).flags v).2
    have hends := destroy_liveEnds hd hlive v kPipeWrite
    rw [h.writers, ← hends] at hcount
    refine hcount.trans ?_
    split <;> simp
  old e v he hv := by
    rw [destroy_eq] at he ⊢
    refine h.old e v he ?_
    by_cases hed : e = d
    · subst hed
      rw [destroy_descs_self] at hv
      exact hv
    · rw [destroy_descs_ne s hed] at hv
      exact hv
  refs e he := by
    have hold : s.Referenced e := by
      rw [destroy_eq] at he
      exact he
    -- no table refers to the description that goes
    have hed : e ≠ d := by
      rintro rfl
      exact hunref hold
    obtain ⟨hlt, halive⟩ := h.refs e hold
    rw [destroy_descs_ne s hed]
    refine ⟨?_, halive⟩
    rw [destroy_eq]
    exact hlt

/-- The end of a reference. -/
theorem settle_inv {s : FileSys} (h : FileInv s) {d : DescId} (hd : d < s.nextDesc) :
    FileInv (s.settle d) := by
  unfold settle
  split
  · exact h
  · rename_i hneither
    rw [not_or] at hneither
    exact destroy_inv h hd (Bool.eq_false_iff.mpr hneither.2) hneither.1

/-- `settle` keeps names and tables. -/
theorem settle_eq (s : FileSys) (d : DescId) :
    s.settle d = { s with pipes := (s.settle d).pipes, descs := (s.settle d).descs } := by
  unfold settle
  split
  · rfl
  · exact destroy_eq s d

/-- A descriptor slot that is overwritten gives up its reference. -/
theorem settleSlot_inv {s : FileSys} (h : FileInv s) {slot : Option DescId}
    (hslot : ∀ d, slot = some d → d < s.nextDesc) : FileInv (s.settleSlot slot) := by
  cases slot with
  | none => exact h
  | some d => exact settle_inv h (hslot d rfl)

theorem settleSlot_eq (s : FileSys) (slot : Option DescId) :
    s.settleSlot slot =
      { s with pipes := (s.settleSlot slot).pipes, descs := (s.settleSlot slot).descs } := by
  cases slot with
  | none => rfl
  | some d => exact settle_eq s d

/-! ## Descriptor tables -/

/-- A descriptor that is open is in the table. -/
theorem mem_of_getFd {table : FdTable} {fd : Nat} {d : DescId} (h : getFd table fd = some d) :
    some d ∈ table :=
  List.mem_of_getElem? (Option.join_eq_some_iff.mp h)

/-- A description that may be named: constructed and not destroyed. -/
def Live (s : FileSys) (d : DescId) : Prop := d < s.nextDesc ∧ (s.descs d).destroyed = false

/-- What a descriptor refers to has not been destroyed. -/
theorem FileInv.getFd_live {s : FileSys} (h : FileInv s) {p : ProcId} (hp : p < s.nextProc)
    {fd : Nat} {d : DescId} (hfd : getFd (s.tables p) fd = some d) : Live s d :=
  h.refs d (Or.inl ⟨p, hp, mem_of_getFd hfd⟩)

/-- A new descriptor adds its own description to the table, and no other. -/
theorem mem_allocateFdFrom {table table' : FdTable} {d : DescId} {grow : Nat → Bool}
    {n fd fd' : Nat} (h : allocateFdFrom table d grow n fd = .ok (fd', table')) {e : DescId}
    (he : some e ∈ table') : some e ∈ table ∨ e = d := by
  induction n generalizing fd with
  | zero => cases h
  | succ n ih =>
      unfold allocateFdFrom at h
      split at h
      · split at h
        · cases h
          -- the table has grown by one slot
          rcases List.mem_append.mp he with hold | hnew
          · exact Or.inl hold
          · exact Or.inr (Option.some.inj (List.mem_singleton.mp hnew))
        · cases h
      · split at h
        · cases h
          -- a slot that was free is taken
          rcases List.mem_or_eq_of_mem_set he with hold | hnew
          · exact Or.inl hold
          · exact Or.inr (Option.some.inj hnew)
        · exact ih h

theorem mem_allocateFdAt {table table' : FdTable} {fd fd' : Nat} {d : DescId} {grow : Nat → Bool}
    (h : allocateFdAt table fd d grow = .ok (fd', table')) {e : DescId} (he : some e ∈ table') :
    some e ∈ table ∨ e = d := by
  unfold allocateFdAt at h
  split at h
  · cases h
  · split at h
    · cases h
    · cases h
      rcases List.mem_or_eq_of_mem_set he with hold | hnew
      · rcases List.mem_append.mp hold with hin | hpad
        · exact Or.inl hin
        · exact absurd (List.eq_of_mem_replicate hpad) (by simp)
      · exact Or.inr (Option.some.inj hnew)

/-- Who refers to a description after a table has been replaced. -/
theorem referenced_setTable {s : FileSys} {p : ProcId} {table : FdTable} {d : DescId}
    (h : (s.setTable p table).Referenced d) : s.Referenced d ∨ some d ∈ table := by
  rcases h with ⟨q, hq, hmem⟩ | hblocked
  · by_cases hqp : q = p
    · subst hqp
      exact Or.inr (by simpa [setTable] using hmem)
    · exact Or.inl (Or.inl ⟨q, hq, by simpa [setTable, hqp] using hmem⟩)
  · exact Or.inl (Or.inr hblocked)

/-- A table whose entries are live. -/
theorem setTable_inv {s : FileSys} (h : FileInv s) {p : ProcId} {table : FdTable}
    (htable : ∀ d, some d ∈ table → Live s d) : FileInv (s.setTable p table) :=
  h.of_same (SameEnds.of_eq rfl rfl rfl rfl) fun d hd =>
    (referenced_setTable hd).imp_right (htable d)

theorem FileInv.table_live {s : FileSys} (h : FileInv s) {p : ProcId} (hp : p < s.nextProc)
    {d : DescId} (hd : some d ∈ s.tables p) : Live s d := h.refs d (Or.inl ⟨p, hp, hd⟩)

/-- One more reference to a live description in a table. -/
theorem setTable_add_inv {s : FileSys} (h : FileInv s) {p : ProcId} (hp : p < s.nextProc)
    {table : FdTable} {d : DescId} (hlive : Live s d)
    (hmem : ∀ e, some e ∈ table → some e ∈ s.tables p ∨ e = d) : FileInv (s.setTable p table) := by
  apply setTable_inv h
  intro e he
  rcases hmem e he with hold | rfl
  · exact h.table_live hp hold
  · exact hlive

/-- `close` of any descriptor, open or not. -/
theorem freeFd_inv {s : FileSys} (h : FileInv s) {p : ProcId} (hp : p < s.nextProc) (fd : Nat) :
    FileInv (s.freeFd p fd) := by
  unfold freeFd
  have hset : FileInv (s.setTable p ((s.tables p).set fd none)) := by
    apply setTable_inv h
    intro d hd
    rcases List.mem_or_eq_of_mem_set hd with hold | hnone
    · exact h.table_live hp hold
    · cases hnone
  exact settleSlot_inv hset fun d hd => (h.getFd_live hp hd).1

/-- `freeFd` keeps the names. -/
theorem freeFd_names (s : FileSys) (p : ProcId) (fd : Nat) :
    (s.freeFd p fd).nextProc = s.nextProc ∧ (s.freeFd p fd).nextDesc = s.nextDesc := by
  unfold freeFd
  rw [settleSlot_eq]
  exact ⟨rfl, rfl⟩

theorem settle_names (s : FileSys) (d : DescId) :
    (s.settle d).nextProc = s.nextProc ∧ (s.settle d).nextDesc = s.nextDesc := by
  rw [settle_eq]
  exact ⟨rfl, rfl⟩

/-! ## The system calls -/

/-- A new description is live. -/
theorem newDescription_live (s : FileSys) (vnode : Vnode) (flags : BitVec 32) :
    Live (s.newDescription vnode flags).2 s.nextDesc := by
  refine ⟨Nat.lt_succ_self _, ?_⟩
  rw [newDescription_descs_self]

theorem newDescription_names (s : FileSys) (vnode : Vnode) (flags : BitVec 32) :
    (s.newDescription vnode flags).2.nextProc = s.nextProc ∧
      (s.newDescription vnode flags).2.nextPipe = s.nextPipe := by
  unfold newDescription
  rw [openVnode_eq]
  exact ⟨rfl, rfl⟩

/-- `open`: a description is made first, and settled again when there is no descriptor
for it. -/
theorem sysOpen_inv {s : FileSys} (h : FileInv s) {p : ProcId} (hp : p < s.nextProc)
    (flags : BitVec 32) (grow : Nat → Bool) : FileInv (s.sysOpen p flags grow).2 := by
  have hnew : FileInv (s.newDescription .other flags).2 :=
    newDescription_inv h flags fun v hv => by cases hv
  have hlive := newDescription_live s .other flags
  have hp' : p < (s.newDescription .other flags).2.nextProc := by
    rw [(newDescription_names s .other flags).1]
    exact hp
  unfold sysOpen
  dsimp only
  split
  · rename_i fd table halloc
    exact setTable_add_inv hnew hp' hlive fun e he => mem_allocateFdFrom halloc he
  · exact settle_inv hnew hlive.1

/-- `dup`: one more reference to a description that is there. -/
theorem sysDup_inv {s : FileSys} (h : FileInv s) {p : ProcId} (hp : p < s.nextProc) (fd : Nat)
    (grow : Nat → Bool) : FileInv (s.sysDup p fd grow).2 := by
  unfold sysDup
  split
  · exact h
  · rename_i desc hfd
    split
    · rename_i newFd table halloc
      exact setTable_add_inv h hp (h.getFd_live hp hfd) fun e he => mem_allocateFdFrom halloc he
    · exact h

/-- `dup2` and `dup3` close what the descriptor referred to. -/
theorem installAt_inv {s s' : FileSys} (h : FileInv s) {p : ProcId} (hp : p < s.nextProc)
    {fd fd' : Nat} {desc : DescId} (hlive : Live s desc) {grow : Nat → Bool}
    (hinstall : s.installAt p fd desc grow = .ok (fd', s')) : FileInv s' := by
  unfold installAt at hinstall
  split at hinstall
  · rename_i newFd table halloc
    cases hinstall
    have hset := setTable_add_inv h hp hlive fun e he => mem_allocateFdAt halloc he
    exact settleSlot_inv hset fun d hd => (h.getFd_live hp hd).1
  · cases hinstall

theorem sysDup2_inv {s : FileSys} (h : FileInv s) {p : ProcId} (hp : p < s.nextProc)
    (oldFd newFd : Nat) (grow : Nat → Bool) : FileInv (s.sysDup2 p oldFd newFd grow).2 := by
  unfold sysDup2
  split
  · exact h
  · split
    · exact h
    · rename_i desc hfd
      split
      · rename_i fd s' hinstall
        exact installAt_inv h hp (h.getFd_live hp hfd) hinstall
      · exact h

theorem dupFdFrom_inv {s : FileSys} (h : FileInv s) {p : ProcId} (hp : p < s.nextProc)
    {desc : DescId} (hlive : Live s desc) (grow : Nat → Bool) (n newFd : Nat) :
    FileInv (s.dupFdFrom p desc grow n newFd).2 := by
  induction n generalizing newFd with
  | zero => exact h
  | succ n ih =>
      unfold dupFdFrom
      split
      · split
        · rename_i fd s' hinstall
          exact installAt_inv h hp hlive hinstall
        · exact ih (newFd + 1)
      · exact ih (newFd + 1)

theorem sysFcntl_inv {s : FileSys} (h : FileInv s) {p : ProcId} (hp : p < s.nextProc) (fd : Nat)
    (cmd : Int) (arg : BitVec 64) (grow : Nat → Bool) :
    FileInv (s.sysFcntl p fd cmd arg grow).2 := by
  unfold sysFcntl
  split
  · exact h
  · rename_i desc hfd
    split
    · exact dupFdFrom_inv h hp (h.getFd_live hp hfd) grow _ _
    · split
      · exact h
      · split
        · exact h
        · split
          · exact h.of_same (SameEnds.setfl s desc _) fun d hd => Or.inl hd
          · exact h

/-- A new pipe has no descriptions yet. -/
theorem newPipe_inv {s : FileSys} (h : FileInv s) :
    FileInv { s.setPipe s.nextPipe {} with nextPipe := s.nextPipe + 1 } := by
  -- no description knows the new pipe yet
  have hnone : ∀ bit, s.liveEnds s.nextPipe bit = 0 := by
    intro bit
    apply census_eq_zero.mpr
    intro d hd
    have hne : (s.descs d).vnode ≠ .pipe s.nextPipe := by
      intro hv
      exact Nat.lt_irrefl _ (h.old d _ hd hv)
    simp [FileSys.isEnd, hne]
  refine ⟨fun v => ?_, fun v => ?_, fun d v hd hv => Nat.lt_succ_of_lt (h.old d v hd hv),
    h.refs⟩
  · change ((Function.update s.pipes s.nextPipe {}) v).readers = s.liveEnds v kPipeRead
    by_cases hv : v = s.nextPipe
    · subst hv
      rw [Function.update_self, hnone]
      rfl
    · rw [Function.update_of_ne hv]
      exact h.readers v
  · change ((Function.update s.pipes s.nextPipe {}) v).writers = s.liveEnds v kPipeWrite
    by_cases hv : v = s.nextPipe
    · subst hv
      rw [Function.update_self, hnone]
      rfl
    · rw [Function.update_of_ne hv]
      exact h.writers v

/-- A descriptor for a description, if there is one left. -/
theorem tryAllocate_inv {s : FileSys} (h : FileInv s) {p : ProcId} (hp : p < s.nextProc)
    {d : DescId} (hlive : Live s d) (grow : Nat → Bool) : FileInv (s.tryAllocate p d grow).2 := by
  unfold tryAllocate
  split
  · rename_i fd table halloc
    exact setTable_add_inv h hp hlive fun e he => mem_allocateFdFrom halloc he
  · exact h

theorem tryAllocate_names (s : FileSys) (p : ProcId) (d : DescId) (grow : Nat → Bool) :
    (s.tryAllocate p d grow).2.nextProc = s.nextProc ∧
      (s.tryAllocate p d grow).2.nextDesc = s.nextDesc ∧
      (s.tryAllocate p d grow).2.descs = s.descs := by
  unfold tryAllocate
  split <;> exact ⟨rfl, rfl, rfl⟩

/-- Giving a descriptor back, if there was one. -/
theorem freeIf_inv {s : FileSys} (h : FileInv s) {p : ProcId} (hp : p < s.nextProc)
    (fd : Option Nat) : FileInv (s.freeIf p fd) := by
  cases fd with
  | none => exact h
  | some fd => exact freeFd_inv h hp fd

theorem freeIf_names (s : FileSys) (p : ProcId) (fd : Option Nat) :
    (s.freeIf p fd).nextProc = s.nextProc ∧ (s.freeIf p fd).nextDesc = s.nextDesc := by
  cases fd with
  | none => exact ⟨rfl, rfl⟩
  | some fd => exact freeFd_names s p fd

/-- The end of `sys_pipe` when an allocation has failed. -/
theorem undoPipe_inv {s : FileSys} (h : FileInv s) {p : ProcId} (hp : p < s.nextProc)
    (fd1 fd2 : Option Nat) {rd wr : DescId} (hrd : rd < s.nextDesc) (hwr : wr < s.nextDesc) :
    FileInv ((((s.freeIf p fd1).freeIf p fd2).settle rd).settle wr) := by
  obtain ⟨hproc₁, hdesc₁⟩ := freeIf_names s p fd1
  obtain ⟨-, hdesc₂⟩ := freeIf_names (s.freeIf p fd1) p fd2
  have hfree : FileInv ((s.freeIf p fd1).freeIf p fd2) :=
    freeIf_inv (freeIf_inv h hp fd1) (by rw [hproc₁]; exact hp) fd2
  have hsettle : FileInv (((s.freeIf p fd1).freeIf p fd2).settle rd) := by
    apply settle_inv hfree
    rw [hdesc₂, hdesc₁]
    exact hrd
  apply settle_inv hsettle
  rw [(settle_names _ rd).2, hdesc₂, hdesc₁]
  exact hwr

/-- `pipe`: two descriptions, two descriptors, and the ways back when the second of each
fails. -/
theorem sysPipe_inv {s : FileSys} (h : FileInv s) {p : ProcId} (hp : p < s.nextProc)
    (grow₁ grow₂ : Nat → Bool) : FileInv (s.sysPipe p grow₁ grow₂).2 := by
  -- the states after the pipe, the two descriptions and the two allocations
  have h₀ := newPipe_inv h
  let s₀ : FileSys := { s.setPipe s.nextPipe {} with nextPipe := s.nextPipe + 1 }
  have hv : ∀ v, Vnode.pipe s.nextPipe = .pipe v → v < s₀.nextPipe := by
    intro v hv
    cases hv
    exact Nat.lt_succ_self _
  have h₁ : FileInv (s₀.newDescription (.pipe s.nextPipe) kPipeRead).2 :=
    newDescription_inv h₀ kPipeRead hv
  obtain ⟨hproc₁, hpipe₁⟩ := newDescription_names s₀ (.pipe s.nextPipe) kPipeRead
  let s₁ := (s₀.newDescription (.pipe s.nextPipe) kPipeRead).2
  have h₂ : FileInv (s₁.newDescription (.pipe s.nextPipe) kPipeWrite).2 :=
    newDescription_inv h₁ kPipeWrite fun v hvnode => by
      rw [hpipe₁]
      exact hv v hvnode
  let s₂ := (s₁.newDescription (.pipe s.nextPipe) kPipeWrite).2
  have hp₂ : p < s₂.nextProc := by
    rw [(newDescription_names s₁ (.pipe s.nextPipe) kPipeWrite).1, hproc₁]
    exact hp
  have hrd : Live s₂ s₀.nextDesc := by
    have hlive := newDescription_live s₀ (.pipe s.nextPipe) kPipeRead
    refine ⟨Nat.lt_succ_of_lt hlive.1, ?_⟩
    rw [newDescription_descs_ne s₁ _ _ (Nat.ne_of_lt hlive.1)]
    exact hlive.2
  have hwr : Live s₂ s₁.nextDesc := newDescription_live s₁ (.pipe s.nextPipe) kPipeWrite
  have h₃ := tryAllocate_inv h₂ hp₂ hrd grow₁
  obtain ⟨hproc₃, hdesc₃, hdescs₃⟩ := tryAllocate_names s₂ p s₀.nextDesc grow₁
  let s₃ := (s₂.tryAllocate p s₀.nextDesc grow₁).2
  have hp₃ : p < s₃.nextProc := by
    rw [hproc₃]
    exact hp₂
  have hwr₃ : Live s₃ s₁.nextDesc := by
    refine ⟨?_, ?_⟩
    · rw [hdesc₃]
      exact hwr.1
    · rw [hdescs₃]
      exact hwr.2
  have h₄ := tryAllocate_inv h₃ hp₃ hwr₃ grow₂
  obtain ⟨hproc₄, hdesc₄, -⟩ := tryAllocate_names s₃ p s₁.nextDesc grow₂
  have hp₄ : p < (s₃.tryAllocate p s₁.nextDesc grow₂).2.nextProc := by
    rw [hproc₄]
    exact hp₃
  have hrd₄ : s₀.nextDesc < (s₃.tryAllocate p s₁.nextDesc grow₂).2.nextDesc := by
    rw [hdesc₄, hdesc₃]
    exact hrd.1
  have hwr₄ : s₁.nextDesc < (s₃.tryAllocate p s₁.nextDesc grow₂).2.nextDesc := by
    rw [hdesc₄]
    exact hwr₃.1
  dsimp only [sysPipe]
  split
  · exact h₄
  · exact undoPipe_inv h₄ hp₄ _ _ hrd₄ hwr₄

/-! ## Read and write -/

/-- What a stretch of a call leaves alone. -/
structure Stretched (s s' : FileSys) : Prop where
  ends : SameEnds s s'
  tables : s'.tables = s.tables
  nextProc : s'.nextProc = s.nextProc
  blocked : s'.blocked = s.blocked

/-- The part of a call between two waits changes what is in the pipe. -/
theorem Stretched.setPipe (s : FileSys) (v : PipeId) {pipe : Pipe kDefaultCapacity}
    (hreaders : pipe.readers = (s.pipes v).readers)
    (hwriters : pipe.writers = (s.pipes v).writers) : Stretched s (s.setPipe v pipe) :=
  ⟨SameEnds.setPipe s v hreaders hwriters, rfl, rfl, rfl⟩

theorem Stretched.advance {s s' : FileSys} (h : Stretched s s') (d : DescId) (n : Nat) :
    Stretched s (s'.advance d n) :=
  ⟨h.ends.trans (SameEnds.advance s' d n), h.tables, h.nextProc, h.blocked⟩

/-- One stretch of a read, up to its wait or its end. -/
theorem readStretch_spec (s : FileSys) (d : DescId) (v : PipeId) (size : Nat) :
    Stretched s (s.readStretch d v size).2 := by
  unfold readStretch
  rcases Pipe.read_cases (s.pipes v) size with ⟨-, -, heq⟩ | ⟨-, -, heq⟩ | ⟨-, heq⟩
  · rw [heq]
    exact ⟨SameEnds.refl s, rfl, rfl, rfl⟩
  · rw [heq]
    have hset : Stretched s (s.setPipe v (s.pipes v)) := Stretched.setPipe s v rfl rfl
    exact hset.advance d 0
  · rw [heq]
    have hset : Stretched s (s.setPipe v
        { s.pipes v with buffer := ((s.pipes v).buffer.popMany size).2 }) :=
      Stretched.setPipe s v rfl rfl
    exact hset.advance d _

/-- One stretch of a write. -/
theorem writeStretch_spec (s : FileSys) (d : DescId) (v : PipeId)
    {res : WriteOutcome × Pipe kDefaultCapacity} (hreaders : res.2.readers = (s.pipes v).readers)
    (hwriters : res.2.writers = (s.pipes v).writers) : Stretched s (s.writeStretch d v res).2 := by
  have hset : Stretched s (s.setPipe v res.2) := Stretched.setPipe s v hreaders hwriters
  unfold writeStretch
  split
  · exact hset
  · exact hset.advance d _
  · exact hset.advance d _

/-- One stretch of any blocking call. -/
theorem stretch_spec (s : FileSys) (d : DescId) (request : Request) (after : Option Nat) :
    Stretched s (s.stretch d request after).2 := by
  unfold stretch
  split
  · exact ⟨SameEnds.refl s, rfl, rfl, rfl⟩
  · exact readStretch_spec s d _ _
  · rename_i v src hvnode
    cases after with
    | none =>
        rcases Pipe.write_ends (s.pipes v) src with ⟨hreaders, hwriters⟩
        exact writeStretch_spec s d v hreaders hwriters
    | some written =>
        rcases Pipe.writeLoop_ends src (src.length - written) written (s.pipes v) with
          ⟨hreaders, hwriters⟩
        exact writeStretch_spec s d v hreaders hwriters

/-- A live description stays live. -/
theorem SameEnds.live {s s' : FileSys} (h : SameEnds s s') {d : DescId} (hd : Live s d) :
    Live s' d := by
  unfold Live
  rw [h.nextDesc, h.destroyed]
  exact hd

/-- A stretch keeps the invariant, whoever else refers to the description. -/
theorem Stretched.inv {s s' : FileSys} (h : FileInv s) (hs : Stretched s s') : FileInv s' := by
  apply h.of_same hs.ends
  intro d hd
  unfold Referenced at hd
  rw [hs.tables, hs.nextProc, hs.blocked] at hd
  exact Or.inl hd

/-- Waiting calls whose descriptions are live. -/
theorem blocked_inv {s : FileSys} (h : FileInv s) {blocked : List BlockedCall}
    (hblocked : ∀ c ∈ blocked, Live s c.desc) : FileInv { s with blocked := blocked } := by
  have hsame : SameEnds s { s with blocked := blocked } := SameEnds.of_eq rfl rfl rfl rfl
  apply h.of_same hsame
  rintro d (htable | ⟨c, hc, rfl⟩)
  · exact Or.inl (Or.inl htable)
  · exact Or.inr (hblocked c hc)

/-- A call that waits holds its description. -/
theorem FileInv.blocked_live {s : FileSys} (h : FileInv s) {c : BlockedCall} (hc : c ∈ s.blocked) :
    Live s c.desc := h.refs c.desc (Or.inr ⟨c, hc, rfl⟩)

/-- A blocking call up to its first wait: it refers to its description from then on. -/
theorem sysIo_inv {s : FileSys} (h : FileInv s) {p : ProcId} (hp : p < s.nextProc) (fd : Nat)
    (request : Request) : FileInv (s.sysIo p fd request).2 := by
  unfold sysIo
  split
  · exact h
  · rename_i desc hfd
    have hstretch := stretch_spec s desc request none
    split
    · rename_i rax s' heq
      rw [heq] at hstretch
      exact Stretched.inv h hstretch
    · -- the call keeps its reference while it waits
      rename_i written s' heq
      rw [heq] at hstretch
      have hs' : FileInv s' := Stretched.inv h hstretch
      apply blocked_inv hs'
      intro c hc
      rcases List.mem_append.mp hc with hold | hnew
      · exact hs'.blocked_live hold
      · rw [List.mem_singleton.mp hnew]
        exact hstretch.ends.live (h.getFd_live hp hfd)

/-- A woken call up to its next wait, or its end, when it gives its reference up. -/
theorem resume_inv {s : FileSys} (h : FileInv s) {i : Nat} {c : BlockedCall} (hc : c ∈ s.blocked) :
    FileInv (s.resume i c).2 := by
  have hstretch := stretch_spec s c.desc c.request (some c.written)
  have hlive : Live (s.stretch c.desc c.request (some c.written)).2 c.desc :=
    hstretch.ends.live (h.blocked_live hc)
  unfold resume
  split
  · -- it waits again, further on
    rename_i written s' heq
    rw [heq] at hstretch hlive
    have hs' : FileInv s' := Stretched.inv h hstretch
    apply blocked_inv hs'
    intro c' hc'
    rcases List.mem_or_eq_of_mem_set hc' with hold | rfl
    · exact hs'.blocked_live hold
    · exact hlive
  · -- it returns, and gives up its reference
    rename_i rax s' heq
    rw [heq] at hstretch hlive
    have hs' : FileInv s' := Stretched.inv h hstretch
    have herase : FileInv { s' with blocked := s'.blocked.eraseIdx i } := by
      apply blocked_inv hs'
      intro c' hc'
      exact hs'.blocked_live (List.mem_of_mem_eraseIdx hc')
    exact settle_inv herase hlive.1

/-! ## Processes -/

/-- All descriptors of a process, one after the other. -/
theorem freeFds_inv (p : ProcId) (fds : List Nat) {s : FileSys} (h : FileInv s)
    (hp : p < s.nextProc) : FileInv (fds.foldl (fun s fd => s.freeFd p fd) s) ∧
      (fds.foldl (fun s fd => s.freeFd p fd) s).nextProc = s.nextProc := by
  induction fds generalizing s with
  | nil => exact ⟨h, rfl⟩
  | cons fd fds ih =>
      have hnext := (freeFd_names s p fd).1
      rcases ih (freeFd_inv h hp fd) (by rw [hnext]; exact hp) with ⟨hinv, hrest⟩
      exact ⟨hinv, hrest.trans hnext⟩

theorem closeAll_inv {s : FileSys} (h : FileInv s) {p : ProcId} (hp : p < s.nextProc) :
    FileInv (s.closeAll p) := by
  unfold closeAll
  apply setTable_inv (freeFds_inv p _ h hp).1
  intro d hd
  cases hd

/-- A process that is deleted closes what it has open. -/
theorem deleteProcess_inv {s : FileSys} (h : FileInv s) {p : ProcId} (hp : p < s.nextProc) :
    FileInv (s.deleteProcess p) :=
  (closeAll_inv h hp).of_same (SameEnds.of_eq rfl rfl rfl rfl) fun _ hd => Or.inl hd

/-- A forked process refers to what its parent refers to. -/
theorem newProcess_inv {s : FileSys} (h : FileInv s) {table : FdTable}
    (htable : ∀ d, some d ∈ table → Live s d) : FileInv (s.newProcess table) := by
  have hsame : SameEnds s (s.newProcess table) := SameEnds.of_eq rfl rfl rfl rfl
  apply h.of_same hsame
  rintro d (⟨q, hq, hmem⟩ | hblocked)
  · by_cases hnew : q = s.nextProc
    · subst hnew
      exact Or.inr (htable d (by simpa [newProcess, FileSys.setTable] using hmem))
    · have hlt : q < s.nextProc := Nat.lt_of_le_of_ne (Nat.le_of_lt_succ hq) hnew
      exact Or.inl (Or.inl ⟨q, hlt, by simpa [newProcess, FileSys.setTable, hnew] using hmem⟩)
  · exact Or.inl (Or.inr hblocked)

/-- The copied table of a child gives each description one more reference. -/
theorem fork_inv {s : FileSys} (h : FileInv s) {p : ProcId} (hp : p < s.nextProc)
    (alloc : Kernel.ForkAlloc) : FileInv (s.fork p alloc) := by
  have hcopy : FileInv (s.newProcess (s.tables p)) :=
    newProcess_inv h fun d hd => h.table_live hp hd
  have hempty : FileInv (s.newProcess []) := newProcess_inv h fun d hd => by cases hd
  cases alloc with
  | noAddressSpace => exact h
  | noProcess => exact h
  | noFdTable => exact deleteProcess_inv hempty (Nat.lt_succ_self _)
  | noThread => exact deleteProcess_inv hcopy (Nat.lt_succ_self _)
  | enough _ => exact hcopy

/-! ## The machine -/

/-- One step. -/
theorem FileInv.step {s s' : FileSys} {op : FileOp} (h : FileInv s) (hstep : fileStep s op = some s') :
    FileInv s' := by
  -- a call is made by a process that exists
  have hcall : ∀ {p : ProcId} {t : FileSys}, (p < s.nextProc → FileInv t) →
      s.callBy p t = some s' → FileInv s' := by
    intro p t ht hcall
    unfold callBy at hcall
    split at hcall
    · rename_i hguard
      cases hcall
      exact ht hguard.1
    · cases hcall
  cases op with
  | openFile p flags grow => exact hcall (fun hp => sysOpen_inv h hp flags grow) hstep
  | pipe p grow₁ grow₂ => exact hcall (fun hp => sysPipe_inv h hp grow₁ grow₂) hstep
  | dup p fd grow => exact hcall (fun hp => sysDup_inv h hp fd grow) hstep
  | dup2 p oldFd newFd grow => exact hcall (fun hp => sysDup2_inv h hp oldFd newFd grow) hstep
  | fcntl p fd cmd arg grow => exact hcall (fun hp => sysFcntl_inv h hp fd cmd arg grow) hstep
  | close p fd => exact hcall (fun hp => freeFd_inv h hp fd) hstep
  | read p fd size => exact hcall (fun hp => sysIo_inv h hp fd (.read size)) hstep
  | write p fd src => exact hcall (fun hp => sysIo_inv h hp fd (.write src)) hstep
  | resume i =>
      unfold fileStep at hstep
      dsimp only at hstep
      split at hstep
      · cases hstep
      · rename_i c hc
        exact hcall (fun _ => resume_inv h (List.mem_of_getElem? hc)) hstep
  | fork p alloc => exact hcall (fun hp => fork_inv h hp alloc) hstep
  | exit p => exact hcall (fun hp => closeAll_inv h hp) hstep
  | reap p => exact hcall (fun hp => deleteProcess_inv h hp) hstep

/-- Nothing is open at boot. -/
theorem boot_inv : FileInv FileSys.boot where
  readers v := rfl
  writers v := rfl
  old d v hd hv := absurd hd (Nat.not_lt_zero d)
  refs d hd := by
    rcases hd with ⟨p, -, hmem⟩ | ⟨c, hc, -⟩
    · cases hmem
    · cases hc

/-- The counts of every pipe are the numbers of live descriptions of its ends,
in every state of every run. -/
theorem endsMatch_always (ops : List FileOp) : Always fileStep EndsMatch FileSys.boot ops :=
  Always.mono (fun _ => FileInv.endsMatch) (always_of_inv (fun _ _ _ => FileInv.step) ops boot_inv)

end Ceryx.Fs
