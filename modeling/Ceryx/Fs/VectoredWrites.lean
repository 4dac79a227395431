import Ceryx.Fs.VectoredIo

/-!
# Ceryx.Fs.VectoredWrites — sys_writev over its calls of Write

* `writevEqual_pipe`: on a pipe `WritevMeets` is exact.
* `writevLoop_file`: on a file the calls of `Write` end as one of all the bytes does, with
  the same pages, and with the same memory where the buffers are `Joined`.
* `grownOver`: where they leave the end of the file.
* `meets_of_writevEqual`, `writevEqual_of_meets`: so `WritevMeets` is necessary, and
  enough where the bytes get to the right places.
-/

namespace Ceryx.Fs

open Lib Proc Vfs

namespace FdState

variable {V : Type} {vm : RamFs.VmObject V} {conv : RamFs.Convention} {s : FdState V} {d : DescId}

/-! ## Writes to a pipe -/

/-- A write to a pipe moves the description's offset by what the pipe has taken. -/
theorem descWrite_pipe (vm : RamFs.VmObject V) {v : PipeId} (hvnode : (s.descs d).vnode = .pipe v)
    (pipe : Pipe kDefaultCapacity) (o : Nat) (src : List UInt8) :
    (s.onPipe d v pipe o).descWrite vm d src =
      match pipe.write src with
      | (.waits written, pipe') => (.inr written, s.onPipe d v pipe' o)
      | (.returned r, pipe') =>
          (.inl (.ok r.value), s.onPipe d v pipe' (RamFs.usizeAdd o r.value)) := by
  unfold descWrite
  rw [onPipe_descs]
  dsimp only
  rw [hvnode]
  dsimp only
  rw [onPipe_pipes]
  unfold pipeEnd
  rw [onPipe_setPipe]
  -- only a call that returns moves the offset
  rcases pipe.write src with ⟨r | written, pipe'⟩
  · dsimp only
    rw [onPipe_advance]
  · rfl

/-- What has been stored is what the ring buffer has gained, also by a write that waits.
-/
theorem stored_pipe (vm : RamFs.VmObject V) {v : PipeId} (hvnode : (s.descs d).vnode = .pipe v)
    (pipe : Pipe kDefaultCapacity) (o : Nat) (src : List UInt8) :
    (s.onPipe d v pipe o).stored vm d src =
      (pipe.write src).2.buffer.items.length - pipe.buffer.items.length := by
  unfold stored
  rw [onPipe_descs]
  dsimp only
  rw [hvnode]
  dsimp only
  rw [onPipe_pipes]

/-- With a reader and room for all, all is written. -/
theorem writevLoop_room (vm : RamFs.VmObject V) {v : PipeId} (hvnode : (s.descs d).vnode = .pipe v)
    (bufs : List (List UInt8)) {total : Nat} (htotal : total < 2 ^ 64)
    {pipe : Pipe kDefaultCapacity} {o : Nat} (ho : o < 2 ^ 64) (hopen : pipe.readers ≠ 0)
    (hroom : bufs.flatten.length + pipe.buffer.items.length ≤ kDefaultCapacity) :
    ∃ pipe', pipe.write bufs.flatten = (.returned (.bytes bufs.flatten.length), pipe') ∧
      writevLoop vm d bufs total (s.onPipe d v pipe o) =
        (.returns (RamFs.usizeAdd total bufs.flatten.length),
          s.onPipe d v pipe' (RamFs.usizeAdd o bufs.flatten.length)) ∧
      transferred vm d bufs (s.onPipe d v pipe o) = bufs.flatten.length := by
  obtain ⟨pipe₁, hall, hpipe₁⟩ := Pipe.write_room hopen hroom
  refine ⟨pipe₁, hall, ?_⟩
  induction bufs generalizing total pipe o with
  | nil =>
      have hsame : pipe = pipe₁ :=
        Pipe.eq_of_items (by rw [hpipe₁.items, List.flatten_nil, List.append_nil])
          hpipe₁.readers.symm hpipe₁.writers.symm
      unfold writevLoop transferred
      rw [List.flatten_nil, List.length_nil, RamFs.usizeAdd_eq htotal, RamFs.usizeAdd_eq ho, hsame]
      exact ⟨rfl, rfl⟩
  | cons src rest ih =>
      rw [List.flatten_cons] at hpipe₁ hroom hall ⊢
      rw [List.length_append] at hroom ⊢
      unfold writevLoop transferred
      by_cases hsrc : src.length = 0
      · have hnil := List.eq_nil_of_length_eq_zero hsrc
        subst hnil
        rw [if_pos hsrc, if_pos hsrc, List.length_nil, Nat.zero_add]
        rw [List.length_nil, Nat.zero_add] at hroom
        exact ih htotal ho hopen hroom hall hpipe₁
      · obtain ⟨pipe₂, hfirst, hpipe₂⟩ := Pipe.write_room hopen
          (show src.length + pipe.buffer.items.length ≤ kDefaultCapacity by omega)
        have hitems := congrArg List.length hpipe₂.items
        rw [List.length_append] at hitems
        have hopen₂ : pipe₂.readers ≠ 0 := by
          rw [hpipe₂.readers]
          exact hopen
        have hroom₂ : rest.flatten.length + pipe₂.buffer.items.length ≤ kDefaultCapacity := by
          omega
        -- the rest leaves the pipe as the one `Write` does
        obtain ⟨pipe₃, hrest, hpipe₃⟩ := Pipe.write_room hopen₂ hroom₂
        have hsame : pipe₃ = pipe₁ := by
          apply Pipe.eq_of_items
          · rw [hpipe₃.items, hpipe₂.items, hpipe₁.items, List.append_assoc]
          · rw [hpipe₃.readers, hpipe₂.readers, hpipe₁.readers]
          · rw [hpipe₃.writers, hpipe₂.writers, hpipe₁.writers]
        rw [hsame] at hrest hpipe₃
        obtain ⟨hloop, hmoved⟩ := ih (RamFs.usizeAdd_lt total src.length)
          (RamFs.usizeAdd_lt o src.length) hopen₂ hroom₂ hrest hpipe₃
        rw [if_neg hsrc, if_neg hsrc, descWrite_pipe vm hvnode, stored_pipe vm hvnode, hfirst]
        dsimp only
        have hvalue : WriteResult.value (.bytes src.length) = src.length := rfl
        rw [hvalue, hloop, hmoved, usizeAdd_assoc, usizeAdd_assoc]
        exact ⟨rfl, by omega⟩

/-- With a reader and without room for all, it waits. -/
theorem writevLoop_full (vm : RamFs.VmObject V) {v : PipeId} (hvnode : (s.descs d).vnode = .pipe v)
    (bufs : List (List UInt8)) (total : Nat) {pipe : Pipe kDefaultCapacity} (o : Nat)
    (hopen : pipe.readers ≠ 0)
    (hfull : kDefaultCapacity < bufs.flatten.length + pipe.buffer.items.length) :
    (writevLoop vm d bufs total (s.onPipe d v pipe o)).1 = .waits := by
  induction bufs generalizing total pipe o with
  | nil =>
      have hfits := pipe.buffer.fits
      rw [List.flatten_nil, List.length_nil] at hfull
      omega
  | cons src rest ih =>
      rw [List.flatten_cons, List.length_append] at hfull
      unfold writevLoop
      by_cases hsrc : src.length = 0
      · rw [if_pos hsrc]
        exact ih total o hopen (by omega)
      · rw [if_neg hsrc, descWrite_pipe vm hvnode]
        by_cases hroom : src.length + pipe.buffer.items.length ≤ kDefaultCapacity
        · -- this buffer fits, so what is behind it does not
          obtain ⟨pipe₂, hfirst, hpipe₂⟩ := Pipe.write_room hopen hroom
          have hitems := congrArg List.length hpipe₂.items
          rw [List.length_append] at hitems
          rw [hfirst]
          dsimp only
          refine ih _ _ ?_ (by omega)
          rw [hpipe₂.readers]
          exact hopen
        · -- this one does not
          obtain ⟨written, pipe₂, hwaits⟩ := Pipe.write_full hopen (Nat.lt_of_not_le hroom)
          rw [hwaits]

/-- Without a reader each `Write` adds the value of `-EPIPE`. -/
theorem writevLoop_broken (vm : RamFs.VmObject V) {v : PipeId}
    (hvnode : (s.descs d).vnode = .pipe v) (bufs : List (List UInt8)) {total : Nat}
    (htotal : total < 2 ^ 64)
    {pipe : Pipe kDefaultCapacity} {o : Nat} (ho : o < 2 ^ 64) (hzero : pipe.readers = 0) :
    writevLoop vm d bufs total (s.onPipe d v pipe o) =
        (.returns (RamFs.usizeAdd total
            ((bufs.filter fun src => src.length ≠ 0).length * (2 ^ 64 - 32))),
          s.onPipe d v pipe (RamFs.usizeAdd o
            ((bufs.filter fun src => src.length ≠ 0).length * (2 ^ 64 - 32)))) ∧
      transferred vm d bufs (s.onPipe d v pipe o) = 0 := by
  induction bufs generalizing total o with
  | nil =>
      unfold writevLoop transferred
      rw [List.filter_nil, List.length_nil, Nat.zero_mul, RamFs.usizeAdd_eq htotal,
        RamFs.usizeAdd_eq ho]
      exact ⟨rfl, rfl⟩
  | cons src rest ih =>
      unfold writevLoop transferred
      by_cases hsrc : src.length = 0
      · rw [if_pos hsrc, if_pos hsrc, List.filter_cons_of_neg (by simp [hsrc])]
        exact ih htotal ho
      · -- each buffer that is not empty adds the error code to count and offset
        obtain ⟨hloop, hmoved⟩ := ih (RamFs.usizeAdd_lt total (2 ^ 64 - 32))
          (RamFs.usizeAdd_lt o (2 ^ 64 - 32))
        rw [if_neg hsrc, if_neg hsrc, descWrite_pipe vm hvnode, stored_pipe vm hvnode,
          Pipe.write_broken src hzero, List.filter_cons_of_pos (by simp [hsrc])]
        dsimp only
        rw [epipe_value, hloop, hmoved, usizeAdd_assoc, usizeAdd_assoc, List.length_cons,
          Nat.succ_mul, Nat.add_comm (_ * _)]
        exact ⟨rfl, Nat.sub_self _⟩

/-- `sys_write` on a descriptor that is open. -/
theorem sysWrite_eq (vm : RamFs.VmObject V) {p : ProcId} {fd : Nat}
    (hfd : getFd (s.tables p) fd = some d) (src : List UInt8) :
    s.sysWrite vm p fd src =
      match s.descWrite vm d src with
      | (.inr written, s) => (.waits, s.block p d (.write src) written)
      | (.inl (.error e), s) => (.returns e, s)
      | (.inl (.ok n), s) => (.returns n, s) := by
  unfold sysWrite
  split
  · rename_i hnone
    cases hfd.symm.trans hnone
  · rename_i d' hsome
    obtain rfl : d = d' := Option.some.inj (hfd.symm.trans hsome)
    rfl

/-- `sys_writev` on one, with buffers to write: the loop decides. -/
theorem sysWritev_eq {p : ProcId} {fd : Nat} (hfd : getFd (s.tables p) fd = some d)
    {bufs : List (List UInt8)} (hbufs : bufs ≠ []) :
    s.sysWritev vm p fd (some bufs) = writevLoop vm d bufs 0 s := by
  unfold sysWritev
  rw [hfd]
  cases bufs with
  | nil => exact absurd rfl hbufs
  | cons src rest => rfl

/-- The writes to a pipe meet the property with a reader, or where there is just one. -/
theorem writevEqual_pipe {p : ProcId} {fd : Nat} (hfd : getFd (s.tables p) fd = some d)
    {v : PipeId} (hvnode : (s.descs d).vnode = .pipe v) (hoffset : (s.descs d).offset < 2 ^ 64)
    {bufs : List (List UInt8)} (hbufs : bufs ≠ []) (hcount : bufs.length < 2 ^ 31)
    (hbytes : bufs.flatten.length < 2 ^ 64) :
    WritevEqual vm s p fd d bufs ↔ PipeWritesMeet (s.pipes v) bufs := by
  have hwrite := descWrite_pipe vm hvnode (s.pipes v) (s.descs d).offset bufs.flatten
  have hsingle := sysWrite_eq vm hfd bufs.flatten
  have hvectored := @sysWritev_eq V vm s d p fd hfd bufs hbufs
  rw [onPipe_self] at hwrite
  by_cases hzero : (s.pipes v).readers = 0
  · obtain ⟨hloop, hmoved⟩ := writevLoop_broken vm hvnode bufs
      (show 0 < 2 ^ 64 by decide) hoffset hzero
    rw [onPipe_self] at hloop hmoved
    rw [hloop] at hvectored
    rw [Pipe.write_broken bufs.flatten hzero] at hwrite
    dsimp only at hwrite
    rw [hwrite] at hsingle
    dsimp only at hsingle
    rw [epipe_value] at hsingle
    have hle : (bufs.filter fun src => src.length ≠ 0).length ≤ bufs.length :=
      List.length_filter_le _ _
    unfold PipeWritesMeet
    generalize (bufs.filter fun src => src.length ≠ 0).length = m at hvectored hle ⊢
    constructor
    · intro h
      right
      obtain ⟨s₂, hsame, -⟩ := h.same _ _ hsingle
      rw [hvectored] at hsame
      injection hsame with hreturns
      injection hreturns with hint
      have heq := Int.ofNat.inj hint
      unfold RamFs.usizeAdd at heq
      omega
    · rintro (hno | hone)
      · exact absurd hzero hno
      · rw [hone, Nat.one_mul, RamFs.usizeAdd_eq (by decide), Nat.zero_add] at hvectored
        constructor
        · intro r s₁ hreturns
          rw [hsingle] at hreturns
          cases hreturns
          exact ⟨_, hvectored, rfl, fun _ _ => rfl, fun _ => rfl, fun _ _ _ => rfl⟩
        · intro r s₂ _ hpos
          rw [hmoved] at hpos
          exact absurd hpos (Nat.lt_irrefl 0)
  · refine iff_of_true ?_ (.inl hzero)
    by_cases hroom : bufs.flatten.length + (s.pipes v).buffer.items.length ≤ kDefaultCapacity
    · obtain ⟨pipe', hall, hloop, hmoved⟩ := writevLoop_room vm hvnode bufs
        (show 0 < 2 ^ 64 by decide) hoffset hzero hroom
      rw [onPipe_self] at hloop hmoved
      rw [hloop, RamFs.usizeAdd_eq (by omega), Nat.zero_add] at hvectored
      rw [hall] at hwrite
      dsimp only at hwrite
      rw [hwrite] at hsingle
      constructor
      · intro r s₁ hreturns
        rw [hsingle] at hreturns
        cases hreturns
        exact ⟨_, hvectored, rfl, fun _ _ => rfl, fun _ => rfl, fun _ _ _ => rfl⟩
      · intro r s₂ hreturns _
        rw [hvectored] at hreturns
        cases hreturns
        rw [hmoved]
    · -- both wait
      have hfull := Nat.lt_of_not_le hroom
      have hwaits := writevLoop_full vm hvnode bufs 0 (s.descs d).offset hzero hfull
      rw [onPipe_self, ← hvectored] at hwaits
      obtain ⟨written, pipe', hwait⟩ := Pipe.write_full hzero hfull
      rw [hwait] at hwrite
      dsimp only at hwrite
      rw [hwrite] at hsingle
      constructor
      · intro r s₁ hreturns
        rw [hsingle] at hreturns
        cases hreturns
      · intro r s₂ hreturns
        rw [hreturns] at hwaits
        cases hwaits

/-! ## Writes to a file -/

/-- The state after writes to the file of `d`. -/
def wrote (s : FdState V) (d : DescId) (w : RamFs.Writing V) (size o : Nat) : FdState V :=
  FdState.setOffset
    { s with
      toRam := w.toRam
      tree := s.tree.setNode (s.fileOf d)
        { (s.tree.node (s.fileOf d)).toRamFsNode with vmo := some w.vmo, size := size }
      pages := w.pages } d o

/-- Writing a node back as it was changes nothing. -/
theorem setNode_same (t : Vnodes V) (vnode : Nat) :
    t.setNode vnode (t.node vnode).toRamFsNode = t := by
  unfold Vnodes.setNode Vnodes.set
  rw [Function.update_eq_self]

theorem setNode_setNode (t : Vnodes V) (vnode : Nat) (node node' : RamFs.RamFsNode V) :
    (t.setNode vnode node).setNode vnode node' = t.setNode vnode node' := by
  unfold Vnodes.setNode Vnodes.set
  dsimp only
  rw [Function.update_self, Function.update_idem]

/-- A state is its own file with nothing written. -/
theorem wrote_self {vmo : V} (hvmo : (s.tree.node (s.fileOf d)).vmo = some vmo) :
    s.wrote d { s.toRam with vmo := vmo, pages := s.pages } (s.tree.node (s.fileOf d)).size
      (s.descs d).offset = s := by
  unfold wrote
  dsimp only
  rw [← hvmo, setNode_same]
  exact setOffset_self s d

section
variable (s : FdState V) (d : DescId) (w : RamFs.Writing V) (size o : Nat)

theorem wrote_descs : (s.wrote d w size o).descs d = { s.descs d with offset := o } :=
  setOffset_descs ..

theorem wrote_node : ((s.wrote d w size o).tree.node (s.fileOf d)).toRamFsNode =
    { (s.tree.node (s.fileOf d)).toRamFsNode with vmo := some w.vmo, size := size } :=
  Vnodes.setNode_self ..

/-- Moving the offset on is writing the same file at another offset. -/
theorem wrote_advance (n : Nat) :
    (s.wrote d w size o).advance d n = s.wrote d w size (RamFs.usizeAdd o n) :=
  setOffset_advance ..

/-- Another write to the file. -/
theorem wrote_next (w' : RamFs.Writing V) (size' : Nat) :
    { s.wrote d w size o with
      toRam := w'.toRam
      tree := (s.wrote d w size o).tree.setNode (s.fileOf d)
        { ((s.wrote d w size o).tree.node (s.fileOf d)).toRamFsNode with
          vmo := some w'.vmo, size := size' }
      pages := w'.pages } = s.wrote d w' size' o := by
  rw [wrote_node]
  unfold wrote setOffset FileSys.updDesc
  dsimp only
  rw [setNode_setNode]

end

/-- A write to a regular file is `RamFs` on the file's own pages and size. -/
theorem descWrite_file (vm : RamFs.VmObject V) (hother : (s.descs d).vnode = .other)
    (hdev : s.device (s.fileOf d) = none) (htype : (s.tree.node (s.fileOf d)).type = .regular)
    (w : RamFs.Writing V) (size o : Nat) (src : List UInt8) :
    (s.wrote d w size o).descWrite vm d src =
      match RamFs.writeLoop vm src o src.length 0 w with
      | (.ok n, w') =>
          (.inl (.ok n), s.wrote d w' (RamFs.grownSize size src.length o) (RamFs.usizeAdd o n))
      | (.error e, w') => (.inl (.error e), s.wrote d w' size o) := by
  have hnode := wrote_node s d w size o
  have hregular : ((s.wrote d w size o).tree.node (s.fileOf d)).type = .regular := by
    rw [hnode]
    exact htype
  have hvmo : ((s.wrote d w size o).tree.node (s.fileOf d)).vmo = some w.vmo := by rw [hnode]
  have hsize : ((s.wrote d w size o).tree.node (s.fileOf d)).size = size := by rw [hnode]
  -- `Write` goes on where the last one has stopped
  have hram : ({ (s.wrote d w size o).toRam with
      vmo := w.vmo, pages := (s.wrote d w size o).pages } : RamFs.Writing V) = w := rfl
  unfold descWrite
  rw [wrote_descs]
  dsimp only
  rw [hother]
  dsimp only
  rw [show (s.wrote d w size o).fileOf d = s.fileOf d from rfl]
  unfold vnodeWrite
  rw [show (s.wrote d w size o).device (s.fileOf d) = none from hdev]
  dsimp only
  unfold RamFs.writeRest
  rw [if_neg (not_not_intro hregular), hvmo]
  dsimp only
  rw [hram, hsize]
  rcases RamFs.writeLoop vm src o src.length 0 w with ⟨e | n, w'⟩
  · dsimp only
    have hnext := wrote_next s d w size o w' size
    rw [← hnext]
  · dsimp only
    rw [← wrote_advance, ← wrote_next s d w size o w' (RamFs.grownSize size src.length o)]

theorem stored_file (vm : RamFs.VmObject V) (hother : (s.descs d).vnode = .other)
    (w : RamFs.Writing V) (size o : Nat) (src : List UInt8) :
    (s.wrote d w size o).stored vm d src =
      RamFs.reach vm src.length o src.length 0 w.vmo w.pages := by
  have hvmo : ((s.wrote d w size o).tree.node (s.fileOf d)).vmo = some w.vmo := by
    rw [wrote_node]
  have hle := (RamFs.reach_bounds vm o src.length (Nat.zero_le src.length) w.vmo w.pages).2
  unfold stored
  rw [wrote_descs]
  dsimp only
  rw [hother]
  dsimp only
  unfold RamFs.storedBytes
  rw [show (s.wrote d w size o).fileOf d = s.fileOf d from rfl, hvmo]
  dsimp only
  rw [show (s.wrote d w size o).pages = w.pages from rfl, List.length_take]
  exact Nat.min_eq_left hle

/-- The end of the file behind the writes. -/
def grownOver : List (List UInt8) → Nat → Nat → Nat
  | [], size, _ => size
  | src :: rest, size, o =>
      if src.length = 0 then grownOver rest size o
      else grownOver rest (RamFs.grownSize size src.length o) (RamFs.usizeAdd o src.length)

/-- The writes to a file end as one `Write` of all the bytes does. -/
theorem writevLoop_file (hlaw : vm.Lawful conv) (hother : (s.descs d).vnode = .other)
    (hdev : s.device (s.fileOf d) = none) (htype : (s.tree.node (s.fileOf d)).type = .regular)
    (bufs : List (List UInt8)) {total size o : Nat} {w w₁ : RamFs.Writing V}
    (htotal : total < 2 ^ 64) (ho : o < 2 ^ 64) (hmaps : ∃ table, RamFs.Maps vm conv w.vmo table)
    {res : Except Int Nat}
    (hall : RamFs.writeLoop vm bufs.flatten o bufs.flatten.length 0 w = (res, w₁)) :
    match res with
    | .error e => (writevLoop vm d bufs total (s.wrote d w size o)).1 = .returns e
    | .ok n =>
        transferred vm d bufs (s.wrote d w size o) = n ∧
        ∃ w₂, writevLoop vm d bufs total (s.wrote d w size o) =
            (.returns (RamFs.usizeAdd total n),
              s.wrote d w₂ (grownOver bufs size o) (RamFs.usizeAdd o n)) ∧
          RamFs.SamePages w₂ w₁ ∧ (Joined conv bufs o → w₂ = w₁) := by
  induction bufs generalizing total size o w w₁ res with
  | nil =>
      cases hall
      refine ⟨rfl, w, ?_, RamFs.SamePages.refl w, fun _ => rfl⟩
      unfold writevLoop grownOver
      rw [RamFs.usizeAdd_eq htotal, RamFs.usizeAdd_eq ho]
      rfl
  | cons src rest ih =>
      rw [List.flatten_cons] at hall
      unfold writevLoop transferred grownOver Joined
      by_cases hsrc : src.length = 0
      · have hnil := List.eq_nil_of_length_eq_zero hsrc
        subst hnil
        have hstay : RamFs.usizeAdd o ([] : List UInt8).length = o := RamFs.usizeAdd_eq ho
        rw [if_pos hsrc, if_pos hsrc, if_pos hsrc, hstay]
        rw [List.nil_append] at hall
        have hrest := @ih total size o w w₁ htotal ho hmaps res hall
        cases res with
        | error e => exact hrest
        | ok n =>
            obtain ⟨hmoved, w₂, hloop, hsame, heq⟩ := hrest
            exact ⟨hmoved, w₂, hloop, hsame, fun h => heq h.2⟩
      · rw [if_neg hsrc, if_neg hsrc, if_neg hsrc, descWrite_file vm hother hdev htype,
          stored_file vm hother]
        have hreach := RamFs.writeLoop_reach vm src o src.length w (Nat.zero_le _) (Nat.sub_le _ _)
        have hmaps₂ := @RamFs.writeLoop_maps V vm conv hlaw src o src.length 0 w hmaps
        obtain ⟨table, htable⟩ := hmaps
        rcases hfirst : RamFs.writeLoop vm src o src.length 0 w with ⟨e | n, w₂⟩
        · -- the first `Write` fails, and so does the one of all
          have happend := RamFs.writeLoop_append hlaw src rest.flatten o htable hfirst
          dsimp only at happend
          rw [hall] at happend
          dsimp only at happend
          subst happend
          rfl
        · have hn := RamFs.writeLoop_all hfirst
          subst hn
          obtain ⟨hres, hpages, hseam⟩ :=
            RamFs.writeLoop_append hlaw src rest.flatten o htable hfirst
          rw [hfirst] at hreach hmaps₂
          rw [hall] at hres hpages hseam
          rcases hrest : RamFs.writeLoop vm rest.flatten (RamFs.usizeAdd o src.length)
            rest.flatten.length 0 w₂ with ⟨res₂, w₃⟩
          rw [hrest] at hres hpages hseam
          dsimp only at hres hpages hseam hmaps₂ ⊢
          have hgoes := @ih (RamFs.usizeAdd total src.length) (RamFs.grownSize size src.length o)
            (RamFs.usizeAdd o src.length) _ _ (RamFs.usizeAdd_lt _ _)
            (RamFs.usizeAdd_lt _ _) hmaps₂ _ hrest
          subst hres
          cases res₂ with
          | error e => exact hgoes
          | ok n =>
              obtain ⟨hmoved, w₄, hloop, hsame, heq⟩ := hgoes
              have hfull : RamFs.reach vm src.length o src.length 0 w.vmo w.pages =
                  src.length := by
                dsimp only at hreach
                split at hreach
                · assumption
                · cases hreach
              refine ⟨by rw [hfull, hmoved], w₄, ?_, hsame.trans hpages, ?_⟩
              · rw [hloop, usizeAdd_assoc, usizeAdd_assoc]
              · rintro ⟨hjoin, hjoined⟩
                have hnext := hjoin.resolve_left (fun h => hsrc (congrArg List.length h))
                rw [heq hjoined, hseam hnext]

/-! ### The end of the file -/

theorem le_grownSize (size len o : Nat) :
    size ≤ RamFs.grownSize size len o ∧ RamFs.usizeAdd o len ≤ RamFs.grownSize size len o := by
  unfold RamFs.grownSize
  split
  · omega
  · omega

/-- The size after a write is the largest of the old size and the end of the write,
wrapped or not. -/
theorem grownSize_le_iff (size len o x : Nat) :
    RamFs.grownSize size len o ≤ x ↔ size ≤ x ∧ RamFs.usizeAdd o len ≤ x := by
  unfold RamFs.grownSize
  split
  · omega
  · omega

/-- Over several buffers it is the largest of the old size and all their ends. -/
theorem grownOver_le_iff (bufs : List (List UInt8)) (size o x : Nat) :
    grownOver bufs size o ≤ x ↔ size ≤ x ∧ ∀ e ∈ ends bufs o, e ≤ x := by
  induction bufs generalizing size o with
  | nil => exact ⟨fun h => ⟨h, nofun⟩, fun h => h.1⟩
  | cons src rest ih =>
      unfold grownOver ends
      split
      · exact ih size o
      · rw [ih, grownSize_le_iff, List.forall_mem_cons, and_assoc]

/-- The last end is that of all the bytes. -/
theorem last_end {bufs : List (List UInt8)} (h : bufs.flatten ≠ []) (o : Nat) :
    RamFs.usizeAdd o bufs.flatten.length ∈ ends bufs o := by
  -- over the buffers; an empty one ends where it begins and adds no end
  induction bufs generalizing o with
  | nil => exact absurd rfl h
  | cons src rest ih =>
      rw [List.flatten_cons] at h ⊢
      unfold ends
      by_cases hsrc : src.length = 0
      · have hnil := List.eq_nil_of_length_eq_zero hsrc
        subst hnil
        rw [if_pos hsrc]
        exact ih h o
      · rw [if_neg hsrc, List.length_append, ← usizeAdd_assoc]
        by_cases hrest : rest.flatten = []
        · rw [hrest]
          have hlt : RamFs.usizeAdd o src.length + 0 < 2 ^ 64 := RamFs.usizeAdd_lt o src.length
          rw [List.length_nil, RamFs.usizeAdd_eq hlt]
          exact List.mem_cons_self
        · exact List.mem_cons_of_mem _ (ih hrest _)

/-- Empty buffers end nowhere: they are skipped, and do not grow the file. -/
theorem ends_nil {bufs : List (List UInt8)} (h : bufs.flatten = []) (o : Nat) :
    ends bufs o = [] := by
  induction bufs with
  | nil => rfl
  | cons src rest ih =>
      rw [List.flatten_cons] at h
      obtain ⟨hsrc, hrest⟩ := List.append_eq_nil_iff.mp h
      unfold ends
      rw [if_pos (List.length_eq_zero_iff.mpr hsrc)]
      exact ih hrest

/-- The writes leave the end that one `Write` leaves, if no buffer ends behind it. -/
theorem grownOver_eq_iff {bufs : List (List UInt8)} {size o : Nat} (ho : o < 2 ^ 64) :
    grownOver bufs size o = RamFs.grownSize size bufs.flatten.length o ↔
      (∀ e ∈ ends bufs o, e ≤ RamFs.grownSize size bufs.flatten.length o) ∧
      (bufs.flatten = [] → o ≤ size) := by
  have hover := grownOver_le_iff bufs size o (grownOver bufs size o)
  have hle := grownOver_le_iff bufs size o (RamFs.grownSize size bufs.flatten.length o)
  obtain ⟨hsize, hends⟩ := hover.mp (Nat.le_refl _)
  obtain ⟨hsize', -⟩ := le_grownSize size bufs.flatten.length o
  constructor
  · intro h
    refine ⟨(hle.mp (Nat.le_of_eq h)).2, ?_⟩
    intro hnil
    -- without bytes the file does not grow
    have hstill := (grownOver_le_iff bufs size o size).mpr
      ⟨Nat.le_refl _, by rw [ends_nil hnil]; nofun⟩
    obtain ⟨-, hend⟩ := le_grownSize size bufs.flatten.length o
    rw [← h, hnil, List.length_nil, RamFs.usizeAdd_eq ho] at hend
    exact Nat.le_trans hend hstill
  · -- the last end is the end of the whole
    rintro ⟨hbehind, hempty⟩
    apply Nat.le_antisymm (hle.mpr ⟨hsize', hbehind⟩)
    apply (grownSize_le_iff _ _ _ _).mpr
    refine ⟨hsize, ?_⟩
    by_cases hnil : bufs.flatten = []
    · rw [hnil, List.length_nil, RamFs.usizeAdd_eq ho]
      exact Nat.le_trans (hempty hnil) hsize
    · exact hends _ (last_end hnil o)

/-! ### The two calls -/

/-- Buffers without bytes in front play no part. -/
theorem first_buffer (vm : RamFs.VmObject V) (d : DescId) {bufs : List (List UInt8)}
    (h : bufs.flatten ≠ []) :
    ∃ src rest, src.length ≠ 0 ∧ bufs.flatten = src ++ rest.flatten ∧
      (∀ total s, writevLoop vm d bufs total s = writevLoop vm d (src :: rest) total s) ∧
      ∀ s, transferred vm d bufs s = transferred vm d (src :: rest) s := by
  induction bufs with
  | nil => exact absurd rfl h
  | cons src rest ih =>
      by_cases hsrc : src.length = 0
      · have hnil := List.eq_nil_of_length_eq_zero hsrc
        subst hnil
        obtain ⟨src, rest', hne, hflat, hloop, hmoved⟩ := ih h
        exact ⟨src, rest', hne, hflat, hloop, hmoved⟩
      · exact ⟨src, rest, hsrc, List.flatten_cons, fun _ _ => rfl, fun _ => rfl⟩

/-- Without a page for the first byte both calls fail at once. -/
theorem writes_fail (hother : (s.descs d).vnode = .other) (hdev : s.device (s.fileOf d) = none)
    (htype : (s.tree.node (s.fileOf d)).type = .regular) {w : RamFs.Writing V} (size : Nat)
    {o : Nat} {bufs : List (List UInt8)} (hne : bufs.flatten ≠ [])
    (hnone : (RamFs.lookupOrInsert vm w (RamFs.usizeAdd o 0)).1 = none) :
    transferred vm d bufs (s.wrote d w size o) = 0 ∧ ∃ s',
      (s.wrote d w size o).descWrite vm d bufs.flatten = (.inl (.error (-RamFs.ENOMEM)), s') ∧
      ∀ total, writevLoop vm d bufs total (s.wrote d w size o) =
        (.returns (-RamFs.ENOMEM), s') := by
  obtain ⟨src, rest, hsrc, -, hfirst, hskip⟩ := first_buffer vm d hne
  have hpos := Nat.pos_of_ne_zero hsrc
  have hall := descWrite_file vm hother hdev htype w size o bufs.flatten
  have hfail := descWrite_file vm hother hdev htype w size o src
  rw [RamFs.writeLoop_fails (List.length_pos_iff.mpr hne) _ hnone] at hall
  rw [RamFs.writeLoop_fails hpos _ hnone] at hfail
  dsimp only at hall hfail
  -- without the first page nothing is copied
  have hnothing : RamFs.reach vm src.length o src.length 0 w.vmo w.pages = 0 := by
    by_contra hsome
    exact (RamFs.reach_pos_iff vm hpos o w).mp (Nat.pos_of_ne_zero hsome) hnone
  constructor
  · rw [hskip]
    unfold transferred
    rw [if_neg hsrc, hfail, stored_file vm hother, hnothing]
    rfl
  · refine ⟨_, hall, ?_⟩
    intro total
    rw [hfirst]
    unfold writevLoop
    rw [if_neg hsrc, hfail]

/-- With one, some bytes are transferred. -/
theorem transferred_pos (vm : RamFs.VmObject V) (hother : (s.descs d).vnode = .other)
    {w : RamFs.Writing V} (size : Nat) {o : Nat} {bufs : List (List UInt8)}
    (hne : bufs.flatten ≠ [])
    (hsome : (RamFs.lookupOrInsert vm w (RamFs.usizeAdd o 0)).1 ≠ none) :
    0 < transferred vm d bufs (s.wrote d w size o) := by
  obtain ⟨src, rest, hsrc, -, -, hskip⟩ := first_buffer vm d hne
  have hpos := (RamFs.reach_pos_iff vm (Nat.pos_of_ne_zero hsrc) o w).mpr hsome
  rw [hskip]
  unfold transferred
  rw [if_neg hsrc, stored_file vm hother]
  exact Nat.add_pos_left hpos _

/-- How both calls end on a file, by the pages that there are. -/
theorem writes_file (hlaw : vm.Lawful conv) {p : ProcId} {fd : Nat}
    (hfd : getFd (s.tables p) fd = some d) {table : Nat → Option Nat}
    (hnode : RamFs.NodeInv vm conv (s.tree.node (s.fileOf d)).toRamFsNode table)
    (hother : (s.descs d).vnode = .other) (hdev : s.device (s.fileOf d) = none)
    (hoffset : (s.descs d).offset < 2 ^ 64) {bufs : List (List UInt8)} (hbufs : bufs ≠ [])
    (hbytes : bufs.flatten.length < 2 ^ 64) {room : Nat}
    (hroom : s.roomFor vm (s.fileOf d) (s.descs d).offset bufs.flatten.length = room) :
    (room = bufs.flatten.length ∧ transferred vm d bufs s = bufs.flatten.length ∧
      ∃ w₁ w₂, s.sysWrite vm p fd bufs.flatten = (.returns bufs.flatten.length,
          s.wrote d w₁ (RamFs.grownSize (s.tree.node (s.fileOf d)).size bufs.flatten.length
            (s.descs d).offset) (RamFs.usizeAdd (s.descs d).offset bufs.flatten.length)) ∧
        s.sysWritev vm p fd (some bufs) = (.returns bufs.flatten.length,
          s.wrote d w₂ (grownOver bufs (s.tree.node (s.fileOf d)).size (s.descs d).offset)
            (RamFs.usizeAdd (s.descs d).offset bufs.flatten.length)) ∧
        (Joined conv bufs (s.descs d).offset → w₂ = w₁)) ∨
    (room = 0 ∧ bufs.flatten ≠ [] ∧ transferred vm d bufs s = 0 ∧
      ∃ s', s.sysWrite vm p fd bufs.flatten = (.returns (-RamFs.ENOMEM), s') ∧
        s.sysWritev vm p fd (some bufs) = (.returns (-RamFs.ENOMEM), s')) ∨
    (0 < room ∧ room < bufs.flatten.length ∧ 0 < transferred vm d bufs s ∧
      ∃ s', s.sysWritev vm p fd (some bufs) = (.returns (-RamFs.ENOMEM), s')) := by
  obtain ⟨vmo, hvmo, hmaps⟩ := hnode.pages
  have hself := wrote_self (s := s) (d := d) hvmo
  have hsingle := sysWrite_eq vm hfd bufs.flatten
  have hvectored := @sysWritev_eq V vm s d p fd hfd bufs hbufs
  unfold roomFor at hroom
  rw [hvmo] at hroom
  dsimp only at hroom
  generalize hw : ({ s.toRam with vmo := vmo, pages := s.pages } : RamFs.Writing V) = w at hself
  have hwvmo : w.vmo = vmo := by rw [← hw]
  have hwpages : w.pages = s.pages := by rw [← hw]
  rw [← hwvmo] at hmaps
  rw [← hwvmo, ← hwpages] at hroom
  have hwrite := descWrite_file vm hother hdev hnode.type w
    (s.tree.node (s.fileOf d)).size (s.descs d).offset bufs.flatten
  have hreach := RamFs.writeLoop_reach vm bufs.flatten (s.descs d).offset bufs.flatten.length w
    (Nat.zero_le _) (Nat.sub_le _ _)
  have hbound := (RamFs.reach_bounds vm (s.descs d).offset bufs.flatten.length
    (Nat.zero_le bufs.flatten.length) w.vmo w.pages).2
  rcases hall : RamFs.writeLoop vm bufs.flatten (s.descs d).offset bufs.flatten.length 0 w with
    ⟨res, w₁⟩
  have hloop := @writevLoop_file V vm conv s d hlaw hother hdev hnode.type bufs 0
    (s.tree.node (s.fileOf d)).size (s.descs d).offset w w₁ (by decide) hoffset ⟨table, hmaps⟩ res
    hall
  rw [hall] at hreach hwrite
  rw [hroom] at hreach hbound
  dsimp only at hreach
  rw [hself] at hwrite hloop
  by_cases hfull : room = bufs.flatten.length
  · -- pages for all
    left
    rw [if_pos hfull] at hreach
    subst hreach
    dsimp only at hwrite hloop
    obtain ⟨hmoved, w₂, hwritev, -, hjoined⟩ := hloop
    rw [hwrite] at hsingle
    rw [hwritev, RamFs.usizeAdd_eq (by omega), Nat.zero_add] at hvectored
    exact ⟨hfull, hmoved, w₁, w₂, hsingle, hvectored, hjoined⟩
  · right
    rw [if_neg hfull] at hreach
    subst hreach
    dsimp only at hwrite hloop
    have hlt : room < bufs.flatten.length := by omega
    have hne : bufs.flatten ≠ [] := List.ne_nil_of_length_pos (by omega)
    have hpage := RamFs.reach_pos_iff vm (List.length_pos_iff.mpr hne) (s.descs d).offset w
    rw [hroom] at hpage
    by_cases hzero : room = 0
    · -- not even a page for the first byte
      left
      have hnone : (RamFs.lookupOrInsert vm w (RamFs.usizeAdd (s.descs d).offset 0)).1 = none := by
        by_contra hsome
        have hpos := hpage.mpr hsome
        omega
      obtain ⟨hnothing, s', hfail, hwritev⟩ := writes_fail hother hdev hnode.type
        (s.tree.node (s.fileOf d)).size hne hnone
      rw [hself] at hnothing hfail hwritev
      rw [hfail] at hsingle
      rw [hwritev] at hvectored
      exact ⟨hzero, hne, hnothing, s', hsingle, hvectored⟩
    · -- an error, with some bytes in the file
      right
      have hpos := transferred_pos vm hother (s.tree.node (s.fileOf d)).size hne
        (hpage.mp (Nat.pos_of_ne_zero hzero))
      rw [hself] at hpos
      refine ⟨Nat.pos_of_ne_zero hzero, hlt, hpos, (writevLoop vm d bufs 0 s).2, ?_⟩
      rw [hvectored]
      exact Prod.ext hloop rfl

theorem sameEnd_file (vm : RamFs.VmObject V) (s : FdState V) (d : DescId)
    {w₁ w₂ : RamFs.Writing V} {size₁ size₂ : Nat} (o : Nat) (hw : w₂ = w₁) (hsize : size₂ = size₁) :
    SameEnd vm d (s.wrote d w₁ size₁ o) (s.wrote d w₂ size₂ o) := by
  subst hw
  subst hsize
  exact ⟨rfl, fun _ _ => rfl, fun _ => rfl, fun _ _ _ => rfl⟩

/-- The writes to a file meet the property only where `FileWritesMeet` holds. -/
theorem meets_of_writevEqual (hlaw : vm.Lawful conv) {p : ProcId} {fd : Nat}
    (hfd : getFd (s.tables p) fd = some d) {table : Nat → Option Nat}
    (hnode : RamFs.NodeInv vm conv (s.tree.node (s.fileOf d)).toRamFsNode table)
    (hother : (s.descs d).vnode = .other) (hdev : s.device (s.fileOf d) = none)
    (hoffset : (s.descs d).offset < 2 ^ 64) {bufs : List (List UInt8)} (hbufs : bufs ≠ [])
    (hbytes : bufs.flatten.length < 2 ^ 64) (h : WritevEqual vm s p fd d bufs) :
    FileWritesMeet vm s (s.fileOf d) (s.descs d).offset bufs := by
  rcases writes_file hlaw hfd hnode hother hdev hoffset hbufs hbytes rfl with
    ⟨hroom, -, w₁, w₂, hsingle, hvectored, -⟩ | ⟨hroom, hne, -⟩ | ⟨-, hlt, hpos, s', hvectored⟩
  · -- the end of the file
    left
    refine ⟨hroom, ?_⟩
    apply (grownOver_eq_iff hoffset).mp
    obtain ⟨s₂, hsame, hend⟩ := h.same _ _ hsingle
    rw [hvectored] at hsame
    cases hsame
    have hvnode : ((s.wrote d w₁ (RamFs.grownSize (s.tree.node (s.fileOf d)).size
        bufs.flatten.length (s.descs d).offset)
        (RamFs.usizeAdd (s.descs d).offset bufs.flatten.length)).descs d).vnode = .other := by
      rw [wrote_descs]
      exact hother
    have hsize := hend.size hvnode
    rw [show (s.wrote d w₁ _ _).fileOf d = s.fileOf d from rfl, wrote_node, wrote_node] at hsize
    exact hsize
  · right
    exact ⟨hroom, hne⟩
  · -- an error for the bytes that are there
    have hcount := h.count _ _ hvectored hpos
    unfold RamFs.ENOMEM at hcount
    omega

/-- And there they do, if their bytes get to the right places. -/
theorem writevEqual_of_meets (hlaw : vm.Lawful conv) {p : ProcId} {fd : Nat}
    (hfd : getFd (s.tables p) fd = some d) {table : Nat → Option Nat}
    (hnode : RamFs.NodeInv vm conv (s.tree.node (s.fileOf d)).toRamFsNode table)
    (hother : (s.descs d).vnode = .other) (hdev : s.device (s.fileOf d) = none)
    (hoffset : (s.descs d).offset < 2 ^ 64) {bufs : List (List UInt8)} (hbufs : bufs ≠ [])
    (hbytes : bufs.flatten.length < 2 ^ 64) (hjoined : Joined conv bufs (s.descs d).offset)
    (h : FileWritesMeet vm s (s.fileOf d) (s.descs d).offset bufs) :
    WritevEqual vm s p fd d bufs := by
  rcases writes_file hlaw hfd hnode hother hdev hoffset hbufs hbytes rfl with
    ⟨hroom, hmoved, w₁, w₂, hsingle, hvectored, heq⟩ | ⟨-, -, hmoved, s', hsingle, hvectored⟩ |
    ⟨hpos, hlt, -⟩
  · -- both calls store every byte: the ends of the file have to agree as well
    have hends : (∀ e ∈ ends bufs (s.descs d).offset,
        e ≤ RamFs.grownSize (s.tree.node (s.fileOf d)).size bufs.flatten.length
          (s.descs d).offset) ∧
        (bufs.flatten = [] → (s.descs d).offset ≤ (s.tree.node (s.fileOf d)).size) := by
      rcases h with ⟨-, hends⟩ | ⟨hnone, hne⟩
      · exact hends
      · exfalso
        apply hne
        apply List.eq_nil_of_length_eq_zero
        omega
    have hsize := (grownOver_eq_iff hoffset).mpr hends
    constructor
    · intro r s₁ hreturns
      rw [hsingle] at hreturns
      cases hreturns
      exact ⟨_, hvectored, sameEnd_file vm s d _ (heq hjoined) hsize⟩
    · intro r s₂ hreturns _
      rw [hvectored] at hreturns
      cases hreturns
      rw [hmoved]
  · -- neither call gets a first page, and neither changes anything
    constructor
    · intro r s₁ hreturns
      rw [hsingle] at hreturns
      cases hreturns
      exact ⟨s', hvectored, rfl, fun _ _ => rfl, fun _ => rfl, fun _ _ _ => rfl⟩
    · intro r s₂ _ hsome
      rw [hmoved] at hsome
      exact absurd hsome (Nat.lt_irrefl 0)
  · -- a part of the bytes only: the condition excludes it
    rcases h with ⟨hroom, -⟩ | ⟨hnone, -⟩
    · omega
    · omega

end FdState

end Ceryx.Fs
