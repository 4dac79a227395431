import Ceryx.Fs.BrokenPipe
import Ceryx.Fs.SplitIo

/-!
# Ceryx.Fs.VectoredIo — sys_readv and sys_writev

The vectored calls, next to `sys_read` of the total length and `sys_write` of the
concatenated buffers, on a pipe or on a file of the RAM file system.

* `ReadvEqual`, `WritevEqual`: what the single call does without waiting the vectored
  one does as well; and its result is the number of bytes that it has transferred.
* `ReadvMeets`, `WritevMeets`: where that is so. A `Read` for the next buffer waits when
  the buffers before it have emptied the pipe; each `Write` without readers adds the
  value of `-EPIPE` to the total; an error behind the first buffer is returned for the
  bytes before it; and the end of a buffer may wrap at 2^64 by itself.
* `readvEqual_file`, `readvEqual_pipe`: `ReadvMeets` is exact.
-/

namespace Ceryx.Fs

open Lib Proc

namespace FdState

variable {V : Type} (vm : RamFs.VmObject V)

/-! ## The property -/

/-- The bytes of a file. -/
def fileByte (s : FdState V) (vnode p : Nat) : UInt8 :=
  RamFs.pageByte vm s.mem (s.tree.node vnode).toRamFsNode p

/-- Two states have the same offset in description `d`, and the same pipe or file. -/
structure SameEnd (d : DescId) (s s' : FdState V) : Prop where
  offset : (s'.descs d).offset = (s.descs d).offset
  pipe : ∀ v, (s.descs d).vnode = .pipe v → s'.pipes v = s.pipes v
  size : (s.descs d).vnode = .other → (s'.tree.node (s.fileOf d)).size =
    (s.tree.node (s.fileOf d)).size
  bytes : (s.descs d).vnode = .other → ∀ p < (s.tree.node (s.fileOf d)).size,
    s'.fileByte vm (s.fileOf d) p = s.fileByte vm (s.fileOf d) p

/-- How many bytes `FileDescription::Write` puts into the pipe or the file before it
ends or waits. -/
def stored (s : FdState V) (d : DescId) (src : List UInt8) : Nat :=
  match (s.descs d).vnode with
  | .pipe v => ((s.pipes v).write src).2.buffer.items.length - (s.pipes v).buffer.items.length
  | .other =>
      (RamFs.storedBytes vm (s.tree.node (s.fileOf d)).toRamFsNode src (s.descs d).offset
        s.pages).length

/-- How many bytes the loop of `sys_writev` transfers. -/
def transferred (d : DescId) : List (List UInt8) → FdState V → Nat
  | [], _ => 0
  | src :: rest, s =>
      if src.length = 0 then transferred d rest s
      else
        s.stored vm d src +
          match s.descWrite vm d src with
          | (.inl (.ok _), s) => transferred d rest s
          | (.inl (.error _), _) => 0
          | (.inr _, _) => 0

/-- `sys_readv` is `sys_read` of the total length. -/
structure ReadvEqual (s : FdState V) (p : ProcId) (fd : Nat) (d : DescId) (lens : List Nat) :
    Prop where
  same : ∀ r bytes s₁, s.sysRead vm p fd lens.sum = ((.returns r, bytes), s₁) →
    ∃ s₂, s.sysReadv vm p fd (some lens) = ((.returns r, bytes), s₂) ∧ SameEnd vm d s₁ s₂
  count : ∀ r bytes s₂, s.sysReadv vm p fd (some lens) = ((.returns r, bytes), s₂) →
    bytes ≠ [] → r = bytes.length

/-- `sys_writev` is `sys_write` of the concatenated buffers. -/
structure WritevEqual (s : FdState V) (p : ProcId) (fd : Nat) (d : DescId)
    (bufs : List (List UInt8)) : Prop where
  same : ∀ r s₁, s.sysWrite vm p fd bufs.flatten = (.returns r, s₁) →
    ∃ s₂, s.sysWritev vm p fd (some bufs) = (.returns r, s₂) ∧ SameEnd vm d s₁ s₂
  count : ∀ r s₂, s.sysWritev vm p fd (some bufs) = (.returns r, s₂) →
    0 < s.transferred vm d bufs → r = s.transferred vm d bufs

/-! ## The conditions -/

/-- The description is on a pipe, or on a regular file with its pages. -/
def OnPipeOrFile (conv : RamFs.Convention) (s : FdState V) (d : DescId) : Prop :=
  (s.descs d).vnode = .other → s.device (s.fileOf d) = none ∧
    ∃ table, RamFs.NodeInv vm conv (s.tree.node (s.fileOf d)).toRamFsNode table

/-- The reads of the file return together what one returns, from the same bytes. -/
structure FileReadsMeet (conv : RamFs.Convention) (s : FdState V) (vnode offset : Nat)
    (lens : List Nat) : Prop where
  count : offset < (s.tree.node vnode).size →
    (RamFs.Overreads (s.tree.node vnode).size (offset + lens.sum) ↔
      ∃ x, RamFs.firstPast (s.tree.node vnode).size lens offset = some x ∧
        RamFs.Overreads (s.tree.node vnode).size x)
  bytes : conv = .basePlusOffset ∨
    (RamFs.splitPlaces conv (s.tree.node vnode).size lens offset).map (s.fileByte vm vnode) =
      ((List.range (RamFs.readN (s.tree.node vnode).size lens.sum offset)).map
        (RamFs.readPlace conv offset)).map (s.fileByte vm vnode)

/-- No buffer ends where the bytes in the pipe do, unless that is the end. -/
def PipeReadsMeet (p : Pipe kDefaultCapacity) (lens : List Nat) : Prop :=
  p.writers = 0 ∨ p.buffer.items = [] ∨ lens.sum ≤ p.buffer.items.length ∨
    ∀ k, (lens.take k).sum ≠ p.buffer.items.length

/-- The condition for `readv`, on a pipe and on a file. -/
def ReadvMeets (conv : RamFs.Convention) (s : FdState V) (d : DescId) (lens : List Nat) : Prop :=
  match (s.descs d).vnode with
  | .pipe v => PipeReadsMeet (s.pipes v) lens
  | .other => FileReadsMeet vm conv s (s.fileOf d) (s.descs d).offset lens

/-- The ends of the buffers that are not empty. -/
def ends : List (List UInt8) → Nat → List Nat
  | [], _ => []
  | src :: rest, offset =>
      if src.length = 0 then ends rest offset
      else RamFs.usizeAdd offset src.length :: ends rest (RamFs.usizeAdd offset src.length)

/-- How many bytes the resident pages and the results of `AllocatePage` are enough
for. -/
def roomFor (s : FdState V) (vnode offset size : Nat) : Nat :=
  match (s.tree.node vnode).vmo with
  | some vmo => RamFs.reach vm size offset size 0 vmo s.pages
  | none => 0

/-- There are pages for all, and no buffer ends behind the end that one `Write` leaves;
or there is no page for the first byte. -/
def FileWritesMeet (s : FdState V) (vnode offset : Nat) (bufs : List (List UInt8)) : Prop :=
  (s.roomFor vm vnode offset bufs.flatten.length = bufs.flatten.length ∧
    (∀ e ∈ ends bufs offset,
      e ≤ RamFs.grownSize (s.tree.node vnode).size bufs.flatten.length offset) ∧
    (bufs.flatten = [] → offset ≤ (s.tree.node vnode).size)) ∨
  (s.roomFor vm vnode offset bufs.flatten.length = 0 ∧ bufs.flatten ≠ [])

/-- A reader is left, or there is just one `Write`. -/
def PipeWritesMeet (p : Pipe kDefaultCapacity) (bufs : List (List UInt8)) : Prop :=
  p.readers ≠ 0 ∨ (bufs.filter fun src => src.length ≠ 0).length = 1

/-- The condition for `writev`. -/
def WritevMeets (s : FdState V) (d : DescId) (bufs : List (List UInt8)) : Prop :=
  match (s.descs d).vnode with
  | .pipe v => PipeWritesMeet (s.pipes v) bufs
  | .other => FileWritesMeet vm s (s.fileOf d) (s.descs d).offset bufs

/-- Each buffer but the first goes where the one before it would have gone on. -/
def Joined (conv : RamFs.Convention) : List (List UInt8) → Nat → Prop
  | [], _ => True
  | src :: rest, offset =>
      (src = [] ∨ rest.flatten = [] ∨
        RamFs.Seamless conv (RamFs.usizeAdd offset src.length)) ∧
      Joined conv rest (RamFs.usizeAdd offset src.length)

/-- The writes to a file get their bytes to the right places. -/
def WritesPlaced (conv : RamFs.Convention) (s : FdState V) (d : DescId)
    (bufs : List (List UInt8)) : Prop :=
  (s.descs d).vnode = .other → Joined conv bufs (s.descs d).offset

/-! ## States -/

/-- Two wrapping additions are one. -/
theorem usizeAdd_assoc (a b c : Nat) :
    RamFs.usizeAdd (RamFs.usizeAdd a b) c = RamFs.usizeAdd a (b + c) :=
  (RamFs.usizeAdd_add a b c).symm

/-- Setting the offset that is there. -/
theorem setOffset_self (s : FdState V) (d : DescId) : s.setOffset d (s.descs d).offset = s := by
  unfold setOffset FileSys.updDesc
  dsimp only
  rw [Function.update_eq_self]

/-- What it sets. -/
@[simp] theorem setOffset_descs (s : FdState V) (d : DescId) (o : Nat) :
    (s.setOffset d o).descs d = { s.descs d with offset := o } := Function.update_self ..

/-- Moving on from it. -/
theorem setOffset_advance (s : FdState V) (d : DescId) (o n : Nat) :
    (s.setOffset d o).advance d n = s.setOffset d (RamFs.usizeAdd o n) := by
  unfold setOffset advance FileSys.advance FileSys.updDesc
  dsimp only
  rw [Function.update_self, Function.update_idem]
  rfl

/-- The state with another pipe and another offset. -/
def onPipe (s : FdState V) (d : DescId) (v : PipeId) (pipe : Pipe kDefaultCapacity) (o : Nat) :
    FdState V :=
  { s with toFileSys := (s.setPipe v pipe).updDesc d fun x => { x with offset := o } }

/-- A pipe and an offset that are there. -/
theorem onPipe_self (s : FdState V) (d : DescId) (v : PipeId) :
    s.onPipe d v (s.pipes v) (s.descs d).offset = s := by
  unfold onPipe FileSys.updDesc FileSys.setPipe
  dsimp only
  rw [Function.update_eq_self, Function.update_eq_self]

section
variable (s : FdState V) (d : DescId) (v : PipeId) (pipe : Pipe kDefaultCapacity) (o : Nat)

/-- What is set of the description. -/
@[simp] theorem onPipe_descs : (s.onPipe d v pipe o).descs d = { s.descs d with offset := o } :=
  Function.update_self ..

/-- What is set of the pipe. -/
@[simp] theorem onPipe_pipes : (s.onPipe d v pipe o).pipes v = pipe := Function.update_self ..

/-- The pipe may be replaced once more, -/
theorem onPipe_setPipe (pipe' : Pipe kDefaultCapacity) :
    { s.onPipe d v pipe o with toFileSys := (s.onPipe d v pipe o).setPipe v pipe' } =
      s.onPipe d v pipe' o := by
  unfold onPipe FileSys.updDesc FileSys.setPipe
  dsimp only
  rw [Function.update_idem]

/-- the offset moved on, -/
theorem onPipe_advance (n : Nat) :
    (s.onPipe d v pipe o).advance d n = s.onPipe d v pipe (RamFs.usizeAdd o n) := by
  unfold onPipe advance FileSys.advance FileSys.updDesc
  dsimp only
  rw [Function.update_self, Function.update_idem]
  rfl

/-- or both. -/
theorem onPipe_took (pipe' : Pipe kDefaultCapacity) (n : Nat) :
    { s.onPipe d v pipe o with
      toFileSys := ((s.onPipe d v pipe o).setPipe v pipe').advance d n } =
      s.onPipe d v pipe' (RamFs.usizeAdd o n) := by
  rw [← onPipe_advance, ← onPipe_setPipe s d v pipe o pipe']
  rfl

end

/-! ## Reads of a file -/

section
variable {vm : RamFs.VmObject V} {conv : RamFs.Convention} {s : FdState V} {d : DescId}

/-- A `read` that does not wait. -/
theorem sysRead_returns {p : ProcId} {fd size n : Nat} {bytes : List UInt8} {s' : FdState V}
    (hfd : getFd (s.tables p) fd = some d)
    (hread : s.descRead vm d size = some (.ok (n, bytes), s')) :
    s.sysRead vm p fd size = ((.returns n, bytes), s') := by
  unfold sysRead
  rw [hfd]
  dsimp only
  rw [hread]

/-- A call that waits has no result. -/
theorem sysRead_waits {p : ProcId} {fd size : Nat} (hfd : getFd (s.tables p) fd = some d)
    (hread : s.descRead vm d size = none) (r : Int) (bytes : List UInt8) (s' : FdState V) :
    s.sysRead vm p fd size ≠ ((.returns r, bytes), s') := by
  intro hreturns
  unfold sysRead at hreturns
  rw [hfd] at hreturns
  dsimp only at hreturns
  rw [hread] at hreturns
  cases hreturns

/-- `readv` on a descriptor that is open, with buffers: the loop decides. -/
theorem sysReadv_eq {p : ProcId} {fd : Nat} (hfd : getFd (s.tables p) fd = some d)
    {lens : List Nat} (hlens : lens ≠ []) :
    s.sysReadv vm p fd (some lens) = readvLoop vm d lens 0 [] s := by
  unfold sysReadv
  rw [hfd]
  cases lens with
  | nil => exact absurd rfl hlens
  | cons len rest => rfl

/-- A read of a regular file, from any offset. -/
theorem descRead_file {table : Nat → Option Nat}
    (hnode : RamFs.NodeInv vm conv (s.tree.node (s.fileOf d)).toRamFsNode table)
    (hother : (s.descs d).vnode = .other) (hdev : s.device (s.fileOf d) = none) {o : Nat}
    (ho : o < 2 ^ 64) (len : Nat) :
    (s.setOffset d o).descRead vm d len =
      some (.ok (RamFs.readN (s.tree.node (s.fileOf d)).size len o,
        ((List.range (RamFs.readN (s.tree.node (s.fileOf d)).size len o)).map
          (RamFs.readPlace conv o)).map (s.fileByte vm (s.fileOf d))),
        s.setOffset d (RamFs.usizeAdd o (RamFs.readN (s.tree.node (s.fileOf d)).size len o))) := by
  have hread : (s.setOffset d o).vnodeRead vm (s.fileOf d) len o =
      .ok (RamFs.readN (s.tree.node (s.fileOf d)).size len o,
        ((List.range (RamFs.readN (s.tree.node (s.fileOf d)).size len o)).map
          (RamFs.readPlace conv o)).map (s.fileByte vm (s.fileOf d))) := by
    -- bytes are those of the page table
    have hbytes : s.fileByte vm (s.fileOf d) = RamFs.fileBytes s.mem table :=
      funext fun p => hnode.pageByte_eq s.mem p
    unfold vnodeRead
    have hdev' : (s.setOffset d o).device (s.fileOf d) = none := hdev
    rw [hdev', hbytes, List.map_map]
    refine (hnode.read_eq s.mem len ho).trans ?_
    unfold RamFs.readN
    split
    · rfl
    · rfl
  unfold descRead
  have hvnode : ((s.setOffset d o).descs d).vnode = .other := by
    rw [setOffset_descs]
    exact hother
  rw [hvnode]
  have hoffset : ((s.setOffset d o).descs d).offset = o := by rw [setOffset_descs]
  dsimp only
  rw [hoffset, show (s.setOffset d o).fileOf d = s.fileOf d from rfl, hread]
  dsimp only
  rw [setOffset_advance]

/-- The whole loop over one; the induction is on the buffers, and each read starts where
the last has ended. -/
theorem readvLoop_file {table : Nat → Option Nat}
    (hnode : RamFs.NodeInv vm conv (s.tree.node (s.fileOf d)).toRamFsNode table)
    (hother : (s.descs d).vnode = .other) (hdev : s.device (s.fileOf d) = none)
    (lens : List Nat) {total : Nat} (htotal : total < 2 ^ 64) (bytes : List UInt8) {o : Nat}
    (ho : o < 2 ^ 64) :
    readvLoop vm d lens total bytes (s.setOffset d o) =
      ((.returns (RamFs.usizeAdd total
          (RamFs.splitCount (s.tree.node (s.fileOf d)).size lens o)),
        bytes ++ (RamFs.splitPlaces conv (s.tree.node (s.fileOf d)).size lens o).map
          (s.fileByte vm (s.fileOf d))),
        s.setOffset d (RamFs.usizeAdd o
          (RamFs.splitCount (s.tree.node (s.fileOf d)).size lens o))) := by
  induction lens generalizing total bytes o with
  | nil =>
      unfold readvLoop RamFs.splitCount RamFs.splitPlaces
      rw [List.map_nil, List.append_nil, RamFs.usizeAdd_eq htotal, RamFs.usizeAdd_eq ho]
      rfl
  | cons len rest ih =>
      unfold readvLoop RamFs.splitCount RamFs.splitPlaces
      -- an empty buffer is skipped; a short read ends the loop
      by_cases hlen : len = 0
      · rw [if_pos hlen, if_pos hlen, if_pos hlen]
        exact ih htotal bytes ho
      · rw [if_neg hlen, if_neg hlen, if_neg hlen, descRead_file hnode hother hdev ho]
        dsimp only
        split
        · rw [List.append_nil]
        · rw [ih (RamFs.usizeAdd_lt _ _) _ (RamFs.usizeAdd_lt _ _), List.map_append,
            List.append_assoc, usizeAdd_assoc, usizeAdd_assoc]

/-- The reads of a file meet the property where their counts and places do. -/
theorem readvEqual_file {p : ProcId} {fd : Nat} (hfd : getFd (s.tables p) fd = some d)
    {table : Nat → Option Nat}
    (hnode : RamFs.NodeInv vm conv (s.tree.node (s.fileOf d)).toRamFsNode table)
    (hother : (s.descs d).vnode = .other) (hdev : s.device (s.fileOf d) = none)
    (hoffset : (s.descs d).offset < 2 ^ 64) {lens : List Nat} (hlens : lens ≠ [])
    (hsum : lens.sum < 2 ^ 64) :
    ReadvEqual vm s p fd d lens ↔
      FileReadsMeet vm conv s (s.fileOf d) (s.descs d).offset lens := by
  have hfile := hnode.bound
  have hcount := @RamFs.splitCount_eq_iff _ lens _ hoffset hfile hsum
  have hle := RamFs.splitCount_le hfile lens (s.descs d).offset
  have hlength := @RamFs.splitPlaces_length (s.tree.node (s.fileOf d)).size conv lens
    (s.descs d).offset
  have hread := descRead_file hnode hother hdev hoffset lens.sum
  have hloop := readvLoop_file hnode hother hdev lens (show 0 < 2 ^ 64 by decide) [] hoffset
  rw [setOffset_self] at hread hloop
  rw [List.nil_append, RamFs.usizeAdd_eq (by omega), Nat.zero_add] at hloop
  have hsingle := sysRead_returns hfd hread
  have hvectored := @sysReadv_eq V vm s d p fd hfd lens hlens
  rw [hloop] at hvectored
  -- both calls return, so all there is to compare is what they do
  constructor
  · intro h
    obtain ⟨s₂, hsame, -⟩ := h.same _ _ _ hsingle
    rw [hvectored] at hsame
    injection hsame with hres hstate
    injection hres with hreturns hbytes
    injection hreturns with hint
    have heq := Int.ofNat.inj hint
    exact ⟨hcount.mp heq, .inr hbytes⟩
  · intro h
    have heq := hcount.mpr h.count
    have hbytes : (RamFs.splitPlaces conv (s.tree.node (s.fileOf d)).size lens
        (s.descs d).offset).map (s.fileByte vm (s.fileOf d)) =
        ((List.range (RamFs.readN (s.tree.node (s.fileOf d)).size lens.sum
          (s.descs d).offset)).map (RamFs.readPlace conv (s.descs d).offset)).map
            (s.fileByte vm (s.fileOf d)) := by
      rcases h.bytes with hconv | hbytes
      · subst hconv
        rw [RamFs.splitPlaces_straight lens hoffset, heq]
        congr 1
        exact List.map_congr_left fun j _ => (RamFs.readPlace_straight hoffset j).symm
      · exact hbytes
    constructor
    · intro r bytes s₁ hreturns
      rw [hsingle] at hreturns
      cases hreturns
      rw [hvectored, heq, hbytes]
      exact ⟨_, rfl, rfl, fun _ _ => rfl, fun _ => rfl, fun _ _ _ => rfl⟩
    · intro r bytes s₂ hreturns _
      rw [hvectored] at hreturns
      cases hreturns
      rw [List.length_map, hlength]

/-! ## Reads of a pipe -/

/-- A read of a pipe. -/
theorem descRead_pipe (vm : RamFs.VmObject V) {v : PipeId} (hvnode : (s.descs d).vnode = .pipe v)
    (pipe : Pipe kDefaultCapacity) (o len : Nat) :
    (s.onPipe d v pipe o).descRead vm d len =
      match pipe.read len with
      | none => none
      | some (n, bytes, pipe') =>
          some (.ok (n, bytes), s.onPipe d v pipe' (RamFs.usizeAdd o n)) := by
  unfold descRead
  rw [onPipe_descs]
  dsimp only
  rw [hvnode]
  dsimp only
  rw [onPipe_pipes]
  -- a read of a pipe waits, or moves the offset by what it has taken
  cases pipe.read len with
  | none => rfl
  | some res =>
      dsimp only
      rw [onPipe_took]

/-- The reads of a pipe return, unless one of them finds it empty. -/
theorem readvLoop_pipe (vm : RamFs.VmObject V) {v : PipeId}
    (hvnode : (s.descs d).vnode = .pipe v) (lens : List Nat) {total : Nat}
    (htotal : total < 2 ^ 64) (bytes : List UInt8) (pipe : Pipe kDefaultCapacity)
    {o : Nat} (ho : o < 2 ^ 64)
    (h : pipe.writers = 0 ∨ lens.sum ≤ pipe.buffer.items.length ∨
      ∀ k, (lens.take k).sum ≠ pipe.buffer.items.length) :
    readvLoop vm d lens total bytes (s.onPipe d v pipe o) =
      ((.returns (RamFs.usizeAdd total (min lens.sum pipe.buffer.items.length)),
        bytes ++ pipe.buffer.items.take lens.sum),
        s.onPipe d v (pipe.taken lens.sum)
          (RamFs.usizeAdd o (min lens.sum pipe.buffer.items.length))) := by
  induction lens generalizing total bytes pipe o with
  | nil =>
      unfold readvLoop
      rw [List.sum_nil, Nat.zero_min, RamFs.usizeAdd_eq htotal, RamFs.usizeAdd_eq ho,
        List.take_zero, List.append_nil, Pipe.taken_zero]
      rfl
  | cons len rest ih =>
      rw [List.sum_cons] at h ⊢
      unfold readvLoop
      by_cases hlen : len = 0
      · subst hlen
        rw [if_pos rfl, Nat.zero_add]
        rw [Nat.zero_add] at h
        refine ih htotal bytes pipe ho (h.imp_right (Or.imp_right fun hno k => ?_))
        have hk := hno (k + 1)
        rw [List.take_succ_cons, List.sum_cons, Nat.zero_add] at hk
        exact hk
      · -- the pipe is not empty, or there is no writer to wait for
        have hready : pipe.buffer.items ≠ [] ∨ pipe.writers = 0 := by
          rcases h with hw | hall | hno
          · exact .inr hw
          · left
            apply List.ne_nil_of_length_pos
            omega
          · left
            intro hempty
            apply hno 0
            rw [hempty]
            rfl
        rw [if_neg hlen, descRead_pipe vm hvnode, Pipe.read_eq len hready]
        dsimp only
        have hitems : (pipe.taken len).buffer.items.length = pipe.buffer.items.length - len :=
          List.length_drop
        split
        · -- a short read takes all there is
          rename_i hshort
          have hless : pipe.buffer.items.length < len := by omega
          have hmin : min (len + rest.sum) pipe.buffer.items.length =
              min len pipe.buffer.items.length := by omega
          rw [hmin, List.take_of_length_le (Nat.le_of_lt hless),
            List.take_of_length_le (show pipe.buffer.items.length ≤ len + rest.sum by omega),
            Pipe.taken_all (Nat.le_of_lt hless),
            Pipe.taken_all (show pipe.buffer.items.length ≤ len + rest.sum by omega)]
        · have hmin : min len pipe.buffer.items.length = len := by omega
          have hsplit : min (len + rest.sum) pipe.buffer.items.length =
              len + min rest.sum (pipe.taken len).buffer.items.length := by omega
          have hrest : (pipe.taken len).writers = 0 ∨
              rest.sum ≤ (pipe.taken len).buffer.items.length ∨
              ∀ k, (rest.take k).sum ≠ (pipe.taken len).buffer.items.length := by
            refine h.imp id (Or.imp (fun hall => by omega) fun hno k => ?_)
            have hk := hno (k + 1)
            rw [List.take_succ_cons, List.sum_cons] at hk
            omega
          rw [hmin, ih (RamFs.usizeAdd_lt _ _) _ _ (RamFs.usizeAdd_lt _ _) hrest, hsplit,
            usizeAdd_assoc, usizeAdd_assoc, Pipe.taken_taken, List.take_add, List.append_assoc]
          rfl

/-- A read that finds the pipe empty waits. -/
theorem readvLoop_pipe_waits (vm : RamFs.VmObject V) {v : PipeId}
    (hvnode : (s.descs d).vnode = .pipe v) (lens : List Nat) (total : Nat) (bytes : List UInt8)
    (pipe : Pipe kDefaultCapacity) (o : Nat)
    (hw : pipe.writers ≠ 0) (hless : pipe.buffer.items.length < lens.sum) {k : Nat}
    (hk : (lens.take k).sum = pipe.buffer.items.length) :
    (readvLoop vm d lens total bytes (s.onPipe d v pipe o)).1.1 = .waits := by
  induction lens generalizing total bytes pipe o k with
  | nil => exact absurd hless (Nat.not_lt_zero _)
  | cons len rest ih =>
      rw [List.sum_cons] at hless
      unfold readvLoop
      by_cases hlen : len = 0
      · subst hlen
        rw [if_pos rfl]
        rw [Nat.zero_add] at hless
        cases k with
        | zero => exact ih total bytes pipe o hw hless (k := 0) hk
        | succ k =>
            rw [List.take_succ_cons, List.sum_cons, Nat.zero_add] at hk
            exact ih total bytes pipe o hw hless hk
      · rw [if_neg hlen, descRead_pipe vm hvnode]
        by_cases hempty : pipe.buffer.items = []
        · rw [Pipe.read_waits len hempty hw]
        · have hpos := List.length_pos_iff.mpr hempty
          cases k with
          | zero =>
              rw [List.take_zero, List.sum_nil] at hk
              omega
          | succ k =>
              -- this read is a full one, and the pipe runs empty behind it
              rw [List.take_succ_cons, List.sum_cons] at hk
              have hitems : (pipe.taken len).buffer.items.length =
                  pipe.buffer.items.length - len := List.length_drop
              have hmin : min len pipe.buffer.items.length = len := by omega
              rw [Pipe.read_eq len (.inl hempty)]
              dsimp only
              rw [hmin, if_neg (Nat.lt_irrefl len)]
              exact ih _ _ (pipe.taken len) _ hw (by omega) (k := k) (by omega)

/-- The reads of a pipe meet the property where none of them finds it emptied by those
before. -/
theorem readvEqual_pipe {p : ProcId} {fd : Nat} (hfd : getFd (s.tables p) fd = some d)
    {v : PipeId} (hvnode : (s.descs d).vnode = .pipe v) (hoffset : (s.descs d).offset < 2 ^ 64)
    {lens : List Nat} (hlens : lens ≠ []) (hsum : lens.sum < 2 ^ 64) :
    ReadvEqual vm s p fd d lens ↔ PipeReadsMeet (s.pipes v) lens := by
  have hread := descRead_pipe vm hvnode (s.pipes v) (s.descs d).offset lens.sum
  rw [onPipe_self] at hread
  have hvectored := @sysReadv_eq V vm s d p fd hfd lens hlens
  by_cases hstuck : (s.pipes v).writers ≠ 0 ∧ (s.pipes v).buffer.items.length < lens.sum ∧
      ∃ k, (lens.take k).sum = (s.pipes v).buffer.items.length
  · -- the vectored read waits
    obtain ⟨hw, hless, k, hk⟩ := hstuck
    have hwaits := readvLoop_pipe_waits vm hvnode lens 0 [] (s.pipes v)
      (s.descs d).offset hw hless hk
    rw [onPipe_self, ← hvectored] at hwaits
    have hnever : ∀ r bytes s₂,
        s.sysReadv vm p fd (some lens) ≠ ((.returns r, bytes), s₂) := by
      intro r bytes s₂ hreturns
      rw [hreturns] at hwaits
      cases hwaits
    by_cases hempty : (s.pipes v).buffer.items = []
    · refine iff_of_true ⟨?_, fun r bytes s₂ h => absurd h (hnever r bytes s₂)⟩ (.inr (.inl hempty))
      intro r bytes s₁ hreturns
      rw [Pipe.read_waits lens.sum hempty hw] at hread
      exact absurd hreturns (sysRead_waits hfd hread r bytes s₁)
    · refine iff_of_false ?_ ?_
      · intro h
        rw [Pipe.read_eq lens.sum (.inl hempty)] at hread
        obtain ⟨s₂, hsame, -⟩ := h.same _ _ _ (sysRead_returns hfd hread)
        exact hnever _ _ _ hsame
      · rintro (hno | hno | hno | hno)
        · exact hw hno
        · exact hempty hno
        · omega
        · exact hno k hk
  · have hready : (s.pipes v).writers = 0 ∨ lens.sum ≤ (s.pipes v).buffer.items.length ∨
        ∀ k, (lens.take k).sum ≠ (s.pipes v).buffer.items.length := by
      by_contra hno
      push Not at hno
      exact hstuck ⟨hno.1, hno.2.1, hno.2.2⟩
    have hloop := readvLoop_pipe vm hvnode lens (show 0 < 2 ^ 64 by decide) [] (s.pipes v)
      hoffset hready
    rw [onPipe_self, List.nil_append, RamFs.usizeAdd_eq (by omega), Nat.zero_add, ← hvectored]
      at hloop
    refine iff_of_true ⟨?_, ?_⟩ (hready.imp id fun h => .inr h)
    · intro r bytes s₁ hreturns
      rcases (s.pipes v).read_cases lens.sum with ⟨hempty, hw, -⟩ | hother
      · rw [Pipe.read_waits lens.sum hempty hw] at hread
        exact absurd hreturns (sysRead_waits hfd hread r bytes s₁)
      · have hnot : (s.pipes v).buffer.items ≠ [] ∨ (s.pipes v).writers = 0 :=
          hother.elim (fun h => .inr h.2.1) fun h => .inl h.1
        rw [Pipe.read_eq lens.sum hnot] at hread
        rw [sysRead_returns hfd hread] at hreturns
        cases hreturns
        exact ⟨_, hloop, rfl, fun _ _ => rfl, fun _ => rfl, fun _ _ _ => rfl⟩
    · intro r bytes s₂ hreturns _
      rw [hloop] at hreturns
      cases hreturns
      rw [List.length_take]

end

end FdState

end Ceryx.Fs
