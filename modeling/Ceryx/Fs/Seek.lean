import Ceryx.Fs.FdCalls

/-!
# Ceryx.Fs.Seek — offsets under lseek, read and write

`sys_lseek` checks a negative `SEEK_SET` and a `SEEK_CUR` that goes below 0. It does
not check sums above 2^63 - 1, and `SEEK_END` not at all; a transfer moves the offset
on without a check, and `-EPIPE` moves it as a value does.

* `SeekExact`: the offset asked for is stored and returned, or the call is refused.
* `seekExact_iff`: this holds for exactly the sums that `SeekFits` allows.
* `InRange`: all offsets and file sizes are at most 2^63 - 1. `seekStep` has the three
  calls, and calls that go on after a wait.
* `offsets_stay_iff`: in a run the offsets stay in the range if and only if each step
  meets `StepFits`.
* `before_the_start`: `SEEK_END` to a place before the start of the file.
-/

namespace Ceryx.Fs

open Lib Proc Vfs RamFs.OpenFiles

/-- The greatest offset that `sys_lseek` can return. -/
def maxOffset : Nat := 2 ^ 63 - 1

section
variable {V : Type} (vm : RamFs.VmObject V)

/-! ## lseek -/

/-- The base for a `whence`. -/
def seekBase (s : FdState V) (d : DescId) (whence : Int) : Option Nat :=
  if whence = 0 then some 0
  else if whence = 1 then some (s.descs d).offset
  else if whence = 2 then some (s.vnodeSize d)
  else none

/-- `sys_lseek` goes to base plus displacement, or is refused without effect. -/
def SeekExact (s : FdState V) (p : ProcId) (fd : Nat) (d : DescId) (disp : BitVec 64)
    (whence : BitVec 32) : Prop :=
  (∃ base target : Nat, seekBase s d whence.toInt = some base ∧ (target : Int) = base + disp.toInt ∧
      target ≤ maxOffset ∧ s.sysLseek p fd disp whence = ((target : Int), s.setOffset d target)) ∨
    ∃ e : Int, e < 0 ∧ s.sysLseek p fd disp whence = (e, s)

/-- The sum is an offset that `sys_lseek` can return, or is refused. -/
def SeekFits (s : FdState V) (d : DescId) (disp : BitVec 64) (whence : BitVec 32) : Prop :=
  (whence.toInt = 1 → (s.descs d).offset + disp.toInt ≤ maxOffset) ∧
    (whence.toInt = 2 → 0 ≤ s.vnodeSize d + disp.toInt ∧ s.vnodeSize d + disp.toInt ≤ maxOffset)

/-! ## Runs -/

/-- The calls that move offsets: `sys_write` with the results of `AllocatePage`;
`resume` of the waiting call `i`. -/
inductive SeekOp where
  | lseek (p : ProcId) (fd : Nat) (disp : BitVec 64) (whence : BitVec 32)
  | read (p : ProcId) (fd size : Nat)
  | write (p : ProcId) (fd : Nat) (src : List UInt8) (pages : List (Option Nat))
  | resume (i : Nat)

/-- One call: `lseek`, `read`, `write`, or the next stretch of a call that waits. -/
def seekStep (s : FdState V) : SeekOp → Option (FdState V)
  | .lseek p fd disp whence => some (s.sysLseek p fd disp whence).2
  | .read p fd size => some (s.sysRead vm p fd size).2
  | .write p fd src pages => some ({ s with pages := pages }.sysWrite vm p fd src).2
  | .resume i => s.blocked[i]?.map fun c => { s with toFileSys := (s.toFileSys.resume i c).2 }

/-- The offsets of all descriptions are in the range. -/
def OffsetsIn (s : FdState V) : Prop := ∀ d, (s.descs d).offset ≤ maxOffset

/-- No call that waits has written more than its buffer. -/
def Waiting (blocked : List BlockedCall) : Prop :=
  ∀ c ∈ blocked, ∀ src, c.request = .write src → c.written ≤ src.length

/-- The sizes of all files are, too. -/
structure InRange (s : FdState V) : Prop where
  offsets : OffsetsIn s
  sizes : ∀ i, (s.tree.node i).size ≤ maxOffset
  waiting : Waiting s.blocked

/-- `n` more bytes leave the offset of the description in the range. -/
def MovesIn (s : FdState V) (d : DescId) (n : Nat) : Prop :=
  RamFs.usizeAdd (s.descs d).offset n ≤ maxOffset

/-- What a read takes from a pipe, or from `/dev/zero`. A file ends in the range. -/
def ReadFits (s : FdState V) (d : DescId) (size : Nat) : Prop :=
  match (s.descs d).vnode with
  | .pipe v => MovesIn s d (min size (s.pipes v).buffer.items.length)
  | .other => s.device (s.fileOf d) = some .zero → MovesIn s d size

/-- `Write` to a file has or gets all its pages. -/
def GetsPages (s : FdState V) (d : DescId) (src : List UInt8) (pages : List (Option Nat)) : Prop :=
  ∃ vmo, (s.tree.node (s.fileOf d)).type = .regular ∧ (s.tree.node (s.fileOf d)).vmo = some vmo ∧
    RamFs.reach vm src.length (s.descs d).offset src.length 0 vmo pages = src.length

/-- A stretch of a write to a pipe that pushes all that is left, or finds no reader. -/
def PipeFits (s : FdState V) (d : DescId) (v : PipeId) (src : List UInt8) (written : Nat) : Prop :=
  if src.length - written + (s.pipes v).buffer.items.length ≤ kDefaultCapacity then
    MovesIn s d src.length
  else (s.pipes v).readers = 0 → MovesIn s d (WriteResult.value .epipe)

/-- What a write moves: the whole buffer, or the error code of a pipe without readers. -/
def WriteFits (s : FdState V) (d : DescId) (src : List UInt8) (pages : List (Option Nat)) : Prop :=
  match (s.descs d).vnode with
  | .pipe v =>
      if (s.pipes v).readers = 0 then MovesIn s d (WriteResult.value .epipe)
      else PipeFits s d v src 0
  | .other =>
      match s.device (s.fileOf d) with
      | some dev => dev = .version ∨ MovesIn s d src.length
      | none => GetsPages vm s d src pages → MovesIn s d src.length

/-- The same for the next stretch of a call that waits. -/
def ResumeFits (s : FdState V) (c : BlockedCall) : Prop :=
  match (s.descs c.desc).vnode, c.request with
  | .other, _ => True
  | .pipe _, .read size => ReadFits s c.desc size
  | .pipe v, .write src => PipeFits s c.desc v src c.written

/-- The step leaves the offset that it moves in the range. -/
def StepFits (s : FdState V) : SeekOp → Prop
  | .lseek p fd disp whence => ∀ d, getFd (s.tables p) fd = some d → SeekFits s d disp whence
  | .read p fd size => ∀ d, getFd (s.tables p) fd = some d → ReadFits s d size
  | .write p fd src pages => ∀ d, getFd (s.tables p) fd = some d → WriteFits vm s d src pages
  | .resume i => ∀ c, s.blocked[i]? = some c → ResumeFits s c

end

variable {V : Type} {vm : RamFs.VmObject V}

/-! ## The exact sums -/

/-- A nonnegative `int64_t` keeps its value as a `size_t`. -/
theorem toUsize_of_nonneg {x : Int} (h : 0 ≤ x) (hlt : x < 2 ^ 64) : (RamFs.toUsize x : Int) = x := by
  unfold RamFs.toUsize
  rw [Int.emod_eq_of_lt h hlt, Int.toNat_of_nonneg h]

/-- `sys_lseek` of an open descriptor. -/
theorem sysLseek_open {s : FdState V} {p : ProcId} {fd : Nat} {d : DescId}
    (hopen : getFd (s.tables p) fd = some d) (disp : BitVec 64) (whence : BitVec 32) :
    s.sysLseek p fd disp whence =
      match seekTo (s.descs d).offset (s.vnodeSize d) disp.toInt whence.toInt with
      | .error e => (e, s)
      | .ok offset => (offset, s.setOffset d offset) := by
  unfold FdState.sysLseek
  split
  · rename_i hnone
    cases hopen.symm.trans hnone
  · rename_i d' hsome
    obtain rfl : d = d' := Option.some.inj (hopen.symm.trans hsome)
    rfl

/-- What `seekTo` gives, for a displacement of 64 bits. -/
theorem seekTo_cases (offset size : Nat) {x : Int} (hlow : -2 ^ 63 ≤ x) (whence : Int) :
    (seekTo offset size x whence = .error (-EINVAL) ∧
      (whence = 0 ∧ x < 0 ∨ whence = 1 ∧ offset + x < 0 ∨
        whence ≠ 0 ∧ whence ≠ 1 ∧ whence ≠ 2)) ∨
    (∃ sum : Int, seekTo offset size x whence = .ok (RamFs.toUsize sum) ∧
      (whence = 0 ∧ sum = x ∧ 0 ≤ x ∨ whence = 1 ∧ sum = offset + x ∧ 0 ≤ offset + x ∨
        whence = 2 ∧ sum = size + x)) := by
  unfold seekTo
  split
  · by_cases hneg : x < 0
    · left
      rw [if_pos hneg]
      exact ⟨rfl, .inl ⟨rfl, hneg⟩⟩
    · right
      rw [if_neg hneg]
      exact ⟨x, rfl, .inl ⟨rfl, rfl, by omega⟩⟩
  · -- `-offset` is no more than 2^63
    have hneg : x < 0 → (RamFs.toUsize (-x) : Int) = -x := by
      intro hx
      exact toUsize_of_nonneg (by omega) (by omega)
    by_cases hbelow : x < 0 ∧ offset < RamFs.toUsize (-x)
    · left
      have hsum := hneg hbelow.1
      rw [if_pos hbelow]
      exact ⟨rfl, .inr (.inl ⟨rfl, by omega⟩)⟩
    · right
      rw [if_neg hbelow]
      refine ⟨offset + x, rfl, .inr (.inl ⟨rfl, rfl, ?_⟩)⟩
      by_cases hx : x < 0
      · have hsum := hneg hx
        have hle : ¬ offset < RamFs.toUsize (-x) := fun hlt => hbelow ⟨hx, hlt⟩
        omega
      · omega
  · right
    exact ⟨size + x, rfl, .inr (.inr ⟨rfl, rfl⟩)⟩
  · rename_i h₀ h₁ h₂
    left
    exact ⟨rfl, .inr (.inr ⟨h₀, h₁, h₂⟩)⟩

theorem disp_low (disp : BitVec 64) : -2 ^ 63 ≤ disp.toInt := BitVec.le_toInt disp

theorem disp_high (disp : BitVec 64) : disp.toInt < 2 ^ 63 := BitVec.toInt_lt

/-- An offset that is stored is the one that was asked for, or the call is not exact. -/
theorem seekExact_ok {s : FdState V} {p : ProcId} {fd : Nat} {d : DescId}
    (hopen : getFd (s.tables p) fd = some d) {disp : BitVec 64} {whence : BitVec 32} {target : Nat}
    (hseek : seekTo (s.descs d).offset (s.vnodeSize d) disp.toInt whence.toInt = .ok target) :
    SeekExact s p fd d disp whence ↔ ∃ base, seekBase s d whence.toInt = some base ∧
      (target : Int) = base + disp.toInt ∧ target ≤ maxOffset := by
  have hcall := sysLseek_open hopen disp whence
  rw [hseek] at hcall
  dsimp only at hcall
  unfold SeekExact
  rw [hcall]
  constructor
  · rintro (⟨base, target', hbase, hsum, hle, heq⟩ | ⟨e, hneg, heq⟩)
    · have hsame : (target : Int) = target' := congrArg Prod.fst heq
      rw [← hsame] at hsum
      exact ⟨base, hbase, hsum, by omega⟩
    · -- a position is no error number
      have hsame : (target : Int) = e := congrArg Prod.fst heq
      omega
  · rintro ⟨base, hbase, hsum, hle⟩
    exact .inl ⟨base, target, hbase, hsum, hle, rfl⟩

/-- One `lseek`: offset and result are right exactly when the target neither overflows
nor is negative. -/
theorem seekExact_iff {s : FdState V} {p : ProcId} {fd : Nat} {d : DescId}
    (hopen : getFd (s.tables p) fd = some d) (disp : BitVec 64) (whence : BitVec 32) :
    SeekExact s p fd d disp whence ↔ SeekFits s d disp whence := by
  have hlow := disp_low disp
  have hhigh := disp_high disp
  have hmax : maxOffset = 2 ^ 63 - 1 := rfl
  rcases seekTo_cases (s.descs d).offset (s.vnodeSize d) hlow whence.toInt with
    ⟨hseek, hwhy⟩ | ⟨sum, hseek, hwhy⟩
  · -- refused
    have hcall := sysLseek_open hopen disp whence
    rw [hseek] at hcall
    refine iff_of_true (.inr ⟨-EINVAL, by decide, hcall⟩) ?_
    unfold SeekFits
    omega
  · rw [seekExact_ok hopen hseek]
    unfold SeekFits seekBase
    rcases hwhy with ⟨hw, rfl, hpos⟩ | ⟨hw, rfl, hpos⟩ | ⟨hw, rfl⟩
    · rw [if_pos hw]
      have hsum := toUsize_of_nonneg hpos (by omega)
      exact iff_of_true ⟨0, rfl, by omega, by omega⟩ (by omega)
    · rw [if_neg (by omega), if_pos hw]
      constructor
      · rintro ⟨base, hbase, hsum, hle⟩
        cases hbase
        omega
      · rintro ⟨hcur, -⟩
        have hle := hcur hw
        have hsum := toUsize_of_nonneg hpos (by omega)
        exact ⟨_, rfl, hsum, by omega⟩
    · rw [if_neg (by omega), if_neg (by omega), if_pos hw]
      constructor
      · rintro ⟨base, hbase, hsum, hle⟩
        cases hbase
        omega
      · rintro ⟨-, hend⟩
        obtain ⟨hpos, hle⟩ := hend hw
        have hsum := toUsize_of_nonneg hpos (by omega)
        exact ⟨_, rfl, hsum, by omega⟩

/-! ## One call -/

/-- The offset of one description moves on by `n` bytes. -/
def Moved (s s' : FileSys) (d : DescId) (n : Nat) : Prop :=
  ∀ e, (s'.descs e).offset =
    if e = d then RamFs.usizeAdd (s.descs d).offset n else (s.descs e).offset

/-- If the step fits it keeps the range, and otherwise an offset is out of it. -/
structure Stays (s s' : FdState V) (fits : Prop) : Prop where
  keeps : fits → InRange s'
  leaves : ¬ fits → ¬ OffsetsIn s'

theorem advance_moved (s : FileSys) (d : DescId) (n : Nat) : Moved s (s.advance d n) d n := by
  intro e
  unfold FileSys.advance FileSys.updDesc
  dsimp only
  by_cases he : e = d
  · subst he
    rw [Function.update_self, if_pos rfl]
    rfl
  · rw [Function.update_of_ne he, if_neg he]

/-- The same with another pipe. -/
theorem setPipe_moved (s : FileSys) (d : DescId) (v : PipeId) (pipe : Pipe kDefaultCapacity)
    (n : Nat) : Moved s ((s.setPipe v pipe).advance d n) d n := advance_moved (s.setPipe v pipe) d n

/-- A description that does not move, in the range. -/
theorem movesIn_zero {s : FdState V} (h : OffsetsIn s) (d : DescId) : MovesIn s d 0 := by
  have hoffset := h d
  have hmax : maxOffset = 2 ^ 63 - 1 := rfl
  unfold MovesIn
  rw [RamFs.usizeAdd_eq (by omega)]
  omega

/-- Nothing moved, for a call that fails. -/
theorem moved_refl {s : FdState V} (h : OffsetsIn s) (d : DescId) :
    Moved s.toFileSys s.toFileSys d 0 := by
  intro e
  have hoffset := h d
  have hmax : maxOffset = 2 ^ 63 - 1 := rfl
  rw [RamFs.usizeAdd_eq (by omega), Nat.add_zero]
  split
  · rename_i he
    rw [he]
  · rfl

/-- A step that moves one offset and makes files no longer than that. -/
theorem stays_of_moved {s s' : FdState V} (h : InRange s) {d : DescId} {n : Nat} {fits : Prop}
    (hmoved : Moved s.toFileSys s'.toFileSys d n) (hfits : fits ↔ MovesIn s d n)
    (hsizes : fits → ∀ i, (s'.tree.node i).size ≤ maxOffset) (hwaiting : Waiting s'.blocked) :
    Stays s s' fits where
  keeps hok := by
    refine ⟨?_, hsizes hok, hwaiting⟩
    intro e
    rw [hmoved]
    split
    · exact hfits.mp hok
    · exact h.offsets e
  leaves hno hin := by
    apply hno
    have hd := hin d
    rw [hmoved, if_pos rfl] at hd
    exact hfits.mpr hd

/-- A call that changes nothing stays in range, whatever its condition. -/
theorem stays_refl {s : FdState V} (h : InRange s) {fits : Prop} (hfits : fits) :
    Stays s s fits := ⟨fun _ => h, fun hno => absurd hfits hno⟩

/-- `sys_lseek` of an open descriptor. -/
theorem sysLseek_stays {s : FdState V} (h : InRange s) {p : ProcId} {fd : Nat} {d : DescId}
    (hopen : getFd (s.tables p) fd = some d) (disp : BitVec 64) (whence : BitVec 32) :
    Stays s (s.sysLseek p fd disp whence).2 (SeekFits s d disp whence) := by
  have hlow := disp_low disp
  have hhigh := disp_high disp
  have hmax : maxOffset = 2 ^ 63 - 1 := rfl
  have hoffset := h.offsets d
  have hsize : s.vnodeSize d ≤ maxOffset := by
    unfold FdState.vnodeSize
    split
    · exact Nat.zero_le _
    · exact h.sizes _
  rw [sysLseek_open hopen]
  rcases seekTo_cases (s.descs d).offset (s.vnodeSize d) hlow whence.toInt with
    ⟨hseek, hwhy⟩ | ⟨sum, hseek, hwhy⟩
  · rw [hseek]
    apply stays_refl h
    unfold SeekFits
    omega
  · rw [hseek]
    dsimp only
    have hset : ∀ e, ((s.setOffset d (RamFs.toUsize sum)).descs e).offset =
        if e = d then RamFs.toUsize sum else (s.descs e).offset := by
      intro e
      unfold FdState.setOffset FileSys.updDesc
      dsimp only
      by_cases he : e = d
      · rw [he, Function.update_self, if_pos rfl]
      · rw [Function.update_of_ne he, if_neg he]
    have hfits : SeekFits s d disp whence ↔ RamFs.toUsize sum ≤ maxOffset := by
      unfold SeekFits
      rcases hwhy with ⟨hw, rfl, hpos⟩ | ⟨hw, rfl, hpos⟩ | ⟨hw, rfl⟩
      · have hsum := toUsize_of_nonneg hpos (by omega)
        exact iff_of_true (by omega) (by omega)
      · have hsum := toUsize_of_nonneg hpos (by omega)
        omega
      · by_cases hpos : 0 ≤ s.vnodeSize d + disp.toInt
        · have hsum := toUsize_of_nonneg hpos (by omega)
          omega
        · -- a sum below 0 is stored as one above 2^63
          have hsum : (RamFs.toUsize (s.vnodeSize d + disp.toInt) : Int) =
              s.vnodeSize d + disp.toInt + 2 ^ 64 := by
            unfold RamFs.toUsize
            omega
          omega
    constructor
    · intro hok
      refine ⟨?_, h.sizes, h.waiting⟩
      intro e
      rw [hset]
      split
      · exact hfits.mp hok
      · exact h.offsets e
    · intro hno hin
      have hd := hin d
      rw [hset, if_pos rfl] at hd
      exact hno (hfits.mpr hd)

/-! ## Reads -/

/-- `/proc/version` is 46 bytes long. -/
theorem kVersion_length : kVersion.length = 46 := by
  unfold kVersion
  rw [List.length_map]
  rfl

/-- A file that ends in the range is read inside it. -/
theorem readCount_in {nodeSize size offset : Nat} (hsize : nodeSize ≤ maxOffset)
    (hoffset : offset < nodeSize) :
    RamFs.usizeAdd offset (RamFs.readCount nodeSize size offset) ≤ maxOffset := by
  have hmax : maxOffset = 2 ^ 63 - 1 := rfl
  unfold RamFs.readCount
  split
  · rw [RamFs.usizeAdd_eq (by omega)]
    omega
  · omega

/-- A read of a regular file stops at its size, so the offset behind it is in range. -/
theorem fileRead_in {mem : Nat → UInt8} {node : RamFs.RamFsNode V} {size offset n : Nat}
    {bytes : List UInt8} (hsize : node.size ≤ maxOffset) (hoffset : offset ≤ maxOffset)
    (hread : RamFs.read vm mem node size offset = .ok (n, bytes)) :
    RamFs.usizeAdd offset n ≤ maxOffset := by
  have hmax : maxOffset = 2 ^ 63 - 1 := rfl
  have hnone : RamFs.usizeAdd offset 0 ≤ maxOffset := by
    rw [RamFs.usizeAdd_eq (by omega)]
    exact hoffset
  unfold RamFs.read at hread
  by_cases htype : node.type = .regular
  · rw [if_neg (not_not_intro htype)] at hread
    by_cases hpast : node.size ≤ offset
    · -- at the end of the file nothing is read
      rw [if_pos hpast] at hread
      cases hread
      exact hnone
    · rw [if_neg hpast] at hread
      cases hvmo : node.vmo with
      | none =>
          rw [hvmo] at hread
          cases hread
          exact hnone
      | some vmo =>
          rw [hvmo] at hread
          dsimp only at hread
          have hcount := @RamFs.readLoop_count V vm vmo mem offset
            (RamFs.readCount node.size size offset) (RamFs.readCount node.size size offset) 0 []
            (Nat.zero_le _) (Nat.sub_le _ _)
          have hpair := Except.ok.inj hread
          rw [hpair] at hcount
          have hn : n = RamFs.readCount node.size size offset := hcount
          rw [hn]
          exact readCount_in hsize (Nat.lt_of_not_le hpast)
  · rw [if_pos htype] at hread
    cases hread

/-- So does one of `/proc/version`. -/
theorem versionRead_in (size : Nat) {offset : Nat} (hoffset : offset ≤ maxOffset) :
    RamFs.usizeAdd offset (Device.version.read size offset).1 ≤ maxOffset := by
  have hmax : maxOffset = 2 ^ 63 - 1 := rfl
  have hlength := kVersion_length
  have hread : (Device.version.read size offset).1 =
      if kVersion.length ≤ offset then 0 else min (kVersion.length - offset) size := by
    unfold Device.read
    dsimp only
    split
    · rfl
    · rfl
  rw [hread]
  split
  · rw [RamFs.usizeAdd_eq (by omega)]
    exact hoffset
  · rw [RamFs.usizeAdd_eq (by omega)]
    omega

/-- A read moves the offset on, or waits. -/
theorem descRead_moved {s s' : FdState V} (h : InRange s) {d : DescId} {size : Nat}
    {res : Except Int (Nat × List UInt8)} (hread : s.descRead vm d size = some (res, s')) :
    ∃ n, Moved s.toFileSys s'.toFileSys d n ∧ s'.tree = s.tree ∧ s'.blocked = s.blocked ∧
      (ReadFits s d size ↔ MovesIn s d n) := by
  have hzero := movesIn_zero h.offsets d
  unfold FdState.descRead at hread
  unfold ReadFits
  cases hvnode : (s.descs d).vnode with
  | pipe v =>
    rw [hvnode] at hread
    dsimp only at hread ⊢
    -- a read that waits is none of these
    rcases Pipe.read_cases (s.pipes v) size with ⟨-, -, hpipe⟩ | ⟨hempty, -, hpipe⟩ | ⟨-, hpipe⟩
    · rw [hpipe] at hread
      cases hread
    · rw [hpipe] at hread
      cases hread
      refine ⟨0, setPipe_moved s.toFileSys d v _ 0, rfl, rfl, ?_⟩
      rw [hempty, List.length_nil, Nat.min_zero]
    · rw [hpipe] at hread
      cases hread
      refine ⟨_, setPipe_moved s.toFileSys d v _ _, rfl, rfl, ?_⟩
      rw [(Fifo.popMany_eq size (s.pipes v).buffer).1, List.length_take]
  | other =>
    rw [hvnode] at hread
    dsimp only at hread ⊢
    unfold FdState.vnodeRead at hread
    cases hdev : s.device (s.fileOf d) with
    | some dev =>
        rw [hdev] at hread
        dsimp only at hread
        cases hread
        refine ⟨_, advance_moved s.toFileSys d _, rfl, rfl, ?_⟩
        -- only `/dev/zero` returns whatever size it is asked for
        cases dev with
        | null => exact iff_of_true nofun hzero
        | zero => exact ⟨fun hfits => hfits rfl, fun hin _ => hin⟩
        | tty => exact iff_of_true nofun hzero
        | version => exact iff_of_true nofun (versionRead_in size (h.offsets d))
    | none =>
        rw [hdev] at hread
        dsimp only at hread
        cases hfile : RamFs.read vm s.mem (s.tree.node (s.fileOf d)).toRamFsNode size
          (s.descs d).offset with
        | error e =>
            rw [hfile] at hread
            cases hread
            exact ⟨0, moved_refl h.offsets d, rfl, rfl, iff_of_true nofun hzero⟩
        | ok r =>
            rw [hfile] at hread
            cases hread
            exact ⟨r.1, advance_moved s.toFileSys d r.1, rfl, rfl,
              iff_of_true nofun (fileRead_in (h.sizes _) (h.offsets d) hfile)⟩

/-- Only an empty pipe makes a reader wait. -/
theorem readFits_of_waits {s : FdState V} (h : InRange s) {d : DescId} {size : Nat}
    (hread : s.descRead vm d size = none) : ReadFits s d size := by
  unfold FdState.descRead at hread
  unfold ReadFits
  cases hvnode : (s.descs d).vnode with
  | pipe v =>
      rw [hvnode] at hread
      dsimp only at hread ⊢
      -- a pipe that makes a reader wait is empty
      rcases Pipe.read_cases (s.pipes v) size with ⟨hempty, -, -⟩ | ⟨-, -, hpipe⟩ | ⟨-, hpipe⟩
      · rw [hempty, List.length_nil, Nat.min_zero]
        exact movesIn_zero h.offsets d
      · rw [hpipe] at hread
        cases hread
      · rw [hpipe] at hread
        cases hread
  | other =>
      rw [hvnode] at hread
      dsimp only at hread
      split at hread
      · cases hread
      · cases hread

/-! ## Writes -/

theorem setNode_size (t : Vnodes V) (vnode : Nat) (node : RamFs.RamFsNode V) (i : Nat) :
    ((t.setNode vnode node).node i).size = if i = vnode then node.size else (t.node i).size := by
  by_cases hi : i = vnode
  · rw [if_pos hi, hi, Vnodes.setNode_self]
  · rw [if_neg hi, Vnodes.setNode_other t vnode node hi]

/-- A call of `Write` on a file: it writes all and moves the end of the file, or fails. -/
theorem fileWrite_cases (s : FdState V) (d : DescId) (src : List UInt8)
    (hdev : s.device (s.fileOf d) = none) :
    (GetsPages vm s d src s.pages ∧ ∃ s',
      s.vnodeWrite vm (s.fileOf d) src (s.descs d).offset = (.ok src.length, s') ∧
      s'.toFileSys = s.toFileSys ∧ ∀ i, (s'.tree.node i).size =
        if i = s.fileOf d then RamFs.grownSize (s.tree.node i).size src.length (s.descs d).offset
        else (s.tree.node i).size) ∨
    (¬ GetsPages vm s d src s.pages ∧ ∃ e s',
      s.vnodeWrite vm (s.fileOf d) src (s.descs d).offset = (.error e, s') ∧
      s'.toFileSys = s.toFileSys ∧ ∀ i, (s'.tree.node i).size = (s.tree.node i).size) := by
  unfold FdState.vnodeWrite RamFs.writeRest GetsPages
  rw [hdev]
  dsimp only
  have hsame : ∀ node : RamFs.RamFsNode V, node.size = (s.tree.node (s.fileOf d)).size →
      ∀ i, ((s.tree.setNode (s.fileOf d) node).node i).size = (s.tree.node i).size := by
    intro node hnode i
    rw [setNode_size]
    split
    · rename_i hi
      rw [hi]
      exact hnode
    · rfl
  by_cases htype : (s.tree.node (s.fileOf d)).type = .regular
  · rw [if_neg (not_not_intro htype)]
    cases hvmo : (s.tree.node (s.fileOf d)).vmo with
    | none =>
        right
        refine ⟨?_, _, _, rfl, rfl, hsame _ rfl⟩
        rintro ⟨vmo, -, hsome, -⟩
        cases hsome
    | some vmo =>
        dsimp only
        have hres := @RamFs.writeLoop_reach V vm src (s.descs d).offset src.length 0
          { s.toRam with vmo := vmo, pages := s.pages } (Nat.zero_le _) (Nat.sub_le _ _)
        rcases hloop : RamFs.writeLoop vm src (s.descs d).offset src.length 0
          { s.toRam with vmo := vmo, pages := s.pages } with ⟨res, w⟩
        rw [hloop] at hres
        dsimp only at hres
        split at hres
        · -- it has or gets all its pages
          rename_i hreach
          subst hres
          left
          refine ⟨⟨vmo, htype, rfl, hreach⟩, _, rfl, rfl, ?_⟩
          intro i
          dsimp only
          rw [setNode_size]
          split
          · rename_i hi
            rw [hi]
          · rfl
        · rename_i hreach
          subst hres
          right
          refine ⟨?_, _, _, rfl, rfl, hsame _ rfl⟩
          rintro ⟨vmo', -, hsome, hall⟩
          cases hsome
          exact hreach hall
  · rw [if_pos htype]
    right
    refine ⟨?_, _, _, rfl, rfl, hsame _ rfl⟩
    rintro ⟨vmo, hregular, -⟩
    exact htype hregular

/-- A write moves the offset by what `WriteFits` looks at. -/
theorem descWrite_moved {s : FdState V} (h : InRange s) (d : DescId) (src : List UInt8) :
    ∃ n, Moved s.toFileSys (s.descWrite vm d src).2.toFileSys d n ∧
      (s.descWrite vm d src).2.blocked = s.blocked ∧
      (WriteFits vm s d src s.pages ↔ MovesIn s d n) ∧
      (WriteFits vm s d src s.pages → ∀ i,
        ((s.descWrite vm d src).2.tree.node i).size ≤ maxOffset) ∧
      ∀ written, (s.descWrite vm d src).1 = .inr written → written ≤ src.length := by
  have hzero := movesIn_zero h.offsets d
  have hstill := moved_refl h.offsets d
  unfold FdState.descWrite WriteFits
  cases hvnode : (s.descs d).vnode with
  | pipe v =>
      dsimp only
      unfold FdState.pipeEnd
      by_cases hreaders : (s.pipes v).readers = 0
      · -- the value of `-EPIPE`
        rw [Pipe.write_broken src hreaders, if_pos hreaders]
        exact ⟨_, setPipe_moved s.toFileSys d v _ _, rfl, Iff.rfl, fun _ => h.sizes, nofun⟩
      · -- all is pushed, or the call waits
        rw [Pipe.write_open src hreaders, if_neg hreaders]
        unfold PipeFits
        rcases Pipe.writeLoop_outcome src src.length (s.pipes v) (Nat.zero_le _) (Nat.sub_le _ _)
          with ⟨hroom, hout⟩ | ⟨hroom, ⟨hno, -⟩ | ⟨-, total, hlt, hout⟩⟩
        · rw [hout, if_pos hroom]
          exact ⟨_, setPipe_moved s.toFileSys d v _ _, rfl, Iff.rfl, fun _ => h.sizes, nofun⟩
        · exact absurd hno hreaders
        · rw [hout, if_neg (Nat.not_le.mpr hroom)]
          refine ⟨0, hstill, rfl, iff_of_true (fun hno => absurd hno hreaders) hzero,
            fun _ => h.sizes, ?_⟩
          intro written hwritten
          cases hwritten
          exact Nat.le_of_lt hlt
  | other =>
      dsimp only
      cases hdev : s.device (s.fileOf d) with
      | some dev =>
          have hcall : s.vnodeWrite vm (s.fileOf d) src (s.descs d).offset =
              (dev.write src.length, s) := by
            unfold FdState.vnodeWrite
            rw [hdev]
          rw [hcall]
          dsimp only
          by_cases hversion : dev = .version
          · -- the one device without a `write_cb`
            subst hversion
            exact ⟨0, hstill, rfl, iff_of_true (.inl rfl) hzero, fun _ => h.sizes, nofun⟩
          · have hok : dev.write src.length = .ok src.length := by
              cases dev with
              | version => contradiction
              | _ => rfl
            rw [hok]
            exact ⟨src.length, advance_moved s.toFileSys d _, rfl, or_iff_right hversion,
              fun _ => h.sizes, nofun⟩
      | none =>
          dsimp only
          rcases @fileWrite_cases V vm s d src hdev with
            ⟨hpages, s', hcall, hfs, hsizes⟩ | ⟨hno, e, s', hcall, hfs, hsizes⟩
          · -- all is written: the offset and the end of the file go to the same place
            rw [hcall]
            dsimp only
            have hmoved := advance_moved s.toFileSys d src.length
            rw [← hfs] at hmoved
            refine ⟨src.length, ?_, ?_, ⟨fun hfits => hfits hpages, fun hin _ => hin⟩, ?_, nofun⟩
            · rw [← hfs]
              exact hmoved
            · change s'.blocked = s.blocked
              rw [hfs]
            · intro hfits i
              have hin := hfits hpages
              have hsize := h.sizes i
              change (s'.tree.node i).size ≤ maxOffset
              rw [hsizes]
              split
              · unfold RamFs.grownSize
                split
                · exact hin
                · exact hsize
              · exact hsize
          · rw [hcall]
            dsimp only
            refine ⟨0, ?_, ?_, iff_of_true (fun hpages => absurd hpages hno) hzero, ?_, nofun⟩
            · rw [hfs]
              exact hstill
            · exact congrArg FileSys.blocked hfs
            · intro _ i
              rw [hsizes]
              exact h.sizes i

/-! ## Calls that go on -/

/-- The end of a wait does not touch offsets. -/
theorem settle_offset (s : FileSys) (d e : DescId) :
    ((s.settle d).descs e).offset = (s.descs e).offset := by
  unfold FileSys.settle
  split
  · rfl
  · unfold FileSys.destroy FileSys.updDesc
    dsimp only
    -- `Close` of the vnode counts ends
    have hdescs : (s.closeVnode (s.descs d).vnode (s.descs d).flags).descs = s.descs := by
      unfold FileSys.closeVnode
      split
      · rfl
      · split
        · split
          · rfl
          · rfl
        · split
          · rfl
          · rfl
    rw [hdescs]
    by_cases he : e = d
    · rw [he, Function.update_self]
    · rw [Function.update_of_ne he]

/-- A stretch from a wait on moves the offset by what `ResumeFits` looks at. -/
theorem stretch_moved {s : FdState V} (h : InRange s) {c : BlockedCall} (hc : c ∈ s.blocked) :
    ∃ n, Moved s.toFileSys (s.toFileSys.stretch c.desc c.request (some c.written)).2 c.desc n ∧
      (ResumeFits s c ↔ MovesIn s c.desc n) ∧
      ∀ written, (s.toFileSys.stretch c.desc c.request (some c.written)).1 = .waits written →
        ∀ src, c.request = .write src → written ≤ src.length := by
  have hzero := movesIn_zero h.offsets c.desc
  have hstill := moved_refl h.offsets c.desc
  unfold FileSys.stretch ResumeFits
  cases hvnode : (s.descs c.desc).vnode with
  | other => exact ⟨0, hstill, iff_of_true trivial hzero, nofun⟩
  | pipe v =>
      cases hrequest : c.request with
      | read size =>
          dsimp only
          unfold FileSys.readStretch ReadFits
          rw [hvnode]
          dsimp only
          rcases Pipe.read_cases (s.pipes v) size with
            ⟨hempty, -, hpipe⟩ | ⟨hempty, -, hpipe⟩ | ⟨-, hpipe⟩
          · -- still empty, and it waits again
            rw [hpipe, hempty, List.length_nil, Nat.min_zero]
            exact ⟨0, hstill, Iff.rfl, fun _ _ _ => nofun⟩
          · rw [hpipe, hempty, List.length_nil, Nat.min_zero]
            exact ⟨0, setPipe_moved s.toFileSys c.desc v _ 0, Iff.rfl, nofun⟩
          · rw [hpipe]
            refine ⟨_, setPipe_moved s.toFileSys c.desc v _ _, ?_, nofun⟩
            rw [(Fifo.popMany_eq size (s.pipes v).buffer).1, List.length_take]
      | write src =>
          dsimp only
          have hwritten := h.waiting c hc src hrequest
          unfold FileSys.writeStretch Pipe.rewrite PipeFits
          rcases Pipe.writeLoop_outcome src (src.length - c.written) (s.pipes v) hwritten
            (Nat.le_refl _) with ⟨hroom, hout⟩ | ⟨hroom, ⟨hreaders, hout⟩ | ⟨hopen, total, hlt, hout⟩⟩
          · rw [hout, if_pos hroom]
            exact ⟨_, setPipe_moved s.toFileSys c.desc v _ _, Iff.rfl, nofun⟩
          · rw [hout, if_neg (Nat.not_le.mpr hroom)]
            refine ⟨_, setPipe_moved s.toFileSys c.desc v _ _, ?_, nofun⟩
            exact ⟨fun hfits => hfits hreaders, fun hin _ => hin⟩
          · rw [hout, if_neg (Nat.not_le.mpr hroom)]
            refine ⟨0, hstill, iff_of_true (fun hno => absurd hno hopen) hzero, ?_⟩
            intro written hwaits src' hsrc
            cases hwaits
            cases hsrc
            exact Nat.le_of_lt hlt

/-- A waiting call stays in range exactly when what it has moved fits. -/
theorem resume_stays {s : FdState V} (h : InRange s) {i : Nat} {c : BlockedCall}
    (hi : s.blocked[i]? = some c) :
    Stays s { s with toFileSys := (s.toFileSys.resume i c).2 } (ResumeFits s c) := by
  have hc : c ∈ s.blocked := List.mem_of_getElem? hi
  obtain ⟨n, hmoved, hfits, hwaits⟩ := stretch_moved h hc
  have hblocked := (stretch_spec s.toFileSys c.desc c.request (some c.written)).blocked
  rcases hstretch : s.toFileSys.stretch c.desc c.request (some c.written) with ⟨written | rax, s₁⟩
  · -- the call waits again
    have hresume : s.toFileSys.resume i c = (.waits written,
        { s₁ with blocked := s₁.blocked.set i { c with written := written } }) := by
      unfold FileSys.resume
      rw [hstretch]
    rw [hstretch] at hmoved hwaits hblocked
    rw [hresume]
    apply @stays_of_moved V s _ h c.desc n
    · exact hmoved
    · exact hfits
    · exact fun _ => h.sizes
    · intro c' hc' src hsrc
      rcases List.mem_or_eq_of_mem_set hc' with hold | rfl
      · exact h.waiting c' (hblocked ▸ hold) src hsrc
      · exact hwaits written rfl src hsrc
  · have hresume : s.toFileSys.resume i c = (.returns rax,
        { s₁ with blocked := s₁.blocked.eraseIdx i }.settle c.desc) := by
      unfold FileSys.resume
      rw [hstretch]
    rw [hstretch] at hmoved hblocked
    rw [hresume]
    apply @stays_of_moved V s _ h c.desc n
    · intro e
      dsimp only
      rw [settle_offset]
      exact hmoved e
    · exact hfits
    · exact fun _ => h.sizes
    · dsimp only
      rw [settle_eq]
      intro c' hc'
      exact h.waiting c' (hblocked ▸ List.mem_of_mem_eraseIdx hc')

/-! ## Runs -/

/-- A step on the description that a descriptor or a number stands for. -/
theorem stays_at {α : Type} {s s' : FdState V} {o : Option α} {a : α} {fits : α → Prop}
    (ha : o = some a) (h : Stays s s' (fits a)) : Stays s s' (∀ b, o = some b → fits b) where
  keeps hok := h.keeps (hok a ha)
  leaves hno := by
    apply h.leaves
    intro hfits
    apply hno
    intro b hb
    rw [ha] at hb
    cases hb
    exact hfits

/-- A descriptor that is not open. -/
theorem stays_closed {s : FdState V} (h : InRange s) {o : Option DescId} (ho : o = none)
    (fits : DescId → Prop) : Stays s s (∀ d, o = some d → fits d) := by
  apply stays_refl h
  intro d hd
  rw [ho] at hd
  cases hd

/-- So does `read`, by what its file gives. -/
theorem sysRead_stays {s : FdState V} (h : InRange s) (p : ProcId) (fd size : Nat) :
    Stays s (s.sysRead vm p fd size).2
      (∀ d, getFd (s.tables p) fd = some d → ReadFits s d size) := by
  unfold FdState.sysRead
  cases hfd : getFd (s.tables p) fd with
  | none => exact stays_closed h rfl _
  | some d =>
      apply stays_at rfl
      dsimp only
      rcases hread : s.descRead vm d size with _ | ⟨res, s'⟩
      · -- it waits, with nothing moved
        apply @stays_of_moved V s _ h d 0
        · exact moved_refl h.offsets d
        · exact iff_of_true (readFits_of_waits h hread) (movesIn_zero h.offsets d)
        · exact fun _ => h.sizes
        · intro c hc src hsrc
          change c ∈ s.blocked ++ _ at hc
          rcases List.mem_append.mp hc with hold | hnew
          · exact h.waiting c hold src hsrc
          · rw [List.mem_singleton.mp hnew] at hsrc
            cases hsrc
      · -- it returns
        obtain ⟨n, hmoved, htree, hblocked, hfits⟩ := descRead_moved h hread
        have hstays : Stays s s' (ReadFits s d size) := by
          apply stays_of_moved h hmoved hfits
          · intro _
            rw [htree]
            exact h.sizes
          · rw [hblocked]
            exact h.waiting
        rcases res with e | ⟨count, bytes⟩
        · exact hstays
        · exact hstays

/-- The results of `AllocatePage` do not move offsets. -/
theorem withPages_inRange {s : FdState V} (h : InRange s) (pages : List (Option Nat)) :
    InRange { s with pages := pages } := ⟨h.offsets, h.sizes, h.waiting⟩

/-- And `write`, by what its file takes. -/
theorem sysWrite_stays {s : FdState V} (h : InRange s) (p : ProcId) (fd : Nat) (src : List UInt8) :
    Stays s (s.sysWrite vm p fd src).2
      (∀ d, getFd (s.tables p) fd = some d → WriteFits vm s d src s.pages) := by
  unfold FdState.sysWrite
  cases hfd : getFd (s.tables p) fd with
  | none => exact stays_closed h rfl _
  | some d =>
      apply stays_at rfl
      dsimp only
      obtain ⟨n, hmoved, hblocked, hfits, hsizes, hwaits⟩ := @descWrite_moved V vm s h d src
      rcases hwrite : s.descWrite vm d src with ⟨res | written, s'⟩
      · rw [hwrite] at hmoved hblocked hsizes
        have hstays : Stays s s' (WriteFits vm s d src s.pages) := by
          apply stays_of_moved h hmoved hfits hsizes
          dsimp only at hblocked
          rw [hblocked]
          exact h.waiting
        rcases res with e | n
        · exact hstays
        · exact hstays
      · -- it waits, with less written than its buffer has
        rw [hwrite] at hmoved hblocked hsizes hwaits
        dsimp only
        apply @stays_of_moved V s (s'.block p d (.write src) written) h d n _ hmoved hfits hsizes
        intro c hc src' hsrc
        change c ∈ s'.blocked ++ _ at hc
        rcases List.mem_append.mp hc with hold | hnew
        · dsimp only at hblocked
          rw [hblocked] at hold
          exact h.waiting c hold src' hsrc
        · rw [List.mem_singleton.mp hnew] at hsrc ⊢
          cases hsrc
          exact hwaits written rfl

/-- One step, by the kind of call. -/
theorem step_stays {s s' : FdState V} (h : InRange s) {op : SeekOp}
    (hstep : seekStep vm s op = some s') : Stays s s' (StepFits vm s op) := by
  unfold seekStep at hstep
  cases op with
  | lseek p fd disp whence =>
      cases hstep
      cases hfd : getFd (s.tables p) fd with
      | none =>
          -- a closed descriptor
          have hsame : (s.sysLseek p fd disp whence).2 = s := by
            unfold FdState.sysLseek
            rw [hfd]
          rw [hsame]
          exact stays_closed h hfd _
      | some d => exact stays_at hfd (sysLseek_stays h hfd disp whence)
  | read p fd size =>
      cases hstep
      exact sysRead_stays h p fd size
  | write p fd src pages =>
      cases hstep
      have hstays := @sysWrite_stays V vm _ (withPages_inRange h pages) p fd src
      exact ⟨hstays.keeps, hstays.leaves⟩
  | resume i =>
      obtain ⟨c, hc, rfl⟩ := Option.map_eq_some_iff.mp hstep
      exact stays_at hc (resume_stays h hc)

/-- In every run the offsets stay in the range, if and only if the steps fit. -/
theorem offsets_stay_iff {s : FdState V} (h : InRange s) (ops : List SeekOp) :
    Always (seekStep vm) OffsetsIn s ops ↔ StepsMeet (seekStep vm) (StepFits vm) s ops :=
  always_iff_stepsMeet_of (fun _ hin => hin.offsets)
    (fun _ _ _ (_ : True) hin hok hstep => (step_stays hin hstep).keeps hok)
    (fun _ _ _ (_ : True) hin hno hstep => (step_stays hin hstep).leaves hno) ops
    (fun _ _ => trivial) h

variable (vm) in
/-- `sys_lseek` is exact or refuses for exactly the sums that fit, and the offsets stay
in the range in exactly the runs whose steps fit. -/
theorem seek_iff :
    (∀ (s : FdState V) (p : ProcId) (fd : Nat) (d : DescId), getFd (s.tables p) fd = some d →
      ∀ disp whence, SeekExact s p fd d disp whence ↔ SeekFits s d disp whence) ∧
    ∀ s : FdState V, InRange s → ∀ ops : List SeekOp,
      Always (seekStep vm) OffsetsIn s ops ↔ StepsMeet (seekStep vm) (StepFits vm) s ops :=
  ⟨fun _ _ _ _ hopen disp whence => seekExact_iff hopen disp whence,
    fun _ h ops => offsets_stay_iff h ops⟩

/-! ## An empty file -/

/-- An empty file, open at its start. -/
def emptyFile : FdState (List RamFs.VmPage) where
  mem := fun _ => 0
  used := []
  tree := Vnodes.withChild (RamFs.pageList .base)
    (RamFsTree.emptyRoot (List RamFs.VmPage)).toVnodes .regular 0 [97]
  fileOf := fun _ => 1
  nextDesc := 1
  tables := fun _ => [some 0]

theorem emptyFile_inRange : InRange emptyFile where
  offsets d := Nat.zero_le _
  sizes i := by
    have hzero : (emptyFile.tree.node i).size = 0 := by
      unfold emptyFile
      dsimp only
      by_cases hi : i = (RamFsTree.emptyRoot (List RamFs.VmPage)).next
      · rw [hi, Vnodes.withChild_new _ _ _ _ Nat.one_pos]
        rfl
      · rw [(Vnodes.withChild_old _ _ _ _ hi).1]
        rfl
    omega
  waiting := nofun

/-- To byte 5, behind the end of the file. -/
theorem behind_the_end : SeekExact emptyFile 0 0 0 5 0 ∧
    Always (seekStep (RamFs.pageList .base)) OffsetsIn emptyFile [.lseek 0 0 5 0] := by
  have hfits : ∀ d, SeekFits emptyFile d 5 0 := by
    intro d
    constructor
    · intro hcur
      cases hcur
    · intro hend
      cases hend
  refine ⟨((seek_iff (RamFs.pageList .base)).1 emptyFile 0 0 0 rfl 5 0).mpr (hfits 0), ?_⟩
  refine ((seek_iff (RamFs.pageList .base)).2 emptyFile emptyFile_inRange _).mpr ?_
  intro s' _
  exact ⟨fun d _ => hfits d, trivial⟩

/-- One byte before the start of the file: the offset 2^64 - 1. -/
theorem before_the_start : ¬ SeekExact emptyFile 0 0 0 (-1) 2 ∧
    ¬ Always (seekStep (RamFs.pageList .base)) OffsetsIn emptyFile [.lseek 0 0 (-1) 2] := by
  have hseek : seekTo (emptyFile.descs 0).offset (emptyFile.vnodeSize 0) (-1 : BitVec 64).toInt
      (2 : BitVec 32).toInt = .ok (2 ^ 64 - 1) := rfl
  have hbig : ¬ 2 ^ 64 - 1 ≤ maxOffset := by decide
  constructor
  · intro h
    obtain ⟨base, -, -, hle⟩ := (seekExact_ok rfl hseek).mp h
    exact hbig hle
  · rintro ⟨-, hnext⟩
    exact hbig ((hnext _ rfl).head 0)

end Ceryx.Fs
