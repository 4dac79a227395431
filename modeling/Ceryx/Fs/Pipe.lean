import Mathlib.Data.Int.Init
import Ceryx.Lib.Fifo

/-!
# Ceryx.Fs.Pipe — the pipe object

`Pipe` of `Pipe.hpp`, over the first-in first-out buffer of `Ceryx.Lib.Fifo` in
the place of `DynamicRingBuffer<u8>`.

A call runs under `m_lock` from one wait to the next. `read` and `write` are
the stretch from the start of a call, `read` and `writeLoop` again the stretch
after a wait: both loops go back to their conditions there. `writeLoop_spec` is
all that the proofs use of a stretch of `Write`, `read_cases` of one of `Read`;
`read_eq`, `write_room`, `write_full` and `write_broken` say how each ends.

`m_readers` and `m_writers` are `usize`; the model keeps the numbers
themselves, so that a decrement of 0 shows as a negative one.
-/

namespace Ceryx.Fs

open Lib

/-- `Pipe`, of a given capacity. -/
structure Pipe (capacity : Nat) where
  buffer : Fifo UInt8 capacity := Fifo.empty
  readers : Int := 0
  writers : Int := 0

/-- `kDefaultCapacity`. -/
def kDefaultCapacity : Nat := 64 * 1024

/-- How `Pipe::Write` returns: `return written_bytes` or `return -EPIPE`. The
second one is no number of bytes: read as a `usize` it is 2^64 - 32, and no
buffer is that long. -/
inductive WriteResult where
  | bytes (n : Nat)
  | epipe
deriving DecidableEq, Repr

/-- How a stretch of `Pipe::Write` ends: with a result, or in
`m_can_write.Wait` with `written_bytes`. -/
inductive WriteOutcome where
  | returned (r : WriteResult)
  | waits (written : Nat)
deriving DecidableEq, Repr

namespace Pipe

variable {capacity : Nat}

/-! ## Read -/

/-- The loop of `Pipe::Read` for the bytes still wanted, with `read_bytes` and
what is stored in `dest`. -/
def readLoop : Nat → Nat → List UInt8 → Fifo UInt8 capacity →
    Nat × List UInt8 × Fifo UInt8 capacity
  | 0, readBytes, dest, buffer => (readBytes, dest, buffer)
  | n + 1, readBytes, dest, buffer =>
      match buffer.pop? with
      | none => (readBytes, dest, buffer)
      | some (val, buffer) => readLoop n (readBytes + 1) (dest ++ [val]) buffer

/-- `Pipe::Read`: `none` in `m_can_read.Wait`, otherwise the value returned and
the bytes stored. -/
def read (p : Pipe capacity) (size : Nat) : Option (Nat × List UInt8 × Pipe capacity) :=
  if p.buffer.items = [] then
    if p.writers = 0 then some (0, [], p) else none
  else
    let (readBytes, dest, buffer) := readLoop size 0 [] p.buffer
    some (readBytes, dest, { p with buffer := buffer })

/-! ## Write -/

/-- The inner loop of `Pipe::Write`: push `src[written_bytes]` and so on, for
the bytes left. -/
def pushLoop : List UInt8 → Nat → Fifo UInt8 capacity → Nat × Fifo UInt8 capacity
  | [], written, buffer => (written, buffer)
  | b :: rest, written, buffer =>
      match buffer.push? b with
      | none => (written, buffer)
      | some buffer => pushLoop rest (written + 1) buffer

/-- The outer loop of `Pipe::Write` from `written_bytes` on. The first argument
bounds the turns; `src.length - written` is enough, as each turn that goes on
has pushed a byte. -/
def writeLoop (src : List UInt8) : Nat → Nat → Pipe capacity → WriteOutcome × Pipe capacity
  | 0, written, p => (.returned (.bytes written), p)
  | n + 1, written, p =>
      if src.length ≤ written then (.returned (.bytes written), p)
      else if capacity ≤ p.buffer.items.length then
        (if p.readers = 0 then .returned .epipe else .waits written, p)
      else
        let (written, buffer) := pushLoop (src.drop written) written p.buffer
        writeLoop src n written { p with buffer := buffer }

/-- `Pipe::Write` from its start. -/
def write (p : Pipe capacity) (src : List UInt8) : WriteOutcome × Pipe capacity :=
  if p.readers = 0 then (.returned .epipe, p) else writeLoop src src.length 0 p

/-- `Pipe::Write` after a wait. -/
def rewrite (p : Pipe capacity) (src : List UInt8) (written : Nat) :
    WriteOutcome × Pipe capacity :=
  writeLoop src (src.length - written) written p

/-! ## The ends -/

def incrementReaders (p : Pipe capacity) : Pipe capacity := { p with readers := p.readers + 1 }
def decrementReaders (p : Pipe capacity) : Pipe capacity := { p with readers := p.readers - 1 }
def incrementWriters (p : Pipe capacity) : Pipe capacity := { p with writers := p.writers + 1 }
def decrementWriters (p : Pipe capacity) : Pipe capacity := { p with writers := p.writers - 1 }

/-! ## What a stretch does -/

theorem readLoop_eq (n readBytes : Nat) (dest : List UInt8) (buffer : Fifo UInt8 capacity) :
    readLoop n readBytes dest buffer =
      (readBytes + (buffer.popMany n).1.length, dest ++ (buffer.popMany n).1,
        (buffer.popMany n).2) := by
  induction n generalizing readBytes dest buffer with
  | zero => simp [readLoop, Fifo.popMany]
  | succ n ih =>
      unfold readLoop Fifo.popMany
      cases buffer.pop? with
      | none => simp
      | some res =>
          dsimp only
          rw [ih, List.length_cons, List.append_assoc]
          congr 1
          omega

/-- `Read` waits at an empty buffer with a writer, returns 0 at an empty buffer
without one, and otherwise takes what it can get. -/
theorem read_cases (p : Pipe capacity) (size : Nat) :
    (p.buffer.items = [] ∧ p.writers ≠ 0 ∧ p.read size = none) ∨
    (p.buffer.items = [] ∧ p.writers = 0 ∧ p.read size = some (0, [], p)) ∨
    (p.buffer.items ≠ [] ∧ p.read size =
      some ((p.buffer.popMany size).1.length, (p.buffer.popMany size).1,
        { p with buffer := (p.buffer.popMany size).2 })) := by
  unfold read
  by_cases hempty : p.buffer.items = []
  · rw [if_pos hempty]
    by_cases hw : p.writers = 0
    · exact Or.inr (Or.inl ⟨hempty, hw, if_pos hw⟩)
    · exact Or.inl ⟨hempty, hw, if_neg hw⟩
  · refine Or.inr (Or.inr ⟨hempty, ?_⟩)
    rw [if_neg hempty, readLoop_eq]
    simp

theorem pushLoop_eq (rest : List UInt8) (written : Nat) (buffer : Fifo UInt8 capacity) :
    pushLoop rest written buffer =
      (written + (buffer.pushMany rest).1, (buffer.pushMany rest).2) := by
  induction rest generalizing written buffer with
  | nil => rfl
  | cons b rest ih =>
      unfold pushLoop Fifo.pushMany
      cases buffer.push? b with
      | none => rfl
      | some buffer' =>
          dsimp only
          rw [ih]
          congr 1
          omega

theorem writeLoop_ends (src : List UInt8) (n written : Nat) (p : Pipe capacity) :
    (writeLoop src n written p).2.readers = p.readers ∧
      (writeLoop src n written p).2.writers = p.writers := by
  induction n generalizing written p with
  | zero => exact ⟨rfl, rfl⟩
  | succ n ih =>
      unfold writeLoop
      split
      · exact ⟨rfl, rfl⟩
      · split
        · exact ⟨rfl, rfl⟩
        · exact ih _ _

theorem write_ends (p : Pipe capacity) (src : List UInt8) :
    (p.write src).2.readers = p.readers ∧ (p.write src).2.writers = p.writers := by
  unfold write
  split
  · exact ⟨rfl, rfl⟩
  · exact writeLoop_ends src _ 0 p

/-- What a stretch of `Write` does from `written` bytes to `total`: it pushes
the bytes in between, and ends with all of them pushed, at a full buffer
without readers, or waiting there. -/
structure Wrote (src : List UInt8) (written : Nat) (p : Pipe capacity) (out : WriteOutcome)
    (p' : Pipe capacity) (total : Nat) : Prop where
  le : written ≤ total
  bound : total ≤ src.length
  buffer : p'.buffer.items = p.buffer.items ++ (src.drop written).take (total - written)
  readers : p'.readers = p.readers
  writers : p'.writers = p.writers
  outcome : (out = .returned (.bytes total) ∧ total = src.length) ∨
    (out = .returned .epipe ∧ p.readers = 0) ∨ (out = .waits total ∧ p.readers ≠ 0)

theorem writeLoop_spec (src : List UInt8) (n : Nat) {written : Nat} (p : Pipe capacity)
    (hbound : written ≤ src.length) (hfuel : src.length - written ≤ n) :
    ∃ total, Wrote src written p (writeLoop src n written p).1 (writeLoop src n written p).2
      total := by
  induction n generalizing written p with
  | zero =>
      have hall : written = src.length := by omega
      exact ⟨written, Nat.le_refl _, hbound, by simp [writeLoop], rfl, rfl, Or.inl ⟨rfl, hall⟩⟩
  | succ n ih =>
      unfold writeLoop
      by_cases hall : src.length ≤ written
      · rw [if_pos hall]
        exact ⟨written, Nat.le_refl _, hbound, by simp, rfl, rfl,
          Or.inl ⟨rfl, Nat.le_antisymm hbound hall⟩⟩
      · rw [if_neg hall]
        by_cases hfull : capacity ≤ p.buffer.items.length
        · rw [if_pos hfull]
          refine ⟨written, Nat.le_refl _, hbound, by simp, rfl, rfl, Or.inr ?_⟩
          by_cases hr : p.readers = 0
          · rw [if_pos hr]
            exact Or.inl ⟨rfl, hr⟩
          · rw [if_neg hr]
            exact Or.inr ⟨rfl, hr⟩
        · -- one turn pushes at least a byte, the rest is the induction hypothesis
          rw [if_neg hfull, pushLoop_eq]
          dsimp only
          have hdrop : (src.drop written).length = src.length - written := List.length_drop
          have hpos : 0 < (p.buffer.pushMany (src.drop written)).1 :=
            Fifo.pushMany_pos (List.ne_nil_of_length_pos (by omega)) (Nat.lt_of_not_le hfull)
          have hle := Fifo.pushMany_le (src.drop written) p.buffer
          have hitems := Fifo.pushMany_items (src.drop written) p.buffer
          generalize hk : (p.buffer.pushMany (src.drop written)).1 = k at hpos hle hitems ⊢
          rcases @ih (written + k)
            { p with buffer := (p.buffer.pushMany (src.drop written)).2 } (by omega) (by omega)
            with ⟨total, h⟩
          refine ⟨total, Nat.le_trans (Nat.le_add_right _ _) h.le, h.bound, ?_, h.readers,
            h.writers, h.outcome⟩
          have hsplit : total - written = k + (total - (written + k)) := by
            have := h.le
            omega
          rw [h.buffer]
          dsimp only
          rw [hitems, hsplit, List.take_add, List.drop_drop, List.append_assoc]

/-- The loop pushes all that is left if and only if there is room for it. -/
theorem writeLoop_completes_iff (src : List UInt8) (n : Nat) {written : Nat} (p : Pipe capacity)
    (hbound : written ≤ src.length) (hfuel : src.length - written ≤ n) :
    (writeLoop src n written p).1 = .returned (.bytes src.length) ↔
      src.length - written + p.buffer.items.length ≤ capacity := by
  have hfits := p.buffer.fits
  induction n generalizing written p with
  | zero =>
      have hall : written = src.length := by omega
      subst hall
      exact iff_of_true rfl (by omega)
  | succ n ih =>
      unfold writeLoop
      by_cases hall : src.length ≤ written
      · have heq : written = src.length := Nat.le_antisymm hbound hall
        rw [if_pos hall, heq]
        exact iff_of_true rfl (by omega)
      · rw [if_neg hall]
        by_cases hfull : capacity ≤ p.buffer.items.length
        · rw [if_pos hfull]
          apply iff_of_false
          · split
            · nofun
            · nofun
          · omega
        · -- a turn moves bytes from what is left into the buffer
          rw [if_neg hfull, pushLoop_eq]
          dsimp only
          have hdrop : (src.drop written).length = src.length - written := List.length_drop
          have hpos : 0 < (p.buffer.pushMany (src.drop written)).1 :=
            Fifo.pushMany_pos (List.ne_nil_of_length_pos (by omega)) (Nat.lt_of_not_le hfull)
          have hle := Fifo.pushMany_le (src.drop written) p.buffer
          have hitems := congrArg List.length (Fifo.pushMany_items (src.drop written) p.buffer)
          rw [List.length_append, List.length_take, Nat.min_eq_left hle] at hitems
          have hrest := @ih (written + (p.buffer.pushMany (src.drop written)).1)
            { p with buffer := (p.buffer.pushMany (src.drop written)).2 } (by omega) (by omega)
            (p.buffer.pushMany (src.drop written)).2.fits
          refine hrest.trans ?_
          dsimp only
          omega

/-- How the loop ends, by the room that there is and the readers that are left. -/
theorem writeLoop_outcome (src : List UInt8) (n : Nat) {written : Nat} (p : Pipe capacity)
    (hbound : written ≤ src.length) (hfuel : src.length - written ≤ n) :
    (src.length - written + p.buffer.items.length ≤ capacity ∧
      (writeLoop src n written p).1 = .returned (.bytes src.length)) ∨
    (capacity < src.length - written + p.buffer.items.length ∧
      (p.readers = 0 ∧ (writeLoop src n written p).1 = .returned .epipe ∨
        p.readers ≠ 0 ∧ ∃ total, total < src.length ∧
          (writeLoop src n written p).1 = .waits total)) := by
  have hcompletes := writeLoop_completes_iff src n p hbound hfuel
  by_cases hroom : src.length - written + p.buffer.items.length ≤ capacity
  · exact .inl ⟨hroom, hcompletes.mpr hroom⟩
  · right
    refine ⟨Nat.lt_of_not_le hroom, ?_⟩
    obtain ⟨total, h⟩ := writeLoop_spec src n p hbound hfuel
    rcases h.outcome with ⟨hout, rfl⟩ | ⟨hout, hzero⟩ | ⟨hout, hopen⟩
    · exact absurd (hcompletes.mp hout) hroom
    · exact .inl ⟨hzero, hout⟩
    · refine .inr ⟨hopen, total, ?_, hout⟩
      -- the bytes up to `total` are in the buffer
      have hitems := congrArg List.length h.buffer
      have hfits := (writeLoop src n written p).2.buffer.fits
      have hbytes := h.bound
      rw [List.length_append, List.length_take, List.length_drop,
        Nat.min_eq_left (by omega)] at hitems
      omega

theorem rewrite_spec (p : Pipe capacity) {src : List UInt8} {written : Nat}
    (hbound : written ≤ src.length) :
    ∃ total, Wrote src written p (p.rewrite src written).1 (p.rewrite src written).2 total :=
  writeLoop_spec src _ p hbound (Nat.le_refl _)

theorem write_broken {p : Pipe capacity} (src : List UInt8) (hzero : p.readers = 0) :
    p.write src = (.returned .epipe, p) := by
  unfold write
  rw [if_pos hzero]

theorem write_open {p : Pipe capacity} (src : List UInt8) (hopen : p.readers ≠ 0) :
    p.write src = p.writeLoop src src.length 0 := by
  unfold write
  rw [if_neg hopen]

theorem write_spec (p : Pipe capacity) (src : List UInt8) :
    ∃ total, Wrote src 0 p (p.write src).1 (p.write src).2 total := by
  by_cases hr : p.readers = 0
  · rw [write_broken src hr]
    exact ⟨0, Nat.le_refl 0, Nat.zero_le _, by simp, rfl, rfl, Or.inr (Or.inl ⟨rfl, hr⟩)⟩
  · rw [write_open src hr]
    exact writeLoop_spec src _ p (Nat.zero_le _) (Nat.sub_le _ _)

/-! ## How a stretch ends -/

/-- The pipe without its first `n` bytes. -/
def taken (p : Pipe capacity) (n : Nat) : Pipe capacity :=
  { p with buffer := ⟨p.buffer.items.drop n, by
      rw [List.length_drop]
      exact Nat.le_trans (Nat.sub_le _ _) p.buffer.fits⟩ }

/-- A pipe is its bytes and its ends. -/
theorem eq_of_items {p q : Pipe capacity} (hitems : p.buffer.items = q.buffer.items)
    (hreaders : p.readers = q.readers) (hwriters : p.writers = q.writers) : p = q := by
  obtain ⟨⟨items, hfits⟩, readers, writers⟩ := p
  obtain ⟨⟨items', hfits'⟩, readers', writers'⟩ := q
  cases hitems
  cases hreaders
  cases hwriters
  rfl

theorem taken_zero (p : Pipe capacity) : p.taken 0 = p := rfl

theorem taken_taken (p : Pipe capacity) (m n : Nat) : (p.taken m).taken n = p.taken (m + n) :=
  eq_of_items List.drop_drop rfl rfl

theorem taken_all {p : Pipe capacity} {n : Nat} (h : p.buffer.items.length ≤ n) :
    p.taken n = { p with buffer := Fifo.empty } :=
  eq_of_items (List.drop_eq_nil_of_le h) rfl rfl

theorem read_waits {p : Pipe capacity} (size : Nat) (hempty : p.buffer.items = [])
    (hw : p.writers ≠ 0) : p.read size = none := by
  unfold read
  rw [if_pos hempty, if_neg hw]

/-- A `Read` that does not wait takes what it can get. -/
theorem read_eq {p : Pipe capacity} (size : Nat) (h : p.buffer.items ≠ [] ∨ p.writers = 0) :
    p.read size = some (min size p.buffer.items.length, p.buffer.items.take size,
      p.taken size) := by
  rcases p.read_cases size with ⟨hempty, hw, -⟩ | ⟨hempty, -, hread⟩ | ⟨-, hread⟩
  · exact absurd h (not_or.mpr ⟨not_not_intro hempty, hw⟩)
  · have hitems : p.buffer.items.drop size = p.buffer.items := by rw [hempty, List.drop_nil]
    have hnone : p.taken size = p := eq_of_items hitems rfl rfl
    rw [hread, hnone, hempty, List.take_nil, List.length_nil, Nat.min_zero]
  · obtain ⟨htake, hdrop⟩ := Fifo.popMany_eq size p.buffer
    have hpipe : { p with buffer := (p.buffer.popMany size).2 } = p.taken size :=
      eq_of_items hdrop rfl rfl
    rw [hread, hpipe, htake, List.length_take]

/-- All of `src` is behind the bytes of the pipe. -/
structure Appended (p : Pipe capacity) (src : List UInt8) (p' : Pipe capacity) : Prop where
  items : p'.buffer.items = p.buffer.items ++ src
  readers : p'.readers = p.readers
  writers : p'.writers = p.writers

theorem write_room {p : Pipe capacity} {src : List UInt8} (hopen : p.readers ≠ 0)
    (hroom : src.length + p.buffer.items.length ≤ capacity) :
    ∃ p', p.write src = (.returned (.bytes src.length), p') ∧ Appended p src p' := by
  obtain ⟨total, h⟩ := p.write_spec src
  have hwrite := write_open src hopen
  -- nothing is left over when all of it fits, so the call does not wait
  have hout : (p.write src).1 = .returned (.bytes src.length) := by
    rw [hwrite]
    apply (writeLoop_completes_iff src src.length p (Nat.zero_le _) (Nat.sub_le _ _)).mpr
    exact hroom
  have hall : total = src.length := by
    rcases h.outcome with ⟨-, hall⟩ | ⟨hother, -⟩ | ⟨hother, -⟩
    · exact hall
    · rw [hout] at hother
      cases hother
    · rw [hout] at hother
      cases hother
  refine ⟨(p.write src).2, Prod.ext hout rfl, ?_, h.readers, h.writers⟩
  rw [h.buffer, hall, List.drop_zero, Nat.sub_zero, List.take_length]

theorem write_full {p : Pipe capacity} {src : List UInt8} (hopen : p.readers ≠ 0)
    (hfull : capacity < src.length + p.buffer.items.length) :
    ∃ written p', p.write src = (.waits written, p') := by
  have hwrite := write_open src hopen
  rcases writeLoop_outcome src src.length p (Nat.zero_le _) (Nat.sub_le _ _) with
    ⟨hroom, -⟩ | ⟨-, ⟨hzero, -⟩ | ⟨-, total, -, hout⟩⟩
  · omega
  · exact absurd hzero hopen
  · refine ⟨total, (p.write src).2, Prod.ext ?_ rfl⟩
    rw [hwrite]
    exact hout

end Pipe

end Ceryx.Fs
