import Mathlib.Algebra.GroupWithZero.Nat
import Ceryx.Fs.FdCalls

/-!
# Ceryx.Fs.BrokenPipe — a Write without readers

`Pipe::Write` says `return -EPIPE` where `Expected<usize, int>` is declared. Without
`Unexpected` this is a value, which `FileDescription::Write` adds to the offset and
`sys_writev` to its total.

* `stretches`: a `Write` from one wait to the next, with what reads and closes of the
  read end do to the pipe in between.
* `BrokenIsError`: no byte is pushed without a reader, a broken pipe is an error, and
  every other result is the number of bytes pushed.
* `brokenIsError_iff`: this holds if and only if a reader is left whenever the call
  starts or goes on.
* `epipe_is_a_value`: a byte for a pipe without readers.
-/

namespace Ceryx.Fs

open Lib

/-! ## A call with its waits -/

/-- What other calls do to the pipe while a `Write` waits. -/
inductive PipeAct where
  | read (size : Nat)
  | closeReader
deriving DecidableEq, Repr

/-- A stretch of `Write`, with the pipe before and after it. -/
structure Stretch (capacity : Nat) where
  before : Pipe capacity
  outcome : WriteOutcome
  after : Pipe capacity

namespace Pipe

variable {capacity : Nat}

def act (p : Pipe capacity) : PipeAct → Pipe capacity
  | .read size =>
      match p.read size with
      | none => p
      | some (_, _, p) => p
  | .closeReader => p.decrementReaders

/-- The stretches of `Write` from a wait with `written_bytes` on. Each list is what
happens in one wait; when they are used up, the call still waits. -/
def resumes (src : List UInt8) : List (List PipeAct) → Nat → Pipe capacity → List (Stretch capacity)
  | [], _, _ => []
  | acts :: rest, written, p =>
      let p := acts.foldl act p
      let (outcome, p') := p.rewrite src written
      ⟨p, outcome, p'⟩ ::
        match outcome with
        | .waits written => resumes src rest written p'
        | .returned _ => []

/-- The stretches of `Write`. -/
def stretches (p : Pipe capacity) (src : List UInt8) (waits : List (List PipeAct)) :
    List (Stretch capacity) :=
  let (outcome, p') := p.write src
  ⟨p, outcome, p'⟩ ::
    match outcome with
    | .waits written => resumes src waits written p'
    | .returned _ => []

end Pipe

section
variable {capacity : Nat}

def Stretch.pushed (st : Stretch capacity) : Nat :=
  st.after.buffer.items.length - st.before.buffer.items.length

def pushedAll (sts : List (Stretch capacity)) : Nat := (sts.map Stretch.pushed).sum

/-- How the call returned, if it did. -/
def resultOf (sts : List (Stretch capacity)) : Option WriteResult :=
  sts.getLast?.bind fun st =>
    match st.outcome with
    | .waits _ => none
    | .returned r => some r

end

/-- The `Expected<usize, int>` of `Pipe::Write`: no return of it is an
`Unexpected`. -/
def WriteResult.expected (r : WriteResult) : Except Int Nat := .ok r.value

/-- `offset` after `FileDescription::Write`. -/
def offsetAfter (offset : Nat) : Except Int Nat → Nat
  | .error _ => offset
  | .ok n => RamFs.usizeAdd offset n

/-- `total` of `sys_writev` after a turn, or the error that it returns. -/
def totalAfter (total : Nat) : Except Int Nat → Except Int Nat
  | .error e => .error e
  | .ok n => .ok (RamFs.usizeAdd total n)

/-! ## The property -/

section
variable {capacity : Nat}

/-- No reader is left before any byte is pushed. -/
def Broken (sts : List (Stretch capacity)) : Prop :=
  ∃ front st back, sts = front ++ st :: back ∧ st.before.readers = 0 ∧ pushedAll front = 0

structure BrokenIsError (p : Pipe capacity) (src : List UInt8) (waits : List (List PipeAct)) :
    Prop where
  push : ∀ st ∈ p.stretches src waits, st.before.readers = 0 → st.pushed = 0
  error : Broken (p.stretches src waits) → ∀ r, resultOf (p.stretches src waits) = some r →
    (∃ e, r.expected = .error e) ∧ (∀ offset, offsetAfter offset r.expected = offset) ∧
      ∀ total total', totalAfter total r.expected = .ok total' → total' = total
  value : ¬ Broken (p.stretches src waits) → ∀ r, resultOf (p.stretches src waits) = some r →
    r.expected = .ok (pushedAll (p.stretches src waits))

/-- A reader is left when the call starts and whenever it goes on. -/
def ReadersStay (sts : List (Stretch capacity)) : Prop := ∀ st ∈ sts, st.before.readers ≠ 0

instance (sts : List (Stretch capacity)) : Decidable (ReadersStay sts) :=
  inferInstanceAs (Decidable (∀ st ∈ sts, st.before.readers ≠ 0))

end

/-! ## The three layers -/

namespace FdState

variable {V : Type} (vm : RamFs.VmObject V)

/-- `FileDescription::Write` on a pipe hands on what `Pipe::Write` returned. -/
theorem pipeEnd_returned {s : FdState V} {d : DescId} {v : PipeId} {r : WriteResult}
    {res : WriteOutcome × Pipe kDefaultCapacity} (hres : res.1 = .returned r) :
    (s.pipeEnd d v res).1 = .inl r.expected ∧
      ((s.pipeEnd d v res).2.descs d).offset = offsetAfter (s.descs d).offset r.expected := by
  unfold pipeEnd
  rw [hres]
  refine ⟨rfl, ?_⟩
  unfold advance FileSys.advance FileSys.updDesc
  dsimp only
  rw [Function.update_self]
  rfl

/-- A turn of `sys_writev` with a buffer. -/
theorem writevLoop_turn {d : DescId} {src : List UInt8} (rest : List (List UInt8)) (total : Nat)
    {s s' : FdState V} {res : Except Int Nat} (hsrc : src.length ≠ 0)
    (hwrite : s.descWrite vm d src = (.inl res, s')) :
    writevLoop vm d (src :: rest) total s =
      match totalAfter total res with
      | .error e => (.returns e, s')
      | .ok total => writevLoop vm d rest total s' := by
  rw [writevLoop, if_neg hsrc, hwrite]
  cases res with
  | error e => rfl
  | ok n => rfl

end FdState

/-! ## Runs -/

variable {capacity : Nat}

/-- What a stretch from `written` bytes to `total` does, with readers and without. -/
structure Went (src : List UInt8) (written : Nat) (st : Stretch capacity) (total : Nat) : Prop where
  bound : total ≤ src.length
  pushed : written + st.pushed = total
  stays : st.before.readers ≠ 0 →
    (st.outcome = .returned (.bytes src.length) ∧ total = src.length) ∨
      (st.outcome = .waits total ∧ total < src.length)
  ends : st.before.readers = 0 → ∃ r, st.outcome = .returned r ∧
    (written < src.length → 0 < st.pushed ∨ r = .epipe)

/-- The bytes of a stretch. -/
theorem Pipe.Wrote.pushed {src : List UInt8} {written total : Nat} {p p' : Pipe capacity}
    {out : WriteOutcome} (h : Pipe.Wrote src written p out p' total) :
    written + (Stretch.mk p out p').pushed = total := by
  have hle := h.le
  have htotal := h.bound
  have hitems := congrArg List.length h.buffer
  rw [List.length_append, List.length_take, List.length_drop, Nat.min_eq_left (by omega)] at hitems
  unfold Stretch.pushed
  dsimp only
  omega

/-- The stretch that the loop makes. -/
theorem went_writeLoop {src : List UInt8} {n written : Nat} (p : Pipe capacity)
    (hbound : written ≤ src.length) (hfuel : src.length - written ≤ n) :
    ∃ total, Went src written
      ⟨p, (p.writeLoop src n written).1, (p.writeLoop src n written).2⟩ total := by
  obtain ⟨total, h⟩ := Pipe.writeLoop_spec src n p hbound hfuel
  have hpushed := h.pushed
  refine ⟨total, h.bound, hpushed, ?_, ?_⟩
  · intro hopen
    rcases h.outcome with ⟨hout, hall⟩ | ⟨-, hzero⟩ | ⟨hout, -⟩
    · left
      rw [hall] at hout
      exact ⟨hout, hall⟩
    · exact absurd hzero hopen
    · -- with all bytes pushed it would not wait
      right
      refine ⟨hout, ?_⟩
      rcases Pipe.writeLoop_outcome src n p hbound hfuel with
        ⟨-, hother⟩ | ⟨-, ⟨hzero, -⟩ | ⟨-, total', hlt, hother⟩⟩
      · rw [hout] at hother
        cases hother
      · exact absurd hzero hopen
      · rw [hout] at hother
        cases hother
        exact hlt
  · intro hzero
    rcases h.outcome with ⟨hout, hall⟩ | ⟨hout, -⟩ | ⟨-, hopen⟩
    · -- there was room for all that was left
      refine ⟨_, hout, ?_⟩
      intro hlt
      left
      omega
    · exact ⟨_, hout, fun _ => .inr rfl⟩
    · exact absurd hzero hopen

/-- The stretches of a call with readers all along; or the last one has none, and
pushes or returns `-EPIPE`. -/
def Shape (src : List UInt8) (written : Nat) (sts : List (Stretch capacity)) : Prop :=
  (ReadersStay sts ∧ ∀ r, resultOf sts = some r →
    r = .bytes src.length ∧ written + pushedAll sts = src.length) ∨
  ∃ front st r, sts = front ++ [st] ∧ ReadersStay front ∧ st.before.readers = 0 ∧
    st.outcome = .returned r ∧ (0 < st.pushed ∨ r = .epipe) ∧ written + pushedAll sts ≤ src.length

theorem resultOf_waits {st : Stretch capacity} {w : Nat} (h : st.outcome = .waits w)
    (rest : List (Stretch capacity)) : resultOf (st :: rest) = resultOf rest := by
  unfold resultOf
  cases rest with
  | nil =>
      rw [List.getLast?_singleton, Option.bind_some, h]
      rfl
  | cons st' rest => rw [List.getLast?_cons_cons]

theorem resultOf_last {st : Stretch capacity} {r : WriteResult} (h : st.outcome = .returned r)
    (front : List (Stretch capacity)) : resultOf (front ++ [st]) = some r := by
  unfold resultOf
  rw [List.getLast?_append_of_ne_nil _ (List.cons_ne_nil _ _), List.getLast?_singleton,
    Option.bind_some, h]

theorem pushedAll_cons (st : Stretch capacity) (rest : List (Stretch capacity)) :
    pushedAll (st :: rest) = st.pushed + pushedAll rest := by
  unfold pushedAll
  rw [List.map_cons, List.sum_cons]

/-- One more stretch in front. -/
theorem shape_cons {src : List UInt8} {written total : Nat} {st : Stretch capacity}
    {rest : List (Stretch capacity)} (h : Went src written st total)
    (hreturned : ∀ r, st.outcome = .returned r → rest = [])
    (hwaits : total < src.length → Shape src total rest)
    (hzero : st.before.readers = 0 → written < src.length ∨ st.outcome = .returned .epipe) :
    Shape src written (st :: rest) := by
  have hpushed := h.pushed
  have hbound := h.bound
  by_cases hopen : st.before.readers = 0
  · -- without readers this is the last stretch
    right
    obtain ⟨r, hr, hlast⟩ := h.ends hopen
    have hnil := hreturned r hr
    subst hnil
    refine ⟨[], st, r, rfl, nofun, hopen, hr, ?_, ?_⟩
    · rcases hzero hopen with hlt | hepipe
      · exact hlast hlt
      · right
        rw [hr] at hepipe
        cases hepipe
        rfl
    · rw [pushedAll_cons]
      have hzero : pushedAll ([] : List (Stretch capacity)) = 0 := rfl
      omega
  · rcases h.stays hopen with ⟨hr, hall⟩ | ⟨hout, hlt⟩
    · left
      have hnil := hreturned _ hr
      subst hnil
      refine ⟨List.forall_mem_singleton.mpr hopen, ?_⟩
      intro r hres
      rw [← List.nil_append [st], resultOf_last hr] at hres
      cases hres
      refine ⟨rfl, ?_⟩
      rw [pushedAll_cons]
      have hzero : pushedAll ([] : List (Stretch capacity)) = 0 := rfl
      omega
    · rcases hwaits hlt with ⟨hstay, hres⟩ | ⟨front, last, r, rfl, hstay, hlast, hr, hcase, hle⟩
      · left
        refine ⟨List.forall_mem_cons.mpr ⟨hopen, hstay⟩, ?_⟩
        intro r hr
        rw [resultOf_waits hout] at hr
        obtain ⟨hbytes, hsum⟩ := hres r hr
        rw [pushedAll_cons]
        exact ⟨hbytes, by omega⟩
      · right
        refine ⟨st :: front, last, r, rfl, List.forall_mem_cons.mpr ⟨hopen, hstay⟩, hlast, hr,
          hcase, ?_⟩
        rw [pushedAll_cons]
        omega

theorem resumes_shape (src : List UInt8) (waits : List (List PipeAct)) {written : Nat}
    (hlt : written < src.length) (p : Pipe capacity) :
    Shape src written (p.resumes src waits written) := by
  induction waits generalizing written p with
  | nil => exact .inl ⟨nofun, nofun⟩
  | cons acts rest ih =>
      obtain ⟨total, h⟩ := went_writeLoop (acts.foldl Pipe.act p) (Nat.le_of_lt hlt)
        (Nat.le_refl (src.length - written))
      unfold Pipe.resumes
      dsimp only
      apply shape_cons h
      · intro r hr
        have hout : ((acts.foldl Pipe.act p).rewrite src written).1 = .returned r := hr
        rw [hout]
      · intro htotal
        -- behind a wake-up: no reader is left, or all is pushed, or it waits again
        by_cases hopen : (acts.foldl Pipe.act p).readers = 0
        · obtain ⟨r, hr, -⟩ := h.ends hopen
          have hout : ((acts.foldl Pipe.act p).rewrite src written).1 = .returned r := hr
          rw [hout]
          exact .inl ⟨nofun, nofun⟩
        · rcases h.stays hopen with ⟨hr, hall⟩ | ⟨hr, -⟩
          · omega
          · have hout : ((acts.foldl Pipe.act p).rewrite src written).1 = .waits total := hr
            rw [hout]
            exact ih htotal _
      · intro _
        exact .inl hlt

theorem stretches_shape (p : Pipe capacity) (src : List UInt8) (waits : List (List PipeAct)) :
    Shape src 0 (p.stretches src waits) := by
  unfold Pipe.stretches
  dsimp only
  by_cases hzero : p.readers = 0
  · -- the check at the start
    rw [Pipe.write_broken src hzero]
    right
    refine ⟨[], _, .epipe, rfl, nofun, hzero, rfl, .inr rfl, ?_⟩
    rw [pushedAll_cons]
    have hnone : pushedAll ([] : List (Stretch capacity)) = 0 := rfl
    unfold Stretch.pushed
    dsimp only
    omega
  · rw [Pipe.write_open src hzero]
    obtain ⟨total, h⟩ := went_writeLoop p (Nat.zero_le src.length) (Nat.sub_le _ _)
    apply shape_cons h
    · intro r hr
      dsimp only at hr
      rw [hr]
    · intro htotal
      rcases h.stays hzero with ⟨-, hall⟩ | ⟨hr, -⟩
      · omega
      · dsimp only at hr
        rw [hr]
        exact resumes_shape src waits htotal _
    · intro hno
      exact absurd hno hzero

/-! ## The condition -/

theorem epipe_value : WriteResult.value .epipe = 2 ^ 64 - 32 := rfl

/-- Nothing is broken while readers stay. -/
theorem not_broken {sts : List (Stretch capacity)} (h : ReadersStay sts) : ¬ Broken sts := by
  rintro ⟨front, st, back, rfl, hzero, -⟩
  exact h st (List.mem_append_right front List.mem_cons_self) hzero

theorem brokenIsError_of_stay {p : Pipe capacity} {src : List UInt8} {waits : List (List PipeAct)}
    (h : ReadersStay (p.stretches src waits)) : BrokenIsError p src waits where
  push st hst hzero := absurd hzero (h st hst)
  error hbroken := absurd hbroken (not_broken h)
  value := by
    intro _ r hr
    rcases stretches_shape p src waits with ⟨-, hres⟩ | ⟨front, st, _, heq, -, hzero, -⟩
    · obtain ⟨rfl, hsum⟩ := hres r hr
      rw [Nat.zero_add] at hsum
      rw [hsum]
      rfl
    · exfalso
      rw [heq] at h
      exact h st (List.mem_append_right front List.mem_cons_self) hzero

/-- A buffer lies in memory, so that its length is no error code. -/
theorem stay_of_brokenIsError {p : Pipe capacity} {src : List UInt8} {waits : List (List PipeAct)}
    (hsrc : src.length < 2 ^ 64 - 32) (h : BrokenIsError p src waits) :
    ReadersStay (p.stretches src waits) := by
  rcases stretches_shape p src waits with
    ⟨hstay, -⟩ | ⟨front, st, r, heq, hstay, hzero, hr, hcase, hle⟩
  · exact hstay
  · exfalso
    have hmem : st ∈ p.stretches src waits := by
      rw [heq]
      exact List.mem_append_right front List.mem_cons_self
    have hpushed := h.push st hmem hzero
    rcases hcase with hpos | rfl
    · omega
    · have hres : resultOf (p.stretches src waits) = some .epipe := by
        rw [heq]
        exact resultOf_last hr front
      by_cases hbroken : Broken (p.stretches src waits)
      · -- the error code is a value
        obtain ⟨⟨e, he⟩, -⟩ := h.error hbroken .epipe hres
        cases he
      · have hvalue := h.value hbroken .epipe hres
        have hsum : WriteResult.value .epipe = pushedAll (p.stretches src waits) :=
          Except.ok.inj hvalue
        rw [epipe_value] at hsum
        omega

/-- A broken pipe is an error and nothing else, if and only if a reader is left whenever
the call starts or goes on. -/
theorem brokenIsError_iff (p : Pipe capacity) {src : List UInt8} (waits : List (List PipeAct))
    (hsrc : src.length < 2 ^ 64 - 32) :
    BrokenIsError p src waits ↔ ReadersStay (p.stretches src waits) :=
  ⟨stay_of_brokenIsError hsrc, brokenIsError_of_stay⟩

/-- A full pipe with a reader, who takes its byte while the writer waits. -/
theorem one_byte_read :
    BrokenIsError { buffer := ⟨[1], Nat.le_refl 1⟩, readers := 1 } [2] [[.read 1]] :=
  (brokenIsError_iff _ [[.read 1]] (by decide)).mpr (by decide)

/-- A byte for a pipe without readers: the value 2^64 - 32. -/
theorem epipe_is_a_value : ¬ BrokenIsError ({ writers := 1 } : Pipe kDefaultCapacity) [1] [] := by
  intro h
  exact stay_of_brokenIsError (by decide) h _ List.mem_cons_self rfl

end Ceryx.Fs
