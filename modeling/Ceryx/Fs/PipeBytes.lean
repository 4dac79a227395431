import Mathlib.Logic.Function.Basic
import Ceryx.Lib.Runs
import Ceryx.Fs.Pipe

/-!
# Ceryx.Fs.PipeBytes — the bytes that go through a pipe

One pipe and any number of calls of `Read` and `Write`, each cut at its waits.
A waiting call may go on at any time, whether it was notified or not: its loop
looks at its condition again.

* `PipeRun` is the pipe, the calls, and two logs: every byte put into the ring
  and every byte stored into the buffer of a `Read`, each with its call.
* `PipeLaw`: nothing is lost, duplicated or reordered, seen from the pipe and
  from every call.
* `pipeLaw_always`: it holds in every state of every run.
-/

namespace Ceryx.Fs

open Lib

variable {capacity : Nat}

/-! ## The calls on one pipe -/

/-- A call, with the number of bytes wanted or the bytes to write. -/
inductive Request where
  | read (size : Nat)
  | write (src : List UInt8)
deriving DecidableEq, Repr

/-- Where a call is: waiting (a `Write` with `written_bytes`), or returned. -/
inductive Progress where
  | waiting (written : Nat)
  | readReturned (n : Nat)
  | writeReturned (r : WriteResult)
deriving DecidableEq, Repr

structure Call where
  request : Request
  progress : Progress
deriving DecidableEq, Repr

structure PipeRun (capacity : Nat) where
  pipe : Pipe capacity := {}
  calls : Nat → Option Call := fun _ => none
  nextCall : Nat := 0
  /-- The bytes put into the ring, with the `Write` that did. -/
  pushed : List (Nat × UInt8) := []
  /-- The bytes stored into a reader's buffer, with the `Read` that did. -/
  stored : List (Nat × UInt8) := []

namespace PipeRun

def setCall (s : PipeRun capacity) (i : Nat) (request : Request) (progress : Progress) :
    PipeRun capacity :=
  { s with calls := Function.update s.calls i (some ⟨request, progress⟩) }

/-- A stretch of the `Read` of call `i`. -/
def readTurn (s : PipeRun capacity) (i size : Nat) : PipeRun capacity :=
  match s.pipe.read size with
  | none => s.setCall i (.read size) (.waiting 0)
  | some (n, dest, pipe) =>
      { s.setCall i (.read size) (.readReturned n) with
        pipe := pipe
        stored := s.stored ++ tagged i dest }

/-- Where a `Write` is after a stretch. -/
def writeProgress : WriteOutcome → Progress
  | .returned r => .writeReturned r
  | .waits written => .waiting written

/-- A stretch of the `Write` of call `i`, with its outcome. The bytes pushed
are those in the ring behind the old ones. -/
def writeTurn (s : PipeRun capacity) (i : Nat) (src : List UInt8)
    (res : WriteOutcome × Pipe capacity) : PipeRun capacity :=
  { s.setCall i (.write src) (writeProgress res.1) with
    pipe := res.2
    pushed := s.pushed ++ tagged i (res.2.buffer.items.drop s.pipe.buffer.items.length) }

/-- A new call number. -/
def newCall (s : PipeRun capacity) : PipeRun capacity := { s with nextCall := s.nextCall + 1 }

end PipeRun

/-- A call that starts, one that goes on after a wait, or a description of an
end that is opened or closed. -/
inductive PipeOp where
  | read (size : Nat)
  | write (src : List UInt8)
  | resume (i : Nat)
  | openReader
  | closeReader
  | openWriter
  | closeWriter
deriving DecidableEq, Repr

def pipeStep (s : PipeRun capacity) : PipeOp → Option (PipeRun capacity)
  | .read size => some (s.newCall.readTurn s.nextCall size)
  | .write src => some (s.newCall.writeTurn s.nextCall src (s.pipe.write src))
  | .resume i =>
      match s.calls i with
      | some ⟨.read size, .waiting _⟩ => some (s.readTurn i size)
      | some ⟨.write src, .waiting written⟩ =>
          some (s.writeTurn i src (s.pipe.rewrite src written))
      | _ => none
  | .openReader => some { s with pipe := s.pipe.incrementReaders }
  | .closeReader => some { s with pipe := s.pipe.decrementReaders }
  | .openWriter => some { s with pipe := s.pipe.incrementWriters }
  | .closeWriter => some { s with pipe := s.pipe.decrementWriters }

/-! ## The law -/

structure PipeLaw (s : PipeRun capacity) : Prop where
  /-- What the `Read`s have stored, then what is buffered, is what the
  `Write`s have pushed. -/
  fifo : s.stored.map Prod.snd ++ s.pipe.buffer.items = s.pushed.map Prod.snd
  /-- A `Write` has pushed a prefix of its buffer, and all of it when it has
  returned a number of bytes, which is the size of the buffer. -/
  writes : ∀ i src progress, s.calls i = some ⟨.write src, progress⟩ →
    ofTag i s.pushed <+: src ∧
      ∀ n, progress = .writeReturned (.bytes n) → n = src.length ∧ ofTag i s.pushed = src
  /-- A `Read` returns the number of bytes it has stored. -/
  reads : ∀ i size n, s.calls i = some ⟨.read size, .readReturned n⟩ →
    n = (ofTag i s.stored).length ∧ n ≤ size

/-! ## The invariant -/

/-- What a call has done so far, given the bytes logged for it. -/
def Call.Ok (pushed stored : List UInt8) : Call → Prop
  | ⟨.read _, .waiting _⟩ => stored = []
  | ⟨.read size, .readReturned n⟩ => n = stored.length ∧ n ≤ size
  | ⟨.read _, .writeReturned _⟩ => False
  | ⟨.write src, .waiting written⟩ => written ≤ src.length ∧ pushed = src.take written
  | ⟨.write src, .writeReturned (.bytes n)⟩ => n = src.length ∧ pushed = src
  | ⟨.write src, .writeReturned .epipe⟩ => pushed <+: src
  | ⟨.write _, .readReturned _⟩ => False

structure PipeInv (s : PipeRun capacity) : Prop where
  fifo : s.stored.map Prod.snd ++ s.pipe.buffer.items = s.pushed.map Prod.snd
  calls : ∀ i c, s.calls i = some c → c.Ok (ofTag i s.pushed) (ofTag i s.stored)
  fresh : ∀ i, s.nextCall ≤ i → s.calls i = none ∧ ofTag i s.pushed = [] ∧ ofTag i s.stored = []

theorem PipeInv.law {s : PipeRun capacity} (h : PipeInv s) : PipeLaw s where
  fifo := h.fifo
  writes i src progress hcall := by
    have hok := h.calls i _ hcall
    -- a call that waits has put in a prefix, one that has returned says how much
    cases progress with
    | waiting written =>
        refine ⟨?_, fun n hn => by cases hn⟩
        rw [hok.2]
        exact List.take_prefix _ _
    | readReturned n => exact hok.elim
    | writeReturned r =>
        cases r with
        | bytes n =>
            refine ⟨?_, fun m hm => ?_⟩
            · rw [hok.2]
            · cases hm
              exact hok
        | epipe => exact ⟨hok, fun n hn => by cases hn⟩
  reads i size n hcall := h.calls i _ hcall

/-! ## One stretch -/

/-- A stretch of call `i` leaves the other calls' bytes alone. -/
theorem PipeInv.turn {s : PipeRun capacity} (h : PipeInv s) {i : Nat} (hi : i < s.nextCall)
    (c : Call) (pipe : Pipe capacity) (put got : List UInt8)
    (hfifo : got ++ pipe.buffer.items = s.pipe.buffer.items ++ put)
    (hok : c.Ok (ofTag i s.pushed ++ put) (ofTag i s.stored ++ got)) :
    PipeInv { s with
      pipe := pipe
      calls := Function.update s.calls i (some c)
      pushed := s.pushed ++ tagged i put
      stored := s.stored ++ tagged i got } where
  fifo := by
    dsimp only
    rw [List.map_append, List.map_append, tagged_snd, tagged_snd, List.append_assoc, hfifo,
      ← List.append_assoc, h.fifo]
  calls j b hb := by
    dsimp only at hb ⊢
    by_cases hji : j = i
    · subst hji
      rw [Function.update_self] at hb
      cases hb
      rw [ofTag_append, ofTag_append, ofTag_tagged, ofTag_tagged]
      exact hok
    · rw [Function.update_of_ne hji] at hb
      rw [ofTag_append, ofTag_append, ofTag_tagged_ne hji, ofTag_tagged_ne hji, List.append_nil,
        List.append_nil]
      exact h.calls j b hb
  fresh j hj := by
    -- `i` is a call that was made, so `j` is another one
    have hji : j ≠ i := by
      rintro rfl
      exact absurd hi (Nat.not_lt.mpr hj)
    obtain ⟨hnone, hpushed, hstored⟩ := h.fresh j hj
    dsimp only
    rw [Function.update_of_ne hji, ofTag_append, ofTag_append, ofTag_tagged_ne hji,
      ofTag_tagged_ne hji, List.append_nil, List.append_nil]
    exact ⟨hnone, hpushed, hstored⟩

theorem PipeInv.readTurn {s : PipeRun capacity} (h : PipeInv s) {i : Nat} (hi : i < s.nextCall)
    (hstored : ofTag i s.stored = []) (size : Nat) : PipeInv (s.readTurn i size) := by
  unfold PipeRun.readTurn
  rcases Pipe.read_cases s.pipe size with ⟨-, -, heq⟩ | ⟨-, -, heq⟩ | ⟨-, heq⟩
  · -- it waits
    rw [heq]
    have hturn := h.turn hi ⟨.read size, .waiting 0⟩ s.pipe [] [] (by simp)
      (by simpa [Call.Ok] using hstored)
    simpa [PipeRun.setCall, tagged] using hturn
  · -- end of file
    rw [heq]
    have hturn := h.turn hi ⟨.read size, .readReturned 0⟩ s.pipe [] [] (by simp)
      (by simp [Call.Ok, hstored])
    simpa [PipeRun.setCall, tagged] using hturn
  · rw [heq]
    have hitems := Fifo.popMany_items size s.pipe.buffer
    have hlength := Fifo.popMany_length_le size s.pipe.buffer
    have hturn := h.turn hi ⟨.read size, .readReturned (s.pipe.buffer.popMany size).1.length⟩
      { s.pipe with buffer := (s.pipe.buffer.popMany size).2 } [] (s.pipe.buffer.popMany size).1
      (by simpa using hitems) (by simpa [Call.Ok, hstored] using hlength)
    simpa [PipeRun.setCall, tagged] using hturn

theorem PipeInv.writeTurn {s : PipeRun capacity} (h : PipeInv s) {i : Nat} (hi : i < s.nextCall)
    {src : List UInt8} {written total : Nat} {out : WriteOutcome} {pipe : Pipe capacity}
    (hpushed : ofTag i s.pushed = src.take written)
    (hwrote : Pipe.Wrote src written s.pipe out pipe total) :
    PipeInv (s.writeTurn i src (out, pipe)) := by
  -- what the turn adds to the buffer is the next stretch of its bytes
  have hput : pipe.buffer.items.drop s.pipe.buffer.items.length =
      (src.drop written).take (total - written) := by
    rw [hwrote.buffer, List.drop_left]
  have hall : src.take written ++ (src.drop written).take (total - written) = src.take total := by
    rw [← List.take_add, Nat.add_sub_cancel' hwrote.le]
  have hok : Call.Ok (ofTag i s.pushed ++ (src.drop written).take (total - written))
      (ofTag i s.stored ++ []) ⟨.write src, PipeRun.writeProgress out⟩ := by
    rw [hpushed, hall]
    -- all written, waiting with a prefix, or broken
    rcases hwrote.outcome with ⟨rfl, htotal⟩ | ⟨rfl, -⟩ | ⟨rfl, -⟩
    · refine ⟨htotal, ?_⟩
      rw [htotal, List.take_length]
    · exact List.take_prefix _ _
    · exact ⟨hwrote.bound, rfl⟩
  have hturn := h.turn hi _ pipe _ [] (by simpa using hwrote.buffer) hok
  unfold PipeRun.writeTurn
  rw [hput]
  simpa [PipeRun.setCall, tagged] using hturn

/-! ## Steps and runs -/

theorem PipeInv.newCall {s : PipeRun capacity} (h : PipeInv s) : PipeInv s.newCall :=
  ⟨h.fifo, h.calls, fun i hi => h.fresh i (Nat.le_of_succ_le hi)⟩

theorem PipeInv.lt_nextCall {s : PipeRun capacity} (h : PipeInv s) {i : Nat} {c : Call}
    (hc : s.calls i = some c) : i < s.nextCall := by
  by_contra hge
  have := (h.fresh i (Nat.not_lt.mp hge)).1
  rw [hc] at this
  cases this

theorem PipeInv.step {s s' : PipeRun capacity} (h : PipeInv s) {op : PipeOp}
    (hstep : pipeStep s op = some s') : PipeInv s' := by
  have hfresh := h.fresh s.nextCall (Nat.le_refl _)
  cases op with
  -- a new call begins with nothing pushed and nothing stored
  | read size =>
      cases hstep
      exact h.newCall.readTurn (Nat.lt_succ_self _) hfresh.2.2 size
  | write src =>
      cases hstep
      rcases Pipe.write_spec s.pipe src with ⟨total, hwrote⟩
      have hpushed : ofTag s.nextCall s.newCall.pushed = src.take 0 := hfresh.2.1
      exact h.newCall.writeTurn (Nat.lt_succ_self _) hpushed hwrote
  | resume i =>
      simp only [pipeStep] at hstep
      split at hstep
      · -- a waiting call goes on where it has stopped
        rename_i size _ hcall
        cases hstep
        exact h.readTurn (h.lt_nextCall hcall) (h.calls i _ hcall) size
      · rename_i src written hcall
        cases hstep
        obtain ⟨hle, hpushed⟩ := h.calls i _ hcall
        rcases Pipe.rewrite_spec s.pipe hle with ⟨total, hwrote⟩
        exact h.writeTurn (h.lt_nextCall hcall) hpushed hwrote
      · cases hstep
  -- the counts of ends are no part of it
  | openReader => cases hstep; exact ⟨h.fifo, h.calls, h.fresh⟩
  | closeReader => cases hstep; exact ⟨h.fifo, h.calls, h.fresh⟩
  | openWriter => cases hstep; exact ⟨h.fifo, h.calls, h.fresh⟩
  | closeWriter => cases hstep; exact ⟨h.fifo, h.calls, h.fresh⟩

theorem newRun_inv (capacity : Nat) : PipeInv ({} : PipeRun capacity) where
  fifo := rfl
  calls i c hc := by cases hc
  fresh i _ := ⟨rfl, rfl, rfl⟩

/-- On a new pipe of any capacity, whatever calls run and however they
interleave at their waits, no byte is lost, duplicated or reordered. -/
theorem pipeLaw_always (capacity : Nat) (ops : List PipeOp) :
    Always pipeStep PipeLaw ({} : PipeRun capacity) ops :=
  (always_of_inv (fun _ _ _ h hstep => h.step hstep) ops (newRun_inv capacity)).mono
    fun _ h => h.law

/-- A writer of five bytes and a reader of three on a pipe of capacity two. -/
example : (run pipeStep ({} : PipeRun 2)
      [.openReader, .openWriter, .write [1, 2, 3, 4, 5], .read 3, .resume 0, .read 3, .resume 0,
        .closeWriter, .read 3]).map
    (fun s => (s.calls 0, s.calls 3, s.stored, s.pipe.buffer.items)) =
    some (some ⟨.write [1, 2, 3, 4, 5], .writeReturned (.bytes 5)⟩, some ⟨.read 3, .readReturned 1⟩,
      [(1, 1), (1, 2), (2, 3), (2, 4), (3, 5)], []) := by
  decide +kernel

end Ceryx.Fs
