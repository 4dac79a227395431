import Mathlib.Data.List.Basic
import Ceryx.Fs.VectoredWrites

/-!
# Ceryx.Fs.VectoredCalls — the vectored calls next to the plain ones

`readvOver` and `writevOver` are the two calls on a pipe with their waits: whatever the
rest of the kernel does meanwhile, a `Read` or `Write` goes on with the pipe that it
then finds.

* `readvLoop_over`, `writevLoop_over`: a call that does not wait is one of these.
* `readvOver_count`: `sys_readv` returns the number of bytes stored.
* `writevOver_count`: `sys_writev` returns that of the bytes pushed if and only if each
  `Write` starts with a reader, and goes on with a reader or with room for what is left.
* `vectored_iff`: both calls, without waits and with them.
-/

namespace Ceryx.Fs

open Lib Proc Vfs

/-! ## Reads with their waits -/

section
variable {capacity : Nat}

/-- `sys_readv` on a pipe: the total and the bytes stored, or `none` while it waits. Next
to each length, the pipes that its `Read` finds. -/
def readvOver : List (Nat × List (Pipe capacity)) → Nat → List UInt8 → Option (Nat × List UInt8)
  | [], total, bytes => some (total, bytes)
  | (len, found) :: rest, total, bytes =>
      if len = 0 then readvOver rest total bytes
      else
        match found.findSome? fun p => p.read len with
        | none => none
        | some (n, more, _) =>
            let total := RamFs.usizeAdd total n
            if n < len then some (total, bytes ++ more) else readvOver rest total (bytes ++ more)

/-- A `Read` returns the number of bytes that it has stored. -/
theorem Pipe.read_count {p p' : Pipe capacity} {size n : Nat} {bytes : List UInt8}
    (h : p.read size = some (n, bytes, p')) : bytes.length = n ∧ n ≤ size := by
  rcases p.read_cases size with ⟨hempty, hw, hread⟩ | ⟨hempty, hw, -⟩ | ⟨hempty, -⟩
  · rw [hread] at h
    cases h
  · rw [Pipe.read_eq size (.inr hw)] at h
    cases h
    rw [List.length_take]
    omega
  · rw [Pipe.read_eq size (.inl hempty)] at h
    cases h
    rw [List.length_take]
    omega

/-- The count that `readv` returns is the number of its bytes, unless it wraps. -/
theorem readvOver_count {turns : List (Nat × List (Pipe capacity))} {total total' : Nat}
    {bytes bytes' : List UInt8} (h : readvOver turns total bytes = some (total', bytes'))
    (htotal : total = bytes.length) (hsum : total + (turns.map Prod.fst).sum < 2 ^ 64) :
    total' = bytes'.length := by
  induction turns generalizing total bytes with
  | nil =>
      cases h
      exact htotal
  | cons turn rest ih =>
      obtain ⟨len, found⟩ := turn
      rw [List.map_cons, List.sum_cons] at hsum
      unfold readvOver at h
      split at h
      · exact ih h htotal (by omega)
      · dsimp only at h hsum
        cases hfound : found.findSome? fun p => p.read len with
        | none =>
            rw [hfound] at h
            cases h
        -- a turn that finds bytes, behind which the loop stops or goes on
        | some res =>
            obtain ⟨n, more, p'⟩ := res
            obtain ⟨p, -, hread⟩ := List.exists_of_findSome?_eq_some hfound
            obtain ⟨hmore, hle⟩ := Pipe.read_count hread
            have hnext : RamFs.usizeAdd total n = (bytes ++ more).length := by
              rw [RamFs.usizeAdd_eq (by omega), List.length_append, hmore, htotal]
            rw [hfound] at h
            dsimp only at h
            split at h
            · cases h
              exact hnext
            · apply ih h hnext
              rw [RamFs.usizeAdd_eq (by omega)]
              omega

end

/-! ## Writes with their waits -/

section
variable {capacity : Nat}

/-- The stretches of a `Write` that goes on with these pipes. -/
def Pipe.resumesWith (src : List UInt8) : List (Pipe capacity) → Nat → List (Stretch capacity)
  | [], _ => []
  | p :: rest, written =>
      let (outcome, p') := p.rewrite src written
      ⟨p, outcome, p'⟩ ::
        match outcome with
        | .waits written => resumesWith src rest written
        | .returned _ => []

/-- The stretches of a `Write` that starts with the first of these pipes. -/
def Pipe.stretchesWith (src : List UInt8) : List (Pipe capacity) → List (Stretch capacity)
  | [] => []
  | p :: rest =>
      let (outcome, p') := p.write src
      ⟨p, outcome, p'⟩ ::
        match outcome with
        | .waits written => resumesWith src rest written
        | .returned _ => []

/-- `sys_writev` on a pipe: the total and the number of bytes pushed, as `readvOver`. -/
def writevOver : List (List UInt8 × List (Pipe capacity)) → Nat → Nat → Option (Nat × Nat)
  | [], total, pushed => some (total, pushed)
  | (src, found) :: rest, total, pushed =>
      if src.length = 0 then writevOver rest total pushed
      else
        match resultOf (Pipe.stretchesWith src found) with
        | none => none
        | some r =>
            writevOver rest (RamFs.usizeAdd total r.value)
              (pushed + pushedAll (Pipe.stretchesWith src found))

/-- Whenever the `Write` goes on there is a reader, or room for what is left. -/
def ReaderOrRoom (src : List UInt8) : Nat → List (Stretch capacity) → Prop
  | _, [] => True
  | written, st :: rest =>
      (st.before.readers ≠ 0 ∨
        src.length - written + st.before.buffer.items.length ≤ capacity) ∧
      ReaderOrRoom src (written + st.pushed) rest

/-- And there is a reader when it starts. -/
structure Unbroken (src : List UInt8) (sts : List (Stretch capacity)) : Prop where
  start : ∀ st ∈ sts.head?, st.before.readers ≠ 0
  goes : ReaderOrRoom src 0 sts

/-- How a `Write` ends: with all bytes pushed if `good`, otherwise with the value of
`-EPIPE`. -/
structure Ended (src : List UInt8) (written : Nat) (sts : List (Stretch capacity)) (good : Prop)
    (r : WriteResult) : Prop where
  bound : written + pushedAll sts ≤ src.length
  whole : good → r = .bytes src.length ∧ written + pushedAll sts = src.length
  broken : ¬ good → r = .epipe

/-- A stretch that ends the call. -/
theorem resultOf_one {p p' : Pipe capacity} {r r' : WriteResult}
    (h : resultOf [(⟨p, .returned r, p'⟩ : Stretch capacity)] = some r') : r' = r := by
  have hlast := @resultOf_last capacity ⟨p, .returned r, p'⟩ r rfl []
  rw [List.nil_append, h] at hlast
  exact Option.some.inj hlast

/-- A write that has waited ends like one that has not: without readers, or with
everything written. -/
theorem resumesWith_ends (src : List UInt8) (found : List (Pipe capacity)) {written : Nat}
    (hbound : written ≤ src.length) {r : WriteResult}
    (hr : resultOf (Pipe.resumesWith src found written) = some r) :
    Ended src written (Pipe.resumesWith src found written)
      (ReaderOrRoom src written (Pipe.resumesWith src found written)) r := by
  induction found generalizing written with
  | nil => cases hr
  | cons p rest ih =>
      obtain ⟨total, h⟩ := p.rewrite_spec hbound
      have hpushed := h.pushed
      have htotal := h.bound
      have hcompletes := Pipe.writeLoop_completes_iff src (src.length - written) p hbound
        (Nat.le_refl _)
      have hrewrite : p.writeLoop src (src.length - written) written = p.rewrite src written := rfl
      have hnil : pushedAll ([] : List (Stretch capacity)) = 0 := rfl
      rw [hrewrite] at hcompletes
      unfold Pipe.resumesWith at hr ⊢
      dsimp only at hr ⊢
      unfold ReaderOrRoom
      rcases h.outcome with ⟨hout, hall⟩ | ⟨hout, hzero⟩ | ⟨hout, hopen⟩
      · -- all is pushed
        have hroom := hcompletes.mp (hall ▸ hout)
        rw [hout] at hr hpushed ⊢
        have hres := resultOf_one hr
        subst hres
        rw [hall] at hpushed ⊢
        refine ⟨?_, fun _ => ⟨rfl, ?_⟩, fun hno => absurd ⟨.inr hroom, trivial⟩ hno⟩
        · rw [pushedAll_cons]
          dsimp only
          omega
        · rw [pushedAll_cons]
          dsimp only
          omega
      · -- there is no reader, and no room
        have hfull : ¬ src.length - written + p.buffer.items.length ≤ capacity := by
          intro hroom
          rw [hcompletes.mpr hroom] at hout
          cases hout
        rw [hout] at hr hpushed ⊢
        have hres := resultOf_one hr
        subst hres
        refine ⟨?_, fun hgood => absurd hgood.1 (not_or.mpr ⟨not_not_intro hzero, hfull⟩),
          fun _ => rfl⟩
        rw [pushedAll_cons]
        dsimp only
        omega
      · rw [hout] at hr hpushed ⊢
        rw [resultOf_waits rfl] at hr
        have hrest := ih htotal hr
        dsimp only
        rw [hpushed]
        refine ⟨?_, ?_, ?_⟩
        · rw [pushedAll_cons, ← Nat.add_assoc, hpushed]
          exact hrest.bound
        · rintro ⟨-, hgoes⟩
          rw [pushedAll_cons, ← Nat.add_assoc, hpushed]
          exact hrest.whole hgoes
        · intro hno
          exact hrest.broken fun hgoes => hno ⟨.inl hopen, hgoes⟩

/-- A `Write` with its waits returns all its bytes if it is `Unbroken`. -/
theorem stretchesWith_ends (src : List UInt8) (found : List (Pipe capacity)) {r : WriteResult}
    (hr : resultOf (Pipe.stretchesWith src found) = some r) :
    Ended src 0 (Pipe.stretchesWith src found) (Unbroken src (Pipe.stretchesWith src found)) r := by
  cases found with
  | nil => cases hr
  | cons p rest =>
      by_cases hzero : p.readers = 0
      · have hwrite := Pipe.write_broken src hzero
        unfold Pipe.stretchesWith at hr ⊢
        dsimp only at hr ⊢
        rw [hwrite] at hr ⊢
        have hres := resultOf_one hr
        subst hres
        refine ⟨?_, fun hgood => absurd hzero (hgood.start _ rfl), fun _ => rfl⟩
        rw [pushedAll_cons]
        have hnil : pushedAll ([] : List (Stretch capacity)) = 0 := rfl
        unfold Stretch.pushed
        dsimp only
        omega
      · -- with a reader the start is no different
        have hwrite : p.write src = p.rewrite src 0 := Pipe.write_open src hzero
        have hsame : Pipe.stretchesWith src (p :: rest) = Pipe.resumesWith src (p :: rest) 0 := by
          unfold Pipe.stretchesWith
          dsimp only
          rw [hwrite]
          rfl
        have hhead : ∀ st ∈ (Pipe.resumesWith src (p :: rest) 0).head?, st.before.readers ≠ 0 := by
          intro st hst
          cases hst
          exact hzero
        rw [hsame] at hr ⊢
        have hends := resumesWith_ends src (p :: rest) (Nat.zero_le _) hr
        exact ⟨hends.bound, fun hgood => hends.whole hgood.goes,
          fun hno => hends.broken fun hgoes => hno ⟨hhead, hgoes⟩⟩

/-- The total falls short of the bytes pushed by a debt, which is 0 where no `Write` is
broken. -/
theorem writevOver_debt {turns : List (List UInt8 × List (Pipe capacity))}
    {total pushed total' pushed' : Nat}
    (h : writevOver turns total pushed = some (total', pushed')) (htotal : total < 2 ^ 64) :
    ∃ gain debt, pushed' = pushed + gain ∧ total' < 2 ^ 64 ∧
      (total' + debt) % 2 ^ 64 = (total + gain) % 2 ^ 64 ∧
      gain ≤ (turns.map fun turn => turn.1.length + 32).sum ∧
      debt ≤ (turns.map fun turn => turn.1.length + 32).sum ∧
      (debt = 0 ↔ ∀ turn ∈ turns, turn.1.length ≠ 0 →
        Unbroken turn.1 (Pipe.stretchesWith turn.1 turn.2)) := by
  induction turns generalizing total pushed with
  | nil =>
      cases h
      exact ⟨0, 0, rfl, htotal, rfl, Nat.le_refl _, Nat.le_refl _, iff_of_true rfl nofun⟩
  | cons turn rest ih =>
      obtain ⟨src, found⟩ := turn
      rw [List.map_cons, List.sum_cons, List.forall_mem_cons]
      unfold writevOver at h
      by_cases hsrc : src.length = 0
      · rw [if_pos hsrc] at h
        obtain ⟨gain, debt, hgain, hlt, heq, hle, hdebt, hiff⟩ := ih h htotal
        refine ⟨gain, debt, hgain, hlt, heq, by omega, by omega, hiff.trans ?_⟩
        exact ⟨fun hall => ⟨fun hno => absurd hsrc hno, hall⟩, fun hall => hall.2⟩
      · rw [if_neg hsrc] at h
        cases hres : resultOf (Pipe.stretchesWith src found) with
        | none =>
            rw [hres] at h
            cases h
        | some r =>
            have hends := stretchesWith_ends src found hres
            have hbound := hends.bound
            rw [hres] at h
            dsimp only at h
            obtain ⟨gain, debt, hgain, hlt, heq, hle, hdebt, hiff⟩ := ih h (RamFs.usizeAdd_lt _ _)
            unfold RamFs.usizeAdd at heq
            by_cases hgood : Unbroken src (Pipe.stretchesWith src found)
            · obtain ⟨hr, hall⟩ := hends.whole hgood
              have hvalue : r.value = src.length := by
                rw [hr]
                rfl
              rw [hvalue] at heq
              refine ⟨src.length + gain, debt, by omega, hlt, by omega, by dsimp only; omega,
                by dsimp only; omega, hiff.trans ?_⟩
              exact ⟨fun hrest => ⟨fun _ => hgood, hrest⟩, fun hall => hall.2⟩
            · -- the value of `-EPIPE` instead of the bytes pushed
              have hvalue : r.value = 2 ^ 64 - 32 := by
                rw [hends.broken hgood]
                rfl
              rw [hvalue] at heq
              refine ⟨pushedAll (Pipe.stretchesWith src found) + gain,
                debt + pushedAll (Pipe.stretchesWith src found) + 32, by omega, hlt, by omega,
                by dsimp only; omega, by dsimp only; omega, ?_⟩
              exact iff_of_false (by omega) fun hall => hgood (hall.1 hsrc)

/-- `sys_writev` returns the number of the bytes pushed, if and only if no `Write` is
broken. -/
theorem writevOver_count {turns : List (List UInt8 × List (Pipe capacity))} {total pushed : Nat}
    (hbytes : (turns.map fun turn => turn.1.length + 32).sum < 2 ^ 64)
    (h : writevOver turns 0 0 = some (total, pushed)) :
    total = pushed ↔ ∀ turn ∈ turns, turn.1.length ≠ 0 →
      Unbroken turn.1 (Pipe.stretchesWith turn.1 turn.2) := by
  obtain ⟨gain, debt, hgain, hlt, heq, hle, hdebt, hiff⟩ := writevOver_debt h (by decide)
  rw [← hiff]
  omega

end

/-! ## Calls that do not wait -/

namespace FdState

variable {V : Type} {vm : RamFs.VmObject V} {conv : RamFs.Convention} {s : FdState V} {d : DescId}

/-- Where `sys_readv` does not wait, each `Read` finds one pipe. -/
theorem readvLoop_over (vm : RamFs.VmObject V) {v : PipeId} (hvnode : (s.descs d).vnode = .pipe v)
    (lens : List Nat) {total : Nat} {bytes out : List UInt8} {pipe : Pipe kDefaultCapacity}
    {o : Nat} {r : Int} {s' : FdState V}
    (h : readvLoop vm d lens total bytes (s.onPipe d v pipe o) = ((.returns r, out), s')) :
    ∃ (turns : List (Nat × List (Pipe kDefaultCapacity))) (n : Nat),
      turns.map Prod.fst = lens ∧ readvOver turns total bytes = some (n, out) ∧ r = n := by
  induction lens generalizing total bytes pipe o with
  | nil =>
      cases h
      exact ⟨[], total, rfl, rfl, rfl⟩
  | cons len rest ih =>
      unfold readvLoop at h
      by_cases hlen : len = 0
      · rw [if_pos hlen] at h
        obtain ⟨turns, n, hturns, hover, hr⟩ := ih h
        refine ⟨(len, []) :: turns, n, by rw [List.map_cons, hturns], ?_, hr⟩
        unfold readvOver
        rw [if_pos hlen]
        exact hover
      · rw [if_neg hlen, descRead_pipe vm hvnode] at h
        cases hread : pipe.read len with
        | none =>
            rw [hread] at h
            cases h
        | some res =>
            obtain ⟨m, more, pipe'⟩ := res
            have hfound : ([pipe].findSome? fun p => p.read len) = some (m, more, pipe') := by
              rw [List.findSome?_cons, hread]
            rw [hread] at h
            dsimp only at h
            by_cases hshort : m < len
            · -- a short read is the last, and the other buffers find no pipe
              rw [if_pos hshort] at h
              cases h
              refine ⟨(len, [pipe]) :: rest.map fun len => (len, []), _, ?_, ?_, rfl⟩
              · rw [List.map_cons, List.map_map]
                exact congrArg (len :: ·) (List.map_id rest)
              · unfold readvOver
                rw [if_neg hlen, hfound]
                dsimp only
                rw [if_pos hshort]
            · rw [if_neg hshort] at h
              obtain ⟨turns, n, hturns, hover, hr⟩ := ih h
              refine ⟨(len, [pipe]) :: turns, n, by rw [List.map_cons, hturns], ?_, hr⟩
              unfold readvOver
              rw [if_neg hlen, hfound]
              dsimp only
              rw [if_neg hshort]
              exact hover

/-- And so with `sys_writev`, where the bytes pushed are those that it transfers. -/
theorem writevLoop_over (vm : RamFs.VmObject V) {v : PipeId} (hvnode : (s.descs d).vnode = .pipe v)
    (bufs : List (List UInt8)) {total : Nat} (pushed : Nat) {pipe : Pipe kDefaultCapacity} {o : Nat}
    {r : Int} {s' : FdState V}
    (h : writevLoop vm d bufs total (s.onPipe d v pipe o) = (.returns r, s')) :
    ∃ (turns : List (List UInt8 × List (Pipe kDefaultCapacity))) (n : Nat),
      turns.map Prod.fst = bufs ∧
      writevOver turns total pushed =
        some (n, pushed + transferred vm d bufs (s.onPipe d v pipe o)) ∧ r = n := by
  induction bufs generalizing total pushed pipe o with
  | nil =>
      cases h
      exact ⟨[], total, rfl, rfl, rfl⟩
  | cons src rest ih =>
      unfold writevLoop at h
      unfold transferred
      by_cases hsrc : src.length = 0
      · rw [if_pos hsrc] at h ⊢
        obtain ⟨turns, n, hturns, hover, hr⟩ := ih pushed h
        refine ⟨(src, []) :: turns, n, by rw [List.map_cons, hturns], ?_, hr⟩
        unfold writevOver
        rw [if_pos hsrc]
        exact hover
      · rw [if_neg hsrc, descWrite_pipe vm hvnode] at h
        rw [if_neg hsrc, descWrite_pipe vm hvnode, stored_pipe vm hvnode]
        rcases hwrite : pipe.write src with ⟨res | written, pipe'⟩
        · -- a `Write` that returns is one stretch
          rw [hwrite] at h
          dsimp only at h ⊢
          have hsts : Pipe.stretchesWith src [pipe] = [⟨pipe, .returned res, pipe'⟩] := by
            unfold Pipe.stretchesWith
            dsimp only
            rw [hwrite]
          have hres : resultOf (Pipe.stretchesWith src [pipe]) = some res := by
            rw [hsts]
            exact resultOf_last rfl []
          have hpushed : pushedAll (Pipe.stretchesWith src [pipe]) =
              pipe'.buffer.items.length - pipe.buffer.items.length := by
            rw [hsts, pushedAll_cons]
            rfl
          obtain ⟨turns, n, hturns, hover, hr⟩ := ih (pushed +
            (pipe'.buffer.items.length - pipe.buffer.items.length)) h
          refine ⟨(src, [pipe]) :: turns, n, by rw [List.map_cons, hturns], ?_, hr⟩
          unfold writevOver
          rw [if_neg hsrc, hres]
          dsimp only
          rw [hpushed, hover, Nat.add_assoc]
        · rw [hwrite] at h
          cases h

/-! ## Both calls -/

/-- The vectored calls are the plain ones, and return the number of bytes that they
transfer, under exactly these conditions; for the bytes of a file it is enough that
they get to the right places. -/
theorem vectored_iff (hlaw : vm.Lawful conv) {p : ProcId} {fd : Nat}
    (hfd : getFd (s.tables p) fd = some d) (hon : OnPipeOrFile vm conv s d)
    (hoffset : (s.descs d).offset < 2 ^ 64) {lens : List Nat} (hlens : lens ≠ [])
    (hsum : lens.sum < 2 ^ 64) {bufs : List (List UInt8)} (hbufs : bufs ≠ [])
    (hcount : bufs.length < 2 ^ 31) (hbytes : bufs.flatten.length < 2 ^ 64) :
    (ReadvEqual vm s p fd d lens ↔ ReadvMeets vm conv s d lens) ∧
    (WritevEqual vm s p fd d bufs → WritevMeets vm s d bufs) ∧
    (WritesPlaced conv s d bufs → WritevMeets vm s d bufs → WritevEqual vm s p fd d bufs) ∧
    (∀ (turns : List (Nat × List (Pipe kDefaultCapacity))) total bytes,
      (turns.map Prod.fst).sum < 2 ^ 64 → readvOver turns 0 [] = some (total, bytes) →
        total = bytes.length) ∧
    ∀ (turns : List (List UInt8 × List (Pipe kDefaultCapacity))) total pushed,
      (turns.map fun turn => turn.1.length + 32).sum < 2 ^ 64 →
      writevOver turns 0 0 = some (total, pushed) →
        (total = pushed ↔ ∀ turn ∈ turns, turn.1.length ≠ 0 →
          Unbroken turn.1 (Pipe.stretchesWith turn.1 turn.2)) := by
  have hreads : ∀ (turns : List (Nat × List (Pipe kDefaultCapacity))) total bytes,
      (turns.map Prod.fst).sum < 2 ^ 64 → readvOver turns 0 [] = some (total, bytes) →
        total = bytes.length := by
    intro turns total bytes hturns hover
    exact readvOver_count hover rfl (by omega)
  refine ⟨?_, ?_, ?_, hreads, fun turns total pushed hturns hover => writevOver_count hturns hover⟩
  · -- the condition names the pipe or the file, as the descriptor does
    unfold ReadvMeets
    cases hvnode : (s.descs d).vnode with
    | pipe v => exact readvEqual_pipe hfd hvnode hoffset hlens hsum
    | other =>
        obtain ⟨hdev, table, hnode⟩ := hon hvnode
        exact readvEqual_file hfd hnode hvnode hdev hoffset hlens hsum
  · intro h
    unfold WritevMeets
    cases hvnode : (s.descs d).vnode with
    | pipe v => exact (writevEqual_pipe hfd hvnode hoffset hbufs hcount hbytes).mp h
    | other =>
        obtain ⟨hdev, table, hnode⟩ := hon hvnode
        exact meets_of_writevEqual hlaw hfd hnode hvnode hdev hoffset hbufs hbytes h
  · -- a pipe takes the bytes in order, so only a file asks where they go
    intro hplaced h
    unfold WritevMeets at h
    cases hvnode : (s.descs d).vnode with
    | pipe v =>
        rw [hvnode] at h
        exact (writevEqual_pipe hfd hvnode hoffset hbufs hcount hbytes).mpr h
    | other =>
        rw [hvnode] at h
        obtain ⟨hdev, table, hnode⟩ := hon hvnode
        exact writevEqual_of_meets hlaw hfd hnode hvnode hdev hoffset hbufs hbytes
          (hplaced hvnode) h

/-! ## Three bytes -/

/-- A pipe with three bytes and both its ends. -/
def threeBytes : FdState (List RamFs.VmPage) where
  mem := fun _ => 0
  used := []
  tree := (RamFsTree.emptyRoot (List RamFs.VmPage)).toVnodes
  descs := fun _ => { vnode := .pipe 0 }
  nextDesc := 1
  tables := fun _ => [some 0]
  pipes := fun _ => { buffer := ⟨[1, 2, 3], by decide⟩, readers := 1, writers := 1 }

/-- Buffers for just these bytes, and two bytes more. -/
theorem just_three_read :
    ReadvEqual (RamFs.pageList .base) threeBytes 0 0 0 [1, 2] ∧
      WritevEqual (RamFs.pageList .base) threeBytes 0 0 0 [[4], [5]] := by
  have hon : OnPipeOrFile (RamFs.pageList .base) .base threeBytes 0 := nofun
  obtain ⟨hread, -, hwrite, -⟩ := @vectored_iff _ _ _ threeBytes 0
    (RamFs.pageList_lawful .base) 0 0 rfl hon (by decide) [1, 2] nofun (by decide) [[4], [5]] nofun
    (by decide) (by decide)
  refine ⟨hread.mpr ?_, hwrite nofun ?_⟩
  · right
    right
    left
    exact Nat.le_refl 3
  · left
    exact Int.one_ne_zero

/-- After the first buffer the pipe is empty, and the `Read` for the second one waits
with three bytes read. -/
theorem second_read_waits : ¬ ReadvEqual (RamFs.pageList .base) threeBytes 0 0 0 [3, 5] := by
  intro h
  have hmeets := (@readvEqual_pipe _ (RamFs.pageList .base) threeBytes 0 0 0 rfl 0 rfl
    (by decide) [3, 5] (List.cons_ne_nil _ _) (by decide)).mp h
  rcases hmeets with hno | hno | hno | hno
  · cases hno
  · cases hno
  · revert hno
    decide
  · exact hno 1 rfl

end FdState

end Ceryx.Fs
