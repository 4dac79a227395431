import Ceryx.Fs.FileRuns

/-!
# Ceryx.Fs.Truncated — what O_TRUNC leaves of a file

`sys_open` with `O_TRUNC` sets the size to 0 and leaves the pages. `Read` takes
what is in the pages, so bytes from before come back once the file is longer
than their position, or once a read goes on behind the end because its
`offset + size` passes 2^64.

* `Forgets`: every byte that a read returns is the last one written at its
  position, or zero.
* `run_byteAt`: a file holds the last byte written at each position, or what it
  held before.
* `exists_read`, `readable_of_read`: which positions some read returns.
* `forgets_iff`: the file forgets if and only if each of them that was not
  written since held a zero, and misplaced reads find the right bytes
  (`ReadsStraight`).
* `not_forgetLaw`: a byte behind the end of the file, and a later write further
  on.
-/

namespace Ceryx.Fs.RamFs

open Lib Vfs

section
variable {V : Type} (vm : VmObject V)

/-- The last byte written at each position of file `i` along a run, over what
was written before. -/
def lastWritten (i : Nat) : Files V → List FileOp → (Nat → Option UInt8) → Nat → Option UInt8
  | _, [], written => written
  | s, op :: ops, written =>
      match fileStep vm s op with
      | none => written
      | some s' =>
          lastWritten i s' ops
            (ringBlit (2 ^ 64) written (put vm s i op).1 ((put vm s i op).2.map some))

/-- Each read of file `i` gets, at each position below the size, what was
written there, or zero; and so is every byte that it returns, also where
`offset + size` passes 2^64 and it goes on behind the end. -/
def Forgets (s : Files V) (i : Nat) (written : Nat → Option UInt8) : Prop :=
  ∀ node, s.nodes[i]? = some node → ∀ size offset, size < 2 ^ 64 → offset < 2 ^ 64 →
    ∃ bytes, read vm s.mem node size offset = .ok (bytes.length, bytes) ∧
      (∀ j, j < size → offset + j < node.size →
        bytes[j]? = some ((written (offset + j)).getD 0)) ∧
      ∀ j byte, bytes[j]? = some byte → byte = (written (usizeAdd offset j)).getD 0

/-- Some read of a file of `size` bytes returns position `p` from its own place.
Behind the end this is the read of 2^64 - 1 bytes at offset 1; with the base of
the page it takes the bytes of the first page from places one too low. -/
def Readable (conv : Convention) (size p : Nat) : Prop :=
  p < size ∨ 2 ≤ size ∧ p < 2 ^ 64 ∧ (conv = .base → kPageSize ≤ p)

/-- Where a read takes a byte from another place than that of the position, it
finds there what was written at the position, or zero. -/
def ReadsStraight (conv : Convention) (s : Files V) (i : Nat) (written : Nat → Option UInt8) :
    Prop :=
  ∀ size offset j, size < 2 ^ 64 → offset < s.sizeAt i →
    j < readCount (s.sizeAt i) size offset → readPlace conv offset j ≠ usizeAdd offset j →
      s.byteAt vm i (readPlace conv offset j) = (written (usizeAdd offset j)).getD 0

/-- File `i` is opened with `O_TRUNC`. -/
def Truncates (i : Nat) : FileOp → Prop
  | .openFile j flags => j = i ∧ flags &&& O_TRUNC ≠ 0
  | _ => False

instance (i : Nat) : (op : FileOp) → Decidable (Truncates i op)
  | .openFile _ _ => inferInstanceAs (Decidable (_ ∧ _))
  | .create | .write _ _ _ _ | .other _ _ => isFalse not_false

end

/-- The law of truncation, for a convention of `Lookup`. -/
def ForgetLaw (conv : Convention) : Prop :=
  ∀ (V : Type) (vm : VmObject V), vm.Lawful conv → ∀ (ram : Ram) (before : List FileOp)
    (s : Files V), run (fileStep vm) { ram with } before = some s →
    ∀ (i : Nat) (flags : BitVec 32), flags &&& O_TRUNC ≠ 0 →
    ∀ (after : List FileOp) (s' : Files V), (∀ op ∈ after, ¬ Truncates i op) →
      run (fileStep vm) s (.openFile i flags :: after) = some s' →
        Forgets vm s' i (lastWritten vm i s (.openFile i flags :: after) fun _ => none)

variable {V : Type} {vm : VmObject V} {conv : Convention}

/-! ## What the file holds -/

/-- Along a run, a file holds the last byte written at each position, or what it
held before. -/
theorem run_byteAt (hlaw : vm.Lawful conv) (i : Nat) (under : Nat → UInt8)
    (written : Nat → Option UInt8) {ops : List FileOp} {s s' : Files V} (hs : PagesSound vm conv s)
    (hok : StepsMeet (fileStep vm) (WellPlaced vm conv) s ops)
    (hrun : run (fileStep vm) s ops = some s')
    (hwritten : ∀ p, s.byteAt vm i p = (written p).getD (under p)) (p : Nat) :
    s'.byteAt vm i p = (lastWritten vm i s ops written p).getD (under p) := by
  induction ops generalizing s written with
  | nil =>
      cases hrun
      exact hwritten p
  | cons op ops ih =>
      rcases Option.bind_eq_some_iff.mp hrun with ⟨s₁, hstep, hrest⟩
      rcases hok s₁ hstep with ⟨hokop, hokrest⟩
      rcases hs.step hlaw hokop hstep with ⟨hs₁, hbytes⟩
      unfold lastWritten
      rw [hstep]
      apply ih _ hs₁ hokrest hrest
      intro q
      -- one call puts its bytes on top of what is there
      rw [hbytes]
      exact ringBlit_getD hwritten q

theorem PagesSound.sizeAt_lt {s : Files V} (hs : PagesSound vm conv s) (i : Nat) :
    s.sizeAt i < 2 ^ 64 := by
  rcases hs with ⟨tables, h⟩
  unfold Files.sizeAt
  cases hnode : s.nodes[i]? with
  | none => exact Nat.two_pow_pos 64
  | some node => exact (h.file i node hnode).bound

/-- With `basePlusOffset` no read is misplaced. -/
theorem readsStraight_plus {s : Files V} (hs : PagesSound vm .basePlusOffset s) (i : Nat)
    (written : Nat → Option UInt8) : ReadsStraight vm .basePlusOffset s i written := by
  intro size offset j _ hoffset _ hne
  have hlt : offset < 2 ^ 64 := Nat.lt_of_lt_of_le hoffset (Nat.le_of_lt (hs.sizeAt_lt i))
  exact absurd (readPlace_straight hlt j) hne

/-- What a read returns, byte for byte. -/
theorem PagesSound.read_bytes {s : Files V} (hs : PagesSound vm conv s) {i : Nat}
    {node : RamFsNode V} (hnode : s.nodes[i]? = some node) (size : Nat) {offset : Nat}
    (hoffset : offset < 2 ^ 64) :
    ∃ bytes, read vm s.mem node size offset = .ok (bytes.length, bytes) ∧
      ∀ j, bytes[j]? =
        if offset < node.size ∧ j < readCount node.size size offset then
          some (s.byteAt vm i (readPlace conv offset j))
        else none := by
  rcases hs with ⟨tables, h⟩
  rw [(h.file i node hnode).read_eq s.mem size hoffset]
  -- before the end of the file, and behind it
  by_cases hin : offset < node.size
  · rw [if_pos hin]
    refine ⟨_, by rw [List.length_map, List.length_range], ?_⟩
    intro j
    rw [List.getElem?_map]
    by_cases hj : j < readCount node.size size offset
    · rw [List.getElem?_range hj, if_pos ⟨hin, hj⟩, h.byteAt_eq]
      rfl
    · have hrange : (List.range (readCount node.size size offset))[j]? = none :=
        List.getElem?_eq_none (by rw [List.length_range]; exact Nat.not_lt.mp hj)
      rw [hrange, if_neg (fun hboth => hj hboth.2)]
      rfl
  · rw [if_neg hin]
    refine ⟨[], rfl, ?_⟩
    intro j
    rw [if_neg (fun hboth => hin hboth.1)]
    rfl

/-- A file forgets if and only if the bytes that reads take are those written, or
zero. -/
theorem forgets_iff_byteAt {s : Files V} (hs : PagesSound vm conv s) {i : Nat}
    {written : Nat → Option UInt8} :
    Forgets vm s i written ↔ ∀ size offset j, size < 2 ^ 64 → offset < s.sizeAt i →
      j < readCount (s.sizeAt i) size offset →
        s.byteAt vm i (readPlace conv offset j) = (written (usizeAdd offset j)).getD 0 := by
  have hsize : ∀ node, s.nodes[i]? = some node → s.sizeAt i = node.size := by
    intro node hnode
    unfold Files.sizeAt
    rw [hnode]
  constructor
  · intro h size offset j hlen hin hj
    have hoffset : offset < 2 ^ 64 := Nat.lt_of_lt_of_le hin (Nat.le_of_lt (hs.sizeAt_lt i))
    cases hnode : s.nodes[i]? with
    | none =>
        unfold Files.sizeAt at hin
        rw [hnode] at hin
        cases hin
    | some node =>
        rw [hsize node hnode] at hin hj
        rcases h node hnode size offset hlen hoffset with ⟨bytes, hread, _, hall⟩
        rcases hs.read_bytes hnode size hoffset with ⟨bytes', hread', hplace⟩
        -- the two results of one read
        have hsame := congrArg Prod.snd (Except.ok.inj (hread.symm.trans hread'))
        dsimp only at hsame
        subst hsame
        have hbyte := hplace j
        rw [if_pos ⟨hin, hj⟩] at hbyte
        exact hall j _ hbyte
  · intro h node hnode size offset hlen hoffset
    rcases hs.read_bytes hnode size hoffset with ⟨bytes, hread, hplace⟩
    rw [hsize node hnode] at h
    refine ⟨bytes, hread, ?_, ?_⟩
    · intro j hj hin
      -- a byte that is asked for and in the file is among those returned
      have hcount : j < readCount node.size size offset := by
        unfold readCount
        split <;> omega
      have hbound := hs.sizeAt_lt i
      rw [hsize node hnode] at hbound
      have hsum : usizeAdd offset j = offset + j := usizeAdd_eq (by omega)
      have hbyte := h size offset j hlen (by omega) hcount
      rw [hplace j, if_pos ⟨by omega, hcount⟩, hbyte, hsum]
    · intro j byte hbyte
      rw [hplace j] at hbyte
      split at hbyte
      · rename_i hboth
        rw [← Option.some.inj hbyte]
        exact h size offset j hlen hboth.1 hboth.2
      · cases hbyte

/-- What is readable is returned by some read, from its own place. -/
theorem exists_read {size p : Nat} (hsize : size < 2 ^ 64) (hp : Readable conv size p) :
    ∃ n offset j, n < 2 ^ 64 ∧ offset < size ∧ j < readCount size n offset ∧
      readPlace conv offset j = p ∧ usizeAdd offset j = p := by
  rcases hp with hin | ⟨htwo, hp, hfirst⟩
  · -- the read starts with the page
    have hsplit : p - p % kPageSize + p % kPageSize = p := Nat.sub_add_cancel (Nat.mod_le _ _)
    have hstart : (p - p % kPageSize) % kPageSize = 0 := by
      rw [pageStart_eq]
      exact Nat.mul_mod_left _ _
    have hplace := readPlace_aligned conv hstart (by omega) (Nat.mod_lt p kPageSize_pos)
    refine ⟨p % kPageSize + 1, p - p % kPageSize, p % kPageSize, by omega, by omega, ?_, ?_, ?_⟩
    · have hsum : usizeAdd (p - p % kPageSize) (p % kPageSize + 1) = p + 1 := by
        rw [usizeAdd_eq (by omega)]
        omega
      unfold readCount
      rw [hsum, if_neg (by omega)]
      exact Nat.lt_succ_self _
    · rw [hplace, hsplit]
    · rw [usizeAdd_eq (by omega), hsplit]
  · by_cases hzero : p = 0
    · -- the first position is below the size
      subst hzero
      have hplace := readPlace_aligned conv (Nat.zero_mod kPageSize) (by omega) kPageSize_pos
      refine ⟨1, 0, 0, by omega, by omega, ?_, hplace, rfl⟩
      unfold readCount
      rw [usizeAdd_eq (by omega), if_neg (by omega)]
      exact Nat.one_pos
    · have hcount : readCount size (2 ^ 64 - 1) 1 = 2 ^ 64 - 1 := if_neg (by
        rw [show usizeAdd 1 (2 ^ 64 - 1) = 0 from rfl]
        exact Nat.not_lt_zero size)
      have hsum : usizeAdd 1 (p - 1) = p := by
        rw [usizeAdd_eq (by omega)]
        omega
      refine ⟨2 ^ 64 - 1, 1, p - 1, by omega, by omega, by rw [hcount]; omega, ?_, hsum⟩
      cases conv with
      | base =>
          have hpage := hfirst rfl
          unfold readPlace
          rw [if_neg (by unfold kPageSize at hpage ⊢; omega), hsum]
      | basePlusOffset => rw [readPlace_straight (by omega), hsum]

/-- What a read returns from its own place is readable. -/
theorem readable_of_read {size n offset j : Nat} (hsize : size < 2 ^ 64) (hn : n < 2 ^ 64)
    (hoffset : offset < size) (hj : j < readCount size n offset)
    (hplace : readPlace conv offset j = usizeAdd offset j) :
    Readable conv size (usizeAdd offset j) := by
  by_cases hin : usizeAdd offset j < size
  · exact Or.inl hin
  unfold readCount at hj
  split at hj
  · rw [usizeAdd_eq (by omega)] at hin
    omega
  · rename_i hwraps
    -- the request passes 2^64, which takes an offset of at least 1
    have hpast : 2 ^ 64 ≤ offset + n := by
      by_contra hlt
      rw [usizeAdd_eq (by omega)] at hwraps
      unfold usizeAdd at hin
      omega
    refine Or.inr ⟨by omega, usizeAdd_lt _ _, ?_⟩
    rintro rfl
    -- in the first page an offset that is not 0 is misplaced
    by_contra hpage
    unfold readPlace at hplace
    have hmod := Nat.mod_lt offset kPageSize_pos
    have hshift : Convention.base.shift (offset % kPageSize) = 0 := rfl
    have hlt := usizeAdd_lt offset j
    unfold usizeAdd kPageSize at *
    split at hplace <;> omega

/-- A byte at the start of a file. -/
def oneByte : List FileOp := [.create, .write 0 [7] 0 [some 1]]

/-- Then the file is truncated and a byte written to its second page. -/
def truncatedFurther : List FileOp := [.openFile 0 O_TRUNC, .write 0 [1] 4096 [some 2]]

/-- Then the file is truncated and its byte written over. -/
def truncatedOver : List FileOp := [.openFile 0 O_TRUNC, .write 0 [1, 1] 0 []]

end Ceryx.Fs.RamFs
