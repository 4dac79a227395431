import Ceryx.Proc.ElfLoader

/-!
# Ceryx.Proc.ElfReads — incomplete executables

`Load` goes on where the `Read` of a program header returns less than a header,
and does not look at the result of the `Read` of a segment.

* `loadReads`: the calls of `Read` in the loop, turn by turn, with their results.
* `loopReads_eq`: a loop that succeeds has made the calls of all headers.
* `full_iff`: a call reads all that it asks for just if the file has it.
* `phdrOffset_eq_iff`: the offset of a header is exact just if no sum or product
  wraps.
* `HeadersComplete`: the condition, and `loadedInFull_iff`: a load that succeeds
  has read all of the file's segments just if it is met.
-/

namespace Ceryx.Proc.ElfLoader

open Lib Fs Fs.RamFs

/-! ## Calls of Read -/

/-- A call of `Read` and its result. -/
structure FileRead where
  size : Nat
  offset : Nat
  result : Except Int (Nat × List UInt8)

/-- All bytes that were asked for are in the file, and were read. -/
structure FileRead.Full (call : FileRead) (nodeSize : Nat) : Prop where
  result : ∃ bytes, call.result = .ok (call.size, bytes)
  inFile : ∀ j, j < call.size → call.offset + j < nodeSize

/-- The calls for a program header: for the header, and for its segment. -/
structure TurnReads where
  phdr : FileRead
  segment : Option FileRead

section
variable {V : Type} (vm : VmObject V)

def fileRead (exe : Exe V) (size offset : Nat) : FileRead :=
  ⟨size, offset, read vm exe.mem exe.node size offset⟩

def phdrRead (exe : Exe V) (header : Elf64_Ehdr) (i : Nat) : FileRead :=
  fileRead vm exe sizeofPhdr (phdrOffset header i)

def segmentRead (exe : Exe V) (phdr : Elf64_Phdr) : FileRead :=
  fileRead vm exe phdr.pFilesz phdr.pOffset

/-- The calls of the loop, from header `i` on. -/
def loopReads (env : LoadEnv) (exe : Nat → Exe V) (header : Elf64_Ehdr) (bias : Nat) :
    Nat → Nat → Loading → List TurnReads
  | 0, _, _ => []
  | n + 1, i, s =>
      match phdrAt vm (exe i) header i with
      | none => ⟨phdrRead vm (exe i) header i, none⟩ :: loopReads env exe header bias n (i + 1) s
      | some phdr =>
          if phdr.pType = 1 then
            match loadPhdr vm env (exe i) i phdr bias s with
            | (.error _, _) => [⟨phdrRead vm (exe i) header i, none⟩]
            | (.ok _, s) =>
                ⟨phdrRead vm (exe i) header i, some (segmentRead vm (exe i) phdr)⟩ ::
                  loopReads env exe header bias n (i + 1) s
          else ⟨phdrRead vm (exe i) header i, none⟩ :: loopReads env exe header bias n (i + 1) s

def loadReads (env : LoadEnv) (exe : Nat → Exe V) (loadBias : Nat) : List TurnReads :=
  match acceptedHeader vm (exe 0) loadBias with
  | none => []
  | some (header, bias) => loopReads vm env exe header bias header.ePhnum 0 {}

/-! ## What is expected -/

/-- How many bytes `Read` finds in the file. -/
def nodeBytes (exe : Exe V) : Nat :=
  if exe.node.type = .regular ∧ exe.node.vmo.isSome = true then exe.node.size else 0

/-- Header `i` was read in full, from its place, and so was its segment. -/
structure TurnReads.Complete (turn : TurnReads) (exe : Exe V) (header : Elf64_Ehdr) (i : Nat) :
    Prop where
  offset : turn.phdr.offset = header.ePhoff + i * header.ePhentsize
  size : turn.phdr.size = sizeofPhdr
  full : turn.phdr.Full (nodeBytes exe)
  segment : ∀ n bytes, turn.phdr.result = .ok (n, bytes) → (phdrOf bytes).pType = 1 →
    (phdrOf bytes).pFilesz ≤ (phdrOf bytes).pMemsz ∧
      ∃ call, turn.segment = some call ∧ call.offset = (phdrOf bytes).pOffset ∧
        call.size = (phdrOf bytes).pFilesz ∧ call.Full (nodeBytes exe)

/-- If `Load` succeeds, all headers and segments were read in full. -/
def LoadedInFull (env : LoadEnv) (exe : Nat → Exe V) (loadBias : Nat) : Prop :=
  ∀ result segments, load vm env exe loadBias = (.ok result, segments) →
    ∀ h ∈ acceptedHeader vm (exe 0) loadBias, ∀ i, i < h.1.ePhnum →
      ∃ turn, (loadReads vm env exe loadBias)[i]? = some turn ∧ turn.Complete (exe i) h.1 i

/-! ## The condition -/

/-- The `int` product does not wrap and the header is in the file. If it is
`PT_LOAD`, its bytes are in the file and not more than its memory. -/
structure HeaderComplete (exe : Exe V) (header : Elf64_Ehdr) (i : Nat) : Prop where
  product : i * header.ePhentsize < 2 ^ 31
  sum : header.ePhoff + i * header.ePhentsize < 2 ^ 64
  inFile : header.ePhoff + i * header.ePhentsize + sizeofPhdr ≤ nodeBytes exe
  segment : ∀ phdr, phdrAt vm exe header i = some phdr → phdr.pType = 1 →
    phdr.pFilesz ≤ phdr.pMemsz ∧
      (phdr.pFilesz = 0 ∨ phdr.pOffset + phdr.pFilesz ≤ nodeBytes exe)

/-- If no header is rejected, all are complete. -/
def HeadersComplete (env : LoadEnv) (exe : Nat → Exe V) (loadBias : Nat) : Prop :=
  ∀ h ∈ acceptedHeader vm (exe 0) loadBias,
    (∀ i, i < h.1.ePhnum → Accepted vm env exe h.1 h.2 i) → env.stack ≠ none →
      ∀ i, i < h.1.ePhnum → HeaderComplete vm (exe i) h.1 i

end

/-! ## One call -/

section
variable {V : Type} {vm : VmObject V}

/-- A call reads all that it asks for just if the file has it. -/
theorem full_iff {exe : Exe V} {size offset : Nat}
    (hfile : exe.node.type = .regular ∧ ∃ vmo, exe.node.vmo = some vmo) :
    (fileRead vm exe size offset).Full (nodeBytes exe) ↔
      size = 0 ∨ offset + size ≤ nodeBytes exe := by
  rcases hfile with ⟨htype, vmo, hvmo⟩
  have hbytes : nodeBytes exe = exe.node.size := by
    unfold nodeBytes
    rw [hvmo]
    exact if_pos ⟨htype, rfl⟩
  rw [hbytes]
  constructor
  · rintro ⟨-, hin⟩
    by_cases hzero : size = 0
    · exact Or.inl hzero
    · have hlast : offset + (size - 1) < exe.node.size := hin (size - 1) (by
        show size - 1 < size
        omega)
      right
      omega
  · intro h
    refine ⟨?_, ?_⟩
    · show ∃ bytes, read vm exe.mem exe.node size offset = .ok (size, bytes)
      unfold RamFs.read
      rw [if_neg (not_not_intro htype), hvmo]
      by_cases hend : exe.node.size ≤ offset
      · -- behind the end only nothing can be asked for
        have hzero : size = 0 := by omega
        rw [if_pos hend, hzero]
        exact ⟨[], rfl⟩
      · rw [if_neg hend]
        have hcount : readCount exe.node.size size offset = size := by
          have hmod : usizeAdd offset size ≤ offset + size := Nat.mod_le _ _
          unfold readCount
          apply if_neg
          omega
        dsimp only
        rw [hcount]
        have hall := @readLoop_count V vm vmo exe.mem offset size size 0 [] (Nat.zero_le _)
          (Nat.sub_le _ _)
        exact ⟨_, congrArg Except.ok (Prod.ext hall rfl)⟩
    · intro j hj
      have hlt : j < size := hj
      show offset + j < exe.node.size
      omega

/-- A header that is read in full is a header of a file with memory. -/
theorem phdrRead_full {exe : Exe V} {header : Elf64_Ehdr} {i : Nat} :
    (phdrRead vm exe header i).Full (nodeBytes exe) ↔
      phdrOffset header i + sizeofPhdr ≤ nodeBytes exe := by
  by_cases hfile : exe.node.type = .regular ∧ exe.node.vmo.isSome = true
  · have hvmo := Option.isSome_iff_exists.mp hfile.2
    have hfull := @full_iff V vm exe sizeofPhdr (phdrOffset header i) ⟨hfile.1, hvmo⟩
    unfold phdrRead
    rw [hfull]
    exact or_iff_right (by decide)
  · -- what is no file with pages has no bytes to read
    have hzero : nodeBytes exe = 0 := if_neg hfile
    rw [hzero]
    have hlong : ¬ phdrOffset header i + sizeofPhdr ≤ 0 := by
      unfold sizeofPhdr
      omega
    refine iff_of_false ?_ hlong
    rintro ⟨-, hin⟩
    have hfirst : 0 < (phdrRead vm exe header i).size := by
      show 0 < sizeofPhdr
      decide
    exact absurd (hin 0 hfirst) (Nat.not_lt_zero _)

/-- The header that the turn uses. -/
theorem phdrAt_of_full {exe : Exe V} {header : Elf64_Ehdr} {i : Nat} {bytes : List UInt8}
    (h : (phdrRead vm exe header i).result = .ok (sizeofPhdr, bytes)) :
    phdrAt vm exe header i = some (phdrOf bytes) := by
  have hread : read vm exe.mem exe.node sizeofPhdr (phdrOffset header i) =
      .ok (sizeofPhdr, bytes) := h
  unfold phdrAt readStruct
  rw [hread]
  rfl

/-! ## Offsets -/

theorem acceptedHeader_bounds {exe : Exe V} {loadBias : Nat} {h : Elf64_Ehdr × Nat}
    (hh : h ∈ acceptedHeader vm exe loadBias) :
    h.1.ePhoff < 2 ^ 64 ∧ h.1.ePhentsize < 2 ^ 16 ∧ h.1.ePhnum < 2 ^ 16 := by
  -- the header's fields are as wide as they are in the file
  have hof : ∃ bytes, h.1 = ehdrOf bytes := by
    unfold acceptedHeader at hh
    cases hread : readStruct vm exe sizeofEhdr 0 with
    | none =>
        rw [hread] at hh
        cases hh
    | some bytes =>
        rw [hread] at hh
        dsimp only at hh
        split at hh
        · rcases Option.map_eq_some_iff.mp hh with ⟨bias, -, hpair⟩
          rw [← hpair]
          exact ⟨bytes, rfl⟩
        · cases hh
  rcases hof with ⟨bytes, heq⟩
  rw [heq]
  exact ⟨field_lt bytes 32 8, field_lt bytes 54 2, field_lt bytes 56 2⟩

/-- The offset of a header is exact just if the `int` product and the sum are. -/
theorem phdrOffset_eq_iff {header : Elf64_Ehdr} {i : Nat} (hphoff : header.ePhoff < 2 ^ 64)
    (hentsize : header.ePhentsize < 2 ^ 16) (hi : i < 2 ^ 16) :
    phdrOffset header i = header.ePhoff + i * header.ePhentsize ↔
      i * header.ePhentsize < 2 ^ 31 ∧ header.ePhoff + i * header.ePhentsize < 2 ^ 64 := by
  -- the product of two `u16` fits into 32 bits, but not always into 31
  have hproduct : i * header.ePhentsize < 2 ^ 32 :=
    calc i * header.ePhentsize < 2 ^ 16 * 2 ^ 16 := Nat.mul_lt_mul'' hi hentsize
      _ = 2 ^ 32 := by decide
  unfold phdrOffset usizeAdd
  generalize i * header.ePhentsize = product at hproduct
  have hextend : ((BitVec.ofNat 32 product).signExtend 64).toNat =
      if product < 2 ^ 31 then product else product + 2 ^ 64 - 2 ^ 32 := by
    have hnat : (BitVec.ofNat 32 product).toNat = product := by
      rw [BitVec.toNat_ofNat]
      exact Nat.mod_eq_of_lt hproduct
    rw [BitVec.toNat_signExtend, BitVec.toNat_setWidth, BitVec.msb_eq_decide, hnat]
    by_cases hlt : product < 2 ^ 31
    · have hmsb : ¬ 2 ^ (32 - 1) ≤ product := Nat.not_le_of_lt hlt
      rw [if_pos hlt, decide_eq_false hmsb, if_neg Bool.false_ne_true]
      omega
    · have hmsb : 2 ^ (32 - 1) ≤ product := Nat.le_of_not_lt hlt
      rw [if_neg hlt, decide_eq_true hmsb, if_pos rfl]
      omega
  rw [hextend]
  split
  · omega
  · omega

/-! ## The loop -/

/-- A turn that is accepted leads to the next one. -/
theorem loop_accepted {env : LoadEnv} {exe : Nat → Exe V} {header : Elf64_Ehdr} {bias i : Nat}
    (hacc : Accepted vm env exe header bias i) (s : Loading) :
    ∃ s' turn, (∀ n, loadLoop vm env exe header bias (n + 1) i s =
        loadLoop vm env exe header bias n (i + 1) s') ∧
      (∀ n, loopReads vm env exe header bias (n + 1) i s =
        turn :: loopReads vm env exe header bias n (i + 1) s') ∧
      turn.phdr = phdrRead vm (exe i) header i ∧
      ∀ phdr, phdrAt vm (exe i) header i = some phdr → phdr.pType = 1 →
        turn.segment = some (segmentRead vm (exe i) phdr) := by
  rcases Option.eq_none_or_eq_some (phdrAt vm (exe i) header i) with hnone | ⟨phdr, hphdr⟩
  · -- fewer bytes than a header: `continue`
    refine ⟨s, ⟨phdrRead vm (exe i) header i, none⟩, ?_, ?_, rfl, ?_⟩
    · intro n
      conv_lhs => unfold loadLoop
      rw [hnone]
    · intro n
      conv_lhs => unfold loopReads
      rw [hnone]
    · intro phdr hphdr
      rw [hnone] at hphdr
      cases hphdr
  · by_cases htype : phdr.pType = 1
    · rcases hacc phdr hphdr htype with ⟨hpos, hmap, hfaults⟩
      rcases @loadPhdr_accepted V vm env (exe i) i bias phdr s hpos hmap hfaults with ⟨s', hload, -⟩
      refine ⟨s', ⟨phdrRead vm (exe i) header i, some (segmentRead vm (exe i) phdr)⟩, ?_, ?_, rfl,
        ?_⟩
      · intro n
        conv_lhs => unfold loadLoop
        rw [hphdr]
        dsimp only
        rw [if_pos htype, hload]
      · intro n
        conv_lhs => unfold loopReads
        rw [hphdr]
        dsimp only
        rw [if_pos htype, hload]
      · intro phdr' hphdr' _
        rw [hphdr] at hphdr'
        cases hphdr'
        rfl
    · -- a header of another type
      refine ⟨s, ⟨phdrRead vm (exe i) header i, none⟩, ?_, ?_, rfl, ?_⟩
      · intro n
        conv_lhs => unfold loadLoop
        rw [hphdr]
        exact if_neg htype
      · intro n
        conv_lhs => unfold loopReads
        rw [hphdr]
        exact if_neg htype
      · intro phdr' hphdr' htype'
        rw [hphdr] at hphdr'
        cases hphdr'
        exact absurd htype' htype

/-- The loop succeeds just if no header is rejected. -/
theorem loadLoop_ok_iff {env : LoadEnv} {exe : Nat → Exe V} {header : Elf64_Ehdr} {bias : Nat}
    (n i : Nat) (s : Loading) :
    (∃ s', loadLoop vm env exe header bias n i s = (.ok (), s')) ↔
      ∀ k, i ≤ k → k < i + n → Accepted vm env exe header bias k := by
  induction n generalizing i s with
  | zero =>
      refine iff_of_true ⟨s, rfl⟩ ?_
      intro k hk hlt
      omega
  | succ n ih =>
      by_cases hacc : Accepted vm env exe header bias i
      · -- this header is accepted, and the others decide
        rcases loop_accepted hacc s with ⟨s', -, hloop, -⟩
        rw [hloop, ih]
        constructor
        · intro h k hk hlt
          rcases Nat.eq_or_lt_of_le hk with heq | hbehind
          · rw [← heq]
            exact hacc
          · exact h k hbehind (by omega)
        · intro h k hk hlt
          exact h k (Nat.le_of_succ_le hk) (by omega)
      · -- it is not, and the loop ends here
        rcases loadLoop_rejected hacc n s with ⟨e, hloop⟩
        rw [hloop]
        constructor
        · rintro ⟨s', hok⟩
          cases hok
        · intro h
          exact absurd (h i (Nat.le_refl i) (by omega)) hacc

/-- A loop that succeeds has made the calls of all headers. -/
theorem loopReads_eq {env : LoadEnv} {exe : Nat → Exe V} {header : Elf64_Ehdr} {bias n i : Nat}
    {s : Loading} (h : ∀ k, i ≤ k → k < i + n → Accepted vm env exe header bias k) {k : Nat}
    (hk : k < n) :
    ∃ turn, (loopReads vm env exe header bias n i s)[k]? = some turn ∧
      turn.phdr = phdrRead vm (exe (i + k)) header (i + k) ∧
      ∀ phdr, phdrAt vm (exe (i + k)) header (i + k) = some phdr → phdr.pType = 1 →
        turn.segment = some (segmentRead vm (exe (i + k)) phdr) := by
  induction n generalizing i k s with
  | zero => exact absurd hk (Nat.not_lt_zero k)
  | succ n ih =>
      rcases loop_accepted (h i (Nat.le_refl i) (by omega)) s with
        ⟨s', turn, -, hreads, hphdr, hsegment⟩
      rw [hreads]
      cases k with
      | zero => exact ⟨turn, rfl, hphdr, hsegment⟩
      | succ k =>
          -- a later turn is one of the rest of the loop
          have hrest : ∀ j, i + 1 ≤ j → j < i + 1 + n → Accepted vm env exe header bias j := by
            intro j hj hlt
            exact h j (Nat.le_of_succ_le hj) (by omega)
          have hplace : i + 1 + k = i + (k + 1) := by omega
          have hturn := ih (s := s') hrest (Nat.lt_of_succ_lt_succ hk)
          rw [hplace] at hturn
          exact hturn

/-- `Load` succeeds just if no header is rejected and there is a stack. -/
theorem load_ok_iff {env : LoadEnv} {exe : Nat → Exe V} {loadBias : Nat} {h : Elf64_Ehdr × Nat}
    (hh : h ∈ acceptedHeader vm (exe 0) loadBias) :
    (∃ result segments, load vm env exe loadBias = (.ok result, segments)) ↔
      (∀ i, i < h.1.ePhnum → Accepted vm env exe h.1 h.2 i) ∧ env.stack ≠ none := by
  have hsome : acceptedHeader vm (exe 0) loadBias = some (h.1, h.2) := hh
  have hloop := @loadLoop_ok_iff V vm env exe h.1 h.2 h.1.ePhnum 0 {}
  have hall : (∀ k, 0 ≤ k → k < 0 + h.1.ePhnum → Accepted vm env exe h.1 h.2 k) ↔
      ∀ i, i < h.1.ePhnum → Accepted vm env exe h.1 h.2 i := by
    simp only [Nat.zero_le, forall_true_left, Nat.zero_add]
  rw [hall] at hloop
  rw [← hloop]
  unfold load
  rw [hsome]
  dsimp only
  rcases loadLoop vm env exe h.1 h.2 h.1.ePhnum 0 {} with ⟨e | u, s⟩
  · refine iff_of_false ?_ ?_
    · rintro ⟨result, segments, hok⟩
      cases hok
    · -- the loop has failed
      rintro ⟨⟨s', hok⟩, -⟩
      cases hok
  · cases hstack : env.stack with
    | none =>
        refine iff_of_false ?_ ?_
        · rintro ⟨result, segments, hok⟩
          cases hok
        · rintro ⟨-, hnot⟩
          exact hnot rfl
    | some stackBottom => exact iff_of_true ⟨_, _, rfl⟩ ⟨⟨s, rfl⟩, Option.some_ne_none _⟩

/-- The calls of a turn read all that is expected just if the header is complete. -/
theorem complete_iff {exe : Exe V} {header : Elf64_Ehdr} {i : Nat} {turn : TurnReads}
    (hphoff : header.ePhoff < 2 ^ 64) (hentsize : header.ePhentsize < 2 ^ 16) (hi : i < 2 ^ 16)
    (hphdr : turn.phdr = phdrRead vm exe header i)
    (hsegment : ∀ phdr, phdrAt vm exe header i = some phdr → phdr.pType = 1 →
      turn.segment = some (segmentRead vm exe phdr)) :
    turn.Complete exe header i ↔ HeaderComplete vm exe header i := by
  have hoffset := phdrOffset_eq_iff hphoff hentsize hi
  constructor
  · intro h
    have hplace : phdrOffset header i = header.ePhoff + i * header.ePhentsize := by
      rw [← h.offset, hphdr]
      rfl
    have hfull := h.full
    rw [hphdr, phdrRead_full, hplace] at hfull
    refine ⟨(hoffset.mp hplace).1, (hoffset.mp hplace).2, hfull, ?_⟩
    intro phdr hat htype
    -- the header that the turn used is the one that was read in full
    rcases h.full.result with ⟨bytes, hresult⟩
    have hread := hresult
    rw [h.size, hphdr] at hread
    rw [phdrAt_of_full hread] at hat
    obtain rfl := Option.some.inj hat
    rcases h.segment _ bytes hresult htype with ⟨hsizes, call, hcall, -, -, hcallFull⟩
    refine ⟨hsizes, ?_⟩
    rw [hsegment _ (phdrAt_of_full hread) htype] at hcall
    obtain rfl := Option.some.inj hcall
    exact (full_iff (phdrAt_regular (phdrAt_of_full hread))).mp hcallFull
  · intro h
    have hplace := hoffset.mpr ⟨h.product, h.sum⟩
    have hfull : turn.phdr.Full (nodeBytes exe) := by
      rw [hphdr, phdrRead_full, hplace]
      exact h.inFile
    refine ⟨?_, ?_, hfull, ?_⟩
    · rw [hphdr]
      exact hplace
    · rw [hphdr]
      rfl
    · intro n bytes hresult htype
      -- the count that was returned is that of a header
      rcases hfull.result with ⟨bytes', hall⟩
      rw [hresult] at hall
      have hread : (phdrRead vm exe header i).result = .ok (sizeofPhdr, bytes) := by
        rw [← hphdr, hresult, (Prod.mk.inj (Except.ok.inj hall)).1, hphdr]
        rfl
      have hat := phdrAt_of_full hread
      rcases h.segment _ hat htype with ⟨hsizes, hbytes⟩
      exact ⟨hsizes, _, hsegment _ hat htype, rfl, rfl,
        (full_iff (phdrAt_regular hat)).mpr hbytes⟩

/-- A load that succeeds has read all of the file's segments just if the headers
are complete. -/
theorem loadedInFull_iff (env : LoadEnv) (exe : Nat → Exe V) (loadBias : Nat) :
    LoadedInFull vm env exe loadBias ↔ HeadersComplete vm env exe loadBias := by
  -- in a loop that succeeds, turn by turn
  have hturns : ∀ h ∈ acceptedHeader vm (exe 0) loadBias,
      (∀ i, i < h.1.ePhnum → Accepted vm env exe h.1 h.2 i) → ∀ i, i < h.1.ePhnum →
        ((∃ turn, (loadReads vm env exe loadBias)[i]? = some turn ∧ turn.Complete (exe i) h.1 i) ↔
          HeaderComplete vm (exe i) h.1 i) := by
    intro h hh hacc i hi
    rcases acceptedHeader_bounds hh with ⟨hphoff, hentsize, hphnum⟩
    have hreads : loadReads vm env exe loadBias =
        loopReads vm env exe h.1 h.2 h.1.ePhnum 0 {} := by
      have hsome : acceptedHeader vm (exe 0) loadBias = some (h.1, h.2) := hh
      unfold loadReads
      rw [hsome]
    have hall : ∀ k, 0 ≤ k → k < 0 + h.1.ePhnum → Accepted vm env exe h.1 h.2 k := by
      intro k _ hk
      rw [Nat.zero_add] at hk
      exact hacc k hk
    rcases loopReads_eq (s := {}) hall hi with ⟨turn, hturn, hphdr, hsegment⟩
    rw [Nat.zero_add] at hphdr hsegment
    rw [hreads, hturn]
    have hcomplete := complete_iff hphoff hentsize (Nat.lt_trans hi hphnum) hphdr hsegment
    rw [← hcomplete]
    constructor
    · rintro ⟨turn', hturn', hc⟩
      rw [Option.some.inj hturn']
      exact hc
    · intro hc
      exact ⟨turn, rfl, hc⟩
  constructor
  · intro h b hb hacc hstack i hi
    rcases (load_ok_iff hb).mpr ⟨hacc, hstack⟩ with ⟨result, segments, hok⟩
    exact (hturns b hb hacc i hi).mp (h result segments hok b hb i hi)
  · intro h result segments hok b hb i hi
    rcases (load_ok_iff hb).mp ⟨result, segments, hok⟩ with ⟨hacc, hstack⟩
    exact (hturns b hb hacc i hi).mpr (h b hb hacc hstack i hi)

end

/-! ## A file that is cut -/

/-- An executable that ends in its program header. -/
def cutFile : List UInt8 := (oneSegmentFile 0x400000 1 2).take 100

/-- `Load` succeeds, and has loaded nothing. -/
theorem cutFile_loaded :
    ¬ LoadedInFull (pageList .basePlusOffset) mapsUser (fun _ => exeOf cutFile) 0 := by
  intro h
  have hok : (load (pageList .basePlusOffset) mapsUser (fun _ => exeOf cutFile)
      0).1.toOption.isSome = true := by
    decide +kernel
  have hheader : (acceptedHeader (pageList .basePlusOffset) (exeOf cutFile) 0).map
      (fun b => (b.1.ePhoff, b.1.ePhnum)) = some (64, 1) := by
    decide +kernel
  rcases hload : load (pageList .basePlusOffset) mapsUser (fun _ => exeOf cutFile) 0 with
    ⟨e | result, segments⟩
  · rw [hload] at hok
    cases hok
  · rcases Option.map_eq_some_iff.mp hheader with ⟨b, hb, hfields⟩
    rcases Prod.mk.inj hfields with ⟨hphoff, hphnum⟩
    have hfirst : 0 < b.1.ePhnum := by
      rw [hphnum]
      decide
    rcases h result segments hload b hb 0 hfirst with ⟨turn, -, hcomplete⟩
    -- the header has 36 bytes
    have hlast := hcomplete.full.inFile 40 (by
      rw [hcomplete.size]
      decide)
    rw [hcomplete.offset, hphoff, Nat.zero_mul] at hlast
    exact absurd hlast (by decide)

end Ceryx.Proc.ElfLoader
