import Mathlib.Data.Nat.Digits.Lemmas
import Ceryx.Fs.RamFsRefine

/-!
# Ceryx.Proc.ElfLoader — where `ElfLoader::Load` writes

`ElfLoader::Load` of `ElfLoader.hpp`, for an executable that is a regular file
of the RAM file system. The fields of its headers are any numbers.

* `MapAnonymous` and `HandleFault` are inputs, `LoadEnv`. `LoadEnv.Lawful`: a
  range that `MapAnonymous` accepts is in user space.
* `exe i` is the file when header `i` is read, as the stores of the loader may
  reach it.
* A `Segment` is what happens for a `PT_LOAD` header whose range was mapped: the
  range and the stores. `Segment.Inside` is what is expected of it.
* `inside_iff_segmentsFit`: all stores are inside if and only if each header
  that is mapped meets `Elf64_Phdr.Fits`, which relates `p_filesz`, `p_memsz`
  and the bytes of the file.
* `long_filesz_outside`: a header with `p_filesz = 2` and `p_memsz = 1`.
-/

namespace Ceryx.Proc.ElfLoader

open Lib Fs Fs.RamFs

def ENOEXEC : Int := 8

/-! ## Headers -/

/-- An unsigned field of a structure in memory, little endian. -/
def field (bytes : List UInt8) (offset size : Nat) : Nat :=
  Nat.ofDigits 256 (((bytes.drop offset).take size).map UInt8.toNat)

/-- `Elf64_Ehdr`. -/
structure Elf64_Ehdr where
  eIdent : List UInt8
  eType : Nat
  eEntry : Nat
  ePhoff : Nat
  ePhentsize : Nat
  ePhnum : Nat
deriving DecidableEq, Repr

/-- `Elf64_Phdr`. -/
structure Elf64_Phdr where
  pType : Nat
  pOffset : Nat
  pVaddr : Nat
  pFilesz : Nat
  pMemsz : Nat
deriving DecidableEq, Repr

def sizeofEhdr : Nat := 64
def sizeofPhdr : Nat := 56

def ehdrOf (bytes : List UInt8) : Elf64_Ehdr where
  eIdent := bytes.take 16
  eType := field bytes 16 2
  eEntry := field bytes 24 8
  ePhoff := field bytes 32 8
  ePhentsize := field bytes 54 2
  ePhnum := field bytes 56 2

def phdrOf (bytes : List UInt8) : Elf64_Phdr where
  pType := field bytes 0 4
  pOffset := field bytes 8 8
  pVaddr := field bytes 16 8
  pFilesz := field bytes 32 8
  pMemsz := field bytes 40 8

/-- The executable: its vnode and the memory. -/
structure Exe (V : Type) where
  mem : Nat → UInt8
  node : RamFsNode V

section
variable {V : Type} (vm : VmObject V)

/-- A structure of the file, where `Read` returns all of it. -/
def readStruct (exe : Exe V) (size offset : Nat) : Option (List UInt8) :=
  match read vm exe.mem exe.node size offset with
  | .ok (n, bytes) => if n = size then some bytes else none
  | .error _ => none

/-- `e_phoff + i * e_phentsize`: the product is an `int`, which wraps. -/
def phdrOffset (header : Elf64_Ehdr) (i : Nat) : Nat :=
  usizeAdd header.ePhoff ((BitVec.ofNat 32 (i * header.ePhentsize)).signExtend 64).toNat

def phdrAt (exe : Exe V) (header : Elf64_Ehdr) (i : Nat) : Option Elf64_Phdr :=
  (readStruct vm exe sizeofPhdr (phdrOffset header i)).map phdrOf

/-- `effective_bias`. -/
def effectiveBias (header : Elf64_Ehdr) (loadBias : Nat) : Option Nat :=
  if header.eType = 2 then some 0
  else if header.eType = 3 then some (if loadBias ≠ 0 then loadBias else 0x400000)
  else none

/-- The header that `Load` accepts and `effective_bias`. -/
def acceptedHeader (exe : Exe V) (loadBias : Nat) : Option (Elf64_Ehdr × Nat) :=
  match readStruct vm exe sizeofEhdr 0 with
  | none => none
  | some bytes =>
      let header := ehdrOf bytes
      if header.eIdent.take 4 = [0x7F, 0x45, 0x4C, 0x46] then
        (effectiveBias header loadBias).map fun bias => (header, bias)
      else none

/-! ## Segments -/

/-- `x & ~0xFFF`. -/
def pageAligned (x : Nat) : Nat := x - x % 0x1000

namespace Elf64_Phdr

variable (phdr : Elf64_Phdr) (bias : Nat)

/-- `vaddr`. -/
def vaddr : Nat := usizeAdd phdr.pVaddr bias

/-- `page_aligned_vaddr`. -/
def pageAlignedVaddr : Nat := pageAligned (phdr.vaddr bias)

/-- `padding`. -/
def padding : Nat := phdr.vaddr bias - phdr.pageAlignedVaddr bias

/-- `mem_size`. -/
def memSize : Nat := pageAligned (usizeAdd (usizeAdd phdr.pMemsz (phdr.padding bias)) 0xFFF)

end Elf64_Phdr

/-- Bytes stored from an address on. Addresses wrap. -/
structure Store where
  addr : Nat
  bytes : List UInt8

/-- The range that was mapped, and the stores. -/
structure Segment where
  start : Nat
  size : Nat
  stores : List Store

/-- The call for the file's bytes. -/
def readStore (exe : Exe V) (phdr : Elf64_Phdr) (bias : Nat) : List Store :=
  match read vm exe.mem exe.node phdr.pFilesz phdr.pOffset with
  | .ok (_, bytes) => [⟨phdr.vaddr bias, bytes⟩]
  | .error _ => []

/-- The call for the zeroes. -/
def zeroStore (phdr : Elf64_Phdr) (bias : Nat) : List Store :=
  if phdr.pFilesz < phdr.pMemsz then
    [⟨usizeAdd (phdr.vaddr bias) phdr.pFilesz, List.replicate (phdr.pMemsz - phdr.pFilesz) 0⟩]
  else []

def segmentOf (exe : Exe V) (phdr : Elf64_Phdr) (bias : Nat) : Segment where
  start := phdr.pageAlignedVaddr bias
  size := phdr.memSize bias
  stores := readStore vm exe phdr bias ++ zeroStore phdr bias

/-! ## Load -/

/-- Whether `MapAnonymous` accepts the range of header `i`, the results of
`HandleFault` there, and the stack that is mapped. -/
structure LoadEnv where
  mapAnonymous : Nat → Nat → Nat → Bool
  handleFault : Nat → Nat → Bool
  stack : Option Nat

/-- `LoadResult`. -/
structure LoadResult where
  entryPoint : Nat
  stackTop : Nat
  heapBase : Nat
deriving DecidableEq, Repr

/-- The locals of the loop: `max_vaddr`, and the segments so far. -/
structure Loading where
  maxVaddr : Nat := 0
  segments : List Segment := []

/-- All pages of the range are faulted in. -/
def faultsIn (env : LoadEnv) (i : Nat) (phdr : Elf64_Phdr) (bias : Nat) : Bool :=
  (List.range (phdr.memSize bias / 0x1000)).all fun k =>
    env.handleFault i (usizeAdd (phdr.pageAlignedVaddr bias) (k * 0x1000))

/-- The body of the loop for a `PT_LOAD` header. -/
def loadPhdr (env : LoadEnv) (exe : Exe V) (i : Nat) (phdr : Elf64_Phdr) (bias : Nat)
    (s : Loading) : Except Int Unit × Loading :=
  if phdr.pageAlignedVaddr bias = 0 then (.error (-ENOEXEC), s)
  else if env.mapAnonymous i (phdr.pageAlignedVaddr bias) (phdr.memSize bias) = false then
    (.error (-ENOMEM), s)
  else if faultsIn env i phdr bias = false then (.error (-ENOMEM), s)
  else
    let top := usizeAdd (phdr.vaddr bias) phdr.pMemsz
    (.ok (),
      { maxVaddr := if s.maxVaddr < top then top else s.maxVaddr
        segments := s.segments ++ [segmentOf vm exe phdr bias] })

/-- The loop from header `i` on, with the number of headers left. -/
def loadLoop (env : LoadEnv) (exe : Nat → Exe V) (header : Elf64_Ehdr) (bias : Nat) :
    Nat → Nat → Loading → Except Int Unit × Loading
  | 0, _, s => (.ok (), s)
  | n + 1, i, s =>
      match phdrAt vm (exe i) header i with
      | none => loadLoop env exe header bias n (i + 1) s
      | some phdr =>
          if phdr.pType = 1 then
            match loadPhdr vm env (exe i) i phdr bias s with
            | (.error e, s) => (.error e, s)
            | (.ok _, s) => loadLoop env exe header bias n (i + 1) s
          else loadLoop env exe header bias n (i + 1) s

/-- `ElfLoader::Load`: the result, and the segments that were written. -/
def load (env : LoadEnv) (exe : Nat → Exe V) (loadBias : Nat) :
    Except Int LoadResult × List Segment :=
  match acceptedHeader vm (exe 0) loadBias with
  | none => (.error (-ENOEXEC), [])
  | some (header, bias) =>
      match loadLoop vm env exe header bias header.ePhnum 0 {} with
      | (.error e, s) => (.error e, s.segments)
      | (.ok _, s) =>
          match env.stack with
          | none => (.error (-ENOMEM), s.segments)
          | some stackBottom =>
              (.ok
                { entryPoint := usizeAdd header.eEntry bias
                  stackTop := usizeAdd stackBottom 0x800000
                  heapBase := pageAligned (usizeAdd s.maxVaddr 0xFFF) }, s.segments)

/-! ## What is expected -/

/-- The user address space. -/
structure UserSpace where
  bottom : Nat
  top : Nat
  top_le : top ≤ 2 ^ 64

def UserSpace.Covers (user : UserSpace) (start size : Nat) : Prop :=
  user.bottom ≤ start ∧ start + size ≤ user.top

instance (user : UserSpace) (start size : Nat) : Decidable (user.Covers start size) :=
  inferInstanceAs (Decidable (_ ∧ _))

/-- `MapAnonymous` fails on a range that is not in user space. -/
def LoadEnv.Lawful (env : LoadEnv) (user : UserSpace) : Prop :=
  ∀ i start size, env.mapAnonymous i start size = true → user.Covers start size

def Store.Inside (store : Store) (start size : Nat) : Prop :=
  ∀ j, j < store.bytes.length →
    start ≤ (store.addr + j) % 2 ^ 64 ∧ (store.addr + j) % 2 ^ 64 < start + size

instance (store : Store) (start size : Nat) : Decidable (store.Inside start size) :=
  inferInstanceAs (Decidable (∀ j, j < _ → _))

/-- All stores are in the range that was mapped, which is in user space. -/
def Segment.Inside (seg : Segment) (user : UserSpace) : Prop :=
  user.Covers seg.start seg.size ∧ ∀ store ∈ seg.stores, store.Inside seg.start seg.size

instance (seg : Segment) (user : UserSpace) : Decidable (seg.Inside user) :=
  inferInstanceAs (Decidable (_ ∧ _))

/-! ## The condition on a header -/

/-- The bytes that `Read` takes from a file of `nodeSize` bytes. -/
def fileCount (nodeSize : Nat) (phdr : Elf64_Phdr) : Nat :=
  if nodeSize ≤ phdr.pOffset then 0 else readCount nodeSize phdr.pFilesz phdr.pOffset

/-- The bytes of the file fit into the range. Where there are zeroes, the size
of the range does not wrap, or the zeroes are all behind the wrap. -/
def Elf64_Phdr.Fits (phdr : Elf64_Phdr) (nodeSize bias : Nat) : Prop :=
  (fileCount nodeSize phdr = 0 ∨ phdr.padding bias + fileCount nodeSize phdr ≤ phdr.memSize bias) ∧
    (phdr.pMemsz ≤ phdr.pFilesz ∨ phdr.padding bias + phdr.pMemsz + 0xFFF < 2 ^ 64 ∨
      2 ^ 64 ≤ phdr.padding bias + phdr.pFilesz)

instance (phdr : Elf64_Phdr) (nodeSize bias : Nat) : Decidable (phdr.Fits nodeSize bias) :=
  inferInstanceAs (Decidable (_ ∧ _))

/-- Header `i` does not end the loop. -/
def Accepted (env : LoadEnv) (exe : Nat → Exe V) (header : Elf64_Ehdr) (bias i : Nat) : Prop :=
  ∀ phdr ∈ phdrAt vm (exe i) header i, phdr.pType = 1 →
    phdr.pageAlignedVaddr bias ≠ 0 ∧
      env.mapAnonymous i (phdr.pageAlignedVaddr bias) (phdr.memSize bias) = true ∧
        faultsIn env i phdr bias = true

instance (env : LoadEnv) (exe : Nat → Exe V) (header : Elf64_Ehdr) (bias i : Nat) :
    Decidable (Accepted vm env exe header bias i) := by
  unfold Accepted
  infer_instance

/-- Each `PT_LOAD` header that is mapped fits. -/
def SegmentsFit (env : LoadEnv) (exe : Nat → Exe V) (loadBias : Nat) : Prop :=
  ∀ h ∈ acceptedHeader vm (exe 0) loadBias, ∀ i, i < h.1.ePhnum →
    (∀ k, k < i + 1 → Accepted vm env exe h.1 h.2 k) →
      ∀ phdr ∈ phdrAt vm (exe i) h.1 i, phdr.pType = 1 → phdr.Fits (exe i).node.size h.2

instance (env : LoadEnv) (exe : Nat → Exe V) (loadBias : Nat) :
    Decidable (SegmentsFit vm env exe loadBias) := by
  unfold SegmentsFit
  infer_instance

end

/-! ## Bounds -/

theorem field_lt (bytes : List UInt8) (offset size : Nat) : field bytes offset size < 256 ^ size := by
  unfold field
  have hdigits : ∀ d ∈ ((bytes.drop offset).take size).map UInt8.toNat, d < 256 := by
    intro d hd
    rcases List.mem_map.mp hd with ⟨b, -, hb⟩
    rw [← hb]
    exact b.toNat_lt
  have hlt := Nat.ofDigits_lt_base_pow_length (by decide) hdigits
  have hlen : (((bytes.drop offset).take size).map UInt8.toNat).length ≤ size := by
    rw [List.length_map]
    exact List.length_take_le size (bytes.drop offset)
  exact Nat.lt_of_lt_of_le hlt (Nat.pow_le_pow_right (by decide) hlen)

theorem vaddr_lt (phdr : Elf64_Phdr) (bias : Nat) : phdr.vaddr bias < 2 ^ 64 :=
  Nat.mod_lt _ (by decide)

theorem pageAligned_add (x : Nat) : pageAligned x + x % 0x1000 = x :=
  Nat.sub_add_cancel (Nat.mod_le x 0x1000)

theorem padding_eq (phdr : Elf64_Phdr) (bias : Nat) :
    phdr.padding bias = phdr.vaddr bias % 0x1000 := by
  have hadd := pageAligned_add (phdr.vaddr bias)
  unfold Elf64_Phdr.padding Elf64_Phdr.pageAlignedVaddr
  omega

theorem padding_lt (phdr : Elf64_Phdr) (bias : Nat) : phdr.padding bias < 0x1000 := by
  rw [padding_eq]
  exact Nat.mod_lt _ (by decide)

theorem aligned_add_padding (phdr : Elf64_Phdr) (bias : Nat) :
    phdr.pageAlignedVaddr bias + phdr.padding bias = phdr.vaddr bias := by
  rw [padding_eq]
  exact pageAligned_add (phdr.vaddr bias)

/-! ## Stores in a range -/

/-- The bytes from `vaddr` on, in a range that starts `padding` bytes before and
does not wrap. -/
theorem bytes_inside_iff {start size padding vaddr : Nat} (count : Nat) (hpos : start ≠ 0)
    (hstart : start + padding = vaddr) (hvaddr : vaddr < 2 ^ 64) (hrange : start + size ≤ 2 ^ 64) :
    (∀ j, j < count → start ≤ (vaddr + j) % 2 ^ 64 ∧ (vaddr + j) % 2 ^ 64 < start + size) ↔
      count = 0 ∨ padding + count ≤ size := by
  constructor
  · intro h
    by_contra hnot
    rw [not_or, Nat.not_le] at hnot
    rcases hnot with ⟨hcount, hlong⟩
    rcases Nat.lt_or_ge padding size with hin | hout
    · -- the first byte behind the range
      have hlast := h (size - padding) (by omega)
      have haddr : vaddr + (size - padding) = start + size := by omega
      rw [haddr] at hlast
      omega
    · -- the range ends before `vaddr`
      have hfirst := h 0 (Nat.pos_of_ne_zero hcount)
      omega
  · intro h j hj
    omega

/-- The zeroes, from `filesz` to `memsz` after `vaddr`, are in the range of
`memsz` bytes rounded up to pages. -/
theorem zeroes_inside_iff {start size padding vaddr filesz memsz : Nat}
    (hstart : start + padding = vaddr) (hpadding : padding < 0x1000)
    (hrange : start + size ≤ 2 ^ 64) (hmemsz : memsz < 2 ^ 64)
    (hlt : filesz < memsz) (hsize : size = pageAligned ((memsz + padding + 0xFFF) % 2 ^ 64)) :
    (∀ j, j < memsz - filesz → start ≤ ((vaddr + filesz) % 2 ^ 64 + j) % 2 ^ 64 ∧
      ((vaddr + filesz) % 2 ^ 64 + j) % 2 ^ 64 < start + size) ↔
      padding + memsz + 0xFFF < 2 ^ 64 ∨ 2 ^ 64 ≤ padding + filesz := by
  have hround := pageAligned_add ((memsz + padding + 0xFFF) % 2 ^ 64)
  have hmod := Nat.mod_lt ((memsz + padding + 0xFFF) % 2 ^ 64) (by decide : 0 < 0x1000)
  rw [← hsize] at hround
  constructor
  · intro h
    by_contra hnot
    rw [not_or, Nat.not_lt, Nat.not_le] at hnot
    rcases hnot with ⟨hwrap, hfile⟩
    -- the size has wrapped to a page at most, the first zero has not
    have hfirst := h 0 (by omega)
    have hlast := h (min (memsz - filesz - 1) (2 ^ 64 - 1 - (padding + filesz))) (by omega)
    omega
  · rintro (hfits | hwrapped) j hj
    · omega
    · omega

/-! ## Segments -/

section
variable {V : Type} {vm : VmObject V}

theorem readStruct_regular {exe : Exe V} {size offset : Nat} {bytes : List UInt8}
    (hsize : 0 < size) (h : readStruct vm exe size offset = some bytes) :
    exe.node.type = .regular ∧ ∃ vmo, exe.node.vmo = some vmo := by
  unfold readStruct RamFs.read at h
  by_cases htype : exe.node.type = .regular
  · refine ⟨htype, ?_⟩
    rcases Option.eq_none_or_eq_some exe.node.vmo with hnone | hsome
    · exfalso
      -- then `Read` returns 0
      rw [if_neg (not_not_intro htype), hnone] at h
      split at h
      · rename_i n read heq
        split at heq
        · cases heq
          rw [if_neg (Nat.ne_of_lt hsize)] at h
          cases h
        · cases heq
          rw [if_neg (Nat.ne_of_lt hsize)] at h
          cases h
      · cases h
    · exact hsome
  · rw [if_pos htype] at h
    cases h

/-- A file of the file system has its bytes stored from `vaddr` on. -/
theorem readStore_spec {exe : Exe V} {vmo : V} (phdr : Elf64_Phdr) (bias : Nat)
    (htype : exe.node.type = .regular) (hvmo : exe.node.vmo = some vmo) :
    ∃ bytes, readStore vm exe phdr bias = [⟨phdr.vaddr bias, bytes⟩] ∧
      bytes.length = fileCount exe.node.size phdr := by
  unfold readStore RamFs.read fileCount
  rw [if_neg (not_not_intro htype), hvmo]
  by_cases hend : exe.node.size ≤ phdr.pOffset
  · rw [if_pos hend, if_pos hend]
    exact ⟨[], rfl, rfl⟩
  · rw [if_neg hend, if_neg hend]
    refine ⟨_, rfl, ?_⟩
    have hlen := @readLoop_length V vm vmo exe.mem phdr.pOffset
      (readCount exe.node.size phdr.pFilesz phdr.pOffset)
      (readCount exe.node.size phdr.pFilesz phdr.pOffset) 0 [] (Nat.zero_le _) (Nat.sub_le _ _)
    rw [List.length_nil, Nat.zero_add, Nat.sub_zero] at hlen
    exact hlen

theorem phdrAt_bounds {exe : Exe V} {header : Elf64_Ehdr} {i : Nat} {phdr : Elf64_Phdr}
    (h : phdrAt vm exe header i = some phdr) : phdr.pFilesz < 2 ^ 64 ∧ phdr.pMemsz < 2 ^ 64 := by
  unfold phdrAt at h
  rcases Option.map_eq_some_iff.mp h with ⟨bytes, -, hphdr⟩
  rw [← hphdr]
  exact ⟨field_lt bytes 32 8, field_lt bytes 40 8⟩

theorem phdrAt_regular {exe : Exe V} {header : Elf64_Ehdr} {i : Nat} {phdr : Elf64_Phdr}
    (h : phdrAt vm exe header i = some phdr) :
    exe.node.type = .regular ∧ ∃ vmo, exe.node.vmo = some vmo := by
  unfold phdrAt at h
  rcases Option.map_eq_some_iff.mp h with ⟨bytes, hbytes, -⟩
  exact readStruct_regular (by decide) hbytes

theorem memSize_eq (phdr : Elf64_Phdr) (bias : Nat) :
    phdr.memSize bias = pageAligned ((phdr.pMemsz + phdr.padding bias + 0xFFF) % 2 ^ 64) := by
  unfold Elf64_Phdr.memSize usizeAdd
  rw [Nat.mod_add_mod]

/-- In a range of user space, the stores of a header are inside if and only if
the header fits. -/
theorem segmentOf_inside_iff {exe : Exe V} {header : Elf64_Ehdr} {i bias : Nat}
    {phdr : Elf64_Phdr} (user : UserSpace) (hphdr : phdrAt vm exe header i = some phdr)
    (hpos : phdr.pageAlignedVaddr bias ≠ 0)
    (hcovers : user.Covers (phdr.pageAlignedVaddr bias) (phdr.memSize bias)) :
    (segmentOf vm exe phdr bias).Inside user ↔ phdr.Fits exe.node.size bias := by
  rcases phdrAt_regular hphdr with ⟨htype, vmo, hvmo⟩
  rcases @readStore_spec V vm exe vmo phdr bias htype hvmo with ⟨bytes, hread, hlen⟩
  have hrange : phdr.pageAlignedVaddr bias + phdr.memSize bias ≤ 2 ^ 64 :=
    Nat.le_trans hcovers.2 user.top_le
  -- the bytes from the file and the zeroes behind them are separate stores
  have hbytes := bytes_inside_iff bytes.length hpos (aligned_add_padding phdr bias)
    (vaddr_lt phdr bias) hrange
  have hzeroes : (∀ store ∈ zeroStore phdr bias,
      store.Inside (phdr.pageAlignedVaddr bias) (phdr.memSize bias)) ↔
        (phdr.pMemsz ≤ phdr.pFilesz ∨ phdr.padding bias + phdr.pMemsz + 0xFFF < 2 ^ 64 ∨
          2 ^ 64 ≤ phdr.padding bias + phdr.pFilesz) := by
    unfold zeroStore
    by_cases hlt : phdr.pFilesz < phdr.pMemsz
    · have hinside := zeroes_inside_iff (aligned_add_padding phdr bias) (padding_lt phdr bias)
        hrange (phdrAt_bounds hphdr).2 hlt (memSize_eq phdr bias)
      rw [if_pos hlt, List.forall_mem_singleton, or_iff_right (Nat.not_le_of_lt hlt)]
      unfold Store.Inside
      rw [List.length_replicate]
      exact hinside
    · rw [if_neg hlt]
      have hle := Nat.le_of_not_lt hlt
      simp only [List.not_mem_nil, false_implies, implies_true, hle, true_or]
  unfold Segment.Inside Elf64_Phdr.Fits segmentOf
  rw [hread, List.singleton_append, List.forall_mem_cons, hzeroes, ← hlen, ← hbytes]
  unfold Store.Inside
  constructor
  · rintro ⟨-, hinside⟩
    exact hinside
  · intro hinside
    exact ⟨hcovers, hinside⟩

/-! ## The loop -/

theorem loadPhdr_accepted {env : LoadEnv} {exe : Exe V} {i bias : Nat} {phdr : Elf64_Phdr}
    (s : Loading) (hpos : phdr.pageAlignedVaddr bias ≠ 0)
    (hmap : env.mapAnonymous i (phdr.pageAlignedVaddr bias) (phdr.memSize bias) = true)
    (hfaults : faultsIn env i phdr bias = true) :
    ∃ s', loadPhdr vm env exe i phdr bias s = (.ok (), s') ∧
      s'.segments = s.segments ++ [segmentOf vm exe phdr bias] := by
  unfold loadPhdr
  rw [if_neg hpos, hmap, hfaults]
  exact ⟨_, rfl, rfl⟩

theorem loadPhdr_rejected {env : LoadEnv} {exe : Exe V} {i bias : Nat} {phdr : Elf64_Phdr}
    (s : Loading) (h : ¬ (phdr.pageAlignedVaddr bias ≠ 0 ∧
      env.mapAnonymous i (phdr.pageAlignedVaddr bias) (phdr.memSize bias) = true ∧
        faultsIn env i phdr bias = true)) :
    ∃ e, loadPhdr vm env exe i phdr bias s = (.error e, s) := by
  unfold loadPhdr
  split
  · exact ⟨_, rfl⟩
  · rename_i hpos
    split
    · exact ⟨_, rfl⟩
    · rename_i hmap
      split
      · exact ⟨_, rfl⟩
      · rename_i hfaults
        rw [Bool.not_eq_false] at hmap hfaults
        exact absurd ⟨hpos, hmap, hfaults⟩ h

/-- A header that is rejected ends the loop. -/
theorem loadLoop_rejected {env : LoadEnv} {exe : Nat → Exe V} {header : Elf64_Ehdr} {bias i : Nat}
    (hrej : ¬ Accepted vm env exe header bias i) (n : Nat) (s : Loading) :
    ∃ e, loadLoop vm env exe header bias (n + 1) i s = (.error e, s) := by
  rcases Option.eq_none_or_eq_some (phdrAt vm (exe i) header i) with hnone | ⟨phdr, hphdr⟩
  · -- a header that cannot be read is skipped, so it rejects nothing
    exfalso
    apply hrej
    intro phdr hphdr
    rw [hnone] at hphdr
    cases hphdr
  · have hload : phdr.pType = 1 ∧ ¬ (phdr.pageAlignedVaddr bias ≠ 0 ∧
        env.mapAnonymous i (phdr.pageAlignedVaddr bias) (phdr.memSize bias) = true ∧
          faultsIn env i phdr bias = true) := by
      by_contra hnot
      apply hrej
      intro phdr' hphdr' htype
      rw [hphdr] at hphdr'
      cases hphdr'
      by_contra hbad
      exact hnot ⟨htype, hbad⟩
    rcases @loadPhdr_rejected V vm env (exe i) i bias phdr s hload.2 with ⟨e, hend⟩
    refine ⟨e, ?_⟩
    unfold loadLoop
    rw [hphdr]
    dsimp only
    rw [if_pos hload.1, hend]

/-- The segment of one of the `n` headers from `i` on, which was reached. -/
def Loaded (vm : VmObject V) (env : LoadEnv) (exe : Nat → Exe V) (header : Elf64_Ehdr)
    (bias i n : Nat) (seg : Segment) : Prop :=
  ∃ j phdr, i ≤ j ∧ j < i + n ∧ (∀ k, i ≤ k → k < j + 1 → Accepted vm env exe header bias k) ∧
    phdrAt vm (exe j) header j = some phdr ∧ phdr.pType = 1 ∧ seg = segmentOf vm (exe j) phdr bias

/-- The first header, or one of the others behind it. -/
theorem loaded_succ_iff {env : LoadEnv} {exe : Nat → Exe V} {header : Elf64_Ehdr}
    {bias i n : Nat} {seg : Segment} :
    Loaded vm env exe header bias i (n + 1) seg ↔
      Accepted vm env exe header bias i ∧
        ((∃ phdr, phdrAt vm (exe i) header i = some phdr ∧ phdr.pType = 1 ∧
            seg = segmentOf vm (exe i) phdr bias) ∨
          Loaded vm env exe header bias (i + 1) n seg) := by
  constructor
  · rintro ⟨j, phdr, hij, hjn, hacc, hphdr, htype, hseg⟩
    refine ⟨hacc i (Nat.le_refl i) (Nat.lt_succ_of_le hij), ?_⟩
    -- this header, or one further on
    rcases Nat.eq_or_lt_of_le hij with heq | hlt
    · subst heq
      exact Or.inl ⟨phdr, hphdr, htype, hseg⟩
    · refine Or.inr ⟨j, phdr, hlt, by omega, ?_, hphdr, htype, hseg⟩
      intro k hk hkj
      exact hacc k (Nat.le_of_succ_le hk) hkj
  · rintro ⟨hacc, ⟨phdr, hphdr, htype, hseg⟩ | ⟨j, phdr, hij, hjn, hrest, hphdr, htype, hseg⟩⟩
    · refine ⟨i, phdr, Nat.le_refl i, by omega, ?_, hphdr, htype, hseg⟩
      intro k hk hki
      have heq : k = i := Nat.le_antisymm (Nat.le_of_lt_succ hki) hk
      rw [heq]
      exact hacc
    · refine ⟨j, phdr, Nat.le_of_succ_le hij, by omega, ?_, hphdr, htype, hseg⟩
      intro k hk hkj
      rcases Nat.eq_or_lt_of_le hk with heq | hlt
      · rw [← heq]
        exact hacc
      · exact hrest k hlt hkj

/-- The loop adds the segments of the headers that it reached. -/
theorem mem_loadLoop_iff {env : LoadEnv} {exe : Nat → Exe V} {header : Elf64_Ehdr} {bias : Nat}
    {seg : Segment} (n : Nat) {i : Nat} (s : Loading) :
    seg ∈ (loadLoop vm env exe header bias n i s).2.segments ↔
      seg ∈ s.segments ∨ Loaded vm env exe header bias i n seg := by
  induction n generalizing i s with
  | zero =>
      have hnone : ¬ Loaded vm env exe header bias i 0 seg := by
        rintro ⟨j, phdr, hij, hj, -⟩
        omega
      rw [or_iff_left hnone]
      rfl
  | succ n ih =>
      rw [loaded_succ_iff]
      by_cases hacc : Accepted vm env exe header bias i
      · unfold loadLoop
        rcases Option.eq_none_or_eq_some (phdrAt vm (exe i) header i) with hnone | ⟨phdr, hphdr⟩
        · simp only [hnone]
          rw [ih]
          simp only [hacc, true_and, reduceCtorEq, false_and, exists_false, false_or]
        · simp only [hphdr]
          by_cases htype : phdr.pType = 1
          · rcases hacc phdr hphdr htype with ⟨hpos, hmap, hfaults⟩
            rcases @loadPhdr_accepted V vm env (exe i) i bias phdr s hpos hmap hfaults with
              ⟨s', hload, hsegments⟩
            rw [if_pos htype, hload]
            dsimp only
            rw [ih, hsegments, List.mem_append, List.mem_singleton, or_assoc]
            simp only [hacc, true_and, Option.some.injEq, exists_eq_left', htype]
          · rw [if_neg htype, ih]
            simp only [hacc, true_and, Option.some.injEq, exists_eq_left', htype, false_and,
              false_or]
      · -- the loop ends here
        rcases loadLoop_rejected hacc n s with ⟨e, hend⟩
        rw [hend]
        simp only [hacc, false_and, or_false]

theorem mem_load_iff {env : LoadEnv} {exe : Nat → Exe V} {loadBias : Nat} {seg : Segment} :
    seg ∈ (load vm env exe loadBias).2 ↔ ∃ h ∈ acceptedHeader vm (exe 0) loadBias,
      Loaded vm env exe h.1 h.2 0 h.1.ePhnum seg := by
  unfold load
  rcases Option.eq_none_or_eq_some (acceptedHeader vm (exe 0) loadBias) with
    hnone | ⟨⟨header, bias⟩, hsome⟩
  · simp only [hnone, List.not_mem_nil, Option.mem_def, reduceCtorEq, false_and, exists_false]
  · have hloop := @mem_loadLoop_iff V vm env exe header bias seg header.ePhnum 0 {}
    have hstart : seg ∉ (({} : Loading).segments) := List.not_mem_nil
    rw [or_iff_right hstart] at hloop
    simp only [hsome, Option.mem_def, Option.some.injEq, exists_eq_left']
    rw [← hloop]
    rcases loadLoop vm env exe header bias header.ePhnum 0 {} with ⟨e | u, s⟩
    · exact Iff.rfl
    · cases env.stack with
      | none => exact Iff.rfl
      | some stackBottom => exact Iff.rfl

/-- `Load` writes inside the ranges that it mapped if and only if each header
that is mapped fits. -/
theorem inside_iff_segmentsFit {env : LoadEnv} {user : UserSpace} (hlaw : env.Lawful user)
    (exe : Nat → Exe V) (loadBias : Nat) :
    (∀ seg ∈ (load vm env exe loadBias).2, seg.Inside user) ↔ SegmentsFit vm env exe loadBias := by
  constructor
  · intro h hb hhb i hi hacc phdr hphdr htype
    rcases hacc i (Nat.lt_succ_self i) phdr hphdr htype with ⟨hpos, hmap, -⟩
    -- the mapper takes no other range than user space
    rw [← segmentOf_inside_iff user hphdr hpos (hlaw i _ _ hmap)]
    apply h
    rw [mem_load_iff]
    refine ⟨hb, hhb, i, phdr, Nat.zero_le i, ?_, ?_, hphdr, htype, rfl⟩
    · rw [Nat.zero_add]
      exact hi
    · intro k _ hk
      exact hacc k hk
  · intro h seg hseg
    rw [mem_load_iff] at hseg
    rcases hseg with ⟨hb, hhb, i, phdr, -, hi, hacc, hphdr, htype, heq⟩
    rcases hacc i (Nat.zero_le i) (Nat.lt_succ_self i) phdr hphdr htype with ⟨hpos, hmap, -⟩
    rw [Nat.zero_add] at hi
    rw [heq, segmentOf_inside_iff user hphdr hpos (hlaw i _ _ hmap)]
    apply h hb hhb i hi _ phdr hphdr htype
    intro k hk
    exact hacc k (Nat.zero_le k) hk

end

/-! ## Two files -/

/-- A field of `n` bytes. -/
def fieldBytes (n x : Nat) : List UInt8 := (List.range n).map fun k => UInt8.ofNat (x / 256 ^ k)

/-- An executable with one `PT_LOAD` header and a byte behind it. -/
def oneSegmentFile (vaddr filesz memsz : Nat) : List UInt8 :=
  [0x7F, 0x45, 0x4C, 0x46] ++ List.replicate 12 0 ++
    fieldBytes 2 2 ++ fieldBytes 2 62 ++ fieldBytes 4 1 ++ fieldBytes 8 vaddr ++ fieldBytes 8 64 ++
      fieldBytes 8 0 ++ fieldBytes 4 0 ++ fieldBytes 2 64 ++ fieldBytes 2 56 ++ fieldBytes 2 1 ++
        List.replicate 6 0 ++
    fieldBytes 4 1 ++ fieldBytes 4 7 ++ fieldBytes 8 0 ++ fieldBytes 8 vaddr ++ fieldBytes 8 vaddr ++
      fieldBytes 8 filesz ++ fieldBytes 8 memsz ++ fieldBytes 8 0x1000 ++ [0xC3]

/-- The file in the page with frame 1. -/
def exeOf (file : List UInt8) : Exe (List VmPage) where
  mem a := file.getD (a - kPageSize) 0
  node := { type := .regular, vmo := some [⟨0, kPageSize, 1⟩], size := file.length }

/-- User space with 4-level paging. -/
def userSpace : UserSpace := ⟨0, 0x00007FFFFFFFF000, by decide⟩

/-- Every range of user space is mapped. -/
def mapsUser : LoadEnv where
  mapAnonymous _ start size := decide (userSpace.Covers start size)
  handleFault _ _ := true
  stack := some 0x00007FFFFF7FE000

theorem mapsUser_lawful : mapsUser.Lawful userSpace := by
  intro i start size h
  exact of_decide_eq_true h

/-- What `Load` of a file writes. -/
def segmentsOf (file : List UInt8) : List Segment :=
  (load (pageList .basePlusOffset) mapsUser (fun _ => exeOf file) 0).2

/-- A byte of the file and a zero are written, in one page. -/
theorem file_and_zero_inside : (segmentsOf (oneSegmentFile 0x400000 1 2)).length = 1 ∧
    ∀ seg ∈ segmentsOf (oneSegmentFile 0x400000 1 2), seg.Inside userSpace := by
  constructor
  · decide +kernel
  · exact (inside_iff_segmentsFit mapsUser_lawful _ 0).mpr (by decide +kernel)

/-- Two bytes of the file for a segment of one byte, the last of its page: the
second goes to the next page. -/
theorem long_filesz_outside : mapsUser.Lawful userSpace ∧
    ¬ ∀ seg ∈ segmentsOf (oneSegmentFile 0x400FFF 2 1), seg.Inside userSpace := by
  constructor
  · exact mapsUser_lawful
  · decide +kernel

end Ceryx.Proc.ElfLoader
