import Mathlib.Data.List.MinMax
import Ceryx.Lib.ByteMem
import Ceryx.Lib.Overlay
import Ceryx.Proc.ElfReads
import Ceryx.Proc.Execve

/-!
# Ceryx.Proc.ElfImage — the image of a well-formed executable

* `Segment.apply`: the pages of a segment are zeroed, and stored to.
* `WellFormed`: the file, in integers that do not wrap.
* `mapSegments_eq`: the loop of `Load` adds the segments in the order of the file.
* `segment_overlays`: a segment changes its own pages only, so that
  `foldl_inside` says what is left of it when all are loaded.
* `elfLoad_image`: `Load` succeeds, each segment is in memory, and the results
  are those of the file.
* `ramFile_reads`: a file of the RAM file system is read as a byte array.
-/

namespace Ceryx.Proc.ElfLoader

open Lib Fs Fs.RamFs

/-! ## Memory -/

/-- A range of zeroed pages. -/
def zeroPages (m : ByteMem) (start size : Nat) : ByteMem := fun a =>
  if start ≤ a.toNat ∧ a.toNat < start + size then 0 else m a

/-- The memory after the store. -/
def Store.apply (m : ByteMem) (store : Store) : ByteMem :=
  m.store (BitVec.ofNat 64 store.addr) store.bytes

/-- The memory when the range is mapped and faulted in and the stores are made. -/
def Segment.apply (m : ByteMem) (seg : Segment) : ByteMem :=
  seg.stores.foldl Store.apply (zeroPages m seg.start seg.size)

/-- The memory after `Load`, with its stack. -/
def loadedMemory (m : ByteMem) (segments : List Segment) (stackBottom : Nat) : ByteMem :=
  zeroPages (segments.foldl Segment.apply m) stackBottom 0x800000

/-! ## The file -/

/-- Program header `i` of the file. -/
def filePhdr (file : List UInt8) (i : Nat) : Elf64_Phdr :=
  phdrOf ((file.drop ((ehdrOf file).ePhoff + i * sizeofPhdr)).take sizeofPhdr)

/-- The `PT_LOAD` headers among the `n` from number `i` on, with their numbers. -/
def loadHeadersFrom (file : List UInt8) (i n : Nat) : List (Nat × Elf64_Phdr) :=
  ((List.range' i n).map fun j => (j, filePhdr file j)).filter fun x => x.2.pType = 1

/-- The program headers of type `PT_LOAD`, with their indices. -/
def loadHeaders (file : List UInt8) : List (Nat × Elf64_Phdr) :=
  loadHeadersFrom file 0 (ehdrOf file).ePhnum

/-- What is added to the addresses of the file. -/
def fileBias (file : List UInt8) (loadBias : Nat) : Nat :=
  if (ehdrOf file).eType = 2 then 0 else if loadBias ≠ 0 then loadBias else 0x400000

namespace Elf64_Phdr

variable (phdr : Elf64_Phdr) (bias : Nat)

/-- The end of the segment. -/
def segmentEnd : Nat := phdr.pVaddr + bias + phdr.pMemsz

/-- The first page, and the end of the last one. -/
def pageStart : Nat := (phdr.pVaddr + bias) / 0x1000 * 0x1000

/-- The end of the last page. -/
def pageEnd : Nat := (phdr.segmentEnd bias + 0xFFF) / 0x1000 * 0x1000

/-- The segment is in the file and in user space, and nothing wraps. -/
structure WellFormed (file : List UInt8) (user : UserSpace) : Prop where
  memsz_pos : 0 < phdr.pMemsz
  filesz_le : phdr.pFilesz ≤ phdr.pMemsz
  inFile : phdr.pOffset + phdr.pFilesz ≤ file.length
  noWrap : phdr.segmentEnd bias + 0xFFF < 2 ^ 64
  nonzero : phdr.pageStart bias ≠ 0
  inUser : user.bottom ≤ phdr.pageStart bias ∧ phdr.pageEnd bias ≤ user.top

end Elf64_Phdr

/-- The page ranges have no page in common. -/
def PagesDisjoint (bias : Nat) (x y : Nat × Elf64_Phdr) : Prop :=
  x.2.pageEnd bias ≤ y.2.pageStart bias ∨ y.2.pageEnd bias ≤ x.2.pageStart bias

/-- A well-formed executable. -/
structure WellFormed (file : List UInt8) (user : UserSpace) (loadBias : Nat) : Prop where
  size : sizeofEhdr ≤ file.length ∧ file.length < 2 ^ 64
  magic : (ehdrOf file).eIdent.take 4 = [0x7F, 0x45, 0x4C, 0x46]
  type : (ehdrOf file).eType = 2 ∨ (ehdrOf file).eType = 3
  phentsize : (ehdrOf file).ePhentsize = sizeofPhdr
  headers : ∀ i, i < (ehdrOf file).ePhnum →
    (ehdrOf file).ePhoff + i * sizeofPhdr + sizeofPhdr ≤ file.length
  segments : ∀ x ∈ loadHeaders file, x.2.WellFormed (fileBias file loadBias) file user
  disjoint : (loadHeaders file).Pairwise (PagesDisjoint (fileBias file loadBias))

/-- `Read` of bytes that the file has returns them. -/
structure ReadsBytes (exe : Executable) (file : List UInt8) : Prop where
  ops : exe.ops = true
  read : ∀ i size offset, offset + size ≤ file.length →
    exe.read i size offset = .ok (size, (file.drop offset).take size)

/-- The pages of the segments are mapped and faulted in, and a stack behind or
before them. -/
structure MapsImage (env : LoadEnv) (file : List UInt8) (bias stackBottom : Nat) : Prop where
  mapped : ∀ x ∈ loadHeaders file,
    env.mapAnonymous x.1 (x.2.pageStart bias) (x.2.pageEnd bias - x.2.pageStart bias) = true
  faulted : ∀ x ∈ loadHeaders file, ∀ k, x.2.pageStart bias + k * 0x1000 < x.2.pageEnd bias →
    env.handleFault x.1 (x.2.pageStart bias + k * 0x1000) = true
  stack : env.stack = some stackBottom
  stackApart : ∀ x ∈ loadHeaders file,
    x.2.pageEnd bias ≤ stackBottom ∨ stackBottom + 0x800000 ≤ x.2.pageStart bias

/-- The highest end of a segment. -/
def highestEnd (file : List UInt8) (bias : Nat) : Nat :=
  ((loadHeaders file).map fun x => x.2.segmentEnd bias).foldr max 0

/-- The segments are in memory, and the results are those of the file. -/
structure ImageLoaded (file : List UInt8) (bias : Nat) (result : LoadResult) (m : ByteMem) :
    Prop where
  bytes : ∀ x ∈ loadHeaders file, ∀ j, j < x.2.pFilesz →
    file[x.2.pOffset + j]? = some (m (BitVec.ofNat 64 (x.2.pVaddr + bias + j)))
  zeroes : ∀ x ∈ loadHeaders file, ∀ j, x.2.pFilesz ≤ j → j < x.2.pMemsz →
    m (BitVec.ofNat 64 (x.2.pVaddr + bias + j)) = 0
  entryPoint : result.entryPoint = ((ehdrOf file).eEntry + bias) % 2 ^ 64
  heapAligned : result.heapBase % 0x1000 = 0
  heapAbove : ∀ x ∈ loadHeaders file, x.2.segmentEnd bias ≤ result.heapBase
  heapTight : result.heapBase < highestEnd file bias + 0x1000

/-! ## Headers of the file -/

/-- A field inside the part of the file that was read. -/
theorem field_take {bytes : List UInt8} {offset size n : Nat} (h : offset + size ≤ n) :
    field (bytes.take n) offset size = field bytes offset size := by
  unfold field
  rw [List.drop_take, List.take_take, Nat.min_eq_left (by omega)]

/-- The header needs 64 bytes. -/
theorem ehdrOf_take (file : List UInt8) : ehdrOf (file.take sizeofEhdr) = ehdrOf file := by
  have hident : (file.take sizeofEhdr).take 16 = file.take 16 := by
    rw [List.take_take]
    rfl
  have hfield : ∀ offset size, offset + size ≤ sizeofEhdr →
      field (file.take sizeofEhdr) offset size = field file offset size :=
    fun offset size h => field_take h
  unfold ehdrOf
  rw [hident, hfield 16 2 (by decide), hfield 24 8 (by decide), hfield 32 8 (by decide),
    hfield 54 2 (by decide), hfield 56 2 (by decide)]

section
variable {exe : Executable} {file : List UInt8} {user : UserSpace} {loadBias : Nat}

/-- A structure that the file has. -/
theorem ReadsBytes.struct (hread : ReadsBytes exe file) {i size offset : Nat}
    (h : offset + size ≤ file.length) :
    exe.struct i size offset = some ((file.drop offset).take size) := by
  unfold Executable.struct
  rw [hread.read i size offset h]
  exact if_pos rfl

/-- Reading the file gives the program headers that it has. -/
theorem ReadsBytes.phdrAt (hread : ReadsBytes exe file) (hfile : WellFormed file user loadBias)
    {i : Nat} (hi : i < (ehdrOf file).ePhnum) :
    exe.phdrAt (ehdrOf file) i = some (filePhdr file i) := by
  have hnum : (ehdrOf file).ePhnum < 2 ^ 16 := field_lt file 56 2
  have hin := hfile.headers i hi
  have hsize := hfile.size.2
  -- the table is inside the file, so the offset has not wrapped
  have hoffset : phdrOffset (ehdrOf file) i = (ehdrOf file).ePhoff + i * sizeofPhdr := by
    have hphoff : (ehdrOf file).ePhoff < 2 ^ 64 := field_lt file 32 8
    have hentsize : (ehdrOf file).ePhentsize < 2 ^ 16 := field_lt file 54 2
    have hexact := phdrOffset_eq_iff hphoff hentsize (Nat.lt_trans hi hnum)
    rw [hfile.phentsize] at hexact
    apply hexact.mpr
    unfold sizeofPhdr at hin ⊢
    constructor
    · omega
    · omega
  unfold Executable.phdrAt filePhdr
  rw [hoffset, hread.struct hin]
  rfl

/-- A well-formed file is not refused, so it has a bias. -/
theorem acceptedBias (hfile : WellFormed file user loadBias) :
    effectiveBias (ehdrOf file) loadBias = some (fileBias file loadBias) := by
  unfold effectiveBias fileBias
  rcases hfile.type with htype | htype
  · rw [if_pos htype, if_pos htype]
  · have hnot : ¬ (ehdrOf file).eType = 2 := by
      rw [htype]
      decide
    rw [if_neg hnot, if_neg hnot, if_pos htype]

end

/-! ## Pages -/

section
variable {phdr : Elf64_Phdr} {bias : Nat} {file : List UInt8} {user : UserSpace}

/-- The addition of the bias does not wrap. -/
theorem vaddr_eq (h : phdr.WellFormed bias file user) : phdr.vaddr bias = phdr.pVaddr + bias := by
  have hwrap := h.noWrap
  unfold Elf64_Phdr.segmentEnd at hwrap
  exact Nat.mod_eq_of_lt (by omega)

/-- Nor does the rounding down, -/
theorem pageAlignedVaddr_eq (h : phdr.WellFormed bias file user) :
    phdr.pageAlignedVaddr bias = phdr.pageStart bias := by
  unfold Elf64_Phdr.pageAlignedVaddr pageAligned Elf64_Phdr.pageStart
  rw [vaddr_eq h]
  omega

/-- or the rounding up. -/
theorem memSize_pages (h : phdr.WellFormed bias file user) :
    phdr.memSize bias = phdr.pageEnd bias - phdr.pageStart bias := by
  have hwrap := h.noWrap
  rw [memSize_eq, padding_eq, vaddr_eq h]
  unfold pageAligned Elf64_Phdr.pageEnd Elf64_Phdr.pageStart
  unfold Elf64_Phdr.segmentEnd at hwrap ⊢
  omega

/-- The segment is in its pages. -/
theorem segment_in_pages (phdr : Elf64_Phdr) (bias : Nat) :
    phdr.pageStart bias ≤ phdr.pVaddr + bias ∧ phdr.segmentEnd bias ≤ phdr.pageEnd bias := by
  unfold Elf64_Phdr.pageEnd Elf64_Phdr.pageStart
  omega

end

/-! ## Stores -/

/-- In the store the memory is what was stored, -/
theorem Store.apply_at (m : ByteMem) (store : Store) (hlen : store.bytes.length ≤ 2 ^ 64) {j : Nat}
    (hj : j < store.bytes.length) :
    store.bytes[j]? = some (store.apply m (BitVec.ofNat 64 (store.addr + j))) := by
  rw [BitVec.ofNat_add]
  exact ByteMem.store_getElem? m (BitVec.ofNat 64 store.addr) hlen hj

/-- outside of it what it was. -/
theorem Store.apply_outside (m : ByteMem) (store : Store) {a : Word}
    (ha : ∀ j, j < store.bytes.length → a ≠ BitVec.ofNat 64 (store.addr + j)) :
    store.apply m a = m a := by
  apply ByteMem.store_ne
  intro j hj
  rw [← BitVec.ofNat_add]
  exact ha j hj

/-- Fresh pages are zero, and nothing else changes. -/
theorem zeroPages_overlays (start size : Nat) :
    Overlays (zeroPages · start size) {a | start ≤ a.toNat ∧ a.toNat < start + size}
      fun _ => 0 where
  inside _ _ ha := if_pos ha
  outside _ _ ha := if_neg ha

/-- A store changes the bytes that it writes. -/
theorem store_overlays {store : Store} (hlen : store.bytes.length ≤ 2 ^ 64) :
    Overlays (Store.apply · store)
      {a | ∃ j, j < store.bytes.length ∧ a = BitVec.ofNat 64 (store.addr + j)}
      (store.apply fun _ => 0) where
  inside m a ha := by
    rcases ha with ⟨j, hj, rfl⟩
    apply Option.some.inj
    rw [← Store.apply_at m store hlen hj, ← Store.apply_at (fun _ => 0) store hlen hj]
  outside m a ha := by
    apply Store.apply_outside
    intro j hj heq
    exact ha ⟨j, hj, heq⟩

/-! ## One segment -/

section
variable {exe : Executable} {phdr : Elf64_Phdr} {bias : Nat} {file : List UInt8}
  {user : UserSpace}

/-- The bytes of the file for the segment. -/
def fileStore (file : List UInt8) (phdr : Elf64_Phdr) (bias : Nat) : Store :=
  ⟨phdr.pVaddr + bias, (file.drop phdr.pOffset).take phdr.pFilesz⟩

/-- A segment's file bytes are `p_filesz` many. -/
theorem fileStore_length (h : phdr.WellFormed bias file user) :
    (fileStore file phdr bias).bytes.length = phdr.pFilesz := by
  have hin := h.inFile
  unfold fileStore
  rw [List.length_take, List.length_drop]
  omega

/-- The zeroes behind them. -/
theorem zeroStore_eq (h : phdr.WellFormed bias file user) :
    zeroStore phdr bias =
      if phdr.pFilesz < phdr.pMemsz then
        [⟨phdr.pVaddr + bias + phdr.pFilesz, List.replicate (phdr.pMemsz - phdr.pFilesz) 0⟩]
      else [] := by
  have hwrap := h.noWrap
  have hle := h.filesz_le
  have hstart : usizeAdd (phdr.pVaddr + bias) phdr.pFilesz =
      phdr.pVaddr + bias + phdr.pFilesz := by
    unfold Elf64_Phdr.segmentEnd at hwrap
    exact Nat.mod_eq_of_lt (by omega)
  unfold zeroStore
  rw [vaddr_eq h, hstart]

/-- The record that the loader keeps of a segment. -/
theorem segmentOf_eq (hread : ReadsBytes exe file) (h : phdr.WellFormed bias file user) (i : Nat) :
    exe.segmentOf i phdr bias =
      { start := phdr.pageStart bias
        size := phdr.pageEnd bias - phdr.pageStart bias
        stores := fileStore file phdr bias :: zeroStore phdr bias } := by
  unfold Executable.segmentOf
  rw [hread.read i _ _ h.inFile, pageAlignedVaddr_eq h, memSize_pages h, vaddr_eq h]
  rfl

/-- The addresses of the pages. -/
def pageRegion (bias : Nat) (x : Nat × Elf64_Phdr) : Set Word :=
  {a | x.2.pageStart bias ≤ a.toNat ∧ a.toNat < x.2.pageEnd bias}

/-- What the segment leaves in its pages. -/
def pageContent (exe : Executable) (bias : Nat) (x : Nat × Elf64_Phdr) : ByteMem :=
  (exe.segmentOf x.1 x.2 bias).stores.foldl Store.apply fun _ => 0

/-- An address below `2 ^ 64`. -/
theorem toNat_ofNat_lt {a : Nat} (h : a < 2 ^ 64) : (BitVec.ofNat 64 a).toNat = a := by
  rw [BitVec.toNat_ofNat]
  exact Nat.mod_eq_of_lt h

/-- A part of the segment is in its pages. -/
theorem part_in_pages (h : phdr.WellFormed bias file user) {a : Nat}
    (hstart : phdr.pVaddr + bias ≤ a) (hend : a < phdr.segmentEnd bias) (i : Nat) :
    BitVec.ofNat 64 a ∈ pageRegion bias (i, phdr) := by
  have hwrap := h.noWrap
  have hpages := segment_in_pages phdr bias
  have hnat : (BitVec.ofNat 64 a).toNat = a := toNat_ofNat_lt (by omega)
  show phdr.pageStart bias ≤ (BitVec.ofNat 64 a).toNat ∧
    (BitVec.ofNat 64 a).toNat < phdr.pageEnd bias
  rw [hnat]
  omega

/-- A segment changes its own pages only. -/
theorem segment_overlays (hread : ReadsBytes exe file) {i : Nat}
    (h : phdr.WellFormed bias file user) :
    Overlays (Segment.apply · (exe.segmentOf i phdr bias)) (pageRegion bias (i, phdr))
      (pageContent exe bias (i, phdr)) := by
  have hwrap := h.noWrap
  have hle := h.filesz_le
  have hend : phdr.segmentEnd bias = phdr.pVaddr + bias + phdr.pMemsz := rfl
  have hpages := segment_in_pages phdr bias
  have hzero := zeroPages_overlays (phdr.pageStart bias) (phdr.pageEnd bias - phdr.pageStart bias)
  have hregion : {a : Word | phdr.pageStart bias ≤ a.toNat ∧
      a.toNat < phdr.pageStart bias + (phdr.pageEnd bias - phdr.pageStart bias)} =
        pageRegion bias (i, phdr) := by
    unfold pageRegion
    rw [Nat.add_sub_cancel' (by omega)]
  rw [hregion] at hzero
  unfold Segment.apply pageContent
  rw [segmentOf_eq hread h]
  apply hzero.foldl
  -- both stores are in the pages
  intro store hstore
  have hplace : store.addr + store.bytes.length ≤ phdr.segmentEnd bias ∧
      phdr.pVaddr + bias ≤ store.addr := by
    rcases List.mem_cons.mp hstore with heq | hmem
    · rw [heq, fileStore_length h]
      unfold fileStore
      dsimp only
      omega
    · rw [zeroStore_eq h] at hmem
      split at hmem
      · rw [List.mem_singleton.mp hmem, List.length_replicate]
        dsimp only
        omega
      · exact absurd hmem List.not_mem_nil
  refine ⟨_, _, ?_, store_overlays (by omega)⟩
  rintro a ⟨j, hj, rfl⟩
  exact part_in_pages h (by omega) (by omega) i

/-- The bytes of the file are in the pages. -/
theorem pageContent_bytes (hread : ReadsBytes exe file) (h : phdr.WellFormed bias file user)
    {i j : Nat} (hj : j < phdr.pFilesz) :
    file[phdr.pOffset + j]? =
      some (pageContent exe bias (i, phdr) (BitVec.ofNat 64 (phdr.pVaddr + bias + j))) := by
  have hwrap := h.noWrap
  have hle := h.filesz_le
  have hend : phdr.segmentEnd bias = phdr.pVaddr + bias + phdr.pMemsz := rfl
  have hlen := fileStore_length h
  have hat := Store.apply_at (fun _ => 0) (fileStore file phdr bias) (by omega) (hlen ▸ hj)
  have hbyte : (fileStore file phdr bias).bytes[j]? = file[phdr.pOffset + j]? := by
    unfold fileStore
    rw [List.getElem?_take_of_lt hj, List.getElem?_drop]
  rw [← hbyte, hat]
  congr 1
  unfold pageContent
  rw [segmentOf_eq hread h, zeroStore_eq h, List.foldl_cons]
  split
  · -- the zeroes are behind the bytes of the file
    rw [List.foldl_cons, List.foldl_nil]
    symm
    apply Store.apply_outside
    intro k hk heq
    dsimp only at hk heq
    rw [List.length_replicate] at hk
    have hnat := congrArg BitVec.toNat heq
    rw [toNat_ofNat_lt (by omega), toNat_ofNat_lt (by omega)] at hnat
    omega
  · rfl

/-- Behind them there are zeroes. -/
theorem pageContent_zeroes (hread : ReadsBytes exe file) (h : phdr.WellFormed bias file user)
    {i j : Nat} (hfile : phdr.pFilesz ≤ j) (hj : j < phdr.pMemsz) :
    pageContent exe bias (i, phdr) (BitVec.ofNat 64 (phdr.pVaddr + bias + j)) = 0 := by
  have hwrap := h.noWrap
  have hend : phdr.segmentEnd bias = phdr.pVaddr + bias + phdr.pMemsz := rfl
  unfold pageContent
  rw [segmentOf_eq hread h, zeroStore_eq h, List.foldl_cons, if_pos (Nat.lt_of_le_of_lt hfile hj),
    List.foldl_cons, List.foldl_nil]
  generalize (fileStore file phdr bias).apply (fun _ => 0) = m
  have hlt : j - phdr.pFilesz < phdr.pMemsz - phdr.pFilesz := by omega
  have hlen : (List.replicate (phdr.pMemsz - phdr.pFilesz) (0 : UInt8)).length =
      phdr.pMemsz - phdr.pFilesz := List.length_replicate
  -- the zeroes are stored behind the file bytes
  have hat := Store.apply_at m ⟨phdr.pVaddr + bias + phdr.pFilesz,
    List.replicate (phdr.pMemsz - phdr.pFilesz) 0⟩ (j := j - phdr.pFilesz)
    (by dsimp only; omega) (by dsimp only; omega)
  have hplace : phdr.pVaddr + bias + phdr.pFilesz + (j - phdr.pFilesz) =
      phdr.pVaddr + bias + j := by
    omega
  dsimp only at hat
  rw [List.getElem?_replicate_of_lt hlt, hplace] at hat
  exact (Option.some.inj hat).symm

end

/-! ## The loop -/

section
variable {exe : Executable} {file : List UInt8} {user : UserSpace} {loadBias stackBottom : Nat}
  {env : LoadEnv}

/-- The locals after a `PT_LOAD` header. -/
def addSegment (exe : Executable) (bias : Nat) (s : Loading) (x : Nat × Elf64_Phdr) : Loading where
  maxVaddr := max s.maxVaddr (x.2.segmentEnd bias)
  segments := s.segments ++ [exe.segmentOf x.1 x.2 bias]

/-- A segment that is mapped adds its record, and nothing fails. -/
theorem mapSegment_eq (hmaps : MapsImage env file (fileBias file loadBias) stackBottom)
    (hfile : WellFormed file user loadBias) {x : Nat × Elf64_Phdr} (hx : x ∈ loadHeaders file)
    (u : UserKernel) (prevCr3 : Nat) (s : Loading) :
    u.mapSegment env exe prevCr3 x.1 x.2 (fileBias file loadBias) s =
      (.ok (), u, addSegment exe (fileBias file loadBias) s x) := by
  have h := hfile.segments x hx
  have hmapped := hmaps.mapped x hx
  have hfaulted := hmaps.faulted x hx
  generalize fileBias file loadBias = bias at h hmapped hfaulted ⊢
  have hwrap := h.noWrap
  have hend : x.2.segmentEnd bias = x.2.pVaddr + bias + x.2.pMemsz := rfl
  have htop : usizeAdd (x.2.pVaddr + bias) x.2.pMemsz = x.2.segmentEnd bias :=
    Nat.mod_eq_of_lt (by omega)
  -- no address of a page wraps
  have hfaults : faultsIn env x.1 x.2 bias = true := by
    unfold faultsIn
    rw [List.all_eq_true]
    intro k hk
    have hlt := List.mem_range.mp hk
    rw [memSize_pages h] at hlt
    have hend' : x.2.pageEnd bias ≤ x.2.segmentEnd bias + 0xFFF := Nat.div_mul_le_self _ _
    have hplace : usizeAdd (x.2.pageStart bias) (k * 0x1000) = x.2.pageStart bias + k * 0x1000 :=
      Nat.mod_eq_of_lt (by omega)
    rw [pageAlignedVaddr_eq h, hplace]
    exact hfaulted k (by omega)
  unfold UserKernel.mapSegment addSegment
  rw [pageAlignedVaddr_eq h, memSize_pages h, if_neg h.nonzero, hmapped, hfaults, vaddr_eq h, htop]
  -- `max_vaddr` is the maximum of the ends
  have hmax : (if s.maxVaddr < x.2.segmentEnd bias then x.2.segmentEnd bias else s.maxVaddr) =
      max s.maxVaddr (x.2.segmentEnd bias) := by
    split
    · omega
    · omega
  dsimp only
  rw [hmax]
  rfl

/-- The loop adds the segments in the order of the file. -/
theorem mapSegments_eq (hread : ReadsBytes exe file)
    (hmaps : MapsImage env file (fileBias file loadBias) stackBottom)
    (hfile : WellFormed file user loadBias) (u : UserKernel) (prevCr3 n i : Nat) (s : Loading)
    (hi : i + n ≤ (ehdrOf file).ePhnum)
    (hheaders : ∀ x ∈ loadHeadersFrom file i n, x ∈ loadHeaders file) :
    UserKernel.mapSegments env exe prevCr3 (ehdrOf file) (fileBias file loadBias) n i u s =
      (.ok (), u,
        (loadHeadersFrom file i n).foldl (addSegment exe (fileBias file loadBias)) s) := by
  induction n generalizing i s with
  | zero => rfl
  | succ n ih =>
      have hphdr := hread.phdrAt hfile (show i < (ehdrOf file).ePhnum by omega)
      have hcons : loadHeadersFrom file i (n + 1) =
          if (filePhdr file i).pType = 1 then (i, filePhdr file i) :: loadHeadersFrom file (i + 1) n
          else loadHeadersFrom file (i + 1) n := by
        unfold loadHeadersFrom
        rw [List.range'_succ, List.map_cons, List.filter_cons]
        simp only [decide_eq_true_eq]
      rw [hcons] at hheaders ⊢
      unfold UserKernel.mapSegments
      rw [hphdr]
      dsimp only
      -- a header to load, and any other
      by_cases htype : (filePhdr file i).pType = 1
      · rw [if_pos htype] at hheaders
        rw [if_pos htype, if_pos htype,
          mapSegment_eq hmaps hfile (hheaders _ List.mem_cons_self) u prevCr3 s, List.foldl_cons]
        apply ih
        · omega
        · intro x hx
          exact hheaders x (List.mem_cons_of_mem _ hx)
      · rw [if_neg htype] at hheaders
        rw [if_neg htype, if_neg htype]
        exact ih _ _ (by omega) hheaders

/-- The records of several, -/
theorem addSegments_segments (bias : Nat) (xs : List (Nat × Elf64_Phdr)) (s : Loading) :
    (xs.foldl (addSegment exe bias) s).segments =
      s.segments ++ xs.map fun x => exe.segmentOf x.1 x.2 bias := by
  induction xs generalizing s with
  | nil => exact (List.append_nil _).symm
  | cons x xs ih =>
      rw [List.foldl_cons, ih, List.map_cons]
      exact List.append_assoc _ _ _

/-- and the highest end among them. -/
theorem addSegments_maxVaddr (bias : Nat) (xs : List (Nat × Elf64_Phdr)) (s : Loading) :
    (xs.foldl (addSegment exe bias) s).maxVaddr =
      max s.maxVaddr ((xs.map fun x => x.2.segmentEnd bias).foldr max 0) := by
  induction xs generalizing s with
  | nil => exact (Nat.max_zero _).symm
  | cons x xs ih =>
      rw [List.foldl_cons, ih, List.map_cons, List.foldr_cons]
      exact Nat.max_assoc _ _ _

end

/-! ## Load -/

section
variable {exe : Executable} {file : List UInt8} {user : UserSpace} {loadBias stackBottom : Nat}
  {env : LoadEnv}

/-- `Load` succeeds, with the segments of the file. -/
theorem elfLoad_eq (hread : ReadsBytes exe file)
    (hmaps : MapsImage env file (fileBias file loadBias) stackBottom)
    (hfile : WellFormed file user loadBias) (u : UserKernel) (p : ProcId) :
    u.elfLoad p env exe loadBias =
      (.ok
        { entryPoint := usizeAdd (ehdrOf file).eEntry (fileBias file loadBias)
          stackTop := usizeAdd stackBottom 0x800000
          heapBase := pageAligned (usizeAdd (highestEnd file (fileBias file loadBias)) 0xFFF) },
        u, (loadHeaders file).map fun x => exe.segmentOf x.1 x.2 (fileBias file loadBias)) := by
  have hin : 0 + sizeofEhdr ≤ file.length := by
    rw [Nat.zero_add]
    exact hfile.size.1
  have hstruct : exe.struct 0 sizeofEhdr 0 = some ((file.drop 0).take sizeofEhdr) :=
    hread.struct hin
  rw [List.drop_zero] at hstruct
  unfold UserKernel.elfLoad
  rw [hread.ops, hstruct]
  dsimp only
  rw [ehdrOf_take, if_pos hfile.magic, acceptedBias hfile]
  -- all headers are accepted, from the first
  have hloop := mapSegments_eq hread hmaps hfile (u.writeCr3 (u.spaceRoot (u.image p).addressSpace))
    u.cr3 (ehdrOf file).ePhnum 0 {} (Nat.le_of_eq (Nat.zero_add _)) fun x hx => hx
  show u.loadAccepted p env exe (ehdrOf file) (fileBias file loadBias) = _
  unfold UserKernel.loadAccepted
  dsimp only
  rw [hloop, hmaps.stack]
  dsimp only
  rw [addSegments_segments, addSegments_maxVaddr, UserKernel.writeCr3_writeCr3,
    UserKernel.writeCr3_self]
  show (Except.ok (LoadResult.mk _ _ (pageAligned (usizeAdd (max 0 _) 0xFFF))), u, [] ++ _) = _
  rw [Nat.zero_max, List.nil_append]
  rfl

/-- Which can still be rounded up to a page. -/
theorem highestEnd_le (hfile : WellFormed file user loadBias) :
    highestEnd file (fileBias file loadBias) + 0xFFF < 2 ^ 64 := by
  have hle : highestEnd file (fileBias file loadBias) ≤ 2 ^ 64 - 1 - 0xFFF := by
    apply List.max_le_of_forall_le
    intro e he
    rcases List.mem_map.mp he with ⟨x, hx, rfl⟩
    have hwrap := (hfile.segments x hx).noWrap
    omega
  omega

/-- Segments on different pages do not touch. -/
theorem pageRegion_disjoint {bias : Nat} {x y : Nat × Elf64_Phdr} (h : PagesDisjoint bias x y) :
    Disjoint (pageRegion bias x) (pageRegion bias y) := by
  apply Set.disjoint_left.mpr
  intro a hx hy
  have hxPages : x.2.pageStart bias ≤ a.toNat ∧ a.toNat < x.2.pageEnd bias := hx
  have hyPages : y.2.pageStart bias ≤ a.toNat ∧ a.toNat < y.2.pageEnd bias := hy
  unfold PagesDisjoint at h
  omega

/-- When all is loaded, the pages of a segment hold what the segment left. -/
theorem loadedMemory_pages (hfile : WellFormed file user loadBias) (hread : ReadsBytes exe file)
    (hmaps : MapsImage env file (fileBias file loadBias) stackBottom) (m : ByteMem)
    {x : Nat × Elf64_Phdr} (hx : x ∈ loadHeaders file) {a : Word}
    (ha : a ∈ pageRegion (fileBias file loadBias) x) :
    loadedMemory m ((loadHeaders file).map fun x =>
        exe.segmentOf x.1 x.2 (fileBias file loadBias)) stackBottom a =
      pageContent exe (fileBias file loadBias) x a := by
  have hoverlays : ∀ y ∈ loadHeaders file,
      Overlays (Segment.apply · (exe.segmentOf y.1 y.2 (fileBias file loadBias)))
        (pageRegion (fileBias file loadBias) y) (pageContent exe (fileBias file loadBias) y) :=
    fun y hy => segment_overlays hread (hfile.segments y hy)
  have hdisjoint : (loadHeaders file).Pairwise fun y z =>
      Disjoint (pageRegion (fileBias file loadBias) y) (pageRegion (fileBias file loadBias) z) :=
    hfile.disjoint.imp pageRegion_disjoint
  -- the stack is mapped elsewhere
  have hstack : ¬ (stackBottom ≤ a.toNat ∧ a.toNat < stackBottom + 0x800000) := by
    have hpages : x.2.pageStart (fileBias file loadBias) ≤ a.toNat ∧
        a.toNat < x.2.pageEnd (fileBias file loadBias) := ha
    have happart := hmaps.stackApart x hx
    omega
  unfold loadedMemory zeroPages
  rw [if_neg hstack, List.foldl_map]
  exact foldl_inside hoverlays hdisjoint m hx ha

/-- A well-formed executable is loaded. -/
theorem elfLoad_image (hfile : WellFormed file user loadBias) (hread : ReadsBytes exe file)
    (hmaps : MapsImage env file (fileBias file loadBias) stackBottom) (u : UserKernel) (p : ProcId)
    (m : ByteMem) :
    ∃ result segments, u.elfLoad p env exe loadBias = (.ok result, u, segments) ∧
      ImageLoaded file (fileBias file loadBias) result (loadedMemory m segments stackBottom) := by
  refine ⟨_, _, elfLoad_eq hread hmaps hfile u p, ?_⟩
  have hbehind := highestEnd_le hfile
  have hheap : usizeAdd (highestEnd file (fileBias file loadBias)) 0xFFF =
      highestEnd file (fileBias file loadBias) + 0xFFF := Nat.mod_eq_of_lt hbehind
  constructor
  · -- the bytes of the file
    intro x hx j hj
    have h := hfile.segments x hx
    have hle := h.filesz_le
    have hpage := part_in_pages h (Nat.le_add_right _ j)
      (show x.2.pVaddr + fileBias file loadBias + j < x.2.segmentEnd (fileBias file loadBias) from
        Nat.add_lt_add_left (Nat.lt_of_lt_of_le hj hle) _) x.1
    rw [loadedMemory_pages hfile hread hmaps m hx hpage]
    exact pageContent_bytes hread h hj
  · -- the zeroes
    intro x hx j hjfile hj
    have h := hfile.segments x hx
    have hpage := part_in_pages h (Nat.le_add_right _ j)
      (show x.2.pVaddr + fileBias file loadBias + j < x.2.segmentEnd (fileBias file loadBias) from
        Nat.add_lt_add_left hj _) x.1
    rw [loadedMemory_pages hfile hread hmaps m hx hpage]
    exact pageContent_zeroes hread h hjfile hj
  · rfl
  · -- `heap_base` is the highest end rounded up
    dsimp only
    rw [hheap]
    unfold pageAligned
    omega
  · intro x hx
    have hle : x.2.segmentEnd (fileBias file loadBias) ≤ highestEnd file (fileBias file loadBias) :=
      List.le_max_of_le' 0 (List.mem_map.mpr ⟨x, hx, rfl⟩) (Nat.le_refl _)
    dsimp only
    rw [hheap]
    unfold pageAligned
    omega
  · dsimp only
    rw [hheap]
    unfold pageAligned
    omega

end

/-! ## Files of the RAM file system -/

/-- A RAM file is a byte array, if `Lookup` returns the place in the page. -/
theorem ramFile_reads {V : Type} {vm : VmObject V} {exe : Nat → Exe V} {file : List UInt8}
    (hexe : ∀ i, ∃ table f, Holds vm .basePlusOffset (exe i).mem table (exe i).node f ∧
      f.size = file.length ∧ slice f.get 0 f.size = file) :
    ReadsBytes (.ofRamFile vm exe) file where
  ops := rfl
  read i size offset h := by
    rcases hexe i with ⟨table, f, hholds, hsize, hfile⟩
    rcases hholds.pages with ⟨vmo, hvmo, hmaps⟩
    have hbound := hholds.bound
    show RamFs.read vm (exe i).mem (exe i).node size offset = _
    unfold RamFs.read
    rw [if_neg (not_not_intro hholds.type), hholds.size, hvmo]
    by_cases hend : f.size ≤ offset
    · -- nothing is asked for
      have hzero : size = 0 := by omega
      rw [if_pos hend, hzero]
      rfl
    · have hcount : readCount f.size size offset = size := by
        unfold readCount
        rw [usizeAdd_eq (by omega)]
        exact if_neg (by omega)
      have hbytes : (file.drop offset).take size = slice f.get offset size := by
        have hsplit : f.size = offset + (f.size - offset) := by omega
        rw [← hfile, hsplit, slice_add, List.drop_left' (slice_length _ _ _), Nat.zero_add]
        exact slice_take _ _ (by omega)
      have hloop := @readLoop_eq V vm .basePlusOffset vmo (exe i).mem table hmaps offset size
        (by omega) size 0 [] (Nat.zero_le _) (Nat.sub_le _ _) fun _ => rfl
      rw [if_neg hend]
      dsimp only
      rw [hcount, hloop, hbytes, hholds.bytes]
      rfl

/-! ## A file -/

/-- An executable that is a byte array. -/
def bytesExecutable (file : List UInt8) : Executable where
  ops := true
  read _ size offset :=
    .ok (min size (file.length - offset), (file.drop offset).take size)

/-- A file that is read from a list of bytes. -/
theorem bytesExecutable_reads (file : List UInt8) : ReadsBytes (bytesExecutable file) file where
  ops := rfl
  read _ size offset h := by
    have hall : min size (file.length - offset) = size := Nat.min_eq_left (by omega)
    show Except.ok (min size (file.length - offset), (file.drop offset).take size) = _
    rw [hall]

/-- A program header, as bytes. -/
def phdrBytes (offset vaddr filesz memsz : Nat) : List UInt8 :=
  fieldBytes 4 1 ++ fieldBytes 4 7 ++ fieldBytes 8 offset ++ fieldBytes 8 vaddr ++
    fieldBytes 8 vaddr ++ fieldBytes 8 filesz ++ fieldBytes 8 memsz ++ fieldBytes 8 0x1000

/-- A position-independent executable: its second segment starts in the last byte
of a page. -/
def twoSegmentFile : List UInt8 :=
  [0x7F, 0x45, 0x4C, 0x46] ++ List.replicate 12 0 ++
    fieldBytes 2 3 ++ fieldBytes 2 62 ++ fieldBytes 4 1 ++ fieldBytes 8 0x100 ++ fieldBytes 8 64 ++
      fieldBytes 8 0 ++ fieldBytes 4 0 ++ fieldBytes 2 64 ++ fieldBytes 2 56 ++ fieldBytes 2 2 ++
        List.replicate 6 0 ++
    phdrBytes 176 0x100 2 5 ++ phdrBytes 178 0x1FFF 1 3 ++ [0x90, 0xC3, 0x2A]

/-- The headers that are in the example. -/
theorem twoSegmentFile_headers : loadHeaders twoSegmentFile =
    [(0, ⟨1, 176, 0x100, 2, 5⟩), (1, ⟨1, 178, 0x1FFF, 1, 3⟩)] := by
  decide +kernel

/-- It is a well-formed executable, -/
theorem twoSegmentFile_wellFormed : WellFormed twoSegmentFile userSpace 0 where
  size := by decide +kernel
  magic := by decide +kernel
  type := by decide +kernel
  phentsize := by decide +kernel
  headers := by decide +kernel
  -- two headers, checked one by one
  segments x hx := by
    have hlen : twoSegmentFile.length = 179 := by decide +kernel
    have hbias : fileBias twoSegmentFile 0 = 0x400000 := by decide +kernel
    rw [twoSegmentFile_headers, List.mem_cons, List.mem_singleton] at hx
    rw [hbias]
    rcases hx with rfl | rfl
    · exact ⟨by decide, by decide, by rw [hlen]; decide, by decide, by decide, by decide⟩
    · exact ⟨by decide, by decide, by rw [hlen]; decide, by decide, by decide, by decide⟩
  disjoint := by
    have hbias : fileBias twoSegmentFile 0 = 0x400000 := by decide +kernel
    rw [twoSegmentFile_headers, hbias, List.pairwise_pair]
    left
    decide

/-- and can be mapped. -/
theorem twoSegmentFile_maps :
    MapsImage mapsUser twoSegmentFile (fileBias twoSegmentFile 0) 0x00007FFFFF7FE000 where
  mapped x hx := by
    have h := (twoSegmentFile_wellFormed.segments x hx).inUser
    have hpages := segment_in_pages x.2 (fileBias twoSegmentFile 0)
    have hend : x.2.segmentEnd (fileBias twoSegmentFile 0) =
        x.2.pVaddr + fileBias twoSegmentFile 0 + x.2.pMemsz := rfl
    apply decide_eq_true
    show userSpace.Covers _ _
    -- the pages of a segment are in user space
    unfold UserSpace.Covers
    omega
  faulted _ _ _ _ := rfl
  stack := rfl
  stackApart x hx := by
    have hbias : fileBias twoSegmentFile 0 = 0x400000 := by decide +kernel
    rw [twoSegmentFile_headers, List.mem_cons, List.mem_singleton] at hx
    rw [hbias]
    left
    rcases hx with rfl | rfl
    · decide
    · decide

/-- The first process loads it, to 0x400000. -/
theorem twoSegmentFile_loaded : ∃ u, initBoot = some u ∧
    ∃ result segments, u.elfLoad 0 mapsUser (bytesExecutable twoSegmentFile) 0 =
        (.ok result, u, segments) ∧
      ImageLoaded twoSegmentFile (fileBias twoSegmentFile 0) result
        (loadedMemory (fun _ => 0xFF) segments 0x00007FFFFF7FE000) := by
  have hboot : initBoot.isSome = true := by decide +kernel
  rcases Option.isSome_iff_exists.mp hboot with ⟨u, hu⟩
  exact ⟨u, hu, elfLoad_image twoSegmentFile_wellFormed (bytesExecutable_reads twoSegmentFile)
    twoSegmentFile_maps u 0 fun _ => 0xFF⟩

end Ceryx.Proc.ElfLoader
