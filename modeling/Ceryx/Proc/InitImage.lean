import Ceryx.Fs.CpioOver
import Ceryx.Proc.ElfImage

/-!
# Ceryx.Proc.InitImage — from the archive to the memory of a process

`start_kernel` unpacks the initial archive into the directories it has made, looks
up `/sbin/init`, and `Spawn` loads what it finds. The segments of the executable
go from the bytes of the archive over the pages of a file into user memory.

* `holds_frames`: a file is in the frames that are taken, and nowhere else.
* `segmentByte`: what the file says of a byte of a segment.
* `archive_executable`: a well-formed executable of the archive, under its path, is
  in user memory after `Load`.
-/

namespace Ceryx.Proc.ElfLoader

open Lib Fs Fs.RamFs Fs.Vfs Fs.Vfs.Vnodes Fs.CpioLoader

variable {V : Type} {vm : VmObject V} {conv : Convention} {env : CpioEnv} {root : Nat}

/-! ## The file -/

/-- Memory that is the same in the frames that are taken holds the same file. -/
theorem holds_frames {mem mem' : Nat → UInt8} {used : List Nat} {table : Nat → Option Nat}
    {node : RamFsNode V} {f : SparseFile UInt8} (h : Holds vm conv mem table node f)
    (htaken : ∀ k pfn, table k = some pfn → pfn ∈ used)
    (hmem : ∀ a, a / kPageSize ∈ used → mem' a = mem a) : Holds vm conv mem' table node f where
  type := h.type
  size := h.size
  bound := h.bound
  pages := h.pages
  bytes := by
    rw [← h.bytes]
    funext a
    unfold fileBytes content
    -- the file's own frames are in use, so the new bytes are elsewhere
    cases hk : table (a / kPageSize) with
    | none => rfl
    | some pfn =>
        apply hmem
        rw [page_div (Nat.mod_lt _ (by decide))]
        exact htaken _ _ hk

/-- The components of the path of an entry, with or without a slash before it. -/
theorem components_path {names : Path} (hnames : ∀ c ∈ names, Newc.ValidName c) :
    components ([slash].intercalate names) = names := by
  -- over the names: each is one component, as it has no slash and is no dot
  induction names with
  | nil => rfl
  | cons c names ih =>
      rcases List.forall_mem_cons.mp hnames with ⟨⟨hempty, -, hout, hdot⟩, hrest⟩
      have hsingle : components c = [c] := by
        rw [components_single hout]
        exact if_neg (not_or.mpr ⟨hempty, hdot⟩)
      cases names with
      | nil =>
          rw [List.intercalate_singleton]
          exact hsingle
      | cons d names =>
          rw [List.intercalate_cons_of_ne_nil (List.cons_ne_nil d names), List.append_assoc]
          change components (c ++ slash :: [slash].intercalate (d :: names)) = _
          rw [components_append, hsingle, ih hrest]
          rfl

/-! ## From the archive into user memory -/

/-- Byte `j` of a segment: of the file, or zero. -/
def segmentByte (file : List UInt8) (phdr : Elf64_Phdr) (j : Nat) : UInt8 :=
  if j < phdr.pFilesz then file.getD (phdr.pOffset + j) 0 else 0

/-- Every byte of every segment is in memory. -/
def SegmentsLoaded (file : List UInt8) (bias : Nat) (m : ByteMem) : Prop :=
  ∀ x ∈ loadHeaders file, ∀ j, j < x.2.pMemsz →
    m (BitVec.ofNat 64 (x.2.pVaddr + bias + j)) = segmentByte file x.2 j

theorem segmentsLoaded {loadEnv : LoadEnv} {exe : Executable} {file : List UInt8}
    {user : UserSpace} {loadBias stackBottom : Nat} (hfile : WellFormed file user loadBias)
    (hread : ReadsBytes exe file)
    (hmaps : MapsImage loadEnv file (fileBias file loadBias) stackBottom) (m : ByteMem) :
    SegmentsLoaded file (fileBias file loadBias)
      (loadedMemory m ((loadHeaders file).map fun x =>
        exe.segmentOf x.1 x.2 (fileBias file loadBias)) stackBottom) := by
  intro x hx j hj
  have h := hfile.segments x hx
  have hpage := part_in_pages h (Nat.le_add_right _ j)
    (show x.2.pVaddr + fileBias file loadBias + j < x.2.segmentEnd (fileBias file loadBias) from
      Nat.add_lt_add_left hj _) x.1
  rw [loadedMemory_pages hfile hread hmaps m hx hpage]
  unfold segmentByte
  by_cases hjfile : j < x.2.pFilesz
  · -- a byte of the file
    rw [if_pos hjfile, List.getD_eq_getElem?_getD, pageContent_bytes (i := x.1) hread h hjfile]
    rfl
  · rw [if_neg hjfile]
    exact pageContent_zeroes hread h (Nat.le_of_not_lt hjfile) hj

/-- An executable of the archive, wherever it is in the tree: `Populate` succeeds, its path
leads to a vnode, and `Load` of the vnode puts the segments of the file into memory. The
loader's own stores stay out of the frames of the files. -/
theorem archive_executable (hlaw : vm.Lawful .basePlusOffset) (henv : env.Succeeds)
    {s : FsState V} {present : Path → Prop} {files : Path → Option (List UInt8)}
    (h : Represents vm .basePlusOffset root s present files) {es : List Newc.Entry}
    (hes : Unpacks present files es) (htrailer : ∀ e ∈ es, ¬ trailer <+: e.path)
    {bytes : List UInt8} {image : Image} {address : Nat} (harchive : Newc.Archive es bytes)
    (hat : StoredAt image address bytes) (haligned : address % 4 = 0)
    (hbound : address + bytes.length < 2 ^ 64) {e : Newc.Entry} (he : e ∈ es)
    {file : List UInt8} (hnode : e.node = .file file) {user : UserSpace}
    (hfile : WellFormed file user 0) {loadEnv : LoadEnv} {stackBottom : Nat}
    (hmaps : MapsImage loadEnv file (fileBias file 0) stackBottom) :
    ∃ s' v, populate vm env image root address bytes.length s = some s' ∧
      s'.tree.pathToVnode root (slash :: e.path) = .ok v ∧
      ∀ mem : Nat → Nat → UInt8, (∀ i a, a / kPageSize ∈ s'.used → mem i a = s'.mem a) →
        ∀ (u : UserKernel) (p : ProcId) (m : ByteMem), ∃ result segments,
          u.elfLoad p loadEnv
              (.ofRamFile vm fun i => ⟨mem i, (s'.tree.node v).toRamFsNode⟩) 0 =
            (.ok result, u, segments) ∧
          result.entryPoint = ((ehdrOf file).eEntry + fileBias file 0) % 2 ^ 64 ∧
          SegmentsLoaded file (fileBias file 0) (loadedMemory m segments stackBottom) := by
  rcases populate_represents hlaw henv h hes htrailer harchive hat haligned hbound with
    ⟨s', hpopulate, hrep⟩
  have hpresent : presentAfter present es e.names := Or.inr ⟨e, he, List.prefix_refl _⟩
  rcases hrep.file hpresent (hes.unpacked he hnode) with
    ⟨v, table, hwalk, hholds, htaken⟩
  refine ⟨s', v, hpopulate, ?_, ?_⟩
  · rw [pathToVnode_eq, components_slash]
    have hcomponents : components e.path = e.names := components_path (hes.names e he).2
    rw [hcomponents]
    exact hwalk
  · intro mem hmem u p m
    -- the file reads as its bytes, whatever was stored meanwhile
    have hread : ReadsBytes
        (.ofRamFile vm fun i => ⟨mem i, (s'.tree.node v).toRamFsNode⟩) file := by
      apply ramFile_reads
      intro i
      refine ⟨table, contentOf file, holds_frames hholds htaken (hmem i), contentOf_size file, ?_⟩
      rw [contentOf_size]
      exact contentOf_get file
    exact ⟨_, _, elfLoad_eq hread hmaps hfile u p, rfl, segmentsLoaded hfile hread hmaps m⟩

/-- `/sbin/init` is the position-independent executable. -/
theorem init_loaded : ∃ s' v u,
    populate (pageList .basePlusOffset) nextFrame
        (imageOf (Newc.encode (initArchive twoSegmentFile))) 0 0
        (Newc.encode (initArchive twoSegmentFile)).length startKernelTree = some s' ∧
      s'.tree.pathToVnode 0 [47, 115, 98, 105, 110, 47, 105, 110, 105, 116] = .ok v ∧
      initBoot = some u ∧ ∃ result segments,
        u.elfLoad 0 mapsUser
            (.ofRamFile (pageList .basePlusOffset) fun _ =>
              ⟨s'.mem, (s'.tree.node v).toRamFsNode⟩) 0 = (.ok result, u, segments) ∧
          result.entryPoint =
            ((ehdrOf twoSegmentFile).eEntry + fileBias twoSegmentFile 0) % 2 ^ 64 ∧
          SegmentsLoaded twoSegmentFile (fileBias twoSegmentFile 0)
            (loadedMemory (fun _ => 0xFF) segments 0x00007FFFFF7FE000) := by
  have hboot : initBoot.isSome = true := by decide +kernel
  rcases Option.isSome_iff_exists.mp hboot with ⟨u, hu⟩
  -- every condition on the archive and on the file is decided on the bytes
  rcases archive_executable (pageList_lawful .basePlusOffset) nextFrame_succeeds
      startKernelTree_represents (initArchive_unpacks twoSegmentFile) (by decide)
      (Newc.archive_encode (by decide +kernel))
      (imageOf_storedAt (Newc.encode (initArchive twoSegmentFile))) rfl (by decide +kernel)
      (List.mem_cons_of_mem _ (List.mem_singleton_self _)) rfl twoSegmentFile_wellFormed
      twoSegmentFile_maps with ⟨s', v, hpopulate, hpath, hload⟩
  exact ⟨s', v, u, hpopulate, hpath, hu, hload (fun _ => s'.mem) (fun _ _ _ => rfl) u 0 _⟩

end Ceryx.Proc.ElfLoader
