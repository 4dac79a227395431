import Mathlib.Algebra.Group.Nat.Defs
import Ceryx.Lib.Paged
import Ceryx.Lib.Runs

/-!
# Ceryx.Fs.RamFs — the regular files of the RAM file system

`RamFsOpsImpl::Read` and `RamFsOpsImpl::Write` of `RamFs.hpp`, for any number
of files over one physical memory.

* `VmObject` is a parameter: the three functions of it that the file system
  calls. `VmObject.Lawful` is what is assumed of them, for one of the two
  conventions of `Lookup`.
* `AllocatePage` is an input: a call of `Write` takes its results in turn.
  `Fresh` says that they are not frames of a file.
* Memory is named by physical address; `hhdm` is the same offset in all
  accesses. Sizes and offsets are `usize`, with the sums modulo 2^64.
-/

namespace Ceryx.Fs.RamFs

open Lib

def kPageSize : Nat := 4096

def ENOMEM : Int := 12
def EISDIR : Int := 21

/-- `VnodeType`. -/
inductive VnodeType where
  | regular | directory | blockDevice | charDevice | symLink | socket | fifo
deriving DecidableEq, Repr

/-- `VmPage`. -/
structure VmPage where
  offset : Nat
  sizeBytes : Nat
  pfn : Nat
deriving DecidableEq, Repr

/-- `PfnToPhysical`. -/
def pfnToPhysical (pfn : Nat) : Nat := pfn * kPageSize

/-! ## VmObject -/

/-- `VmObject`: a new one, `Lookup` and `InsertBlock`. -/
structure VmObject (V : Type) where
  new : V
  lookup : V → Nat → Option Nat
  insertBlock : V → VmPage → V

/-- What `Lookup` of a resident page returns: its base address, or base plus
`o mod 4096`. -/
inductive Convention where
  | base
  | basePlusOffset
deriving DecidableEq, Repr

/-- What `Lookup` adds to the base, for an offset into the page. -/
def Convention.shift : Convention → Nat → Nat
  | .base, _ => 0
  | .basePlusOffset, pageOffset => pageOffset

/-- The offsets of a page. -/
def VmPage.Covers (page : VmPage) (o : Nat) : Prop :=
  page.offset ≤ o ∧ o < page.offset + page.sizeBytes

instance (page : VmPage) (o : Nat) : Decidable (page.Covers o) :=
  inferInstanceAs (Decidable (_ ∧ _))

/-- `InsertBlock` of a page where none is resident makes just this page
resident. -/
structure VmObject.Lawful {V : Type} (vm : VmObject V) (conv : Convention) : Prop where
  lookup_new : ∀ o, vm.lookup vm.new o = none
  lookup_inside : ∀ v page o, (∀ o', page.Covers o' → vm.lookup v o' = none) → page.Covers o →
    vm.lookup (vm.insertBlock v page) o =
      some (pfnToPhysical page.pfn + conv.shift (o % kPageSize))
  lookup_outside : ∀ v page o, (∀ o', page.Covers o' → vm.lookup v o' = none) → ¬ page.Covers o →
    vm.lookup (vm.insertBlock v page) o = vm.lookup v o

/-! ## Nodes -/

/-- `RamFsNode`, without its name and children. -/
structure RamFsNode (V : Type) where
  type : VnodeType
  vmo : Option V
  size : Nat := 0
deriving DecidableEq, Repr

/-- `usize` addition. -/
def usizeAdd (a b : Nat) : Nat := (a + b) % 2 ^ 64

/-- Physical memory and the frames that were handed out to files. -/
structure Ram where
  mem : Nat → UInt8
  used : List Nat

/-- The locals of `Write`: the file's pages, the memory, and the results that
`AllocatePage` is going to have. -/
structure Writing (V : Type) extends Ram where
  vmo : V
  pages : List (Option Nat)

section
variable {V : Type} (vm : VmObject V)

/-- `RamFsNode::RamFsNode`. -/
def newNode (type : VnodeType) : RamFsNode V :=
  { type := type, vmo := if type = .regular then some vm.new else none }

/-! ## Read -/

/-- `to_copy` of a turn, for the bytes left. -/
def toCopy (left currOffset : Nat) : Nat :=
  let pageRemain := kPageSize - (currOffset &&& (kPageSize - 1))
  if left < pageRemain then left else pageRemain

/-- What a turn of `Read` stores. -/
def readTurn (vmo : V) (mem : Nat → UInt8) (currOffset toCopy : Nat) : List UInt8 :=
  match vm.lookup vmo currOffset with
  | some phys => slice mem phys toCopy
  | none => List.replicate toCopy 0

/-- The loop of `Read` from `copied` on, with what is stored in `buffer`. The
first argument bounds the turns; `count - copied` is enough, as each turn
copies a byte. -/
def readLoop (vmo : V) (mem : Nat → UInt8) (offset count : Nat) :
    Nat → Nat → List UInt8 → Nat × List UInt8
  | 0, copied, buffer => (copied, buffer)
  | n + 1, copied, buffer =>
      if copied < count then
        let currOffset := usizeAdd offset copied
        let toCopy := toCopy (count - copied) currOffset
        readLoop vmo mem offset count n (copied + toCopy)
          (buffer ++ readTurn vm vmo mem currOffset toCopy)
      else (copied, buffer)

/-- `count` of `Read`. -/
def readCount (nodeSize size offset : Nat) : Nat :=
  if nodeSize < usizeAdd offset size then nodeSize - offset else size

/-- `RamFsOpsImpl::Read`: the value returned and the bytes stored. -/
def read (mem : Nat → UInt8) (node : RamFsNode V) (size offset : Nat) :
    Except Int (Nat × List UInt8) :=
  if node.type ≠ .regular then .error (-EISDIR)
  else if node.size ≤ offset then .ok (0, [])
  else
    match node.vmo with
    | none => .ok (0, [])
    | some vmo =>
        let count := readCount node.size size offset
        .ok (readLoop vm vmo mem offset count count 0 [])

/-! ## Write -/

/-- `AllocatePage`. -/
def allocatePage (w : Writing V) : Option Nat × Writing V :=
  match w.pages with
  | [] => (none, w)
  | none :: rest => (none, { w with pages := rest })
  | some pfn :: rest => (some pfn, { w with used := pfn :: w.used, pages := rest })

/-- `phys_opt` of a turn of `Write`: the resident page, or else a new one. -/
def lookupOrInsert (w : Writing V) (currOffset : Nat) : Option Nat × Writing V :=
  match vm.lookup w.vmo currOffset with
  | some phys => (some phys, w)
  | none =>
      match allocatePage w with
      | (none, w) => (none, w)
      | (some pfn, w) =>
          let page : VmPage :=
            { offset := currOffset - (currOffset &&& (kPageSize - 1))
              sizeBytes := kPageSize
              pfn := pfn }
          (some (pfnToPhysical pfn),
            { w with
              mem := blit w.mem (pfnToPhysical pfn) (List.replicate kPageSize 0)
              vmo := vm.insertBlock w.vmo page })

/-- The loop of `Write` from `copied` on, bounded as that of `Read`. -/
def writeLoop (src : List UInt8) (offset : Nat) :
    Nat → Nat → Writing V → Except Int Nat × Writing V
  | 0, copied, w => (.ok copied, w)
  | n + 1, copied, w =>
      if copied < src.length then
        let currOffset := usizeAdd offset copied
        let pageOffset := currOffset &&& (kPageSize - 1)
        let toCopy := toCopy (src.length - copied) currOffset
        match lookupOrInsert vm w currOffset with
        | (none, w) => (.error (-ENOMEM), w)
        | (some phys, w) =>
            let bytes := (src.drop copied).take toCopy
            writeLoop src offset n (copied + toCopy)
              { w with mem := blit w.mem (phys + pageOffset) bytes }
      else (.ok copied, w)

/-- `vnode.size` after `Write`. -/
def grownSize (nodeSize size offset : Nat) : Nat :=
  if nodeSize < usizeAdd offset size then usizeAdd offset size else nodeSize

/-- `RamFsOpsImpl::Write`, with the results of `AllocatePage`. -/
def write (ram : Ram) (node : RamFsNode V) (src : List UInt8) (offset : Nat)
    (pages : List (Option Nat)) : Except Int Nat × RamFsNode V × Ram :=
  if node.type ≠ .regular then (.error (-EISDIR), node, ram)
  else
    match node.vmo with
    | none => (.error (-ENOMEM), node, ram)
    | some vmo =>
        match writeLoop vm src offset src.length 0 { ram with vmo := vmo, pages := pages } with
        | (.error e, w) => (.error e, { node with vmo := some w.vmo }, w.toRam)
        | (.ok copied, w) =>
            (.ok copied,
              { node with vmo := some w.vmo, size := grownSize node.size src.length offset },
              w.toRam)

/-! ## The files -/

/-- All regular files, by the order of their creation. -/
structure Files (V : Type) extends Ram where
  nodes : List (RamFsNode V) := []

/-- `other`: the rest of the kernel writes to a frame that no file has. -/
inductive RamOp where
  | create
  | write (i : Nat) (src : List UInt8) (offset : Nat) (pages : List (Option Nat))
  | other (a : Nat) (byte : UInt8)

/-- `AllocatePage` hands out frames that no file has, each once. -/
def Fresh (used : List Nat) (pages : List (Option Nat)) : Prop :=
  (pages.filterMap id).Nodup ∧ ∀ pfn ∈ pages.filterMap id, pfn ∉ used

instance (used : List Nat) (pages : List (Option Nat)) : Decidable (Fresh used pages) :=
  inferInstanceAs (Decidable (_ ∧ _))

/-- One step: a new file, or a `Write` that succeeds and does not wrap. -/
def ramStep (s : Files V) : RamOp → Option (Files V)
  | .create => some { s with nodes := s.nodes ++ [newNode vm .regular] }
  | .write i src offset pages =>
      match s.nodes[i]? with
      | none => none
      | some node =>
          if offset + src.length < 2 ^ 64 ∧ Fresh s.used pages then
            match write vm s.toRam node src offset pages with
            | (.ok _, node, ram) => some { ram with nodes := s.nodes.set i node }
            | (.error _, _) => none
          else none
  | .other a byte => if a / kPageSize ∈ s.used then none else some { s with mem := blit s.mem a [byte] }

end

/-! ## The files as sparse byte arrays -/

def specStep (fs : List (SparseFile UInt8)) : RamOp → List (SparseFile UInt8)
  | .create => fs ++ [SparseFile.empty 0]
  | .write i src offset _ => fs.modify i fun f => f.write offset src
  | .other _ _ => fs

/-- What the files hold after the steps. -/
def contents (ops : List RamOp) : List (SparseFile UInt8) := ops.foldl specStep []

/-- `Read` of file `i` returns what `f` holds. -/
def ReadRight {V : Type} (vm : VmObject V) (s : Files V) (i : Nat) (f : SparseFile UInt8)
    (size offset : Nat) : Prop :=
  (s.nodes[i]?.map fun node => read vm s.mem node size offset) =
    some (.ok (f.count size offset, f.read size offset))

instance {V : Type} (vm : VmObject V) (s : Files V) (i : Nat) (f : SparseFile UInt8)
    (size offset : Nat) : Decidable (ReadRight vm s i f size offset) :=
  inferInstanceAs (Decidable (_ = _))

/-- The law of the file system, for a convention of `Lookup`. -/
def RamFsLaw (conv : Convention) : Prop :=
  ∀ (V : Type) (vm : VmObject V), vm.Lawful conv → ∀ (ram : Ram) (ops : List RamOp) (s : Files V),
    run (ramStep vm) { ram with } ops = some s → ∀ (i : Nat) (f : SparseFile UInt8),
      (contents ops)[i]? = some f → ∀ size offset, offset + size < 2 ^ 64 →
        ReadRight vm s i f size offset

end Ceryx.Fs.RamFs
