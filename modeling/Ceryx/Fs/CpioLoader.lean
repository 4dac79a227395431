import Ceryx.Fs.Vfs

/-!
# Ceryx.Fs.CpioLoader — the loader of the initial file system

`CpioLoader::Populate`, `ParseHex` and `CreateEntry` of `CpioLoader.hpp`.

* The archive is in memory that the loader only reads, `image`. The sums that
  move `ptr` wrap.
* `CpioEnv`: the results of the allocations. `new` and `PushBack` succeed or not
  by the number of the new vnode, `AllocatePage` by the frames that are taken.
* `populate` is `none` where the loop does not end within as many turns as the
  archive has bytes.
-/

namespace Ceryx.Fs.CpioLoader

open Lib RamFs Vfs

/-- The memory that the archive is in. -/
abbrev Image := Nat → UInt8

/-- `sizeof(CpioHeader)`. -/
def sizeofCpioHeader : Nat := 110

/-- "070701". -/
def magic : StringView := [48, 55, 48, 55, 48, 49]

/-- "TRAILER!!!". -/
def trailer : StringView := [84, 82, 65, 73, 76, 69, 82, 33, 33, 33]

/-- A turn of `ParseHex`. Other characters leave four zero bits. -/
def parseHexTurn (val : Nat) (c : UInt8) : Nat :=
  let val := (val <<< 4) % 2 ^ 64
  if 48 ≤ c.toNat ∧ c.toNat ≤ 57 then val ||| (c.toNat - 48)
  else if 97 ≤ c.toNat ∧ c.toNat ≤ 102 then val ||| (c.toNat - 97 + 10)
  else if 65 ≤ c.toNat ∧ c.toNat ≤ 70 then val ||| (c.toNat - 65 + 10)
  else val

/-- `ParseHex`. -/
def parseHex (str : List UInt8) : Nat := str.foldl parseHexTurn 0

/-- `(ptr + 3) & ~3`. -/
def align4 (ptr : Nat) : Nat := usizeAdd ptr 3 - usizeAdd ptr 3 % 4

structure CpioEnv where
  vnodeAlloc : Nat → VnodeAlloc
  allocatePage : List Nat → Option Nat

/-- The vnodes, and the memory of the files. -/
structure FsState (V : Type) extends Ram where
  tree : Vnodes V

/-- The next `n` results of `AllocatePage`. -/
def CpioEnv.pages (env : CpioEnv) : Nat → List Nat → List (Option Nat)
  | 0, _ => []
  | n + 1, used =>
      match env.allocatePage used with
      | none => none :: env.pages n used
      | some pfn => some pfn :: env.pages n (pfn :: used)

section
variable {V : Type} (vm : VmObject V) (env : CpioEnv)

/-! ## CreateEntry -/

/-- A directory of the path: the child of that name, or a new one. -/
def lookupOrMkdir (t : Vnodes V) (dir : Nat) (name : StringView) : Except Int Nat × Vnodes V :=
  match t.lookup dir name with
  | .ok c => (.ok c, t)
  | .error _ => Vnodes.mkdir vm t dir name (env.vnodeAlloc t.next)

/-- The loop over the directories of the path: the vnode and the offset of the
last component. The first argument bounds the turns; a byte more than the path
has is enough, as each turn but the last passes a slash. -/
def makeDirs (path : StringView) : Nat → Nat → Nat → Vnodes V → Option (Nat × Nat) × Vnodes V
  | 0, offset, current, t => (some (current, offset), t)
  | n + 1, offset, current, t =>
      match find path slash offset with
      | none => (some (current, offset), t)
      | some nextSlash =>
          let dirName := subView path offset (nextSlash - offset)
          if dirName = [] ∨ dirName = dot then makeDirs path n (nextSlash + 1) current t
          else
            match lookupOrMkdir vm env t current dirName with
            | (.error _, t) => (none, t)
            | (.ok c, t) => makeDirs path n (nextSlash + 1) c t

/-- `Write` to a vnode. -/
def writeVnode (s : FsState V) (vnode : Nat) (data : List UInt8) : FsState V :=
  match write vm s.toRam (s.tree.node vnode).toRamFsNode data 0 (env.pages data.length s.used) with
  | (_, node, ram) => { ram with tree := s.tree.setNode vnode node }

/-- The entry itself, in its directory. -/
def createLeaf (s : FsState V) (current : Nat) (leafName : StringView) (mode : Nat)
    (data : List UInt8) : FsState V :=
  if mode &&& 0xF000 = 0x4000 then
    { s with tree := (Vnodes.mkdir vm s.tree current leafName (env.vnodeAlloc s.tree.next)).2 }
  else if mode &&& 0xF000 = 0x8000 then
    match Vnodes.create vm s.tree current leafName (env.vnodeAlloc s.tree.next) with
    | (.error _, t) => { s with tree := t }
    | (.ok file, t) => writeVnode vm env { s with tree := t } file data
  else s

/-- `CreateEntry`. -/
def createEntry (s : FsState V) (root : Nat) (path : StringView) (mode : Nat) (data : List UInt8) :
    FsState V :=
  if path = dot then s
  else
    match makeDirs vm env path (path.length + 1) 0 root s.tree with
    | (none, t) => { s with tree := t }
    | (some (current, offset), t) =>
        if path.drop offset = [] then { s with tree := t }
        else createLeaf vm env { s with tree := t } current (path.drop offset) mode data

/-! ## Populate -/

/-- The loop of `Populate`, with a bound on its turns. -/
def populateLoop (image : Image) (root last : Nat) : Nat → Nat → FsState V → Option (FsState V)
  | 0, _, _ => none
  | n + 1, ptr, s =>
      if ptr < last then
        if slice image ptr 6 ≠ magic then some s
        else
          let filesize := parseHex (slice image (ptr + 54) 8)
          let namesize := parseHex (slice image (ptr + 94) 8)
          let mode := parseHex (slice image (ptr + 14) 8) % 2 ^ 32
          let filename := ptr + sizeofCpioHeader
          if slice image filename 10 = trailer then some s
          else
            let data := align4 (usizeAdd ptr (sizeofCpioHeader + namesize))
            let path := slice image filename (usizeAdd namesize (2 ^ 64 - 1))
            populateLoop image root last n (align4 (usizeAdd data filesize))
              (createEntry vm env s root path mode (slice image data filesize))
      else some s

/-- `CpioLoader::Populate`. -/
def populate (image : Image) (root address size : Nat) (s : FsState V) : Option (FsState V) :=
  populateLoop vm env image root (usizeAdd address size) (size + 1) address s

/-! ## What is expected -/

/-- Allocation succeeds, with frames that are not taken. -/
structure CpioEnv.Succeeds (env : CpioEnv) : Prop where
  vnodes : ∀ n, env.vnodeAlloc n = ⟨true, true⟩
  frames : ∀ used, ∃ pfn, env.allocatePage used = some pfn ∧ pfn ∉ used

end

end Ceryx.Fs.CpioLoader
