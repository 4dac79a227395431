import Ceryx.Fs.RamFsRefine
import Ceryx.Fs.Vfs
import Ceryx.Lib.LittleEndian

/-!
# Ceryx.Fs.Getdents — listing a directory

`RamFsOpsImpl::Iterate` and `sys_getdents64`. `Iterate` writes a record for each
child from the cookie on, as long as the next one fits; the system call walks
over the records again, by their `d_reclen`, to find the last `d_off`, which is
the new cookie.

* The buffer is named by offsets. Names and buffers lie in memory, so that sums
  of their sizes do not wrap; `d_off` and `d_reclen` are cut off to their fields.
* `Complete`: a whole sequence of calls returns the children in order, each
  once, stays inside the buffers and says 0 only at the end.
* `complete_iff_meets`: this holds if and only if every call has room for the
  next record and the fields of what it writes are wide enough.
* `walkRecords_more`: the walk ends within a turn for each byte, or never.
* `small_buffer_ends`: a buffer that is too small for the only child.
-/

namespace Ceryx.Fs.Vfs

open Lib RamFs

variable {V : Type}

/-! ## Iterate -/

/-- `vtype_to_dt`. -/
def vtypeToDt : VnodeType → UInt8
  | .regular => 8
  | .directory => 4
  | .blockDevice => 6
  | .charDevice => 2
  | .symLink => 10
  | .socket => 12
  | .fifo => 1

/-- `sizeof(Dirent64Header)`: 19 bytes, padded to the alignment of 8. -/
def headerSize : Nat := 24

/-- `rec_size`: header, name and NUL, rounded up to 8 bytes. -/
def recSize (t : Vnodes V) (c : Nat) : Nat :=
  (headerSize + (t.node c).name.length + 1 + 7) / 8 * 8

section
variable (t : Vnodes V) (addr : Nat → BitVec 64)

/-- One turn of `Iterate`: the record of child `c`, which has index `i`. -/
def writeRecord (buf : Nat → UInt8) (p i c : Nat) : Nat → UInt8 :=
  let name := (t.node c).name
  let buf := blit buf p (toLE 8 (addr c).toNat)
  let buf := blit buf (p + 8) (toLE 8 (i + 1))
  let buf := blit buf (p + 16) (toLE 2 (recSize t c))
  let buf := blit buf (p + 18) [vtypeToDt (t.node c).type]
  let buf := blit buf (p + headerSize) name
  blit buf (p + headerSize + name.length) [0]

/-- The loop of `Iterate` over the children from index `i` on. -/
def iterateLoop (bufLen : Nat) : Nat → Nat → List Nat → (Nat → UInt8) → Nat × (Nat → UInt8)
  | _, written, [], buf => (written, buf)
  | i, written, c :: cs, buf =>
      if bufLen < written + recSize t c then (written, buf)
      else
        iterateLoop bufLen (i + 1) (written + recSize t c) cs (writeRecord t addr buf written i c)

/-- `RamFsOpsImpl::Iterate`; `addr` is where a vnode lies. -/
def iterate (dir : Nat) (buf : Nat → UInt8) (bufLen offset : Nat) :
    Except Int (Nat × (Nat → UInt8)) :=
  if t.isDirectory dir = false then .error (-ENOTDIR)
  else .ok (iterateLoop t addr bufLen offset 0 ((t.node dir).children.drop offset) buf)

end

/-! ## sys_getdents64 -/

/-- A field of `n` bytes. -/
def bufField (buf : Nat → UInt8) (p n : Nat) : Nat := ofLE (slice buf p n)

/-- The loop of `sys_getdents64` over the records. The first argument bounds the
turns: each moves on by a byte at least, unless `d_reclen` is 0, and then the
loop stays where it is for ever. -/
def walkRecords (buf : Nat → UInt8) (stop : Nat) : Nat → Nat → Nat → Option Nat
  | 0, _, _ => none
  | n + 1, p, offset =>
      if p < stop then walkRecords buf stop n (p + bufField buf (p + 16) 2) (bufField buf (p + 8) 8)
      else some offset

/-- A directory of the RAM file system that is there, with its children. -/
structure Directory (V : Type) where
  tree : Vnodes V
  dir : Nat
  isDir : tree.isDirectory dir = true
  dir_lt : dir < tree.next
  child_lt : ∀ c ∈ (tree.node dir).children, c < tree.next

def Directory.children (d : Directory V) : List Nat := (d.tree.node d.dir).children

/-- An open description of a directory: `offset` is the cookie. -/
structure Listing (V : Type) where
  d : Directory V
  offset : Nat

/-- `sys_getdents64`: the result, the buffer and the description; `none` when
the loop over the records does not end. -/
def sysGetdents64 (addr : Nat → BitVec 64) (s : Listing V) (bufLen : Nat) (buf : Nat → UInt8) :
    Option (Int × (Nat → UInt8) × Listing V) :=
  if s.d.tree.isDirectory s.d.dir = false then some (-ENOTDIR, buf, s)
  else
    match iterate s.d.tree addr s.d.dir buf bufLen s.offset with
    | .error e => some (e, buf, s)
    | .ok (n, buf) =>
        if 0 < n then
          (walkRecords buf n (n + 1) 0 s.offset).map fun offset =>
            ((n : Int), buf, { s with offset := offset })
        else some ((n : Int), buf, s)

/-! ## New children -/

/-- `RamFsOpsImpl::Mknod`, which takes any name. -/
def Vnodes.mknod (vm : VmObject V) (t : Vnodes V) (dir : Nat) (name : StringView)
    (type : VnodeType) (alloc : VnodeAlloc) : Except Int Nat × Vnodes V :=
  if t.isDirectory dir = false then (.error (-ENOTDIR), t) else addChild vm t type dir name alloc

inductive TreeOp where
  | create (dir : Nat) (name : StringView) (alloc : VnodeAlloc)
  | mkdir (dir : Nat) (name : StringView) (alloc : VnodeAlloc)
  | mknod (dir : Nat) (name : StringView) (type : VnodeType) (alloc : VnodeAlloc)

def treeStep (vm : VmObject V) (t : Vnodes V) : TreeOp → Vnodes V
  | .create dir name alloc => (t.create vm dir name alloc).2
  | .mkdir dir name alloc => (t.mkdir vm dir name alloc).2
  | .mknod dir name type alloc => (t.mknod vm dir name type alloc).2

theorem addChild_snd (vm : VmObject V) (t : Vnodes V) (type : VnodeType) (dir : Nat)
    (name : StringView) (alloc : VnodeAlloc) :
    (t.addChild vm type dir name alloc).2 = t ∨
      (t.addChild vm type dir name alloc).2 = t.withChild vm type dir name := by
  unfold Vnodes.addChild
  split
  · exact .inl rfl
  · split
    · exact .inl rfl
    · exact .inr rfl

/-- A call leaves the tree alone or makes one new child. -/
theorem treeStep_cases (vm : VmObject V) (t : Vnodes V) (op : TreeOp) :
    treeStep vm t op = t ∨ ∃ type dir name, treeStep vm t op = t.withChild vm type dir name := by
  cases op with
  -- not a directory, a name that is taken, or a new child
  | create dir name alloc =>
      unfold treeStep Vnodes.create
      dsimp only
      split
      · exact .inl rfl
      · split
        · exact .inl rfl
        · exact (addChild_snd vm t .regular dir name alloc).imp_right fun h => ⟨_, _, _, h⟩
  | mkdir dir name alloc =>
      unfold treeStep Vnodes.mkdir
      dsimp only
      split
      · exact .inl rfl
      · split
        · exact .inl rfl
        · exact (addChild_snd vm t .directory dir name alloc).imp_right fun h => ⟨_, _, _, h⟩
  -- `mknod` does not look the name up
  | mknod dir name type alloc =>
      unfold treeStep Vnodes.mknod
      dsimp only
      split
      · exact .inl rfl
      · exact (addChild_snd vm t type dir name alloc).imp_right fun h => ⟨_, _, _, h⟩

namespace Directory

variable (vm : VmObject V) (d : Directory V)

theorem withChild_children (type : VnodeType) (dir : Nat) (name : StringView) :
    (((d.tree.withChild vm type dir name).node d.dir).children = d.children) ∨
      ((d.tree.withChild vm type dir name).node d.dir).children = d.children ++ [d.tree.next] := by
  by_cases hdir : d.dir = dir
  · right
    rw [← hdir, Vnodes.withChild_dir]
    rfl
  · left
    rw [Vnodes.withChild_other vm d.tree type name (Nat.ne_of_lt d.dir_lt) hdir]
    rfl

/-- The directory after the call. -/
def step (op : TreeOp) : Directory V where
  tree := treeStep vm d.tree op
  dir := d.dir
  isDir := by
    rcases treeStep_cases vm d.tree op with heq | ⟨type, dir, name, heq⟩
    · rw [heq]
      exact d.isDir
    · rw [heq, Vnodes.withChild_isDirectory vm d.tree type name (Nat.ne_of_lt d.dir_lt)]
      exact d.isDir
  dir_lt := by
    rcases treeStep_cases vm d.tree op with heq | ⟨type, dir, name, heq⟩
    · rw [heq]
      exact d.dir_lt
    · rw [heq]
      exact Nat.lt_succ_of_lt d.dir_lt
  child_lt := by
    intro c hc
    rcases treeStep_cases vm d.tree op with heq | ⟨type, dir, name, heq⟩
    · rw [heq] at hc ⊢
      exact d.child_lt c hc
    · rw [heq] at hc ⊢
      rcases d.withChild_children vm type dir name with hsame | hmore
      · rw [hsame] at hc
        exact Nat.lt_succ_of_lt (d.child_lt c hc)
      · rw [hmore] at hc
        rcases List.mem_append.mp hc with hold | hnew
        · exact Nat.lt_succ_of_lt (d.child_lt c hold)
        · rw [List.mem_singleton.mp hnew]
          exact Nat.lt_succ_self _

/-- Children are only added, at the end. -/
theorem step_children (op : TreeOp) : d.children <+: (d.step vm op).children := by
  have hsame : (d.step vm op).children = ((treeStep vm d.tree op).node d.dir).children := rfl
  rw [hsame]
  rcases treeStep_cases vm d.tree op with heq | ⟨type, dir, name, heq⟩
  · rw [heq]
    exact List.prefix_refl _
  · rw [heq]
    rcases d.withChild_children vm type dir name with hsame | hmore
    · rw [hsame]
    · rw [hmore]
      exact List.prefix_append _ _

/-- The directory after calls to make children. -/
def steps (ops : List TreeOp) : Directory V := ops.foldl (step vm) d

theorem steps_children (ops : List TreeOp) : d.children <+: (d.steps vm ops).children := by
  induction ops generalizing d with
  | nil => exact List.prefix_refl _
  | cons op ops ih => exact (d.step_children vm op).trans (ih (d.step vm op))

end Directory

/-! ## What a listing has to be -/

/-- `getdents64` with a buffer, or a call that may make a child. -/
inductive DirOp where
  | getdents (bufLen : Nat) (buf : Nat → UInt8)
  | tree (op : TreeOp)

/-- The calls that may make children, in order. -/
def treeOps (ops : List DirOp) : List TreeOp :=
  ops.filterMap fun
    | .getdents _ _ => none
    | .tree op => some op

/-- The record of child `c`, which has index `i`, is at offset `p`. -/
structure RecordAt (t : Vnodes V) (addr : Nat → BitVec 64) (buf : Nat → UInt8) (p i c : Nat) :
    Prop where
  ino : bufField buf p 8 = (addr c).toNat
  off : bufField buf (p + 8) 8 = i + 1
  reclen : bufField buf (p + 16) 2 = recSize t c
  type : buf (p + 18) = vtypeToDt (t.node c).type
  name : slice buf (p + headerSize) (t.node c).name.length = (t.node c).name
  nul : buf (p + headerSize + (t.node c).name.length) = 0

/-- From offset `p` on there are just the records of `cs`, up to the end `n`. A
reader goes from one to the next by `d_reclen`. -/
def Listed (t : Vnodes V) (addr : Nat → BitVec 64) (buf : Nat → UInt8) (n : Nat) :
    Nat → Nat → List Nat → Prop
  | p, _, [] => p = n
  | p, i, c :: cs =>
      RecordAt t addr buf p i c ∧ Listed t addr buf n (p + bufField buf (p + 16) 2) (i + 1) cs

/-- The calls return the children from index `i` on, in the order of `all`, each
once; none writes behind its buffer, and a call that returns 0 leaves no child. -/
def Complete (vm : VmObject V) (addr : Nat → BitVec 64) (all : List Nat) :
    List DirOp → Listing V → Nat → Prop
  | [], _, _ => True
  | .tree op :: ops, s, i => Complete vm addr all ops { s with d := s.d.step vm op } i
  | .getdents bufLen buf :: ops, s, i =>
      ∃ n buf' s' cs, sysGetdents64 addr s bufLen buf = some (Int.ofNat n, buf', s') ∧
        cs <+: all.drop i ∧ Listed s.d.tree addr buf' n 0 i cs ∧
        (∀ j, bufLen ≤ j → buf' j = buf j) ∧ (n = 0 → s.d.children.length ≤ i) ∧
        Complete vm addr all ops s' (i + cs.length)

/-! ## When it is -/

/-- The children whose records go into a buffer with `written` bytes in it. -/
def fitting (t : Vnodes V) (bufLen : Nat) : Nat → List Nat → List Nat
  | _, [] => []
  | written, c :: cs =>
      if bufLen < written + recSize t c then []
      else c :: fitting t bufLen (written + recSize t c) cs

/-- What a call is going to write. -/
def Listing.next (s : Listing V) (bufLen : Nat) : List Nat :=
  fitting s.d.tree bufLen 0 (s.d.children.drop s.offset)

/-- `d_reclen` and `d_off` are wide enough for these records. -/
def FieldsFit (t : Vnodes V) : Nat → List Nat → Prop
  | _, [] => True
  | i, c :: cs => (recSize t c < 2 ^ 16 ∧ i + 1 < 2 ^ 64) ∧ FieldsFit t (i + 1) cs

/-- There is room for the next record, if there is one, and the fields of what
is written are wide enough. -/
def CallMeets (s : Listing V) (bufLen : Nat) : Prop :=
  (∀ c, s.d.children[s.offset]? = some c → recSize s.d.tree c ≤ bufLen) ∧
    FieldsFit s.d.tree s.offset (s.next bufLen)

/-- All calls meet it. -/
def Meets (vm : VmObject V) (addr : Nat → BitVec 64) : List DirOp → Listing V → Prop
  | [], _ => True
  | .tree op :: ops, s => Meets vm addr ops { s with d := s.d.step vm op }
  | .getdents bufLen buf :: ops, s =>
      CallMeets s bufLen ∧
        ∀ rax buf' s', sysGetdents64 addr s bufLen buf = some (rax, buf', s') → Meets vm addr ops s'

/-! ## The records of a call -/

section
variable {t : Vnodes V} {addr : Nat → BitVec 64}

theorem recSize_ge (t : Vnodes V) (c : Nat) :
    headerSize + (t.node c).name.length + 1 ≤ recSize t c := by
  unfold recSize
  omega

/-- The bytes of a record; the numbers are cut off to their fields. -/
structure RawAt (t : Vnodes V) (addr : Nat → BitVec 64) (buf : Nat → UInt8) (p i c : Nat) :
    Prop where
  ino : slice buf p 8 = toLE 8 (addr c).toNat
  off : slice buf (p + 8) 8 = toLE 8 (i + 1)
  reclen : slice buf (p + 16) 2 = toLE 2 (recSize t c)
  type : buf (p + 18) = vtypeToDt (t.node c).type
  name : slice buf (p + headerSize) (t.node c).name.length = (t.node c).name
  nul : buf (p + headerSize + (t.node c).name.length) = 0

/-- The bytes of a record are all that counts. -/
theorem RawAt.congr {buf buf' : Nat → UInt8} {p i c : Nat} (h : RawAt t addr buf p i c)
    (hsame : ∀ j, p ≤ j → j < p + recSize t c → buf' j = buf j) : RawAt t addr buf' p i c := by
  have hsize := recSize_ge t c
  -- each field lies inside of the record
  have hslice : ∀ q n, p ≤ q → q + n ≤ p + headerSize + (t.node c).name.length + 1 →
      slice buf' q n = slice buf q n := by
    intro q n hq hn
    apply slice_eq_iff.mpr
    intro j hj
    apply hsame <;> omega
  unfold headerSize at hsize hslice
  constructor
  · rw [hslice _ _ (by omega) (by omega)]
    exact h.ino
  · rw [hslice _ _ (by omega) (by omega)]
    exact h.off
  · rw [hslice _ _ (by omega) (by omega)]
    exact h.reclen
  · rw [hsame _ (by omega) (by omega)]
    exact h.type
  · rw [hslice _ _ (by unfold headerSize; omega) (by unfold headerSize; omega)]
    exact h.name
  · rw [hsame _ (by unfold headerSize; omega) (by unfold headerSize; omega)]
    exact h.nul

theorem slice_toLE (buf : Nat → UInt8) (p n x : Nat) :
    slice (blit buf p (toLE n x)) p n = toLE n x := by
  have hself := slice_blit_self buf p (toLE n x)
  rw [toLE_length] at hself
  exact hself

theorem blit_byte (buf : Nat → UInt8) (p : Nat) (b : UInt8) : blit buf p [b] p = b :=
  @blit_inside _ buf p [b] 0 (Nat.zero_lt_succ 0)

/-- The fields do not overlap. -/
theorem writeRecord_raw (t : Vnodes V) (addr : Nat → BitVec 64) (buf : Nat → UInt8)
    (p i c : Nat) : RawAt t addr (writeRecord t addr buf p i c) p i c := by
  unfold writeRecord headerSize
  constructor
  · rw [slice_blit_outside (.inl (by omega)), slice_blit_outside (.inl (by omega)),
      slice_blit_outside (.inl (by omega)), slice_blit_outside (.inl (by omega)),
      slice_blit_outside (.inl (by omega)), slice_toLE]
  · rw [slice_blit_outside (.inl (by omega)), slice_blit_outside (.inl (by omega)),
      slice_blit_outside (.inl (by omega)), slice_blit_outside (.inl (by omega)), slice_toLE]
  · rw [slice_blit_outside (.inl (by omega)), slice_blit_outside (.inl (by omega)),
      slice_blit_outside (.inl (by omega)), slice_toLE]
  · rw [blit_outside (.inl (by omega)), blit_outside (.inl (by omega))]
    exact blit_byte _ _ _
  · rw [headerSize, slice_blit_outside (.inl (by omega)), slice_blit_self]
  · rw [headerSize]
    exact blit_byte _ _ _

theorem writeRecord_outside (buf : Nat → UInt8) {p i c j : Nat}
    (h : j < p ∨ p + recSize t c ≤ j) : writeRecord t addr buf p i c j = buf j := by
  have hsize := recSize_ge t c
  unfold headerSize at hsize
  unfold writeRecord headerSize
  have houtside : ∀ (f : Nat → UInt8) (q : Nat) (src : List UInt8), p ≤ q →
      q + src.length ≤ p + recSize t c → blit f q src j = f j := by
    intro f q src hq hsrc
    exact blit_outside (by omega)
  rw [houtside _ _ _ (by omega) (by rw [List.length_singleton]; omega),
    houtside _ _ _ (by omega) (by omega),
    houtside _ _ _ (by omega) (by rw [List.length_singleton]; omega),
    houtside _ _ _ (by omega) (by rw [toLE_length]; omega),
    houtside _ _ _ (by omega) (by rw [toLE_length]; omega),
    houtside _ _ _ (by omega) (by rw [toLE_length]; omega)]

/-- The records of `cs` from offset `p` on, one behind the other. -/
def Records (t : Vnodes V) (addr : Nat → BitVec 64) (buf : Nat → UInt8) :
    Nat → Nat → List Nat → Prop
  | _, _, [] => True
  | p, i, c :: cs => RawAt t addr buf p i c ∧ Records t addr buf (p + recSize t c) (i + 1) cs

/-- How long they are. -/
def recordsSize (t : Vnodes V) : List Nat → Nat
  | [] => 0
  | c :: cs => recSize t c + recordsSize t cs

@[simp] theorem recordsSize_nil (t : Vnodes V) : recordsSize t [] = 0 := rfl

@[simp] theorem recordsSize_cons (t : Vnodes V) (c : Nat) (cs : List Nat) :
    recordsSize t (c :: cs) = recSize t c + recordsSize t cs := rfl

/-- What the loop of `Iterate` writes, and where. -/
theorem iterateLoop_spec (t : Vnodes V) (addr : Nat → BitVec 64) (bufLen : Nat) (cs : List Nat)
    (i written : Nat) (buf : Nat → UInt8) (hwritten : written ≤ bufLen) :
    ∃ buf', iterateLoop t addr bufLen i written cs buf =
        (written + recordsSize t (fitting t bufLen written cs), buf') ∧
      written + recordsSize t (fitting t bufLen written cs) ≤ bufLen ∧
      (∀ j, j < written ∨ bufLen ≤ j → buf' j = buf j) ∧
      Records t addr buf' written i (fitting t bufLen written cs) := by
  induction cs generalizing i written buf with
  | nil => exact ⟨buf, rfl, hwritten, fun _ _ => rfl, trivial⟩
  | cons c cs ih =>
      unfold iterateLoop fitting
      split
      · exact ⟨buf, rfl, hwritten, fun _ _ => rfl, trivial⟩
      · rename_i hfits
        rw [Nat.not_lt] at hfits
        rcases ih (i + 1) (written + recSize t c) (writeRecord t addr buf written i c) hfits with
          ⟨buf', heq, hle, hout, hrecords⟩
        rw [recordsSize_cons, ← Nat.add_assoc]
        refine ⟨buf', heq, hle, ?_, ?_, hrecords⟩
        · intro j hj
          rw [hout j (by omega)]
          exact writeRecord_outside buf (by omega)
        · -- the later records leave this one alone
          apply (writeRecord_raw t addr buf written i c).congr
          intro j _ hj
          exact hout j (.inl hj)

theorem prefix_of_fitting (t : Vnodes V) (bufLen : Nat) (cs : List Nat) (written : Nat) :
    fitting t bufLen written cs <+: cs := by
  induction cs generalizing written with
  | nil => exact List.prefix_refl _
  | cons c cs ih =>
      unfold fitting
      split
      · exact List.nil_prefix
      · exact List.cons_prefix_cons.mpr ⟨rfl, ih _⟩

/-! ## Reading them back -/

theorem RawAt.recordAt {buf : Nat → UInt8} {p i c : Nat} (h : RawAt t addr buf p i c)
    (hfit : recSize t c < 2 ^ 16 ∧ i + 1 < 2 ^ 64) : RecordAt t addr buf p i c where
  ino := by
    rw [bufField, h.ino]
    exact ofLE_toLE_iff.mpr (addr c).isLt
  off := by
    rw [bufField, h.off]
    exact ofLE_toLE_iff.mpr hfit.2
  reclen := by
    rw [bufField, h.reclen]
    exact ofLE_toLE_iff.mpr hfit.1
  type := h.type
  name := h.name
  nul := h.nul

/-- Only where the fields are wide enough is the record the child's. -/
theorem RawAt.fit {buf : Nat → UInt8} {p i c : Nat} (h : RawAt t addr buf p i c)
    (hrecord : RecordAt t addr buf p i c) : recSize t c < 2 ^ 16 ∧ i + 1 < 2 ^ 64 := by
  have hreclen := hrecord.reclen
  have hoff := hrecord.off
  rw [bufField, h.reclen, ofLE_toLE_iff] at hreclen
  rw [bufField, h.off, ofLE_toLE_iff] at hoff
  exact ⟨hreclen, hoff⟩

theorem listed_of_records {buf : Nat → UInt8} {n p i : Nat} {cs : List Nat}
    (h : Records t addr buf p i cs) (hfit : FieldsFit t i cs) (hn : p + recordsSize t cs = n) :
    Listed t addr buf n p i cs := by
  induction cs generalizing p i with
  | nil => exact hn
  | cons c cs ih =>
      rw [recordsSize_cons] at hn
      have hrecord := h.1.recordAt hfit.1
      refine ⟨hrecord, ?_⟩
      rw [hrecord.reclen]
      exact ih h.2 hfit.2 (by omega)

theorem Listed.size {buf : Nat → UInt8} {n p i : Nat} {cs : List Nat}
    (h : Listed t addr buf n p i cs) : p + recordsSize t cs = n := by
  induction cs generalizing p i with
  | nil => exact h
  | cons c cs ih =>
      have hrest := ih h.2
      rw [h.1.reclen] at hrest
      rw [recordsSize_cons]
      omega

/-- A reader that meets records of children meets those that were written, and
their fields are wide enough. -/
theorem fit_of_listed {buf : Nat → UInt8} {n p i : Nat} {cs cs' all : List Nat}
    (h : Records t addr buf p i cs) (hn : p + recordsSize t cs = n)
    (hlisted : Listed t addr buf n p i cs') (hcs : cs <+: all) (hcs' : cs' <+: all) :
    cs' = cs ∧ FieldsFit t i cs := by
  induction cs generalizing p i cs' all with
  | nil =>
      -- no record fits into no bytes
      have hend := hlisted.size
      cases cs' with
      | nil => exact ⟨rfl, trivial⟩
      | cons c' cs' =>
          have hpos := recSize_ge t c'
          rw [recordsSize_nil] at hn
          rw [recordsSize_cons] at hend
          omega
  | cons c cs ih =>
      have hpos := recSize_ge t c
      rw [recordsSize_cons] at hn
      cases cs' with
      | nil =>
          have hend : p = n := hlisted
          omega
      | cons c' cs' =>
          cases all with
          | nil => exact absurd (List.prefix_nil.mp hcs) (List.cons_ne_nil _ _)
          | cons a all =>
              have hhead := List.cons_prefix_cons.mp hcs
              have hhead' := List.cons_prefix_cons.mp hcs'
              -- both are the next child of the directory
              have hsame : c' = c := hhead'.1.trans hhead.1.symm
              subst hsame
              have hfit := h.1.fit hlisted.1
              have hrest := hlisted.2
              rw [hlisted.1.reclen] at hrest
              rcases ih h.2 (by omega) hrest hhead.2 hhead'.2 with ⟨htail, hfits⟩
              exact ⟨by rw [htail], hfit, hfits⟩

/-! ## The loop over the records -/

/-- Where `d_reclen` is 0 the loop does not end. -/
theorem walkRecords_stuck {buf : Nat → UInt8} {stop p : Nat} (hp : p < stop)
    (hzero : bufField buf (p + 16) 2 = 0) (n offset : Nat) :
    walkRecords buf stop n p offset = none := by
  induction n generalizing offset with
  | zero => rfl
  | succ n ih =>
      rw [walkRecords, if_pos hp, hzero]
      exact ih _

/-- More turns than there are bytes change nothing. -/
theorem walkRecords_more {buf : Nat → UInt8} {stop n p : Nat} (hn : stop - p < n) (k offset : Nat) :
    walkRecords buf stop (n + k) p offset = walkRecords buf stop n p offset := by
  induction n generalizing p offset with
  | zero => exact absurd hn (Nat.not_lt_zero _)
  | succ n ih =>
      by_cases hp : p < stop
      · by_cases hzero : bufField buf (p + 16) 2 = 0
        · rw [walkRecords_stuck hp hzero, walkRecords_stuck hp hzero]
        · rw [Nat.succ_add, walkRecords, walkRecords, if_pos hp, if_pos hp]
          exact ih (by omega) _
      · rw [Nat.succ_add, walkRecords, walkRecords, if_neg hp, if_neg hp]

theorem walkRecords_records {buf : Nat → UInt8} {stop n p i : Nat} {cs : List Nat}
    (h : Records t addr buf p i cs) (hfit : FieldsFit t i cs) (hstop : p + recordsSize t cs = stop)
    (hn : cs.length < n) : walkRecords buf stop n p i = some (i + cs.length) := by
  induction cs generalizing n p i with
  | nil =>
      cases n with
      | zero => exact absurd hn (Nat.lt_irrefl _)
      | succ n =>
          rw [walkRecords, if_neg (by rw [← hstop]; exact Nat.lt_irrefl _)]
          rfl
  -- the record's length leads to the next one
  | cons c cs ih =>
      cases n with
      | zero => exact absurd hn (Nat.not_lt_zero _)
      | succ n =>
          have hpos := recSize_ge t c
          have hrecord := h.1.recordAt hfit.1
          rw [recordsSize_cons] at hstop
          rw [walkRecords, if_pos (by omega), hrecord.reclen, hrecord.off,
            ih h.2 hfit.2 (by omega) (Nat.lt_of_succ_lt_succ hn), List.length_cons,
            Nat.add_assoc, Nat.add_comm 1]

theorem length_le_recordsSize (t : Vnodes V) (cs : List Nat) : cs.length ≤ recordsSize t cs := by
  induction cs with
  | nil => exact Nat.le_refl 0
  | cons c cs ih =>
      have hpos := recSize_ge t c
      rw [recordsSize_cons, List.length_cons]
      omega

end

/-! ## One call -/

variable {vm : VmObject V} {addr : Nat → BitVec 64}

/-- What `Iterate` does for a call. -/
theorem iterate_next (addr : Nat → BitVec 64) (s : Listing V) (bufLen : Nat) (buf : Nat → UInt8) :
    ∃ buf', iterate s.d.tree addr s.d.dir buf bufLen s.offset =
        .ok (recordsSize s.d.tree (s.next bufLen), buf') ∧
      (∀ j, bufLen ≤ j → buf' j = buf j) ∧
      Records s.d.tree addr buf' 0 s.offset (s.next bufLen) := by
  have hdir := s.d.isDir
  rcases iterateLoop_spec s.d.tree addr bufLen (s.d.children.drop s.offset) s.offset 0 buf
    (Nat.zero_le _) with ⟨buf', hloop, -, hout, hrecords⟩
  rw [Nat.zero_add] at hloop
  refine ⟨buf', ?_, fun j hj => hout j (.inr hj), hrecords⟩
  rw [iterate, if_neg (by rw [hdir]; decide)]
  exact congrArg _ hloop

/-- A call writes the records of the next children and returns their size. Where
the fields are wide enough, the cookie moves on by as many. -/
theorem sysGetdents64_spec (addr : Nat → BitVec 64) (s : Listing V) (bufLen : Nat)
    (buf : Nat → UInt8) :
    ∃ buf', (∀ j, bufLen ≤ j → buf' j = buf j) ∧
      Records s.d.tree addr buf' 0 s.offset (s.next bufLen) ∧
      (∀ rax buf'' s', sysGetdents64 addr s bufLen buf = some (rax, buf'', s') →
        rax = Int.ofNat (recordsSize s.d.tree (s.next bufLen)) ∧ buf'' = buf' ∧ s'.d = s.d) ∧
      (FieldsFit s.d.tree s.offset (s.next bufLen) → sysGetdents64 addr s bufLen buf =
        some (Int.ofNat (recordsSize s.d.tree (s.next bufLen)), buf',
          { s with offset := s.offset + (s.next bufLen).length })) := by
  obtain ⟨buf', hiterate, hout, hrecords⟩ := iterate_next addr s bufLen buf
  have hdir := s.d.isDir
  refine ⟨buf', hout, hrecords, ?_, ?_⟩
  · -- whatever cookie the walk finds
    intro rax buf'' s' h
    rw [sysGetdents64, if_neg (by rw [hdir]; decide), hiterate] at h
    dsimp only at h
    split at h
    · rcases Option.map_eq_some_iff.mp h with ⟨offset, _, heq⟩
      cases heq
      exact ⟨rfl, rfl, rfl⟩
    · cases h
      exact ⟨rfl, rfl, rfl⟩
  · intro hfit
    rw [sysGetdents64, if_neg (by rw [hdir]; decide), hiterate]
    dsimp only
    have hlength := length_le_recordsSize s.d.tree (s.next bufLen)
    split
    · rw [walkRecords_records hrecords hfit (Nat.zero_add _) (Nat.lt_succ_of_le hlength)]
      rfl
    · have hnone : (s.next bufLen).length = 0 := by omega
      rw [hnone]
      rfl

/-- There is room for the next record exactly when a call that writes nothing is
at the end. -/
theorem room_iff (s : Listing V) (bufLen : Nat) :
    (∀ c, s.d.children[s.offset]? = some c → recSize s.d.tree c ≤ bufLen) ↔
      (recordsSize s.d.tree (s.next bufLen) = 0 → s.d.children.length ≤ s.offset) := by
  have hlength := length_le_recordsSize s.d.tree (s.next bufLen)
  -- nothing is left, or the next record must fit
  by_cases hend : s.d.children.length ≤ s.offset
  · rw [List.getElem?_eq_none hend]
    exact ⟨fun _ _ => hend, fun _ c hc => absurd hc (by simp)⟩
  · rw [Nat.not_le] at hend
    have hnext : s.next bufLen = fitting s.d.tree bufLen 0
        (s.d.children[s.offset] :: s.d.children.drop (s.offset + 1)) := by
      rw [Listing.next, List.drop_eq_getElem_cons hend]
    rw [List.getElem?_eq_getElem hend]
    constructor
    · intro hroom hzero
      have hfits := hroom _ rfl
      rw [hnext, fitting, if_neg (by omega), List.length_cons] at hlength
      rw [hnext, fitting, if_neg (by omega)] at hzero
      omega
    · intro hzero c hc
      cases hc
      by_contra hsmall
      have hnone : s.next bufLen = [] := by
        rw [hnext, fitting, if_pos (by omega)]
      rw [hnone] at hzero
      exact absurd (hzero rfl) (Nat.not_le.mpr hend)

theorem next_prefix {s : Listing V} {all : List Nat} (hall : s.d.children <+: all) (bufLen : Nat) :
    s.next bufLen <+: all.drop s.offset :=
  (prefix_of_fitting _ _ _ _).trans (hall.drop s.offset)

/-! ## All calls -/

theorem complete_iff (vm : VmObject V) (addr : Nat → BitVec 64) (ops : List DirOp) (s : Listing V)
    {all : List Nat} (hall : (s.d.steps vm (treeOps ops)).children = all) :
    Complete vm addr all ops s s.offset ↔ Meets vm addr ops s := by
  induction ops generalizing s with
  | nil => exact Iff.rfl
  | cons op ops ih =>
      cases op with
      | tree op => exact ih { s with d := s.d.step vm op } hall
      | getdents bufLen buf =>
          have hprefix : s.d.children <+: all := by
            rw [← hall]
            exact s.d.steps_children vm _
          have hnext := next_prefix hprefix bufLen
          rcases sysGetdents64_spec addr s bufLen buf with ⟨buf', hout, hrecords, honly, hcall⟩
          constructor
          · -- a reader that meets children has met fields that are wide enough
            rintro ⟨n, buf'', s', cs, heq, hcs, hlisted, _, hend, hrest⟩
            rcases honly _ _ _ heq with ⟨hn, hbuf, hd⟩
            have hn := Int.ofNat.inj hn
            rw [hbuf, hn] at hlisted
            rw [hn] at hend
            rcases fit_of_listed hrecords (Nat.zero_add _) hlisted hnext hcs with ⟨hsame, hfit⟩
            refine ⟨⟨(room_iff s bufLen).mpr hend, hfit⟩, ?_⟩
            intro rax buf₁ s₁ h
            rw [hcall hfit] at heq h
            cases h
            cases heq
            rw [hsame] at hrest
            exact (ih { s with offset := s.offset + (s.next bufLen).length } hall).mp hrest
          · rintro ⟨⟨hroom, hfit⟩, hrest⟩
            refine ⟨_, buf', _, s.next bufLen, hcall hfit, hnext, ?_, hout,
              (room_iff s bufLen).mp hroom, ?_⟩
            · exact listed_of_records hrecords hfit (Nat.zero_add _)
            · exact (ih { s with offset := s.offset + (s.next bufLen).length } hall).mpr
                (hrest _ _ _ (hcall hfit))

/-- A listing is complete if and only if all calls meet the condition; `all` are
the children at the end. -/
theorem complete_iff_meets (vm : VmObject V) (addr : Nat → BitVec 64) (ops : List DirOp)
    (s : Listing V) :
    Complete vm addr (s.d.steps vm (treeOps ops)).children ops s s.offset ↔ Meets vm addr ops s :=
  complete_iff vm addr ops s rfl

/-! ## A small buffer -/

/-- The root, with the empty file "a" in it. -/
def oneChild : Vnodes (List VmPage) where
  node := fun
    | 0 => { type := .directory, vmo := none, children := [1] }
    | _ => { type := .regular, vmo := some [], name := [97] }
  next := 2

def oneListing : Listing (List VmPage) where
  d := {
    tree := oneChild
    dir := 0
    isDir := rfl
    dir_lt := Nat.zero_lt_two
    child_lt := List.forall_mem_singleton.mpr (Nat.lt_succ_self 1) }
  offset := 0

def smallBuffer : List DirOp := [.getdents 31 fun _ => 0]

/-- The record of "a" takes 32 bytes; a buffer of 31 bytes gets the 0 that stands
for the end. -/
theorem small_buffer_ends :
    sysGetdents64 (fun _ => 0) oneListing 31 (fun _ => 0) = some (0, fun _ => 0, oneListing) ∧
      ¬ Complete (pageList .base) (fun _ => 0)
        (oneListing.d.steps (pageList .base) (treeOps smallBuffer)).children smallBuffer oneListing
        oneListing.offset := by
  have hcall : sysGetdents64 (fun _ => 0) oneListing 31 (fun _ => 0) =
      some (0, fun _ => 0, oneListing) := rfl
  refine ⟨hcall, ?_⟩
  rintro ⟨n, buf', s', cs, heq, _, _, _, hend, _⟩
  rw [hcall] at heq
  cases heq
  exact absurd (hend rfl) (by decide)

end Ceryx.Fs.Vfs
