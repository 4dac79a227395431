import Ceryx.Fs.OpenCreat

/-!
# Ceryx.Fs.FileRuns — regular files under every open and every write

The machine of `Ceryx.Fs.RamFs` takes the writes that succeed and do not wrap.
Here `Write` is called with any offset and any results of `AllocatePage`, and
may fail; and `sys_open` may truncate.

* `byteAt`: the byte that the pages of a file hold at a position.
* `put`: the bytes that a step stores into a file, also when the call of `Write`
  fails in the end.
* `PagesInv.step`: what one step does to the bytes of all files.
* `reaches_inv`: what every run keeps.
-/

namespace Ceryx.Fs.RamFs

open Lib Vfs

/-- `openFile`: `sys_open` of a path that resolves to file `i`. `other`: the rest
of the kernel writes to a frame that no file has. -/
inductive FileOp where
  | create
  | openFile (i : Nat) (flags : BitVec 32)
  | write (i : Nat) (src : List UInt8) (offset : Nat) (pages : List (Option Nat))
  | other (a : Nat) (byte : UInt8)
deriving Repr

section
variable {V : Type} (vm : VmObject V)

/-- `vnode.size` after `sys_open`. -/
def openNode (node : RamFsNode V) (flags : BitVec 32) : RamFsNode V :=
  if flags &&& O_TRUNC ≠ 0 then { node with size := 0 } else node

/-- `Write` to file `i`, with its result. -/
def Files.write (s : Files V) (i : Nat) (src : List UInt8) (offset : Nat)
    (pages : List (Option Nat)) : Option (Except Int Nat × Files V) :=
  s.nodes[i]?.map fun node =>
    let (result, node, ram) := RamFs.write vm s.toRam node src offset pages
    (result, { ram with nodes := s.nodes.set i node })

/-- One step; sizes and offsets are of the type `usize`. -/
def fileStep (s : Files V) : FileOp → Option (Files V)
  | .create => some { s with nodes := s.nodes ++ [newNode vm .regular] }
  | .openFile i flags =>
      s.nodes[i]?.map fun node => { s with nodes := s.nodes.set i (openNode node flags) }
  | .write i src offset pages =>
      if offset < 2 ^ 64 ∧ src.length < 2 ^ 64 ∧ Fresh s.used pages then
        (s.write vm i src offset pages).map Prod.snd
      else none
  | .other a byte => if a / kPageSize ∈ s.used then none else some { s with mem := blit s.mem a [byte] }

/-- The byte that the pages of a node hold at position `p`; a hole holds
zeroes. -/
def pageByte (mem : Nat → UInt8) (node : RamFsNode V) (p : Nat) : UInt8 :=
  match node.vmo.bind fun vmo => vm.lookup vmo (p - p % kPageSize) with
  | some base => mem (base + p % kPageSize)
  | none => 0

/-- The byte of a file at an offset, on the page that `Lookup` finds, or 0. -/
def Files.byteAt (s : Files V) (i p : Nat) : UInt8 :=
  match s.nodes[i]? with
  | some node => pageByte vm s.mem node p
  | none => 0

/-- The size that the node has. -/
def Files.sizeAt (s : Files V) (i : Nat) : Nat :=
  match s.nodes[i]? with
  | some node => node.size
  | none => 0

/-- The bytes that `Write` stores into a node before it ends. -/
def storedBytes (node : RamFsNode V) (src : List UInt8) (offset : Nat)
    (pages : List (Option Nat)) : List UInt8 :=
  match node.vmo with
  | some vmo => src.take (reach vm src.length offset src.length 0 vmo pages)
  | none => []

/-- The position and the bytes that a step stores into file `i`. -/
def put (s : Files V) (i : Nat) : FileOp → Nat × List UInt8
  | .write j src offset pages =>
      match s.nodes[j]? with
      | some node => if j = i then (offset, storedBytes vm node src offset pages) else (0, [])
      | none => (0, [])
  | _ => (0, [])

/-- `Write` gets its bytes to the right place (`WriteOk`). -/
def WellPlaced (conv : Convention) (s : Files V) : FileOp → Prop
  | .write i src offset pages => WriteOk vm conv s (.write i src offset pages)
  | _ => True

instance (conv : Convention) (s : Files V) (op : FileOp) : Decidable (WellPlaced vm conv s op) := by
  cases op <;> unfold WellPlaced <;> infer_instance

end

variable {V : Type} {vm : VmObject V} {conv : Convention}

/-! ## The invariant -/

/-- A regular file with its pages. -/
structure NodeInv (vm : VmObject V) (conv : Convention) (node : RamFsNode V)
    (table : Nat → Option Nat) : Prop where
  type : node.type = .regular
  bound : node.size < 2 ^ 64
  pages : ∃ vmo, node.vmo = some vmo ∧ Maps vm conv vmo table

/-- What the pages of all files have in common. -/
structure PagesInv (vm : VmObject V) (conv : Convention) (s : Files V)
    (tables : Nat → Nat → Option Nat) : Prop where
  file : ∀ i node, s.nodes[i]? = some node → NodeInv vm conv node (tables i)
  frames : Frames tables s.used
  /-- Files that are not there yet have no pages. -/
  absent : ∀ i k, s.nodes.length ≤ i → tables i k = none

/-- The byte in the page is that of the table. -/
theorem NodeInv.pageByte_eq {node : RamFsNode V} {table : Nat → Option Nat}
    (h : NodeInv vm conv node table) (mem : Nat → UInt8) (p : Nat) :
    pageByte vm mem node p = fileBytes mem table p := by
  rcases h.pages with ⟨vmo, hvmo, hmaps⟩
  have hstart : (p - p % kPageSize) / kPageSize = p / kPageSize ∧
      (p - p % kPageSize) % kPageSize = 0 := by
    rw [pageStart_eq]
    exact ⟨Nat.mul_div_cancel _ kPageSize_pos, Nat.mul_mod_left _ _⟩
  unfold pageByte
  rw [hvmo, Option.bind_some, hmaps, hstart.1, hstart.2, conv.shift_zero]
  cases hframe : table (p / kPageSize) with
  | none => exact (content_none hframe).symm
  | some pfn =>
      simp only [Option.map_some, Nat.add_zero, pfnToPhysical]
      exact (content_some hframe).symm

/-- `Lookup` gives the bytes of the file's page table. -/
theorem PagesInv.byteAt_eq {s : Files V} {tables : Nat → Nat → Option Nat}
    (h : PagesInv vm conv s tables) (i p : Nat) :
    s.byteAt vm i p = fileBytes s.mem (tables i) p := by
  unfold Files.byteAt
  cases hnode : s.nodes[i]? with
  | none =>
      have hge : s.nodes.length ≤ i := List.getElem?_eq_none_iff.mp hnode
      exact (content_none (h.absent i _ hge)).symm
  | some node => exact (h.file i node hnode).pageByte_eq s.mem p

/-- A node with another size keeps its pages. -/
theorem NodeInv.withSize {node : RamFsNode V} {table : Nat → Option Nat}
    (h : NodeInv vm conv node table) {size : Nat} (hsize : size < 2 ^ 64) :
    NodeInv vm conv { node with size := size } table where
  type := h.type
  bound := hsize
  pages := h.pages

/-- Opening a file changes its size at most. -/
theorem NodeInv.openNode {node : RamFsNode V} {table : Nat → Option Nat}
    (h : NodeInv vm conv node table) (flags : BitVec 32) :
    NodeInv vm conv (openNode node flags) table := by
  unfold RamFs.openNode
  split
  · exact h.withSize (by decide)
  · exact h

/-! ## Write -/

/-- A size is a `size_t`. -/
theorem grownSize_lt {nodeSize size offset : Nat} (h : nodeSize < 2 ^ 64) :
    grownSize nodeSize size offset < 2 ^ 64 := by
  unfold grownSize
  split
  · exact usizeAdd_lt _ _
  · exact h

/-- What `Write` does to a file, however it ends. -/
theorem write_stored (hlaw : vm.Lawful conv) {ram ram' : Ram} {node node' : RamFsNode V}
    {tables : Nat → Nat → Option Nat} {i : Nat} {src : List UInt8} {offset : Nat}
    {pages : List (Option Nat)} (hnode : NodeInv vm conv node (tables i))
    (hframes : Frames tables ram.used) (hoffset : offset < 2 ^ 64) (hlen : src.length < 2 ^ 64)
    (hfresh : Fresh ram.used pages)
    (hok : conv = .base ∨ offset % kPageSize = 0 ∨ src = [] ∨
      (node.vmo.bind fun vmo => vm.lookup vmo offset) = none)
    {result : Except Int Nat} (heq : write vm ram node src offset pages = (result, node', ram')) :
    ∃ tables', NodeInv vm conv node' (tables' i) ∧ Frames tables' ram'.used ∧
      RingStored i offset (storedBytes vm node src offset pages) ram.mem ram'.mem tables tables' ∧
      (result = .ok src.length ∧ node'.size = grownSize node.size src.length offset ∧
          storedBytes vm node src offset pages = src ∨
        result = .error (-ENOMEM) ∧ node'.size = node.size ∧
          (storedBytes vm node src offset pages).length < src.length) := by
  rcases hnode.pages with ⟨vmo, hvmo, hmaps⟩
  have hcurr : usizeAdd offset 0 = offset := usizeAdd_eq hoffset
  have hstart := start_placed hvmo hok
  have hinv : WriteInv vm conv i { ram with vmo := vmo, pages := pages } tables :=
    ⟨hmaps, hframes, hfresh⟩
  obtain ⟨k, hk⟩ : ∃ k, reach vm src.length offset src.length 0 vmo pages = k := ⟨_, rfl⟩
  have hbounds := reach_bounds vm offset src.length (Nat.zero_le src.length) vmo pages
  rw [hk] at hbounds
  rcases hloop : writeLoop vm src offset src.length 0 { ram with vmo := vmo, pages := pages } with
    ⟨result', w'⟩
  rcases writeLoop_stored hlaw hlen src.length hinv (Nat.zero_le _) (Nat.le_refl _)
    (fun hlt => by
      rw [hcurr]
      exact hstart (List.ne_nil_of_length_pos hlt)) hk hloop with ⟨tables', h', hstored, hresult⟩
  rw [hcurr, List.drop_zero] at hstored
  have hbytes : storedBytes vm node src offset pages = src.take k := by
    unfold storedBytes
    rw [hvmo, ← hk]
  unfold RamFs.write at heq
  rw [if_neg (not_not_intro hnode.type)] at heq
  simp only [hvmo, hloop, hresult] at heq
  rw [hbytes]
  split at heq
  · -- the loop has failed
    rename_i e heq'
    split at hresult
    · rename_i hall
      rw [if_pos hall] at heq'
      cases heq'
    · rename_i hpart
      rw [if_neg hpart] at heq'
      cases heq'
      cases heq
      refine ⟨tables', ⟨hnode.type, hnode.bound, ⟨_, rfl, h'.maps⟩⟩, h'.frames, hstored,
        Or.inr ⟨rfl, rfl, ?_⟩⟩
      rw [List.length_take]
      omega
  · rename_i copied heq'
    split at hresult
    · rename_i hall
      rw [if_pos hall] at heq'
      cases heq'
      cases heq
      refine ⟨tables', ⟨hnode.type, grownSize_lt hnode.bound, ⟨_, rfl, h'.maps⟩⟩, h'.frames,
        hstored, Or.inl ⟨rfl, rfl, ?_⟩⟩
      rw [hall, List.take_length]
    · rename_i hpart
      rw [if_neg hpart] at heq'
      cases heq'

/-- A file with a new node in its place. -/
theorem PagesInv.set {s : Files V} {tables : Nat → Nat → Option Nat}
    (h : PagesInv vm conv s tables) {i : Nat} {node : RamFsNode V}
    (hnode : NodeInv vm conv node (tables i)) :
    PagesInv vm conv { s with nodes := s.nodes.set i node } tables where
  file j node' hj := by
    dsimp only at hj
    by_cases hji : j = i
    · subst hji
      rcases List.getElem?_eq_some_iff.mp hj with ⟨hlt, rfl⟩
      rw [List.getElem_set_self]
      exact hnode
    · rw [List.getElem?_set_ne (Ne.symm hji)] at hj
      exact h.file j node' hj
  frames := h.frames
  absent j k hj := by
    rw [List.length_set] at hj
    exact h.absent j k hj

/-- A write adds fresh pages to its file and keeps everyone else's. -/
theorem PagesInv.write (hlaw : vm.Lawful conv) {s s' : Files V}
    {tables : Nat → Nat → Option Nat} (h : PagesInv vm conv s tables) {i : Nat} {src : List UInt8}
    {offset : Nat} {pages : List (Option Nat)} (hoffset : offset < 2 ^ 64)
    (hlen : src.length < 2 ^ 64) (hfresh : Fresh s.used pages)
    (hok : WriteOk vm conv s (.write i src offset pages)) {result : Except Int Nat}
    (heq : s.write vm i src offset pages = some (result, s')) :
    ∃ node node' tables', s.nodes[i]? = some node ∧ s'.nodes = s.nodes.set i node' ∧
      PagesInv vm conv s' tables' ∧
      RingStored i offset (storedBytes vm node src offset pages) s.mem s'.mem tables tables' ∧
      (result = .ok src.length ∧ node'.size = grownSize node.size src.length offset ∧
          storedBytes vm node src offset pages = src ∨
        result = .error (-ENOMEM) ∧ node'.size = node.size ∧
          (storedBytes vm node src offset pages).length < src.length) := by
  rcases Option.map_eq_some_iff.mp heq with ⟨node, hnode, hwrite⟩
  rcases List.getElem?_eq_some_iff.mp hnode with ⟨hi, -⟩
  rcases hw : RamFs.write vm s.toRam node src offset pages with ⟨result', node', ram'⟩
  rw [hw] at hwrite
  cases hwrite
  have hstart : conv = .base ∨ offset % kPageSize = 0 ∨ src = [] ∨
      (node.vmo.bind fun vmo => vm.lookup vmo offset) = none := by
    unfold WriteOk at hok
    dsimp only at hok
    rw [hnode, Option.bind_some] at hok
    exact hok
  rcases write_stored hlaw (h.file i node hnode) h.frames hoffset hlen hfresh hstart hw with
    ⟨tables', hnew, hframes, hstored, hresult⟩
  refine ⟨node, node', tables', hnode, rfl, ⟨?_, hframes, ?_⟩, hstored, hresult⟩
  · intro j node'' hj
    dsimp only at hj
    by_cases hji : j = i
    · subst hji
      rw [List.getElem?_set_self hi] at hj
      cases hj
      exact hnew
    · -- another file
      rw [List.getElem?_set_ne (Ne.symm hji)] at hj
      rw [hstored.kept j hji]
      exact h.file j node'' hj
  · intro j k hj
    rw [List.length_set] at hj
    rw [hstored.kept j (Nat.ne_of_gt (Nat.lt_of_lt_of_le hi hj))]
    exact h.absent j k hj

/-! ## Steps and runs -/

/-- What one step does to the bytes of all files. -/
theorem PagesInv.step (hlaw : vm.Lawful conv) {s s' : Files V} {tables : Nat → Nat → Option Nat}
    (h : PagesInv vm conv s tables) {op : FileOp} (hok : WellPlaced vm conv s op)
    (hstep : fileStep vm s op = some s') :
    ∃ tables', PagesInv vm conv s' tables' ∧ ∀ i, fileBytes s'.mem (tables' i) =
      ringBlit (2 ^ 64) (fileBytes s.mem (tables i)) (put vm s i op).1 (put vm s i op).2 := by
  cases op with
  | create =>
      cases hstep
      refine ⟨tables, ⟨?_, h.frames, ?_⟩, fun i => (ringBlit_nil _ _ _).symm⟩
      · intro i node hi
        dsimp only at hi
        rcases Nat.lt_or_ge i s.nodes.length with hlt | hge
        · rw [List.getElem?_append_left hlt] at hi
          exact h.file i node hi
        · -- the new file has no pages
          rw [List.getElem?_append_right hge] at hi
          rcases List.getElem?_eq_some_iff.mp hi with ⟨hlt, rfl⟩
          rw [List.getElem_singleton]
          refine ⟨rfl, Nat.two_pow_pos 64, vm.new, rfl, ?_⟩
          intro o
          rw [hlaw.lookup_new, h.absent i _ hge]
          rfl
      · intro i k hi
        rw [List.length_append] at hi
        exact h.absent i k (Nat.le_trans (Nat.le_add_right _ _) hi)
  | openFile i flags =>
      rcases Option.map_eq_some_iff.mp hstep with ⟨node, hnode, rfl⟩
      exact ⟨tables, h.set ((h.file i node hnode).openNode flags),
        fun j => (ringBlit_nil _ _ _).symm⟩
  | write i src offset pages =>
      unfold fileStep at hstep
      dsimp only at hstep
      split at hstep
      · rename_i hguard
        rcases hguard with ⟨hoffset, hlen, hfresh⟩
        rcases Option.map_eq_some_iff.mp hstep with ⟨⟨result, s''⟩, hwrite, rfl⟩
        rcases h.write hlaw hoffset hlen hfresh hok hwrite with
          ⟨node, node', tables', hnode, -, hinv, hstored, -⟩
        refine ⟨tables', hinv, ?_⟩
        intro j
        unfold put
        dsimp only
        rw [hnode]
        dsimp only
        split
        · rename_i hij
          subst hij
          exact hstored.self
        · rename_i hij
          rw [ringBlit_nil]
          exact hstored.others j (Ne.symm hij)
      · cases hstep
  | other a byte =>
      unfold fileStep at hstep
      dsimp only at hstep
      split at hstep
      · cases hstep
      · rename_i hout
        cases hstep
        refine ⟨tables, ⟨h.file, h.frames, h.absent⟩, ?_⟩
        intro i
        exact (h.frames.content_outside hout kPageSize_pos i).trans (ringBlit_nil _ _ _).symm

/-- The files have tables of pages. -/
def PagesSound (vm : VmObject V) (conv : Convention) (s : Files V) : Prop :=
  ∃ tables, PagesInv vm conv s tables

/-- Without files there is nothing to show. -/
theorem start_sound (vm : VmObject V) (conv : Convention) (ram : Ram) :
    PagesSound vm conv { ram with } := by
  refine ⟨fun _ _ => none, ?_, ⟨?_, ?_⟩, fun _ _ _ => rfl⟩
  · intro i node hi
    cases hi
  · intro i k j l p hp
    cases hp
  · intro i k p hp
    cases hp

/-- One call: sound again, and the bytes are the old ones with what was written on top.
-/
theorem PagesSound.step (hlaw : vm.Lawful conv) {s s' : Files V} (h : PagesSound vm conv s)
    {op : FileOp} (hok : WellPlaced vm conv s op) (hstep : fileStep vm s op = some s') :
    PagesSound vm conv s' ∧ ∀ i p, s'.byteAt vm i p =
      ringBlit (2 ^ 64) (s.byteAt vm i) (put vm s i op).1 (put vm s i op).2 p := by
  rcases h with ⟨tables, h⟩
  rcases h.step hlaw hok hstep with ⟨tables', h', hbytes⟩
  refine ⟨⟨tables', h'⟩, ?_⟩
  intro i p
  have hold : s.byteAt vm i = fileBytes s.mem (tables i) := funext (h.byteAt_eq i)
  rw [h'.byteAt_eq, hbytes, hold]

/-- A call of `Write` on the bytes and the sizes of all files. -/
theorem PagesSound.write (hlaw : vm.Lawful conv) {s s' : Files V} (hs : PagesSound vm conv s)
    {i : Nat} {src : List UInt8} {offset : Nat} {pages : List (Option Nat)}
    (hoffset : offset < 2 ^ 64) (hlen : src.length < 2 ^ 64) (hfresh : Fresh s.used pages)
    (hok : WellPlaced vm conv s (.write i src offset pages)) {result : Except Int Nat}
    (hwrite : s.write vm i src offset pages = some (result, s')) :
    ∃ node node', s.nodes[i]? = some node ∧ s'.nodes = s.nodes.set i node' ∧
      PagesSound vm conv s' ∧
      (∀ j, s'.byteAt vm j = if j = i then
        ringBlit (2 ^ 64) (s.byteAt vm i) offset (storedBytes vm node src offset pages)
        else s.byteAt vm j) ∧
      (result = .ok src.length ∧ node'.size = grownSize node.size src.length offset ∧
          storedBytes vm node src offset pages = src ∨
        result = .error (-ENOMEM) ∧ node'.size = node.size ∧
          (storedBytes vm node src offset pages).length < src.length) := by
  rcases hs with ⟨tables, hinv⟩
  rcases hinv.write hlaw hoffset hlen hfresh hok hwrite with
    ⟨node, node', tables', hnode, hnodes, hinv', hstored, hresult⟩
  refine ⟨node, node', hnode, hnodes, ⟨tables', hinv'⟩, ?_, hresult⟩
  intro j
  -- bytes are those of the page tables, before and after
  rw [funext (hinv'.byteAt_eq j), funext (hinv.byteAt_eq j), funext (hinv.byteAt_eq i)]
  split
  · rename_i hji
    subst hji
    exact hstored.self
  · rename_i hji
    exact hstored.others j hji

/-- A run of calls, by induction. -/
theorem PagesSound.run (hlaw : vm.Lawful conv) {s s' : Files V} (h : PagesSound vm conv s)
    {ops : List FileOp} (hok : StepsMeet (fileStep vm) (WellPlaced vm conv) s ops)
    (hrun : Lib.run (fileStep vm) s ops = some s') : PagesSound vm conv s' := by
  have halways := always_of_stepsMeet (I := PagesSound vm conv)
    (fun s op s' hs hop hstep => (hs.step hlaw hop hstep).1) h hok
  exact always_iff_run.mp halways ops s' (List.prefix_refl _) hrun

/-! ## Read -/

/-- Position `j` of the buffer of `Read`: in the first turn the byte at the place
that the convention gives, then that of the offset. -/
def readPlace (conv : Convention) (offset j : Nat) : Nat :=
  if j < kPageSize - offset % kPageSize then
    offset - offset % kPageSize + conv.shift (offset % kPageSize) + j
  else usizeAdd offset j

/-- What `Read` returns. -/
theorem NodeInv.read_eq {node : RamFsNode V} {table : Nat → Option Nat}
    (h : NodeInv vm conv node table) (mem : Nat → UInt8) (size : Nat) {offset : Nat}
    (hoffset : offset < 2 ^ 64) :
    read vm mem node size offset = .ok
      (if offset < node.size then
        (readCount node.size size offset,
          (List.range (readCount node.size size offset)).map fun j =>
            fileBytes mem table (readPlace conv offset j))
      else (0, [])) := by
  rcases h.pages with ⟨vmo, hvmo, hmaps⟩
  unfold RamFs.read
  rw [if_neg (not_not_intro h.type), hvmo]
  split
  · rename_i hpast
    rw [if_neg (Nat.not_lt.mpr hpast)]
  · rename_i hin
    rw [if_pos (Nat.not_le.mp hin)]
    dsimp only
    rw [readLoop_start_ring hmaps hoffset]
    generalize readCount node.size size offset = count
    congr 2
    -- the first turn and the rest
    apply List.ext_getElem
    · simp only [List.length_append, slice_length, ringSlice_length, List.length_map,
        List.length_range]
      omega
    · intro j hj hj'
      rw [List.length_map, List.length_range] at hj'
      rw [List.getElem_map, List.getElem_range]
      unfold readPlace
      by_cases hfirst : j < kPageSize - offset % kPageSize
      · rw [if_pos hfirst, List.getElem_append_left (by rw [slice_length]; omega)]
        simp [slice]
      · rw [if_neg hfirst, List.getElem_append_right (by rw [slice_length]; omega)]
        simp only [ringSlice, List.getElem_map, List.getElem_range, slice_length]
        unfold usizeAdd
        congr 2
        omega

/-- A read from the start of a page gets the bytes at the offsets. -/
theorem readPlace_aligned (conv : Convention) {offset : Nat} (haligned : offset % kPageSize = 0)
    (hoffset : offset < 2 ^ 64) {j : Nat} (hj : j < kPageSize) :
    readPlace conv offset j = offset + j := by
  unfold readPlace
  rw [haligned, if_pos (by omega), conv.shift_zero]
  omega

/-- Where `Lookup` adds the offset into the page, each byte is from its place. -/
theorem readPlace_straight {offset : Nat} (hoffset : offset < 2 ^ 64) (j : Nat) :
    readPlace .basePlusOffset offset j = usizeAdd offset j := by
  have hmod : offset % kPageSize ≤ offset := Nat.mod_le _ _
  have hlt : offset % kPageSize < kPageSize := Nat.mod_lt _ kPageSize_pos
  unfold readPlace Convention.shift
  dsimp only
  split
  · rename_i hj
    have hpage : offset + j < 2 ^ 64 := by
      unfold kPageSize at hj
      omega
    rw [usizeAdd_eq hpage, Nat.sub_add_cancel hmod]
  · rfl

/-! ## One empty file -/

/-- The state with one empty file. -/
def oneFile (conv : Convention) : Files (List VmPage) :=
  { zeroRam with nodes := [newNode (pageList conv) .regular] }

/-- The first step of the example. -/
theorem oneFile_run (conv : Convention) :
    run (fileStep (pageList conv)) { zeroRam with } [.create] = some (oneFile conv) := rfl

end Ceryx.Fs.RamFs
