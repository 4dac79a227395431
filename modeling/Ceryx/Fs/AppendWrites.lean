import Ceryx.Fs.OpenCreat

/-!
# Ceryx.Fs.AppendWrites — writing to a file opened with O_APPEND

`sys_open` puts the offset of the new description at the end of the file; from
there on `FileDescription::Read` and `Write` advance it like any other. Which
process and which descriptor a call comes through does not matter.

* `fileContent`: what `Read` returns for the whole file.
* `AtEnd`: what a write must meet, the offset being the file's size.
* `appended_iff_atEnd`: a run of appends leaves the old content and the buffers
  in the order of the calls if and only if each write meets `AtEnd`.
* `second_append_overwrites`: two descriptions, opened before the first write.
-/

namespace Ceryx.Fs.RamFs

open Lib Vfs

/-- A `FileDescription` of a regular file, by the number of its vnode. -/
structure OpenFile where
  vnode : Nat
  offset : Nat
  flags : BitVec 32
deriving DecidableEq, Repr

/-- The regular files and their descriptions, by the order of construction. -/
structure OpenFiles (V : Type) extends Files V where
  descs : List OpenFile := []

namespace OpenFiles

variable {V : Type} (vm : VmObject V)

/-- `fd_desc` and its `vnode`. -/
def target (s : OpenFiles V) (d : Nat) : Option (OpenFile × RamFsNode V) :=
  s.descs[d]?.bind fun desc => s.nodes[desc.vnode]?.map fun node => (desc, node)

/-- `offset += result.Value()`. -/
def advance (s : OpenFiles V) (d : Nat) (desc : OpenFile) (n : Nat) : OpenFiles V :=
  { s with descs := s.descs.set d { desc with offset := usizeAdd desc.offset n } }

/-- `sys_open` of a path that resolves to file `i`, with a free descriptor. -/
def sysOpen (s : OpenFiles V) (i : Nat) (flags : BitVec 32) : Option (OpenFiles V) :=
  s.nodes[i]?.map fun node =>
    let node := if flags &&& O_TRUNC ≠ 0 then { node with size := 0 } else node
    let offset := if flags &&& O_APPEND ≠ 0 then node.size else 0
    { s with
      nodes := s.nodes.set i node
      descs := s.descs ++ [{ vnode := i, offset := offset, flags := flags }] }

/-- `FileDescription::Read`. -/
def read (s : OpenFiles V) (d : Nat) (size : Nat) : Option (OpenFiles V) :=
  (s.target d).map fun (desc, node) =>
    match RamFs.read vm s.mem node size desc.offset with
    | .ok (n, _) => s.advance d desc n
    | .error _ => s

/-- `FileDescription::Write` that succeeds, with the results of
`AllocatePage`. -/
def write (s : OpenFiles V) (d : Nat) (src : List UInt8) (pages : List (Option Nat)) :
    Option (OpenFiles V) :=
  (s.target d).bind fun (desc, node) =>
    if Fresh s.used pages then
      match RamFs.write vm s.toRam node src desc.offset pages with
      | (.ok n, node, ram) =>
          some ({ s with toRam := ram, nodes := s.nodes.set desc.vnode node }.advance d desc n)
      | (.error _, _) => none
    else none

end OpenFiles

/-- `other`: the rest of the kernel writes to a frame that no file has. -/
inductive OpenOp where
  | openFile (i : Nat) (flags : BitVec 32)
  | read (d size : Nat)
  | write (d : Nat) (src : List UInt8) (pages : List (Option Nat))
  | other (a : Nat) (byte : UInt8)

section
variable {V : Type} (vm : VmObject V)

def openStep (s : OpenFiles V) : OpenOp → Option (OpenFiles V)
  | .openFile i flags => s.sysOpen i flags
  | .read d size => s.read vm d size
  | .write d src pages => s.write vm d src pages
  | .other a byte => if a / kPageSize ∈ s.used then none else some { s with mem := blit s.mem a [byte] }

/-- What `Read` returns for the whole of file `i`. -/
def fileContent (s : Files V) (i : Nat) : List UInt8 :=
  match s.nodes[i]?.map fun node => RamFs.read vm s.mem node node.size 0 with
  | some (.ok (_, bytes)) => bytes
  | _ => []

end

/-! ## Appending -/

/-- The buffer of a write. -/
def OpenOp.buffer : OpenOp → List UInt8
  | .write _ src _ => src
  | _ => []

/-- The buffers in the order of the calls. -/
def appended (ops : List OpenOp) : List UInt8 := ops.flatMap OpenOp.buffer

/-- All that is opened is file `i`, with `O_APPEND`, and nothing is truncated. -/
def Appends (i : Nat) : OpenOp → Prop
  | .openFile j flags => j = i ∧ flags &&& O_APPEND ≠ 0 ∧ flags &&& O_TRUNC = 0
  | _ => True

variable {V : Type} {vm : VmObject V} {conv : Convention}

/-- A write of a byte or more starts at the end of the file, and its end has an
offset. -/
def AtEnd (s : OpenFiles V) : OpenOp → Prop
  | .write d src _ => ∀ desc node, s.target d = some (desc, node) →
      src = [] ∨ (desc.offset = node.size ∧ node.size + src.length < 2 ^ 64)
  | _ => True

/-- A write is stored in the right place (`WriteOk`). -/
def Placed (vm : VmObject V) (conv : Convention) (s : OpenFiles V) : OpenOp → Prop
  | .write d src pages => ∀ desc node, s.target d = some (desc, node) →
      WriteOk vm conv s.toFiles (.write desc.vnode src desc.offset pages)
  | _ => True

/-! ## How long the file gets -/

/-- File `i` is there, and all descriptions are at some place of it. -/
structure Sized (i : Nat) (s : OpenFiles V) (node : RamFsNode V) : Prop where
  file : s.nodes[i]? = some node
  type : node.type = .regular
  pages : ∃ vmo, node.vmo = some vmo
  bound : node.size < 2 ^ 64
  descs : ∀ desc ∈ s.descs, desc.vnode = i ∧ desc.offset ≤ node.size

theorem Sized.target {i : Nat} {s : OpenFiles V} {node : RamFsNode V} (h : Sized i s node)
    {d : Nat} {x : OpenFile × RamFsNode V} (hx : s.target d = some x) :
    x.1 ∈ s.descs ∧ x.1.vnode = i ∧ x.1.offset ≤ node.size ∧ x.2 = node := by
  rcases Option.bind_eq_some_iff.mp hx with ⟨desc, hdesc, hmap⟩
  rcases Option.map_eq_some_iff.mp hmap with ⟨node', hnode', rfl⟩
  have hmem := List.mem_of_getElem? hdesc
  obtain ⟨hvnode, hoffset⟩ := h.descs desc hmem
  rw [hvnode, h.file] at hnode'
  exact ⟨hmem, hvnode, hoffset, (Option.some.inj hnode').symm⟩

/-- Another offset in the file. -/
theorem Sized.advance {i : Nat} {s : OpenFiles V} {node : RamFsNode V} (h : Sized i s node)
    (d : Nat) {desc : OpenFile} (hvnode : desc.vnode = i) {n : Nat}
    (hn : usizeAdd desc.offset n ≤ node.size) : Sized i (s.advance d desc n) node where
  file := h.file
  type := h.type
  pages := h.pages
  bound := h.bound
  descs x hx := by
    rcases List.mem_or_eq_of_mem_set hx with hold | rfl
    · exact h.descs x hold
    · exact ⟨hvnode, hn⟩

/-- `Read` does not leave the file. -/
theorem read_inside {mem : Nat → UInt8} {node : RamFsNode V} {size offset n : Nat}
    {bytes : List UInt8} (hbound : node.size < 2 ^ 64) (hoffset : offset ≤ node.size)
    (hread : RamFs.read vm mem node size offset = .ok (n, bytes)) :
    usizeAdd offset n ≤ node.size := by
  have hhere : usizeAdd offset 0 ≤ node.size := by
    rw [usizeAdd_eq (by omega)]
    exact hoffset
  unfold RamFs.read at hread
  split at hread
  · cases hread
  · split at hread
    · cases hread
      exact hhere
    · rename_i hin
      split at hread
      · cases hread
        exact hhere
      · rename_i vmo _
        have hcount := @readLoop_count V vm vmo mem offset (readCount node.size size offset)
          (readCount node.size size offset) 0 [] (Nat.zero_le _) (Nat.le_refl _)
        have hn := congrArg Prod.fst (Except.ok.inj hread)
        rw [hcount] at hn
        dsimp only at hn
        rw [← hn]
        unfold readCount
        split
        · -- cut off at the end of the file
          rw [Nat.not_le] at hin
          rw [usizeAdd_eq (by omega)]
          omega
        · rename_i hle
          exact Nat.not_lt.mp hle

/-- What `Write` does besides the bytes. -/
theorem write_grows {ram ram' : Ram} {node node' : RamFsNode V} {src : List UInt8}
    {offset n : Nat} {pages : List (Option Nat)}
    (hwrite : RamFs.write vm ram node src offset pages = (.ok n, node', ram')) :
    n = src.length ∧ node'.type = node.type ∧ (∃ vmo, node'.vmo = some vmo) ∧
      node'.size = grownSize node.size src.length offset := by
  unfold RamFs.write at hwrite
  split at hwrite
  · cases hwrite
  · split at hwrite
    · cases hwrite
    · split at hwrite
      · cases hwrite
      · rename_i hloop
        cases hwrite
        exact ⟨writeLoop_all hloop, rfl, ⟨_, rfl⟩, rfl⟩

/-- A write inside the file makes it longer by its size at most, and by its size
if it starts at the end. -/
theorem grownSize_le {nodeSize offset : Nat} (hbound : nodeSize < 2 ^ 64)
    (hoffset : offset ≤ nodeSize) (size : Nat) :
    usizeAdd offset size ≤ grownSize nodeSize size offset ∧
      grownSize nodeSize size offset < 2 ^ 64 ∧
      nodeSize ≤ grownSize nodeSize size offset ∧
      grownSize nodeSize size offset ≤ nodeSize + size ∧
      (grownSize nodeSize size offset = nodeSize + size ↔
        size = 0 ∨ (offset = nodeSize ∧ nodeSize + size < 2 ^ 64)) := by
  unfold grownSize usizeAdd
  split <;> omega

theorem Sized.openFile {i : Nat} {s s' : OpenFiles V} {node : RamFsNode V} (h : Sized i s node)
    {flags : BitVec 32} (htrunc : flags &&& O_TRUNC = 0) (hstep : s.sysOpen i flags = some s') :
    Sized i s' node ∧ s'.toRam = s.toRam ∧ s'.nodes[i]? = some node := by
  rcases List.getElem?_eq_some_iff.mp h.file with ⟨hi, -⟩
  unfold OpenFiles.sysOpen at hstep
  rw [h.file, Option.map_some, if_neg (not_not_intro htrunc)] at hstep
  cases hstep
  have hfile : (s.nodes.set i node)[i]? = some node := List.getElem?_set_self hi
  refine ⟨⟨hfile, h.type, h.pages, h.bound, ?_⟩, rfl, hfile⟩
  intro desc hdesc
  rcases List.mem_append.mp hdesc with hold | hnew
  · exact h.descs desc hold
  · -- a new description is on the same vnode, at 0 or at its end
    rw [List.mem_singleton.mp hnew]
    refine ⟨rfl, ?_⟩
    dsimp only
    split
    · exact Nat.le_refl _
    · exact Nat.zero_le _

theorem Sized.read {i : Nat} {s s' : OpenFiles V} {node : RamFsNode V} (h : Sized i s node)
    {d size : Nat} (hstep : s.read vm d size = some s') :
    Sized i s' node ∧ s'.toFiles = s.toFiles := by
  rcases Option.map_eq_some_iff.mp hstep with ⟨⟨desc, node'⟩, htarget, heq⟩
  obtain ⟨-, hvnode, hoffset, rfl⟩ := h.target htarget
  dsimp only at heq
  split at heq
  · rename_i n bytes hread
    subst heq
    exact ⟨h.advance d hvnode (read_inside h.bound hoffset hread), rfl⟩
  · subst heq
    exact ⟨h, rfl⟩

/-- A write, on the file and on its length. -/
theorem Sized.write {i : Nat} {s s' : OpenFiles V} {node : RamFsNode V} (h : Sized i s node)
    {d : Nat} {src : List UInt8} {pages : List (Option Nat)}
    (hstep : s.write vm d src pages = some s') :
    ∃ desc n node' ram, s.target d = some (desc, node) ∧ desc.vnode = i ∧
      desc.offset ≤ node.size ∧ Fresh s.used pages ∧
      RamFs.write vm s.toRam node src desc.offset pages = (.ok n, node', ram) ∧
      s'.toFiles = { ram with nodes := s.nodes.set i node' } ∧ Sized i s' node' := by
  rcases List.getElem?_eq_some_iff.mp h.file with ⟨hi, -⟩
  rcases Option.bind_eq_some_iff.mp hstep with ⟨⟨desc, node₁⟩, htarget, hbind⟩
  obtain ⟨-, hvnode, hoffset, rfl⟩ := h.target htarget
  dsimp only at hbind
  split at hbind
  · rename_i hfresh
    split at hbind
    · -- the write succeeds, and the description moves on to its end
      rename_i n node' ram hwrite
      cases hbind
      obtain ⟨hn, htype, hpages, hsize⟩ := write_grows hwrite
      obtain ⟨hend, hbound, hle, -, -⟩ := grownSize_le h.bound hoffset src.length
      rw [← hsize] at hend hbound hle
      refine ⟨desc, n, node', ram, htarget, hvnode, hoffset, hfresh, hwrite, ?_, ?_⟩
      · rw [hvnode]
        rfl
      · have hgrown : Sized i { s with toRam := ram, nodes := s.nodes.set desc.vnode node' } node' := by
          refine ⟨?_, htype.trans h.type, hpages, hbound, ?_⟩
          · rw [hvnode]
            exact List.getElem?_set_self hi
          · intro x hx
            obtain ⟨hx, hxsize⟩ := h.descs x hx
            exact ⟨hx, Nat.le_trans hxsize hle⟩
        rw [← hn] at hend
        exact hgrown.advance d hvnode hend
    · cases hbind
  · cases hbind

/-- The file gets longer by at most what is written, and by that much if and only
if the write is at the end. -/
theorem Sized.step {i : Nat} {s s' : OpenFiles V} {node : RamFsNode V} (h : Sized i s node)
    {op : OpenOp} (hop : Appends i op) (hstep : openStep vm s op = some s') :
    ∃ node', Sized i s' node' ∧ node'.size ≤ node.size + op.buffer.length ∧
      (node'.size = node.size + op.buffer.length ↔ AtEnd s op) := by
  cases op with
  | openFile j flags =>
      obtain ⟨rfl, -, htrunc⟩ := hop
      obtain ⟨hnew, -, -⟩ := h.openFile htrunc hstep
      exact ⟨node, hnew, Nat.le_refl _, iff_of_true rfl trivial⟩
  | read d size =>
      obtain ⟨hnew, -⟩ := h.read hstep
      exact ⟨node, hnew, Nat.le_refl _, iff_of_true rfl trivial⟩
  -- the size grows by the buffer exactly when the description stands at the end
  | write d src pages =>
      rcases h.write hstep with
        ⟨desc, n, node', ram, htarget, -, hoffset, -, hwrite, -, hnew⟩
      obtain ⟨-, -, -, hle, hexact⟩ := grownSize_le h.bound hoffset src.length
      rw [← (write_grows hwrite).2.2.2] at hle hexact
      refine ⟨node', hnew, hle, hexact.trans ?_⟩
      rw [List.length_eq_zero_iff]
      constructor
      · intro hend desc' node'' htarget'
        cases htarget.symm.trans htarget'
        exact hend
      · intro hend
        exact hend desc node htarget
  | other a byte =>
      unfold openStep at hstep
      dsimp only at hstep
      split at hstep
      · cases hstep
      · cases hstep
        exact ⟨node, ⟨h.file, h.type, h.pages, h.bound, h.descs⟩, Nat.le_refl _, iff_of_true rfl trivial⟩

theorem Sized.run {i : Nat} {s s' : OpenFiles V} {node : RamFsNode V} {ops : List OpenOp}
    (h : Sized i s node) (hops : ∀ op ∈ ops, Appends i op)
    (hrun : Lib.run (openStep vm) s ops = some s') :
    ∃ node', Sized i s' node' ∧ node'.size ≤ node.size + (appended ops).length ∧
      (node'.size = node.size + (appended ops).length ↔
        StepsMeet (openStep vm) AtEnd s ops) := by
  induction ops generalizing s node with
  | nil =>
      cases hrun
      exact ⟨node, h, Nat.le_refl _, iff_of_true rfl trivial⟩
  | cons op ops ih =>
      rcases Option.bind_eq_some_iff.mp hrun with ⟨s₁, hstep, hrest⟩
      rcases h.step (hops op List.mem_cons_self) hstep with ⟨node₁, h₁, hle₁, hiff₁⟩
      rcases ih h₁ (fun x hx => hops x (List.mem_cons_of_mem op hx)) hrest with
        ⟨node', h', hle', hiff'⟩
      have hlen : (appended (op :: ops)).length = op.buffer.length + (appended ops).length := by
        rw [appended, List.flatMap_cons, List.length_append]
        rfl
      rw [hlen]
      refine ⟨node', h', by omega, ?_⟩
      -- both lengths must be reached
      have hboth : node'.size = node.size + (op.buffer.length + (appended ops).length) ↔
          node₁.size = node.size + op.buffer.length ∧
            node'.size = node₁.size + (appended ops).length := by
        omega
      rw [hboth, hiff₁, hiff']
      constructor
      · rintro ⟨hop, hrest'⟩ s₂ hs₂
        cases hstep.symm.trans hs₂
        exact ⟨hop, hrest'⟩
      · intro hall
        exact hall s₁ hstep

/-! ## What the file holds -/

/-- File `i` holds the bytes `xs`. -/
def Holding (vm : VmObject V) (conv : Convention) (i : Nat) (s : Files V) (xs : List UInt8) : Prop :=
  ∃ node f tables, s.nodes[i]? = some node ∧ Holds vm conv s.mem (tables i) node f ∧
    Frames tables s.used ∧ f.whole = xs

/-- `Read` from offset 0 on gets the bytes that the file holds. -/
theorem Holding.fileContent {i : Nat} {s : Files V} {xs : List UInt8}
    (h : Holding vm conv i s xs) : fileContent vm s i = xs := by
  rcases h with ⟨node, f, tables, hnode, hold, -, hwhole⟩
  unfold RamFs.fileContent
  rw [hnode, Option.map_some, hold.size, hold.read_all]
  exact hwhole

/-- Its length is the size, whatever the bytes are. -/
theorem Sized.length_fileContent {i : Nat} {s : OpenFiles V} {node : RamFsNode V}
    (h : Sized i s node) : (fileContent vm s.toFiles i).length = node.size := by
  rcases h.pages with ⟨vmo, hvmo⟩
  unfold RamFs.fileContent RamFs.read
  rw [h.file, Option.map_some, if_neg (not_not_intro h.type), hvmo]
  by_cases hempty : node.size ≤ 0
  · rw [if_pos hempty, Nat.le_zero.mp hempty]
    rfl
  · have hcount : readCount node.size node.size 0 = node.size := by
      have hbound := h.bound
      unfold readCount
      rw [usizeAdd_eq (by omega), Nat.zero_add, if_neg (Nat.lt_irrefl _)]
    rw [if_neg hempty, hcount]
    dsimp only
    rw [readLoop_length _ _ _ _ _ [] (Nat.zero_le _) (Nat.sub_le _ _), List.length_nil,
      Nat.zero_add, Nat.sub_zero]

/-- A write at the end, and everything else, appends what it writes. -/
theorem Holding.step {i : Nat} {s s' : OpenFiles V} {node : RamFsNode V} {xs : List UInt8}
    {op : OpenOp} (hlaw : vm.Lawful conv) (hsized : Sized i s node)
    (h : Holding vm conv i s.toFiles xs) (hop : Appends i op) (hend : AtEnd s op)
    (hplaced : Placed vm conv s op) (hstep : openStep vm s op = some s') :
    Holding vm conv i s'.toFiles (xs ++ op.buffer) := by
  rcases h with ⟨node₁, f, tables, hnode, hold, hframes, hwhole⟩
  have hsame : node = node₁ := Option.some.inj (hsized.file.symm.trans hnode)
  subst hsame
  cases op with
  | openFile j flags =>
      obtain ⟨rfl, -, htrunc⟩ := hop
      obtain ⟨-, hram, hfile⟩ := hsized.openFile htrunc hstep
      refine ⟨node, f, tables, hfile, ?_, ?_, ?_⟩
      · rw [hram]
        exact hold
      · rw [hram]
        exact hframes
      · rw [hwhole]
        exact (List.append_nil xs).symm
  | read d size =>
      obtain ⟨-, hfiles⟩ := hsized.read hstep
      rw [hfiles]
      refine ⟨node, f, tables, hnode, hold, hframes, ?_⟩
      rw [hwhole]
      exact (List.append_nil xs).symm
  | write d src pages =>
      rcases hsized.write hstep with
        ⟨desc, n, node', ram, htarget, hvnode, hoffset, hfresh, hwrite, hfiles, hsized'⟩
      -- it writes at the end of the file, or writes nothing
      have hplace : f.size = desc.offset ∨ src = [] ∧ desc.offset ≤ f.size := by
        rw [← hold.size]
        rcases hend desc node htarget with hnil | ⟨heq, -⟩
        · exact .inr ⟨hnil, hoffset⟩
        · exact .inl heq.symm
      have hbound : desc.offset + src.length < 2 ^ 64 := by
        rcases hend desc node htarget with rfl | ⟨heq, hlt⟩
        · exact Nat.lt_of_le_of_lt hoffset hsized.bound
        · rw [heq]
          exact hlt
      have hok : conv = .base ∨ desc.offset % kPageSize = 0 ∨ src = [] ∨
          (node.vmo.bind fun vmo => vm.lookup vmo desc.offset) = none := by
        have hwrite := hplaced desc node htarget
        unfold WriteOk at hwrite
        dsimp only at hwrite
        rw [hvnode, hnode, Option.bind_some] at hwrite
        exact hwrite
      rcases write_spec hlaw hold hframes hbound hfresh hok hwrite with
        ⟨tables', -, hframes', hold', -⟩
      rw [hfiles]
      refine ⟨node', f.write desc.offset src, tables', ?_, hold', hframes', ?_⟩
      · rw [← hfiles]
        exact hsized'.file
      · rw [SparseFile.whole_write, hwhole]
        · rfl
        · rcases hplace with heq | ⟨hnil, hle⟩
          · exact .inr heq.symm
          · exact .inl ⟨hle, hnil⟩
  | other a byte =>
      unfold openStep at hstep
      dsimp only at hstep
      split at hstep
      · cases hstep
      · rename_i hout
        cases hstep
        refine ⟨node, f, tables, hnode, ?_, hframes, ?_⟩
        · refine ⟨hold.type, hold.size, hold.bound, hold.pages, ?_⟩
          rw [← hold.bytes]
          exact hframes.content_outside hout kPageSize_pos i
        · rw [hwhole]
          exact (List.append_nil xs).symm

theorem Holding.run {i : Nat} {s s' : OpenFiles V} {node : RamFsNode V} {xs : List UInt8}
    {ops : List OpenOp} (hlaw : vm.Lawful conv) (hsized : Sized i s node)
    (h : Holding vm conv i s.toFiles xs) (hops : ∀ op ∈ ops, Appends i op)
    (hend : StepsMeet (openStep vm) AtEnd s ops)
    (hplaced : StepsMeet (openStep vm) (Placed vm conv) s ops)
    (hrun : Lib.run (openStep vm) s ops = some s') :
    Holding vm conv i s'.toFiles (xs ++ appended ops) := by
  induction ops generalizing s node xs with
  | nil =>
      cases hrun
      rw [appended, List.flatMap_nil, List.append_nil]
      exact h
  -- the file holds what was appended so far, and the induction hypothesis adds the rest
  | cons op ops ih =>
      rcases Option.bind_eq_some_iff.mp hrun with ⟨s₁, hstep, hrest⟩
      have happends := hops op List.mem_cons_self
      obtain ⟨hend₁, hendRest⟩ := hend s₁ hstep
      obtain ⟨hplaced₁, hplacedRest⟩ := hplaced s₁ hstep
      rcases hsized.step happends hstep with ⟨node₁, hsized₁, -⟩
      have h₁ := h.step hlaw hsized happends hend₁ hplaced₁ hstep
      have hlast := ih hsized₁ h₁ (fun x hx => hops x (List.mem_cons_of_mem op hx)) hendRest
        hplacedRest hrest
      rw [List.append_assoc] at hlast
      exact hlast

/-! ## Runs -/

/-- From files written in the right places, and with writes stored in the right
places: appends leave the old content and their buffers in order if and only if
each of them was at the end. -/
theorem appended_iff_atEnd (hlaw : vm.Lawful conv) {ram : Ram} {before : List RamOp} {s : Files V}
    (hbefore : Lib.run (ramStep vm) { ram with } before = some s)
    (hwritten : StepsMeet (ramStep vm) (WriteOk vm conv) { ram with } before)
    {i : Nat} (hi : i < s.nodes.length) {ops : List OpenOp} {s' : OpenFiles V}
    (hops : ∀ op ∈ ops, Appends i op)
    (hplaced : StepsMeet (openStep vm) (Placed vm conv) { s with descs := [] } ops)
    (hrun : Lib.run (openStep vm) { s with descs := [] } ops = some s') :
    fileContent vm s'.toFiles i = fileContent vm s i ++ appended ops ↔
      StepsMeet (openStep vm) AtEnd { s with descs := [] } ops := by
  rcases (start_refines vm conv ram).run hlaw before hwritten hbefore with ⟨tables, href⟩
  have hnode : s.nodes[i]? = some s.nodes[i] := List.getElem?_eq_getElem hi
  generalize s.nodes[i] = node at hnode
  have hi' : i < (before.foldl specStep []).length := href.length ▸ hi
  have hold := href.holds i node _ hnode (List.getElem?_eq_getElem hi')
  have hsized : Sized i { s with descs := [] } node := by
    refine ⟨hnode, hold.type, ?_, ?_, ?_⟩
    · rcases hold.pages with ⟨vmo, hvmo, -⟩
      exact ⟨vmo, hvmo⟩
    · rw [hold.size]
      exact hold.bound
    · intro desc hdesc
      cases hdesc
  rcases hsized.run hops hrun with ⟨node', hsized', -, hexact⟩
  constructor
  · -- the lengths decide
    intro hcontent
    apply hexact.mp
    have hlength := congrArg List.length hcontent
    rw [hsized'.length_fileContent, List.length_append] at hlength
    rw [hlength]
    exact congrArg (· + (appended ops).length) hsized.length_fileContent
  · intro hend
    have hstart : Holding vm conv i s _ := ⟨node, _, tables, hnode, hold, href.frames, rfl⟩
    have hlast := Holding.run (s := { s with descs := [] }) hlaw hsized hstart hops hend hplaced
      hrun
    rw [hlast.fileContent, hstart.fileContent]

/-! ## Two descriptions -/

/-- An empty file. -/
def emptyFile (conv : Convention) : Option (Files (List VmPage)) :=
  Lib.run (ramStep (pageList conv)) { zeroRam with } [.create]

/-- Both are opened before the first write. -/
def openedTogether : List OpenOp :=
  [.openFile 0 O_APPEND, .openFile 0 O_APPEND, .write 0 [1] [some 1], .write 1 [2] []]

/-- The second is opened after the first write. -/
def openedInTurn : List OpenOp :=
  [.openFile 0 O_APPEND, .write 0 [1] [some 1], .openFile 0 O_APPEND, .write 1 [2] []]

/-- What is in the empty file after these steps. -/
def contentAfter (conv : Convention) (s : Files (List VmPage)) (ops : List OpenOp) :
    Option (List UInt8) :=
  (Lib.run (openStep (pageList conv)) { s with descs := [] } ops).map fun s' =>
    fileContent (pageList conv) s'.toFiles 0

theorem writeOk_base (s : Files V) (op : RamOp) : WriteOk vm .base s op := by
  cases op with
  | create => trivial
  | write i src offset pages => exact .inl rfl
  | other a byte => trivial

theorem placed_base (s : OpenFiles V) (op : OpenOp) : Placed vm .base s op := by
  cases op with
  | openFile i flags => trivial
  | read d size => trivial
  | write d src pages => exact fun desc node _ => writeOk_base s.toFiles _
  | other a byte => trivial

/-- In turn, both buffers are there. -/
theorem in_turn_appended :
    ∃ s, emptyFile .base = some s ∧ contentAfter .base s openedInTurn = some [1, 2] ∧
      StepsMeet (openStep (pageList .base)) AtEnd { s with descs := [] } openedInTurn := by
  have hboth : ∃ s, emptyFile .base = some s ∧ (0 < s.nodes.length ∧
      fileContent (pageList .base) s 0 = [] ∧
      contentAfter .base s openedInTurn = some [1, 2]) := exists_start (by decide +kernel)
  rcases hboth with ⟨s, hstart, hlen, hempty, hafter⟩
  refine ⟨s, hstart, hafter, ?_⟩
  rcases Option.map_eq_some_iff.mp hafter with ⟨s', hrun, hcontent⟩
  have hops : ∀ op ∈ openedInTurn, Appends 0 op := by
    simp [openedInTurn, Appends, O_APPEND, O_TRUNC]
  refine (appended_iff_atEnd (pageList_lawful .base) hstart (stepsMeet_of_forall writeOk_base _ _)
    hlen hops (stepsMeet_of_forall placed_base _ _) hrun).mp ?_
  rw [hcontent, hempty]
  rfl

/-- Opened together, the second write overwrites the first, with either
convention of `Lookup`. -/
def Overwritten (conv : Convention) : Prop :=
  ∃ s, emptyFile conv = some s ∧ (∀ op ∈ openedTogether, Appends 0 op) ∧
    contentAfter conv s openedTogether = some [2] ∧
    fileContent (pageList conv) s 0 ++ appended openedTogether = [1, 2]

/-- Opened twice with O_APPEND, the second write lands on the first. -/
theorem second_append_overwrites : Overwritten .base ∧ Overwritten .basePlusOffset := by
  have hops : ∀ op ∈ openedTogether, Appends 0 op := by
    simp [openedTogether, Appends, O_APPEND, O_TRUNC]
  constructor
  · rcases exists_start (o := emptyFile .base)
      (P := fun s => contentAfter .base s openedTogether = some [2] ∧
        fileContent (pageList .base) s 0 ++ appended openedTogether = [1, 2])
      (by decide +kernel) with ⟨s, hstart, hafter, hlaw⟩
    exact ⟨s, hstart, hops, hafter, hlaw⟩
  · rcases exists_start (o := emptyFile .basePlusOffset)
      (P := fun s => contentAfter .basePlusOffset s openedTogether = some [2] ∧
        fileContent (pageList .basePlusOffset) s 0 ++ appended openedTogether = [1, 2])
      (by decide +kernel) with ⟨s, hstart, hafter, hlaw⟩
    exact ⟨s, hstart, hops, hafter, hlaw⟩

end Ceryx.Fs.RamFs
