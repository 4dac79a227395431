import Ceryx.Fs.RamFsLoops

/-!
# Ceryx.Fs.RamFsRefine — regular files as sparse byte arrays

`Read` passes what `Lookup` returns to the copy, `Write` adds the offset into
the page to it. So no convention of `Lookup` suits both.

* `Refines`: the invariant. By tables of pages (`Ceryx.Lib.Frames`), the files
  in memory hold what `contents` says.
* `WriteOk`: what a `Write` must meet to keep it. With `base` this is nothing;
  with `basePlusOffset` a write that starts inside a page must not find the
  page resident.
* `ReadOk`: what a `Read` must meet. With `basePlusOffset` only that
  `offset + size` does not wrap to the inside of the file; with `base` also that
  the bytes at the start of its first page are those at the offset.
* `readRight_iff`: after writes that meet `WriteOk`, a read is right if and only
  if it meets `ReadOk`. `not_ramFsLaw`: the law fails with both conventions.
-/

namespace Ceryx.Fs.RamFs

open Lib

variable {V : Type} {vm : VmObject V} {conv : Convention}

/-! ## The conditions -/

def WriteOk (vm : VmObject V) (conv : Convention) (s : Files V) : RamOp → Prop
  | .create => True
  | .write i src offset _ =>
      conv = .base ∨ offset % kPageSize = 0 ∨ src = [] ∨
        ((s.nodes[i]?.bind RamFsNode.vmo).bind fun vmo => vm.lookup vmo offset) = none
  | .other _ _ => True

instance (vm : VmObject V) (conv : Convention) (s : Files V) (op : RamOp) :
    Decidable (WriteOk vm conv s op) := by
  cases op <;> unfold WriteOk <;> infer_instance

/-- The sum `offset + size` does not wrap to the inside of the file. -/
def CountOk (f : SparseFile UInt8) (size offset : Nat) : Prop :=
  offset + size < 2 ^ 64 ∨ f.size < offset + size - 2 ^ 64

/-- The bytes that the first turn of `Read` takes are those at the offset. -/
def FirstPageOk (conv : Convention) (f : SparseFile UInt8) (size offset : Nat) : Prop :=
  ∀ j, j < min (f.count size offset) (kPageSize - offset % kPageSize) →
    f.get (offset - offset % kPageSize + conv.shift (offset % kPageSize) + j) = f.get (offset + j)

def ReadOk (conv : Convention) (f : SparseFile UInt8) (size offset : Nat) : Prop :=
  f.size ≤ offset ∨ (CountOk f size offset ∧ FirstPageOk conv f size offset)

/-! ## The invariant -/

/-- A node is the file `f`. -/
structure Holds (vm : VmObject V) (conv : Convention) (mem : Nat → UInt8)
    (table : Nat → Option Nat) (node : RamFsNode V) (f : SparseFile UInt8) : Prop where
  type : node.type = .regular
  size : node.size = f.size
  bound : f.size < 2 ^ 64
  pages : ∃ vmo, node.vmo = some vmo ∧ Maps vm conv vmo table
  bytes : fileBytes mem table = f.get

structure Refines (vm : VmObject V) (conv : Convention) (s : Files V)
    (fs : List (SparseFile UInt8)) (tables : Nat → Nat → Option Nat) : Prop where
  length : s.nodes.length = fs.length
  holds : ∀ i node f, s.nodes[i]? = some node → fs[i]? = some f →
    Holds vm conv s.mem (tables i) node f
  frames : Frames tables s.used
  /-- Files that are not there yet have no pages. -/
  absent : ∀ i k, s.nodes.length ≤ i → tables i k = none

/-! ## The machine -/

theorem Convention.shift_eq_zero {o : Nat} (h : conv = .base ∨ o % kPageSize = 0) :
    conv.shift (o % kPageSize) = 0 := by
  rcases h with rfl | haligned
  · rfl
  · rw [haligned]
    cases conv <;> rfl

/-- The first turn of `Write` is in the right place. -/
theorem start_placed {node : RamFsNode V} {vmo : V} (hvmo : node.vmo = some vmo)
    {src : List UInt8} {offset : Nat}
    (hok : conv = .base ∨ offset % kPageSize = 0 ∨ src = [] ∨
      (node.vmo.bind fun vmo => vm.lookup vmo offset) = none) :
    src ≠ [] → conv.shift (offset % kPageSize) = 0 ∨ vm.lookup vmo offset = none := by
  intro hne
  rcases hok with hbase | haligned | hnil | hnone
  · exact Or.inl (Convention.shift_eq_zero (Or.inl hbase))
  · exact Or.inl (Convention.shift_eq_zero (Or.inr haligned))
  · exact absurd hnil hne
  · right
    rw [hvmo] at hnone
    exact hnone

/-- A new file has an object without pages. -/
theorem holds_new (hlaw : vm.Lawful conv) (mem : Nat → UInt8) {table : Nat → Option Nat}
    (habsent : ∀ k, table k = none) :
    Holds vm conv mem table (newNode vm .regular) (SparseFile.empty 0) where
  type := rfl
  size := rfl
  bound := by decide
  pages := by
    refine ⟨vm.new, rfl, ?_⟩
    intro o
    rw [hlaw.lookup_new, habsent]
    rfl
  bytes := by
    funext o
    exact content_none (habsent _)

theorem Refines.create {s : Files V} {fs : List (SparseFile UInt8)}
    {tables : Nat → Nat → Option Nat} (hlaw : vm.Lawful conv) (h : Refines vm conv s fs tables) :
    Refines vm conv { s with nodes := s.nodes ++ [newNode vm .regular] }
      (fs ++ [SparseFile.empty 0]) tables where
  length := by
    rw [List.length_append, List.length_append, h.length]
    rfl
  holds i node f hnode hf := by
    dsimp only at hnode
    -- an old file, and the new one
    rcases Nat.lt_or_ge i s.nodes.length with hlt | hge
    · rw [List.getElem?_append_left hlt] at hnode
      rw [h.length] at hlt
      rw [List.getElem?_append_left hlt] at hf
      exact h.holds i node f hnode hf
    · have hfge : fs.length ≤ i := h.length ▸ hge
      rw [List.getElem?_append_right hge] at hnode
      rw [List.getElem?_append_right hfge] at hf
      rcases List.getElem?_eq_some_iff.mp hnode with ⟨hi, rfl⟩
      rcases List.getElem?_eq_some_iff.mp hf with ⟨hi', rfl⟩
      simp only [List.getElem_singleton]
      exact holds_new hlaw s.mem fun k => h.absent i k hge
  frames := h.frames
  absent i k hi := by
    rw [List.length_append] at hi
    exact h.absent i k (Nat.le_trans (Nat.le_add_right _ _) hi)

theorem grownSize_eq {nodeSize size offset : Nat} (h : offset + size < 2 ^ 64) :
    grownSize nodeSize size offset = max nodeSize (offset + size) := by
  unfold grownSize
  rw [usizeAdd_eq h]
  split <;> omega

theorem Holds.grown {mem mem' : Nat → UInt8} {tables tables' : Nat → Nat → Option Nat} {i : Nat}
    {node : RamFsNode V} {f : SparseFile UInt8} {src : List UInt8} {offset : Nat}
    (h : Holds vm conv mem (tables i) node f) (hbound : offset + src.length < 2 ^ 64)
    (hs : Stored i offset src mem mem' tables tables') {vmo : V}
    (hmaps : Maps vm conv vmo (tables' i)) :
    Holds vm conv mem' (tables' i)
      { node with vmo := some vmo, size := grownSize node.size src.length offset }
      (f.write offset src) where
  type := h.type
  size := by rw [grownSize_eq hbound, h.size, SparseFile.write]
  bound := Nat.max_lt.mpr ⟨h.bound, hbound⟩
  pages := ⟨vmo, rfl, hmaps⟩
  bytes := by
    rw [hs.self, h.bytes]
    rfl

/-- A file that a write does not go to. -/
theorem Holds.other {mem mem' : Nat → UInt8} {tables tables' : Nat → Nat → Option Nat} {i j p : Nat}
    {bytes : List UInt8} {node : RamFsNode V} {f : SparseFile UInt8}
    (h : Holds vm conv mem (tables j) node f) (hs : Stored i p bytes mem mem' tables tables')
    (hj : j ≠ i) : Holds vm conv mem' (tables' j) node f where
  type := h.type
  size := h.size
  bound := h.bound
  pages := by
    rw [hs.kept j hj]
    exact h.pages
  bytes := (hs.others j hj).trans h.bytes

/-- A `Write` to a file that goes through, into fresh frames. -/
theorem write_spec (hlaw : vm.Lawful conv) {ram ram' : Ram} {node node' : RamFsNode V}
    {tables : Nat → Nat → Option Nat} {i : Nat} {f : SparseFile UInt8} {src : List UInt8}
    {offset copied : Nat} {pages : List (Option Nat)}
    (hold : Holds vm conv ram.mem (tables i) node f) (hframes : Frames tables ram.used)
    (hbound : offset + src.length < 2 ^ 64) (hfresh : Fresh ram.used pages)
    (hok : conv = .base ∨ offset % kPageSize = 0 ∨ src = [] ∨
      (node.vmo.bind fun vmo => vm.lookup vmo offset) = none)
    (heq : write vm ram node src offset pages = (.ok copied, node', ram')) :
    ∃ tables', Stored i offset src ram.mem ram'.mem tables tables' ∧
      Frames tables' ram'.used ∧ Holds vm conv ram'.mem (tables' i) node' (f.write offset src) ∧
        node'.type = node.type := by
  rcases hold.pages with ⟨vmo, hvmo, hmaps⟩
  unfold RamFs.write at heq
  rw [if_neg (not_not_intro hold.type)] at heq
  simp only [hvmo] at heq
  -- the call is the loop, and it goes through
  split at heq
  · cases heq
  · rename_i total w' hloop
    cases heq
    have hstart := start_placed hvmo hok
    have hinv : WriteInv vm conv i { ram with vmo := vmo, pages := pages } tables :=
      ⟨hmaps, hframes, hfresh⟩
    rcases writeLoop_spec hlaw hbound hinv hstart hloop with ⟨tables', hinv', hstored⟩
    exact ⟨tables', hstored, hinv'.frames, hold.grown hbound hstored hinv'.maps, rfl⟩

theorem Refines.write {s s' : Files V} {fs : List (SparseFile UInt8)}
    {tables : Nat → Nat → Option Nat} (hlaw : vm.Lawful conv) (h : Refines vm conv s fs tables)
    {i : Nat} {src : List UInt8} {offset : Nat} {pages : List (Option Nat)}
    (hok : WriteOk vm conv s (.write i src offset pages))
    (hstep : ramStep vm s (.write i src offset pages) = some s') :
    ∃ tables', Refines vm conv s' (fs.modify i fun f => f.write offset src) tables' := by
  unfold ramStep at hstep
  dsimp only at hstep
  split at hstep
  · cases hstep
  · rename_i node hnode
    split at hstep
    · rename_i hguard
      rcases hguard with ⟨hbound, hfresh⟩
      rcases List.getElem?_eq_some_iff.mp hnode with ⟨hi, -⟩
      have hi' : i < fs.length := h.length ▸ hi
      have hf : fs[i]? = some fs[i] := List.getElem?_eq_getElem hi'
      generalize fs[i] = f at hf
      have hold := h.holds i node f hnode hf
      split at hstep
      · rename_i total node' ram hwrite
        cases hstep
        have hstart : conv = .base ∨ offset % kPageSize = 0 ∨ src = [] ∨
            (node.vmo.bind fun vmo => vm.lookup vmo offset) = none := by
          unfold WriteOk at hok
          dsimp only at hok
          rw [hnode, Option.bind_some] at hok
          exact hok
        rcases write_spec hlaw hold h.frames hbound hfresh hstart hwrite with
          ⟨tables', hstored, hframes, hnew, -⟩
        refine ⟨tables', ?_, ?_, hframes, ?_⟩
        · rw [List.length_set, List.length_modify, h.length]
        · intro j node'' f'' hnode'' hf''
          dsimp only at hnode''
          by_cases hj : j = i
          · subst hj
            rw [List.getElem?_set_self hi] at hnode''
            rw [List.getElem?_modify_eq, hf] at hf''
            cases hnode''
            cases hf''
            exact hnew
          · -- another file
            rw [List.getElem?_set_ne (Ne.symm hj)] at hnode''
            rw [List.getElem?_modify_ne _ _ (Ne.symm hj)] at hf''
            exact (h.holds j node'' f'' hnode'' hf'').other hstored hj
        · intro j k hj
          rw [List.length_set] at hj
          rw [hstored.kept j (Nat.ne_of_gt (Nat.lt_of_lt_of_le hi hj))]
          exact h.absent j k hj
      · cases hstep
    · cases hstep

theorem Refines.other {s : Files V} {fs : List (SparseFile UInt8)}
    {tables : Nat → Nat → Option Nat} (h : Refines vm conv s fs tables) {a : Nat} (byte : UInt8)
    (ha : a / kPageSize ∉ s.used) :
    Refines vm conv { s with mem := blit s.mem a [byte] } fs tables where
  length := h.length
  holds i node f hnode hf := by
    rcases h.holds i node f hnode hf with ⟨htype, hsize, hbound, hpages, hbytes⟩
    refine ⟨htype, hsize, hbound, hpages, ?_⟩
    rw [← hbytes]
    exact h.frames.content_outside ha kPageSize_pos i
  frames := h.frames
  absent := h.absent

/-- One step. -/
theorem Refines.step {s s' : Files V} {fs : List (SparseFile UInt8)}
    {tables : Nat → Nat → Option Nat} (hlaw : vm.Lawful conv) (h : Refines vm conv s fs tables)
    {op : RamOp} (hok : WriteOk vm conv s op) (hstep : ramStep vm s op = some s') :
    ∃ tables', Refines vm conv s' (specStep fs op) tables' := by
  cases op with
  | create =>
      cases hstep
      exact ⟨tables, h.create hlaw⟩
  | write i src offset pages => exact h.write hlaw hok hstep
  | other a byte =>
      unfold ramStep at hstep
      dsimp only at hstep
      split at hstep
      · cases hstep
      · rename_i hout
        cases hstep
        exact ⟨tables, h.other byte hout⟩

/-- A run whose writes meet `WriteOk`. -/
theorem Refines.run (hlaw : vm.Lawful conv) (ops : List RamOp) {s s' : Files V}
    {fs : List (SparseFile UInt8)} {tables : Nat → Nat → Option Nat}
    (h : Refines vm conv s fs tables) (hok : StepsMeet (ramStep vm) (WriteOk vm conv) s ops)
    (hrun : Lib.run (ramStep vm) s ops = some s') :
    ∃ tables', Refines vm conv s' (ops.foldl specStep fs) tables' := by
  induction ops generalizing s fs tables with
  | nil =>
      cases hrun
      exact ⟨tables, h⟩
  | cons op ops ih =>
      rcases Option.bind_eq_some_iff.mp hrun with ⟨s₁, hstep, hrest⟩
      rcases hok s₁ hstep with ⟨hokop, hokrest⟩
      rcases h.step hlaw hokop hstep with ⟨tables₁, h₁⟩
      exact ih h₁ hokrest hrest

/-- Before the first file. -/
theorem start_refines (vm : VmObject V) (conv : Convention) (ram : Ram) :
    Refines vm conv { ram with } [] fun _ _ => none where
  length := rfl
  holds i node f hnode hf := by cases hf
  frames := by
    constructor
    · intro i k j l p hp
      cases hp
    · intro i k p hp
      cases hp
  absent _ _ _ := rfl

/-! ## Reads of the files -/

/-- `Read` of a whole file. -/
theorem Holds.read_all {mem : Nat → UInt8} {table : Nat → Option Nat} {node : RamFsNode V}
    {f : SparseFile UInt8} (h : Holds vm conv mem table node f) :
    RamFs.read vm mem node f.size 0 = .ok (f.size, slice f.get 0 f.size) := by
  rcases h.pages with ⟨vmo, hvmo, hmaps⟩
  unfold RamFs.read
  rw [if_neg (not_not_intro h.type), h.size, hvmo]
  by_cases hempty : f.size ≤ 0
  · rw [if_pos hempty, Nat.le_zero.mp hempty]
    rfl
  · -- the request ends where the file does
    have hcount : readCount f.size f.size 0 = f.size := by
      unfold readCount
      rw [usizeAdd_eq (by rw [Nat.zero_add]; exact h.bound), Nat.zero_add,
        if_neg (Nat.lt_irrefl _)]
    have hshift : conv.shift ((0 + 0) % kPageSize) = (0 + 0) % kPageSize := by
      cases conv with
      | base => rfl
      | basePlusOffset => rfl
    have hloop := @readLoop_eq V vm conv vmo mem table hmaps 0 f.size
      (by rw [Nat.zero_add]; exact h.bound) f.size 0 [] (Nat.zero_le _)
      (Nat.le_of_eq (Nat.sub_zero _)) (fun _ => hshift)
    rw [if_neg hempty]
    dsimp only
    rw [hcount, hloop, h.bytes]
    rfl

theorem readCount_of_countOk {f : SparseFile UInt8} {size offset : Nat} (hin : offset < f.size)
    (hbound : f.size < 2 ^ 64) (hsize : size < 2 ^ 64) (h : CountOk f size offset) :
    readCount f.size size offset = f.count size offset := by
  unfold readCount SparseFile.count
  rcases Nat.lt_or_ge (offset + size) (2 ^ 64) with hlt | hge
  · rw [usizeAdd_eq hlt]
    split <;> omega
  · have hwrap : usizeAdd offset size = offset + size - 2 ^ 64 := by
      unfold usizeAdd
      rw [Nat.mod_eq_sub_mod hge, Nat.mod_eq_of_lt (by omega)]
    rw [hwrap]
    have hlast : f.size < offset + size - 2 ^ 64 := h.resolve_left (Nat.not_lt.mpr hge)
    rw [if_pos hlast]
    omega

/-- A sum that wraps to the inside of the file makes the count too large. -/
theorem readCount_of_not_countOk {f : SparseFile UInt8} {size offset : Nat} (hin : offset < f.size)
    (hbound : f.size < 2 ^ 64) (h : ¬ CountOk f size offset) :
    readCount f.size size offset ≠ f.count size offset := by
  unfold CountOk at h
  rw [not_or, Nat.not_lt, Nat.not_lt] at h
  have hwrap : usizeAdd offset size = offset + size - 2 ^ 64 := by
    unfold usizeAdd
    rw [Nat.mod_eq_sub_mod h.1, Nat.mod_eq_of_lt (by omega)]
  unfold readCount SparseFile.count
  rw [hwrap, if_neg (Nat.not_lt.mpr h.2)]
  omega

/-- After writes that meet `WriteOk`, a read is right if and only if it meets
`ReadOk`. -/
theorem readRight_iff (hlaw : vm.Lawful conv) {ram : Ram} {ops : List RamOp} {s : Files V}
    (hok : StepsMeet (ramStep vm) (WriteOk vm conv) { ram with } ops)
    (hrun : Lib.run (ramStep vm) { ram with } ops = some s) {i : Nat} {f : SparseFile UInt8}
    (hf : (contents ops)[i]? = some f) {size offset : Nat} (hsize : size < 2 ^ 64) :
    ReadRight vm s i f size offset ↔ ReadOk conv f size offset := by
  rcases (start_refines vm conv ram).run hlaw ops hok hrun with ⟨tables, href⟩
  rcases List.getElem?_eq_some_iff.mp hf with ⟨hi, -⟩
  have hi' : i < s.nodes.length := by
    rw [href.length]
    exact hi
  have hnode : s.nodes[i]? = some s.nodes[i] := List.getElem?_eq_getElem hi'
  generalize s.nodes[i] = node at hnode
  have hold := href.holds i node f hnode hf
  rcases hold.pages with ⟨vmo, hvmo, hmaps⟩
  unfold ReadRight ReadOk RamFs.read
  rw [hnode, Option.map_some, if_neg (not_not_intro hold.type), hold.size, hvmo]
  dsimp only
  rcases Nat.lt_or_ge offset f.size with hin | hpast
  · rw [if_neg (Nat.not_le.mpr hin), or_iff_right (Nat.not_le.mpr hin)]
    by_cases hcount : CountOk f size offset
    · rw [readCount_of_countOk hin hold.bound hsize hcount, and_iff_right hcount]
      have hle : f.count size offset ≤ f.size - offset := Nat.min_le_right _ _
      have hend : offset + f.count size offset < 2 ^ 64 := by
        have hbound := hold.bound
        omega
      rw [readLoop_start hmaps hend, hold.bytes]
      unfold SparseFile.read FirstPageOk
      generalize f.count size offset = count
      -- past the first page the bytes are right
      have hsplit : slice f.get offset count =
          slice f.get offset (min count (kPageSize - offset % kPageSize)) ++
            slice f.get (offset + min count (kPageSize - offset % kPageSize))
              (count - min count (kPageSize - offset % kPageSize)) := by
        rw [← slice_add, Nat.add_sub_cancel' (Nat.min_le_left _ _)]
      rw [hsplit, ← slice_eq_iff]
      simp only [Option.some.injEq, Except.ok.injEq, Prod.mk.injEq, true_and,
        List.append_left_inj]
    · -- the loop returns the count
      have hne := readCount_of_not_countOk hin hold.bound hcount
      constructor
      · intro hread
        have hfst := congrArg Prod.fst (Except.ok.inj (Option.some.inj hread))
        rw [readLoop_count _ _ _ _ _ _ (Nat.zero_le _) (Nat.sub_le _ _)] at hfst
        exact absurd hfst hne
      · exact fun h => absurd h.1 hcount
  · have hzero : f.count size offset = 0 := by
      unfold SparseFile.count
      omega
    rw [if_pos hpast, SparseFile.read, hzero]
    exact iff_of_true rfl (Or.inl hpast)

/-! ## No convention -/

/-- A `VmObject` as the list of its pages. -/
def pageList (conv : Convention) : VmObject (List VmPage) where
  new := []
  lookup pages o := (pages.find? fun page => decide (page.Covers o)).map fun page =>
    pfnToPhysical page.pfn + conv.shift (o % kPageSize)
  insertBlock pages page := page :: pages

theorem pageList_lawful (conv : Convention) : (pageList conv).Lawful conv where
  lookup_new _ := rfl
  lookup_inside pages page o _ hcovers := by
    simp only [pageList, List.find?_cons, decide_eq_true hcovers, Option.map_some]
  lookup_outside pages page o _ hcovers := by
    simp only [pageList, List.find?_cons, decide_eq_false hcovers]

/-- Two writes of a byte each, at offsets 0 and 1. -/
def twoBytes : List RamOp := [.create, .write 0 [1] 0 [some 1], .write 0 [2] 1 []]

/-- Memory full of zeroes, and no files. -/
def zeroRam : Ram := ⟨fun _ => 0, []⟩

/-- What the two writes leave is a file of two bytes. -/
def twoBytesFile : SparseFile UInt8 := ((SparseFile.empty 0).write 0 [1]).write 1 [2]

/-- With either convention the second byte is not read back. -/
theorem not_ramFsLaw : ¬ ∃ conv, RamFsLaw conv := by
  rintro ⟨conv, hlaw⟩
  have hwrong : ∃ s, run (ramStep (pageList conv)) { zeroRam with } twoBytes = some s ∧
      ¬ ReadRight (pageList conv) s 0 twoBytesFile 1 1 := by
    cases conv with
    | base => exact exists_start (by decide +kernel)
    | basePlusOffset => exact exists_start (by decide +kernel)
  rcases hwrong with ⟨s, hrun, hread⟩
  exact hread (hlaw _ (pageList conv) (pageList_lawful conv) zeroRam twoBytes s hrun 0 twoBytesFile
    rfl 1 1 (by decide))

/-- With `base` the first byte is read back after both writes. -/
theorem twoBytes_first_right : ∃ s, run (ramStep (pageList .base)) { zeroRam with } twoBytes = some s ∧
    ReadRight (pageList .base) s 0 twoBytesFile 1 0 := by
  have hrun : ∃ s, run (ramStep (pageList .base)) { zeroRam with } twoBytes = some s ∧
      s.nodes.length = 1 := exists_start (by decide +kernel)
  rcases hrun with ⟨s, hrun, -⟩
  have hok : StepsMeet (ramStep (pageList .base)) (WriteOk (pageList .base) .base)
      { zeroRam with } twoBytes := by decide +kernel
  have hread : ReadOk .base twoBytesFile 1 0 := by
    refine Or.inr ⟨Or.inl (by decide), ?_⟩
    intro j hj
    rfl
  have hf : (contents twoBytes)[0]? = some twoBytesFile := rfl
  exact ⟨s, hrun, (readRight_iff (pageList_lawful .base) hok hrun hf (by decide)).mpr hread⟩

end Ceryx.Fs.RamFs
