import Ceryx.Fs.FileRuns

/-!
# Ceryx.Fs.FailedWrite — what a Write that fails leaves behind

The loop of `Write` stores page by page. When `AllocatePage` fails at a later
page, the pages before it are in the file; only the size is as it was.

* `Later`: the calls made after the failed one, which all succeed.
* `Unaffected`: every read after any such calls is the same with and without the
  failed `Write`.
* `later_files`: later calls act on the files as sparse byte arrays.
* `unaffected_iff`: a failed `Write` has no effect if and only if each byte that
  it stored was there before.
* `not_unaffectedLaw`: two bytes over the end of a page, and no second page.
-/

namespace Ceryx.Fs.RamFs

open Lib Vfs

/-- A call of the file system, without the results of `AllocatePage`. -/
inductive Request where
  | create
  | openFile (i : Nat) (flags : BitVec 32)
  | write (i : Nat) (src : List UInt8) (offset : Nat)

/-- The call without what `AllocatePage` answers. -/
def FileOp.request : FileOp → Option Request
  | .create => some .create
  | .openFile i flags => some (.openFile i flags)
  | .write i src offset _ => some (.write i src offset)
  | .other _ _ => none

section
variable {V : Type} (vm : VmObject V)

/-- A `Write` succeeds. -/
def Succeeds (s : Files V) : FileOp → Prop
  | .write i src offset pages =>
      ((s.write vm i src offset pages).map fun r => r.1) = some (.ok src.length)
  | _ => True

instance (s : Files V) : (op : FileOp) → Decidable (Succeeds vm s op)
  | .write _ _ _ _ => inferInstanceAs (Decidable (_ = _))
  | .create | .openFile _ _ | .other _ _ => isTrue trivial

/-- What is called after `s`: each `Write` succeeds and gets its bytes to the
right place. -/
structure Later (conv : Convention) (s : Files V) (ops : List FileOp) (t : Files V) : Prop where
  run : run (fileStep vm) s ops = some t
  placed : StepsMeet (fileStep vm) (WellPlaced vm conv) s ops
  succeeds : StepsMeet (fileStep vm) (Succeeds vm) s ops

/-- A read of one file at an offset. -/
def readAt (s : Files V) (i size offset : Nat) : Option (Except Int (Nat × List UInt8)) :=
  s.nodes[i]?.map fun node => read vm s.mem node size offset

/-- Reads of file `i` after `s'` are those after `s`, whatever is called in
between. -/
def Unaffected (conv : Convention) (s s' : Files V) (i : Nat) : Prop :=
  ∀ (ops ops' : List FileOp) (t t' : Files V), ops'.filterMap FileOp.request =
    ops.filterMap FileOp.request → Later vm conv s ops t → Later vm conv s' ops' t' →
    ∀ size offset, size < 2 ^ 64 → offset < 2 ^ 64 →
      readAt vm t' i size offset = readAt vm t i size offset

/-- Each byte that the call of `Write` stores is there already. -/
def StoresNothingNew (s : Files V) (i : Nat) (src : List UInt8) (offset : Nat)
    (pages : List (Option Nat)) : Prop :=
  ∀ j byte, (put vm s i (.write i src offset pages)).2[j]? = some byte →
    s.byteAt vm i (usizeAdd offset j) = byte

end

/-- The law of failed writes, for a convention of `Lookup`. -/
def UnaffectedLaw (conv : Convention) : Prop :=
  ∀ (V : Type) (vm : VmObject V), vm.Lawful conv → ∀ (ram : Ram) (before : List FileOp)
    (s : Files V), run (fileStep vm) { ram with } before = some s →
    ∀ (i : Nat) (src : List UInt8) (offset : Nat) (pages : List (Option Nat)) (s' : Files V),
      offset < 2 ^ 64 → src.length < 2 ^ 64 → Fresh s.used pages →
      s.write vm i src offset pages = some (.error (-ENOMEM), s') → Unaffected vm conv s s' i

/-! ## The files as sparse byte arrays -/

/-- What the calls do when they succeed. -/
def requestStep (fs : List (SparseFile UInt8)) : Request → List (SparseFile UInt8)
  | .create => fs ++ [SparseFile.empty 0]
  | .openFile i flags =>
      fs.modify i fun f => if flags &&& O_TRUNC ≠ 0 then { f with size := 0 } else f
  | .write i src offset =>
      fs.modify i fun f => ⟨grownSize f.size src.length offset, ringBlit (2 ^ 64) f.get offset src⟩

variable {V : Type} {vm : VmObject V} {conv : Convention}

/-- The files with all that their pages hold. -/
def sparseFiles (vm : VmObject V) (s : Files V) : List (SparseFile UInt8) :=
  s.nodes.map fun node => ⟨node.size, pageByte vm s.mem node⟩

/-- A node's file as it reads. -/
theorem sparseFiles_getElem {s : Files V} {i : Nat} {node : RamFsNode V}
    (hnode : s.nodes[i]? = some node) :
    (sparseFiles vm s)[i]? = some ⟨node.size, s.byteAt vm i⟩ := by
  unfold sparseFiles
  rw [List.getElem?_map, hnode, Option.map_some]
  congr 2
  funext p
  unfold Files.byteAt
  rw [hnode]

/-- It depends on the nodes and their bytes. -/
theorem sparseFiles_congr {s s' : Files V} (hnodes : s'.nodes = s.nodes)
    (hbytes : ∀ j p, s'.byteAt vm j p = s.byteAt vm j p) : sparseFiles vm s' = sparseFiles vm s := by
  apply List.ext_getElem?
  intro j
  cases hj : s.nodes[j]? with
  | none =>
      unfold sparseFiles
      rw [List.getElem?_map, List.getElem?_map, hnodes, hj]
      rfl
  | some node =>
      have hj' : s'.nodes[j]? = some node := by
        rw [hnodes]
        exact hj
      rw [sparseFiles_getElem hj', sparseFiles_getElem hj, funext (hbytes j)]

/-- Two states with the same nodes but for file `i`. -/
theorem sparseFiles_modify {s s' : Files V} {i : Nat} {node node' : RamFsNode V}
    (hnode : s.nodes[i]? = some node) (hnodes : s'.nodes = s.nodes.set i node')
    {g : SparseFile UInt8 → SparseFile UInt8}
    (hself : (⟨node'.size, s'.byteAt vm i⟩ : SparseFile UInt8) = g ⟨node.size, s.byteAt vm i⟩)
    (hothers : ∀ j p, j ≠ i → s'.byteAt vm j p = s.byteAt vm j p) :
    sparseFiles vm s' = (sparseFiles vm s).modify i g := by
  rcases List.getElem?_eq_some_iff.mp hnode with ⟨hi, -⟩
  apply List.ext_getElem?
  intro j
  -- the file that is written, and the others
  by_cases hji : j = i
  · subst hji
    have hnode' : s'.nodes[j]? = some node' := by
      rw [hnodes]
      exact List.getElem?_set_self hi
    rw [sparseFiles_getElem hnode', List.getElem?_modify_eq, sparseFiles_getElem hnode, hself]
    rfl
  · rw [List.getElem?_modify_ne _ _ (Ne.symm hji)]
    have hsame : s'.nodes[j]? = s.nodes[j]? := by
      rw [hnodes]
      exact List.getElem?_set_ne (Ne.symm hji)
    cases hj : s.nodes[j]? with
    | none =>
        unfold sparseFiles
        rw [List.getElem?_map, List.getElem?_map, hsame, hj]
        rfl
    | some other =>
        rw [sparseFiles_getElem (hsame.trans hj), sparseFiles_getElem hj,
          funext fun p => hothers j p hji]

/-- Only `O_TRUNC` changes a size. -/
theorem openNode_size (node : RamFsNode V) (flags : BitVec 32) :
    (openNode node flags).size = if flags &&& O_TRUNC ≠ 0 then 0 else node.size := by
  unfold openNode
  split <;> rfl

/-- One step. -/
theorem sparseFiles_step (hlaw : vm.Lawful conv) {s s' : Files V} (hs : PagesSound vm conv s)
    {op : FileOp} (hok : WellPlaced vm conv s op) (hsucceeds : Succeeds vm s op)
    (hstep : fileStep vm s op = some s') :
    sparseFiles vm s' = ([op].filterMap FileOp.request).foldl requestStep (sparseFiles vm s) := by
  obtain ⟨hs', hbytes⟩ := hs.step hlaw hok hstep
  cases op with
  | create =>
      cases hstep
      change sparseFiles vm _ = sparseFiles vm s ++ [SparseFile.empty 0]
      unfold sparseFiles
      rw [List.map_append]
      congr 1
      rw [List.map_singleton]
      congr 2
      funext p
      unfold pageByte newNode
      rw [if_pos rfl, Option.bind_some, hlaw.lookup_new]
  | openFile i flags =>
      rcases Option.map_eq_some_iff.mp hstep with ⟨node, hnode, rfl⟩
      have hsame : ∀ j p, Files.byteAt vm { s with nodes := s.nodes.set i (openNode node flags) } j p =
          s.byteAt vm j p := by
        intro j p
        rw [hbytes]
        exact congrFun (ringBlit_nil _ _ _) p
      refine sparseFiles_modify hnode rfl ?_ fun j p _ => hsame j p
      rw [funext (hsame i), openNode_size]
      split <;> rfl
  | write i src offset pages =>
      unfold fileStep at hstep
      dsimp only at hstep
      split at hstep
      · rename_i hguard
        rcases hguard with ⟨hoffset, hlen, hfresh⟩
        rcases Option.map_eq_some_iff.mp hstep with ⟨⟨result, s''⟩, hwrite, rfl⟩
        unfold Succeeds at hsucceeds
        dsimp only at hsucceeds
        rw [hwrite, Option.map_some] at hsucceeds
        rcases hs.write hlaw hoffset hlen hfresh hok hwrite with
          ⟨node, node', hnode, hnodes, -, hbytes, hgood | hbad⟩
        · -- the whole buffer is stored
          obtain ⟨-, hsize, hstored⟩ := hgood
          refine sparseFiles_modify hnode hnodes ?_ ?_
          · rw [hsize, hbytes, if_pos rfl, hstored]
          · intro j p hji
            rw [hbytes, if_neg hji]
        · -- a failed call is none of these
          rw [hbad.1] at hsucceeds
          cases hsucceeds
      · cases hstep
  | other a byte =>
      change sparseFiles vm s' = sparseFiles vm s
      unfold fileStep at hstep
      dsimp only at hstep
      split at hstep
      · cases hstep
      · cases hstep
        refine sparseFiles_congr rfl ?_
        intro j p
        rw [hbytes]
        exact congrFun (ringBlit_nil _ _ _) p

/-- Later calls. -/
theorem later_files (hlaw : vm.Lawful conv) {s t : Files V} (hs : PagesSound vm conv s)
    {ops : List FileOp} (h : Later vm conv s ops t) :
    sparseFiles vm t = (ops.filterMap FileOp.request).foldl requestStep (sparseFiles vm s) := by
  rcases h with ⟨hrun, hplaced, hsucceeds⟩
  induction ops generalizing s with
  | nil =>
      cases hrun
      rfl
  | cons op ops ih =>
      rcases Option.bind_eq_some_iff.mp hrun with ⟨s₁, hstep, hrest⟩
      rcases hplaced s₁ hstep with ⟨hok, hokrest⟩
      rcases hsucceeds s₁ hstep with ⟨hop, hoprest⟩
      have hs₁ := (hs.step hlaw hok hstep).1
      rw [ih hs₁ hrest hokrest hoprest, sparseFiles_step hlaw hs hok hop hstep,
        ← List.foldl_append, ← List.filterMap_append]
      rfl

/-! ## Reads after a failed write -/

/-- What a read gets of a file as a sparse byte array. -/
def sparseRead (conv : Convention) (size offset : Nat) (f : SparseFile UInt8) : Nat × List UInt8 :=
  if offset < f.size then
    (readCount f.size size offset,
      (List.range (readCount f.size size offset)).map fun j => f.get (readPlace conv offset j))
  else (0, [])

/-- A read gives what the sparse file holds. -/
theorem PagesSound.readAt_eq {s : Files V} (hs : PagesSound vm conv s) (i size : Nat) {offset : Nat}
    (hoffset : offset < 2 ^ 64) :
    readAt vm s i size offset =
      (sparseFiles vm s)[i]?.map fun f => .ok (sparseRead conv size offset f) := by
  rcases hs with ⟨tables, h⟩
  unfold readAt
  cases hnode : s.nodes[i]? with
  | none =>
      unfold sparseFiles
      rw [List.getElem?_map, hnode]
      rfl
  | some node =>
      rw [sparseFiles_getElem hnode, funext (h.byteAt_eq i), Option.map_some, Option.map_some,
        (h.file i node hnode).read_eq s.mem size hoffset]
      rfl

/-- The failed call, on the sizes and on the bytes. -/
theorem failed_write (hlaw : vm.Lawful conv) {s s' : Files V} (hs : PagesSound vm conv s) {i : Nat}
    {src : List UInt8} {offset : Nat} {pages : List (Option Nat)} (hoffset : offset < 2 ^ 64)
    (hlen : src.length < 2 ^ 64) (hfresh : Fresh s.used pages)
    (hok : WellPlaced vm conv s (.write i src offset pages))
    (hwrite : s.write vm i src offset pages = some (.error (-ENOMEM), s')) :
    ∃ node node' bytes, s.nodes[i]? = some node ∧ s'.nodes = s.nodes.set i node' ∧
      node'.size = node.size ∧ PagesSound vm conv s' ∧ bytes.length < 2 ^ 64 ∧
      put vm s i (.write i src offset pages) = (offset, bytes) ∧
      ∀ j, s'.byteAt vm j = if j = i then ringBlit (2 ^ 64) (s.byteAt vm i) offset bytes
        else s.byteAt vm j := by
  -- of the two results of a write, the failure
  rcases hs.write hlaw hoffset hlen hfresh hok hwrite with
    ⟨node, node', hnode, hnodes, hs', hbytes, hgood | hbad⟩
  · cases hgood.1
  · obtain ⟨-, hsize, hshort⟩ := hbad
    refine ⟨node, node', _, hnode, hnodes, hsize, hs', Nat.lt_trans hshort hlen, ?_, hbytes⟩
    unfold put
    dsimp only
    rw [hnode]
    dsimp only
    rw [if_pos rfl]

/-- A failed write that has copied nothing new leaves every file as it was, -/
theorem unaffected_of_nothingNew (hlaw : vm.Lawful conv) {s s' : Files V}
    (hs : PagesSound vm conv s) {i : Nat} {src : List UInt8} {offset : Nat}
    {pages : List (Option Nat)} (hoffset : offset < 2 ^ 64) (hlen : src.length < 2 ^ 64)
    (hfresh : Fresh s.used pages) (hok : WellPlaced vm conv s (.write i src offset pages))
    (hwrite : s.write vm i src offset pages = some (.error (-ENOMEM), s'))
    (h : StoresNothingNew vm s i src offset pages) : Unaffected vm conv s s' i := by
  rcases failed_write hlaw hs hoffset hlen hfresh hok hwrite with
    ⟨node, node', bytes, hnode, hnodes, hsize, hs', -, hput, hbytes⟩
  -- the files are the same byte arrays
  have hfiles : sparseFiles vm s' = sparseFiles vm s := by
    have hself : s'.byteAt vm i = s.byteAt vm i := by
      rw [hbytes i, if_pos rfl]
      apply ringBlit_same hoffset
      intro j byte hbyte
      exact h j byte (by rw [hput]; exact hbyte)
    rw [sparseFiles_modify hnode hnodes (g := id) (by rw [hself, hsize]; rfl) fun j p hji => by
      rw [hbytes j, if_neg hji]]
    exact List.modify_id _ _
  intro ops ops' t t' hrequests hlater hlater' size offset' _ hoffset'
  have ht := hs.run hlaw hlater.placed hlater.run
  have ht' := hs'.run hlaw hlater'.placed hlater'.run
  rw [ht'.readAt_eq i size hoffset', ht.readAt_eq i size hoffset', later_files hlaw hs' hlater',
    later_files hlaw hs hlater, hfiles, hrequests]

/-- A call that makes the file at least `e` long and stores nothing. -/
theorem later_longer {s : Files V} (hs : PagesSound vm conv s) {i : Nat} {node : RamFsNode V}
    (hnode : s.nodes[i]? = some node) {e : Nat} (he : e < 2 ^ 64) :
    ∃ t, Later vm conv s [.write i [] e []] t := by
  rcases hs with ⟨tables, h⟩
  have hregular := h.file i node hnode
  rcases hregular.pages with ⟨vmo, hvmo, -⟩
  -- an empty write needs no page, and still moves the size up to its offset
  have hwrite : RamFs.write vm s.toRam node [] e [] =
      (.ok 0, { node with vmo := some vmo, size := grownSize node.size 0 e }, s.toRam) := by
    unfold RamFs.write
    rw [if_neg (not_not_intro hregular.type), hvmo]
    rfl
  have hcall : s.write vm i [] e [] = some (.ok 0, { s with
      nodes := s.nodes.set i { node with vmo := some vmo, size := grownSize node.size 0 e } }) := by
    unfold Files.write
    rw [hnode, Option.map_some, hwrite]
  have hstep : fileStep vm s (.write i [] e []) = some { s with
      nodes := s.nodes.set i { node with vmo := some vmo, size := grownSize node.size 0 e } } := by
    unfold fileStep
    dsimp only
    have hguard : e < 2 ^ 64 ∧ ([] : List UInt8).length < 2 ^ 64 ∧ Fresh s.used [] := by
      refine ⟨he, Nat.two_pow_pos 64, List.nodup_nil, ?_⟩
      intro pfn hpfn
      cases hpfn
    rw [if_pos hguard, hcall]
    rfl
  have hrun : run (fileStep vm) s [.write i [] e []] = some { s with
      nodes := s.nodes.set i { node with vmo := some vmo, size := grownSize node.size 0 e } } := by
    rw [run_cons, hstep]
    rfl
  refine ⟨_, hrun, ?_, ?_⟩
  · intro t _
    exact ⟨Or.inr (Or.inr (Or.inl rfl)), trivial⟩
  · intro t _
    refine ⟨?_, trivial⟩
    unfold Succeeds
    dsimp only
    rw [hcall]
    rfl

/-- A read of the page of position `q` gets the byte there, when the file reaches
over `q` or to the last size that there is. -/
theorem sparseRead_page (conv : Convention) {f : SparseFile UInt8} {q : Nat} (hq : q < 2 ^ 64)
    (hsize : min (q + 1) (2 ^ 64 - 1) ≤ f.size) (hbound : f.size < 2 ^ 64) :
    (sparseRead conv kPageSize (q - q % kPageSize) f).2[q % kPageSize]? = some (f.get q) := by
  have hmod : q % kPageSize < kPageSize := Nat.mod_lt _ kPageSize_pos
  have hle : q % kPageSize ≤ q := Nat.mod_le _ _
  have haligned : (q - q % kPageSize) % kPageSize = 0 := by
    rw [pageStart_eq]
    exact Nat.mul_mod_left _ _
  have hin : q - q % kPageSize < f.size := by
    unfold kPageSize at *
    omega
  -- the sum wraps for the last page: then the count is that of the request
  have hcount : q % kPageSize < readCount f.size kPageSize (q - q % kPageSize) := by
    unfold readCount usizeAdd
    unfold kPageSize at *
    split <;> omega
  unfold sparseRead
  rw [if_pos hin]
  dsimp only
  rw [List.getElem?_map, List.getElem?_range hcount, Option.map_some,
    readPlace_aligned conv haligned (by omega) hmod, Nat.sub_add_cancel hle]

/-- After a call that makes the file longer, the page of a position is read. -/
theorem later_reads_byte (hlaw : vm.Lawful conv) {s : Files V} (hs : PagesSound vm conv s) {i : Nat}
    {node : RamFsNode V} (hnode : s.nodes[i]? = some node) {q : Nat} (hq : q < 2 ^ 64) :
    ∃ t result, Later vm conv s [.write i [] (min (q + 1) (2 ^ 64 - 1)) []] t ∧
      readAt vm t i kPageSize (q - q % kPageSize) = some (.ok result) ∧
      result.2[q % kPageSize]? = some (s.byteAt vm i q) := by
  have hbound : node.size < 2 ^ 64 := by
    rcases hs with ⟨tables, h⟩
    exact (h.file i node hnode).bound
  obtain ⟨e, he⟩ : ∃ e, min (q + 1) (2 ^ 64 - 1) = e := ⟨_, rfl⟩
  have helt : e < 2 ^ 64 := by omega
  rw [he]
  rcases later_longer hs hnode helt with ⟨t, hlater⟩
  have ht := hs.run hlaw hlater.placed hlater.run
  -- the file is the old one with another size
  have hfile : (sparseFiles vm t)[i]? = some ⟨grownSize node.size 0 e, s.byteAt vm i⟩ := by
    rw [later_files hlaw hs hlater]
    change ((sparseFiles vm s).modify i _)[i]? = _
    rw [List.getElem?_modify_eq, sparseFiles_getElem hnode]
    change some (SparseFile.mk _ (ringBlit _ _ _ _)) = _
    rw [ringBlit_nil]
    rfl
  have hlong : e ≤ grownSize node.size 0 e := by
    unfold grownSize
    rw [usizeAdd_eq helt]
    split <;> omega
  refine ⟨t, _, hlater, ?_, sparseRead_page conv hq (f := ⟨grownSize node.size 0 e, s.byteAt vm i⟩)
    (by rw [he]; exact hlong) (grownSize_lt hbound)⟩
  rw [ht.readAt_eq i _ (by omega), hfile]
  rfl

/-- and only such a write does: what it has copied can be read. -/
theorem nothingNew_of_unaffected (hlaw : vm.Lawful conv) {s s' : Files V}
    (hs : PagesSound vm conv s) {i : Nat} {src : List UInt8} {offset : Nat}
    {pages : List (Option Nat)} (hoffset : offset < 2 ^ 64) (hlen : src.length < 2 ^ 64)
    (hfresh : Fresh s.used pages) (hok : WellPlaced vm conv s (.write i src offset pages))
    (hwrite : s.write vm i src offset pages = some (.error (-ENOMEM), s'))
    (h : Unaffected vm conv s s' i) : StoresNothingNew vm s i src offset pages := by
  rcases failed_write hlaw hs hoffset hlen hfresh hok hwrite with
    ⟨node, node', bytes, hnode, hnodes, hsize, hs', hshort, hput, hbytes⟩
  rcases List.getElem?_eq_some_iff.mp hnode with ⟨hi, -⟩
  have hnode' : s'.nodes[i]? = some node' := by
    rw [hnodes]
    exact List.getElem?_set_self hi
  intro j byte hbyte
  rw [hput] at hbyte
  rcases List.getElem?_eq_some_iff.mp hbyte with ⟨hj, rfl⟩
  -- the file is made longer than the position, and the page of the position read
  have hq : usizeAdd offset j < 2 ^ 64 := usizeAdd_lt _ _
  rcases later_reads_byte hlaw hs hnode hq with ⟨t, result, hlater, hread, hbyte⟩
  rcases later_reads_byte hlaw hs' hnode' hq with ⟨t', result', hlater', hread', hbyte'⟩
  have hsame := h _ _ t t' rfl hlater hlater' kPageSize
    (usizeAdd offset j - usizeAdd offset j % kPageSize) (by decide) (by omega)
  rw [hread, hread'] at hsame
  cases hsame
  have hstored := ringBlit_inside (s.byteAt vm i) hoffset (Nat.le_of_lt hshort) hj
  rw [hbyte, hbytes i, if_pos rfl] at hbyte'
  exact (Option.some.inj hbyte').trans hstored

/-- A `Write` that fails has no effect on any later read if and only if each byte
that it stored was there before. -/
theorem unaffected_iff (hlaw : vm.Lawful conv) {ram : Ram} {before : List FileOp} {s s' : Files V}
    (hrun : run (fileStep vm) { ram with } before = some s)
    (hbefore : StepsMeet (fileStep vm) (WellPlaced vm conv) { ram with } before) {i : Nat}
    {src : List UInt8} {offset : Nat} {pages : List (Option Nat)} (hoffset : offset < 2 ^ 64)
    (hlen : src.length < 2 ^ 64) (hfresh : Fresh s.used pages)
    (hok : WellPlaced vm conv s (.write i src offset pages))
    (hwrite : s.write vm i src offset pages = some (.error (-ENOMEM), s')) :
    Unaffected vm conv s s' i ↔ StoresNothingNew vm s i src offset pages := by
  have hs := (start_sound vm conv ram).run hlaw hbefore hrun
  exact ⟨nothingNew_of_unaffected hlaw hs hoffset hlen hfresh hok hwrite,
    unaffected_of_nothingNew hlaw hs hoffset hlen hfresh hok hwrite⟩

/-! ## A page and no second one -/

/-- Under either convention a write that finds a frame for its first page and none for
its second fails, and its first byte can be read all the same. -/
theorem not_unaffectedLaw : ¬ ∃ conv, UnaffectedLaw conv := by
  rintro ⟨conv, hlaw⟩
  have hwrong : ∃ r, (oneFile conv).write (pageList conv) 0 [5, 6] 4095 [some 1, none] = some r ∧
      r.1 = .error (-ENOMEM) ∧
        (put (pageList conv) (oneFile conv) 0 (.write 0 [5, 6] 4095 [some 1, none])).2 = [5] := by
    cases conv with
    | base => exact exists_start (by decide +kernel)
    | basePlusOffset => exact exists_start (by decide +kernel)
  rcases hwrong with ⟨⟨result, s'⟩, hwrite, hresult, hput⟩
  dsimp only at hresult
  subst hresult
  have hfresh : Fresh (oneFile conv).used [some 1, none] := (by decide : Fresh [] [some 1, none])
  have hvmo : ((((oneFile conv).nodes[0]?).bind RamFsNode.vmo).bind fun vmo =>
      (pageList conv).lookup vmo 4095) = none := rfl
  have hunaffected := hlaw _ (pageList conv) (pageList_lawful conv) zeroRam [.create] (oneFile conv)
    (oneFile_run conv) 0 [5, 6] 4095 [some 1, none] s' (by decide) (by decide) hfresh hwrite
  have hs : PagesSound (pageList conv) conv (oneFile conv) := by
    refine (start_sound (pageList conv) conv zeroRam).run (pageList_lawful conv) ?_ (oneFile_run conv)
    intro t _
    exact ⟨trivial, trivial⟩
  -- the byte at the end of the page was zero
  have hnothing := nothingNew_of_unaffected (pageList_lawful conv) hs (by decide) (by decide) hfresh
    (Or.inr (Or.inr (Or.inr hvmo))) hwrite hunaffected
  have hzero := hnothing 0 5 (by rw [hput]; rfl)
  cases hzero

/-- No page at all: nothing is stored. -/
theorem no_first_page_unaffected : ∃ s', (oneFile .base).write (pageList .base) 0 [5] 0 [] =
    some (.error (-ENOMEM), s') ∧ Unaffected (pageList .base) .base (oneFile .base) s' 0 := by
  have hwrite : ∃ r, (oneFile .base).write (pageList .base) 0 [5] 0 [] = some r ∧
      r.1 = .error (-ENOMEM) := exists_start (by decide +kernel)
  rcases hwrite with ⟨⟨result, s'⟩, hwrite, hresult⟩
  dsimp only at hresult
  subst hresult
  refine ⟨s', hwrite, ?_⟩
  have hbefore : StepsMeet (fileStep (pageList .base)) (WellPlaced (pageList .base) .base)
      { zeroRam with } [.create] := by decide +kernel
  apply (unaffected_iff (pageList_lawful .base) (oneFile_run .base) hbefore (by decide) (by decide)
    (by decide) (Or.inl rfl) hwrite).mpr
  intro j byte hbyte
  cases hbyte

end Ceryx.Fs.RamFs
