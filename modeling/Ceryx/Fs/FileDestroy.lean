import Ceryx.Fs.RamFsLoops

/-!
# Ceryx.Fs.FileDestroy — a destroyed file gives all its frames back

`RamFsOpsImpl::Destroy` drains the `VmObject` of a file in batches: it cannot
remove a page while it walks over the pages. `Write` put the pages there, each
with a frame of its own.

* `PagedObject`: the parts of `VmObject` that `Destroy` calls in addition, and
  what is assumed of them.
* `FilePages`: the pages of a file, one for each offset, are those that `Write`
  allocated. `Write` keeps it, whether it succeeds or fails (`write_filePages`).
* `drainLoop_drains`: the loop ends with no page left, and has removed each
  page once.
* `destroy_frees_once`: both together, for every sequence of calls.
-/

namespace Ceryx.Fs.RamFs

open Lib

/-! ## VmObject -/

/-- `VmObject` with the pages in the order in which `ForEachPage` visits them,
and `RemoveBlock`. A page is named by its contents, as no two have the same
offset. -/
structure PagedObject (V : Type) extends VmObject V where
  forEachPage : V → List VmPage
  removeBlock : V → VmPage → V

/-- `ForEachPage` visits the inserted pages, `Lookup` finds a page for every
offset that one covers, and `RemoveBlock` removes the page it is given. -/
structure PagedObject.Lawful {V : Type} (vm : PagedObject V) : Prop where
  visit_new : vm.forEachPage vm.new = []
  visit_insert : ∀ v page,
    (∀ other ∈ vm.forEachPage v, ∀ o, page.Covers o → ¬ other.Covers o) →
      (vm.forEachPage (vm.insertBlock v page)).Perm (page :: vm.forEachPage v)
  visit_remove : ∀ v, ∀ page ∈ vm.forEachPage v,
    (vm.forEachPage (vm.removeBlock v page)).Perm ((vm.forEachPage v).erase page)
  lookup_covered : ∀ v, ∀ page ∈ vm.forEachPage v, ∀ o, page.Covers o → vm.lookup v o ≠ none

section
variable {V : Type} (vm : PagedObject V)

/-! ## Destroy -/

def kBatch : Nat := 32

/-- The batch that `ForEachPage` fills. -/
def collect (pages : List VmPage) : List VmPage :=
  pages.foldl (fun batch page => if batch.length < kBatch then batch ++ [page] else batch) []

/-- The object while it is drained, with the pages given to `RemoveBlock` and
the frames given to `FreeFolio`. -/
structure Draining (V : Type) where
  vmo : V
  removed : List VmPage := []
  freed : List Nat := []

/-- What `Destroy` does to one page of the batch. -/
def destroyPage (d : Draining V) (page : VmPage) : Draining V :=
  { vmo := vm.removeBlock d.vmo page
    removed := d.removed ++ [page]
    freed := d.freed ++ [page.pfn] }

/-- The loop of `Destroy`; `none` when it has not ended after so many turns. -/
def drainLoop : Nat → Draining V → Option (Draining V)
  | 0, _ => none
  | n + 1, d =>
      let batch := collect (vm.forEachPage d.vmo)
      if batch.length = 0 then some d else drainLoop n (batch.foldl (destroyPage vm) d)

/-- `RamFsOpsImpl::Destroy`, for the pages of a node. -/
def destroy (n : Nat) (node : RamFsNode V) : Option (Option (Draining V)) :=
  match node.vmo with
  | none => some none
  | some vmo => (drainLoop vm n { vmo := vmo }).map some

/-! ## Calls of Write -/

/-- A call of `Write`, with the results of `AllocatePage`. -/
structure WriteCall where
  src : List UInt8
  offset : Nat
  pages : List (Option Nat)

/-- One call, whatever it returns. -/
def writeCall (s : RamFsNode V × Ram) (c : WriteCall) : RamFsNode V × Ram :=
  (write vm.toVmObject s.2 s.1 c.src c.offset c.pages).2

/-- The calls on a new regular file. -/
def writeCalls (ram : Ram) (calls : List WriteCall) : RamFsNode V × Ram :=
  calls.foldl (writeCall vm) (newNode vm.toVmObject .regular, ram)

/-- The pages of a file. `used₀` are the frames that were in use before it, and
`used` those that are in use now. -/
structure FilePages (used₀ used : List Nat) (v : V) : Prop where
  aligned : ∀ page ∈ vm.forEachPage v,
    page.offset % kPageSize = 0 ∧ page.sizeBytes = kPageSize
  distinct : ((vm.forEachPage v).map VmPage.offset).Nodup
  allocated : used.Perm ((vm.forEachPage v).map VmPage.pfn ++ used₀)

/-- The object is empty, and each page has been removed and its frame freed
once. -/
structure Drained (v : V) (d : Draining V) : Prop where
  empty : vm.forEachPage d.vmo = []
  removed : d.removed.Perm (vm.forEachPage v)
  once : d.removed.Nodup
  freed : d.freed = d.removed.map VmPage.pfn

end

variable {V : Type} {vm : PagedObject V}

/-! ## Write keeps the pages -/

/-- A page covers the offset whose page start it has. -/
theorem covers_pageStart {page : VmPage} {o : Nat} (hsize : page.sizeBytes = kPageSize)
    (hpage : page.offset = o - o % kPageSize) : page.Covers o := by
  have hmod : o % kPageSize < kPageSize := Nat.mod_lt _ kPageSize_pos
  have hle : o % kPageSize ≤ o := Nat.mod_le _ _
  unfold VmPage.Covers
  rw [hpage, hsize]
  omega

/-- Two aligned pages that cover an offset have the same offset. -/
theorem offset_eq_of_covers {page other : VmPage} {o : Nat}
    (halign : page.offset % kPageSize = 0 ∧ page.sizeBytes = kPageSize)
    (halign' : other.offset % kPageSize = 0 ∧ other.sizeBytes = kPageSize)
    (h : page.Covers o) (h' : other.Covers o) : page.offset = other.offset := by
  unfold VmPage.Covers at h h'
  unfold kPageSize at halign halign'
  omega

/-- A turn of `Write` finds a page, or inserts the only one for its offset. -/
theorem lookupOrInsert_filePages (hlaw : vm.Lawful) {used₀ : List Nat} {w : Writing V}
    (h : FilePages vm used₀ w.used w.vmo) (o : Nat) :
    FilePages vm used₀ (lookupOrInsert vm.toVmObject w o).2.used
      (lookupOrInsert vm.toVmObject w o).2.vmo := by
  unfold lookupOrInsert
  cases hlook : vm.lookup w.vmo o with
  | some phys => exact h
  | none =>
      unfold allocatePage
      cases hpages : w.pages with
      | nil => exact h
      | cons result rest =>
          cases result with
          | none => exact h
          | some pfn =>
              dsimp only
              rw [pageOffset_eq]
              have hnew : (o - o % kPageSize) % kPageSize = 0 := by
                rw [pageStart_eq]
                exact Nat.mul_mod_left _ _
              -- no page covers the offset, so none has the offset of the new one
              have hother : ∀ other ∈ vm.forEachPage w.vmo, other.offset ≠ o - o % kPageSize := by
                intro other hmem heq
                have hcovers := covers_pageStart (h.aligned other hmem).2 heq
                exact hlaw.lookup_covered w.vmo other hmem o hcovers hlook
              have hvisit := hlaw.visit_insert w.vmo ⟨o - o % kPageSize, kPageSize, pfn⟩ (by
                intro other hmem o' hcovers hcovers'
                exact hother other hmem
                  (offset_eq_of_covers ⟨hnew, rfl⟩ (h.aligned other hmem) hcovers hcovers').symm)
              constructor
              · intro page hmem
                rcases List.mem_cons.mp (hvisit.mem_iff.mp hmem) with rfl | hold
                · exact ⟨hnew, rfl⟩
                · exact h.aligned page hold
              · apply (hvisit.map VmPage.offset).nodup_iff.mpr
                rw [List.map_cons]
                apply List.nodup_cons.mpr
                refine ⟨?_, h.distinct⟩
                intro hmem
                rcases List.mem_map.mp hmem with ⟨other, hold, heq⟩
                exact hother other hold heq
              · have hpfns := (hvisit.map VmPage.pfn).append_right used₀
                exact (h.allocated.cons pfn).trans hpfns.symm

theorem writeLoop_filePages (hlaw : vm.Lawful) {used₀ : List Nat} (src : List UInt8)
    (offset n : Nat) {copied : Nat} {w : Writing V} (h : FilePages vm used₀ w.used w.vmo) :
    FilePages vm used₀ (writeLoop vm.toVmObject src offset n copied w).2.used
      (writeLoop vm.toVmObject src offset n copied w).2.vmo := by
  -- over the turns: each of them finds a page or inserts one of its own
  induction n generalizing copied w with
  | zero => exact h
  | succ n ih =>
      unfold writeLoop
      split
      · have hturn := lookupOrInsert_filePages hlaw h (usizeAdd offset copied)
        dsimp only
        cases hlook : lookupOrInsert vm.toVmObject w (usizeAdd offset copied) with
        | mk found w' =>
            rw [hlook] at hturn
            cases found with
            | none => exact hturn
            | some phys => exact ih hturn
      · exact h

/-- `Write` keeps the pages, also when it fails. -/
theorem write_filePages (hlaw : vm.Lawful) {used₀ : List Nat} {node : RamFsNode V} {ram : Ram}
    {v : V} (hv : node.vmo = some v) (h : FilePages vm used₀ ram.used v) (c : WriteCall) :
    ∃ v', (writeCall vm (node, ram) c).1.vmo = some v' ∧
      FilePages vm used₀ (writeCall vm (node, ram) c).2.used v' := by
  unfold writeCall write
  dsimp only
  split
  · exact ⟨v, hv, h⟩
  · rw [hv]
    dsimp only
    have hloop : FilePages vm used₀
        (writeLoop vm.toVmObject c.src c.offset c.src.length 0
          { ram with vmo := v, pages := c.pages }).2.used
        (writeLoop vm.toVmObject c.src c.offset c.src.length 0
          { ram with vmo := v, pages := c.pages }).2.vmo :=
      writeLoop_filePages hlaw c.src c.offset c.src.length h
    cases hrun : writeLoop vm.toVmObject c.src c.offset c.src.length 0
        { ram with vmo := v, pages := c.pages } with
    | mk result w =>
        rw [hrun] at hloop
        -- a write that fails keeps what it has allocated
        cases result with
        | error e => exact ⟨w.vmo, rfl, hloop⟩
        | ok copied => exact ⟨w.vmo, rfl, hloop⟩

/-- The pages after any calls on a new file. -/
theorem writeCalls_filePages (hlaw : vm.Lawful) (ram : Ram) (calls : List WriteCall) :
    ∃ v, (writeCalls vm ram calls).1.vmo = some v ∧
      FilePages vm ram.used (writeCalls vm ram calls).2.used v := by
  -- by induction on the calls, from any node
  have hrun : ∀ (s : RamFsNode V × Ram) (v : V), s.1.vmo = some v →
      FilePages vm ram.used s.2.used v →
      ∃ v', (calls.foldl (writeCall vm) s).1.vmo = some v' ∧
        FilePages vm ram.used (calls.foldl (writeCall vm) s).2.used v' := by
    induction calls with
    | nil => exact fun s v hv h => ⟨v, hv, h⟩
    | cons c calls ih =>
        intro s v hv h
        rcases write_filePages hlaw hv h c with ⟨v', hv', h'⟩
        exact ih _ v' hv' h'
  apply hrun (newNode vm.toVmObject .regular, ram) vm.new rfl
  constructor
  · intro page hmem
    rw [hlaw.visit_new] at hmem
    exact absurd hmem List.not_mem_nil
  · rw [hlaw.visit_new]
    exact List.nodup_nil
  · rw [hlaw.visit_new]
    exact List.Perm.refl _

/-! ## Draining -/

theorem collect_eq (pages : List VmPage) : collect pages = pages.take kBatch := by
  -- the visitor fills what is left of the batch, and passes over the rest
  have hfold : ∀ batch : List VmPage, batch.length ≤ kBatch →
      pages.foldl (fun batch page => if batch.length < kBatch then batch ++ [page] else batch)
        batch = batch ++ pages.take (kBatch - batch.length) := by
    induction pages with
    | nil => intro batch _; simp
    | cons page pages ih =>
        intro batch hle
        rw [List.foldl_cons]
        by_cases hlt : batch.length < kBatch
        · rw [if_pos hlt, ih (batch ++ [page]) (by simp; omega), List.append_assoc,
            List.length_append, List.length_singleton]
          have hroom : kBatch - batch.length = kBatch - (batch.length + 1) + 1 := by omega
          rw [hroom, List.take_succ_cons]
          rfl
        · -- a full batch takes no more pages
          have hfull : kBatch - batch.length = 0 := by omega
          rw [if_neg hlt, ih batch hle, hfull, List.take_zero, List.take_zero]
  exact hfold [] (Nat.zero_le _)

/-- A batch of resident pages is removed page by page. -/
theorem destroyBatch (hlaw : vm.Lawful) (batch : List VmPage) {rest : List VmPage}
    {d : Draining V} (hpages : (vm.forEachPage d.vmo).Perm (batch ++ rest)) :
    (vm.forEachPage (batch.foldl (destroyPage vm) d).vmo).Perm rest ∧
      (batch.foldl (destroyPage vm) d).removed = d.removed ++ batch ∧
      (batch.foldl (destroyPage vm) d).freed = d.freed ++ batch.map VmPage.pfn := by
  -- over the batch: each page leaves the object before the next one is removed
  induction batch generalizing d with
  | nil => exact ⟨hpages, (List.append_nil _).symm, (List.append_nil _).symm⟩
  | cons page batch ih =>
      have hmem : page ∈ vm.forEachPage d.vmo := hpages.mem_iff.mpr List.mem_cons_self
      have hleft : (vm.forEachPage (destroyPage vm d page).vmo).Perm (batch ++ rest) := by
        have herase := hpages.erase page
        rw [List.cons_append, List.erase_cons_head] at herase
        exact (hlaw.visit_remove d.vmo page hmem).trans herase
      rcases ih hleft with ⟨hrest, hremoved, hfreed⟩
      refine ⟨hrest, ?_, ?_⟩
      · rw [List.foldl_cons, hremoved]
        exact List.append_assoc _ _ _
      · rw [List.foldl_cons, hfreed]
        exact List.append_assoc _ _ _

/-- The loop ends with a turn for each batch and one more. -/
theorem drainLoop_drains (hlaw : vm.Lawful) (n : Nat) {d : Draining V}
    (hn : (vm.forEachPage d.vmo).length ≤ kBatch * n)
    (hfreed : d.freed = d.removed.map VmPage.pfn) :
    ∃ d', drainLoop vm (n + 1) d = some d' ∧ vm.forEachPage d'.vmo = [] ∧
      d'.removed.Perm (d.removed ++ vm.forEachPage d.vmo) ∧
      d'.freed = d'.removed.map VmPage.pfn := by
  induction n generalizing d with
  | zero =>
      have hnil : vm.forEachPage d.vmo = [] := List.eq_nil_of_length_eq_zero (by omega)
      refine ⟨d, ?_, hnil, ?_, hfreed⟩
      · unfold drainLoop
        rw [hnil]
        rfl
      · rw [hnil, List.append_nil]
  | succ n ih =>
      unfold drainLoop
      dsimp only
      rw [collect_eq]
      by_cases hnil : vm.forEachPage d.vmo = []
      · refine ⟨d, ?_, hnil, ?_, hfreed⟩
        · rw [hnil]
          rfl
        · rw [hnil, List.append_nil]
      · have hpos := List.length_pos_iff.mpr hnil
        have hbatch : ((vm.forEachPage d.vmo).take kBatch).length ≠ 0 := by
          rw [List.length_take]
          unfold kBatch
          omega
        rw [if_neg hbatch]
        -- the batch is removed, the rest is left for the next turns
        have hsplit : (vm.forEachPage d.vmo).Perm
            ((vm.forEachPage d.vmo).take kBatch ++ (vm.forEachPage d.vmo).drop kBatch) := by
          rw [List.take_append_drop]
        rcases destroyBatch hlaw _ hsplit with ⟨hrest, hremoved, hfrees⟩
        have hless : (vm.forEachPage (((vm.forEachPage d.vmo).take kBatch).foldl
            (destroyPage vm) d).vmo).length ≤ kBatch * n := by
          rw [hrest.length_eq, List.length_drop]
          rw [Nat.mul_succ] at hn
          omega
        have hfreed' : (((vm.forEachPage d.vmo).take kBatch).foldl (destroyPage vm) d).freed =
            (((vm.forEachPage d.vmo).take kBatch).foldl (destroyPage vm) d).removed.map
              VmPage.pfn := by
          rw [hfrees, hremoved, List.map_append, hfreed]
        rcases ih hless hfreed' with ⟨d', hrun, hempty, hperm, hall⟩
        refine ⟨d', hrun, hempty, ?_, hall⟩
        have hpages := hrest.append_left ((vm.forEachPage d.vmo).take kBatch)
        rw [List.take_append_drop] at hpages
        rw [hremoved, List.append_assoc] at hperm
        exact hperm.trans (hpages.append_left d.removed)

/-- `Destroy` of a file whose pages have distinct offsets. -/
theorem destroy_drained (hlaw : vm.Lawful) {node : RamFsNode V} {v : V}
    (hv : node.vmo = some v) (hdistinct : ((vm.forEachPage v).map VmPage.offset).Nodup) {n : Nat}
    (hn : (vm.forEachPage v).length ≤ kBatch * n) :
    ∃ d, destroy vm (n + 1) node = some (some d) ∧ Drained vm v d := by
  rcases drainLoop_drains hlaw n (d := { vmo := v }) hn rfl with
    ⟨d, hrun, hempty, hremoved, hfreed⟩
  refine ⟨d, ?_, hempty, hremoved, ?_, hfreed⟩
  · unfold destroy
    rw [hv]
    dsimp only
    rw [hrun]
    rfl
  · apply hremoved.nodup_iff.mpr
    apply List.Pairwise.of_map VmPage.offset _ hdistinct
    rintro page other hne rfl
    exact hne rfl

/-- Whatever the calls of `Write` and their results were, the pages of the file
are those that were allocated, one for each offset. `Destroy` of a file with such
pages removes each of them once and frees just the frames that the file had. -/
theorem destroy_frees_once (hlaw : vm.Lawful) :
    (∀ ram calls, ∃ v, (writeCalls vm ram calls).1.vmo = some v ∧
      FilePages vm ram.used (writeCalls vm ram calls).2.used v) ∧
    ∀ used₀ used node v, node.vmo = some v → FilePages vm used₀ used v →
      ∀ n, (vm.forEachPage v).length ≤ kBatch * n →
        ∃ d, destroy vm (n + 1) node = some (some d) ∧ Drained vm v d ∧
          used.Perm (d.freed ++ used₀) := by
  refine ⟨writeCalls_filePages hlaw, ?_⟩
  intro used₀ used node v hv hpages n hn
  rcases destroy_drained hlaw hv hpages.distinct hn with ⟨d, hrun, hdrained⟩
  refine ⟨d, hrun, hdrained, ?_⟩
  have hfrees : d.freed.Perm ((vm.forEachPage v).map VmPage.pfn) := by
    rw [hdrained.freed]
    exact hdrained.removed.map VmPage.pfn
  exact hpages.allocated.trans (hfrees.symm.append_right used₀)

/-! ## A list of pages -/

/-- A `VmObject` that keeps its pages in a list. -/
def pagedList : PagedObject (List VmPage) where
  new := []
  lookup v o := (v.find? fun page => page.Covers o).map fun page => pfnToPhysical page.pfn
  insertBlock v page := page :: v
  forEachPage v := v
  removeBlock v page := v.erase page

theorem pagedList_lawful : pagedList.Lawful where
  visit_new := rfl
  visit_insert _ _ _ := List.Perm.refl _
  visit_remove _ _ _ := List.Perm.refl _
  lookup_covered v page hpage o hcovers := by
    intro hnone
    have hfind : v.find? (fun page => page.Covers o) = none := Option.map_eq_none_iff.mp hnone
    have hnot := List.find?_eq_none.mp hfind page hpage
    exact hnot (decide_eq_true hcovers)

/-- Three calls on a new file; the second one gets no page. -/
def threeCalls : List WriteCall :=
  [⟨[1, 2], 4095, [some 7, some 8]⟩, ⟨[3], 8192, [none]⟩, ⟨[4], 4100, []⟩]

/-- Three calls to Write, and a file whose destruction ends within two turns. -/
theorem destroy_frees_once_three :
    ∃ v, (writeCalls pagedList ⟨fun _ => 0, []⟩ threeCalls).1.vmo = some v ∧
      FilePages pagedList [] (writeCalls pagedList ⟨fun _ => 0, []⟩ threeCalls).2.used v ∧
      ∃ d, destroy pagedList 2 (writeCalls pagedList ⟨fun _ => 0, []⟩ threeCalls).1 =
          some (some d) ∧ Drained pagedList v d ∧
        (writeCalls pagedList ⟨fun _ => 0, []⟩ threeCalls).2.used.Perm (d.freed ++ []) := by
  rcases (destroy_frees_once pagedList_lawful).1 ⟨fun _ => 0, []⟩ threeCalls with ⟨v, hv, hpages⟩
  have htwo : (writeCalls pagedList ⟨fun _ => 0, []⟩ threeCalls).1.vmo =
      some [⟨4096, 4096, 8⟩, ⟨0, 4096, 7⟩] := by decide
  obtain rfl := Option.some.inj (htwo.symm.trans hv)
  exact ⟨_, hv, hpages, (destroy_frees_once pagedList_lawful).2 [] _ _ _ hv hpages 1 (by decide)⟩

end Ceryx.Fs.RamFs
