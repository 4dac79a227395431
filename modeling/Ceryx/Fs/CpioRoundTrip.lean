import Mathlib.Data.List.MinMax
import Ceryx.Fs.CpioParse
import Ceryx.Fs.CpioCreate

/-!
# Ceryx.Fs.CpioRoundTrip — the loader inverts the archive format

* `ShowsTree`: the vnodes are exactly those of a tree, and the files hold its
  bytes.
* `populateLoop_represents`: the loop over an archive, entry by entry.
* `populate_tree`: `Populate` of an archive of well-formed entries on an empty
  root yields their tree, if no path begins with the name of the trailer.
* `trailer_name_not_loaded`: an entry with that name ends the loop.
-/

namespace Ceryx.Fs.CpioLoader

open Lib RamFs Vfs Vnodes

variable {V : Type} {vm : VmObject V} {conv : Convention} {env : CpioEnv} {root : Nat}

/-! ## What is expected -/

/-- The file has these bytes: in its pages, and by `Read`. -/
structure HoldsFile (vm : VmObject V) (conv : Convention) (s : FsState V) (vnode : Nat)
    (content : List UInt8) : Prop where
  holds : ∃ table, Holds vm conv s.mem table (s.tree.node vnode).toRamFsNode (contentOf content)
  size : (s.tree.node vnode).size = content.length
  read : RamFs.read vm s.mem (s.tree.node vnode).toRamFsNode content.length 0 =
    .ok (content.length, content)

/-- Below the root there is exactly the tree. -/
structure ShowsTree (vm : VmObject V) (conv : Convention) (root : Nat) (s : FsState V)
    (tree : Path → Option Newc.Node) : Prop where
  absent : ∀ p, tree p = none → ∀ v, s.tree.walk root p ≠ .ok v
  dirs : ∀ p, tree p = some .dir →
    ∃ v, s.tree.walk root p = .ok v ∧ s.tree.isDirectory v = true
  files : ∀ p content, tree p = some (.file content) →
    ∃ v, s.tree.walk root p = .ok v ∧ HoldsFile vm conv s v content
  distinct : ∀ p q v, s.tree.walk root p = .ok v → s.tree.walk root q = .ok v → p = q
  names_nodup : ∀ v, ((s.tree.node v).children.map fun c => (s.tree.node c).name).Nodup

/-- `Populate` of any archive of the entries, anywhere in memory, on an empty
root yields their tree. -/
def LoadsTree (vm : VmObject V) (conv : Convention) (env : CpioEnv) (es : List Newc.Entry) : Prop :=
  ∀ (bytes : List UInt8) (image : Image) (address : Nat) (ram : Ram), Newc.Archive es bytes →
    StoredAt image address bytes → address % 4 = 0 → address + bytes.length < 2 ^ 64 →
      ∃ s, populate vm env image 0 address bytes.length
          { ram with tree := (RamFsTree.emptyRoot V).toVnodes } = some s ∧
        ShowsTree vm conv 0 s (Newc.treeOf es)

/-! ## Contents -/

/-- A content is as long as its bytes. -/
theorem contentOf_size (content : List UInt8) : (contentOf content).size = content.length := by
  unfold contentOf SparseFile.write SparseFile.empty
  dsimp only
  rw [Nat.zero_add, Nat.max_eq_right (Nat.zero_le _)]

/-- And holds them. -/
theorem contentOf_get (content : List UInt8) :
    slice (contentOf content).get 0 content.length = content := by
  unfold slice
  apply List.ext_getElem
  · rw [List.length_map, List.length_range]
  · intro j hj hj'
    rw [List.getElem_map, List.getElem_range]
    exact blit_inside _ 0 hj'

/-! ## From paths to the tree -/

/-- A state that represents an archive's tree shows it to `Lookup` and to reads. -/
theorem Represents.showsTree {s : FsState V} {es : List Newc.Entry}
    (h : Represents vm conv root s (fun p => Newc.treeOf es p ≠ none) (Newc.contentsOf es)) :
    ShowsTree vm conv root s (Newc.treeOf es) := by
  have hpresent := h.present_iff
  rcases h with ⟨g, hg, -⟩
  have hwalk : ∀ p v, s.tree.walk root p = .ok v ↔ v < g.tree.next ∧ g.pathOf v = p := by
    intro p v
    rw [hg.tree]
    exact hg.located.walk_root_iff p v
  constructor
  · -- what is not in the archive is not found
    intro p hnone v hv
    exact (hpresent p).mpr ⟨v, hv⟩ hnone
  · -- directories
    intro p hdir
    have hne : Newc.treeOf es p ≠ none := by
      rw [hdir]
      exact Option.some_ne_none _
    rcases (hpresent p).mp hne with ⟨v, hv⟩
    rcases (hwalk p v).mp hv with ⟨hlt, hpath⟩
    refine ⟨v, hv, ?_⟩
    rw [hg.tree]
    apply hg.dirs v hlt
    rw [hpath]
    rcases Option.eq_none_or_eq_some (Newc.contentsOf es p) with hnone | ⟨content, hsome⟩
    · exact hnone
    · rw [← Newc.treeOf_file_iff, hdir] at hsome
      cases hsome
  · -- files: their vnode holds the content, so `Read` returns it
    intro p content hfile
    have hne : Newc.treeOf es p ≠ none := by
      rw [hfile]
      exact Option.some_ne_none _
    rcases (hpresent p).mp hne with ⟨v, hv⟩
    rcases (hwalk p v).mp hv with ⟨hlt, hpath⟩
    rw [Newc.treeOf_file_iff, ← hpath] at hfile
    have hholds := hg.holds v content hlt hfile
    have hread := Holds.read_all hholds
    rw [contentOf_size, contentOf_get] at hread
    refine ⟨v, hv, ?_⟩
    rw [← hg.tree] at hholds hread
    exact ⟨⟨_, hholds⟩, hholds.size.trans (contentOf_size content), hread⟩
  · -- a vnode has one path
    intro p q v hp hq
    exact ((hwalk p v).mp hp).2.symm.trans ((hwalk q v).mp hq).2
  · intro v
    rw [hg.tree]
    exact g.tree.names_nodup v

/-! ## The loop -/

/-- The root alone represents the empty archive. -/
theorem emptyRoot_represents (vm : VmObject V) (conv : Convention) (ram : Ram) :
    Represents vm conv 0 { ram with tree := (RamFsTree.emptyRoot V).toVnodes }
      (fun p => Newc.treeOf [] p ≠ none) (Newc.contentsOf []) := by
  refine ⟨⟨RamFsTree.emptyRoot V, fun _ => [], fun _ _ => none⟩, ?_, ?_⟩
  · constructor
    · rfl
    · -- the root alone, with the empty path
      constructor
      · exact Nat.one_pos
      · rfl
      · intro i j hi hj _
        exact (Nat.lt_one_iff.mp hi).trans (Nat.lt_one_iff.mp hj).symm
      · intro i j _
        constructor
        · intro hmem
          cases hmem
        · rintro ⟨-, c, hpath⟩
          cases hpath
      · intro j p c _ hpath
        exact absurd hpath.symm (List.concat_ne_nil c p)
      · intro j p c _ hpath
        exact absurd hpath.symm (List.concat_ne_nil c p)
    · constructor
      · intro i k j l p hp
        cases hp
      · intro i k p hp
        cases hp
    · intro i k _
      rfl
    · intro i hi _
      have hzero : i = 0 := Nat.lt_one_iff.mp hi
      rw [hzero]
      rfl
    · intro i content _ hsome
      cases hsome
  · -- the empty archive has the root only
    intro p
    change ¬ Newc.treeOf [] p = none ↔ ∃ i, i < 1 ∧ [] = p
    rw [Newc.treeOf_none_iff]
    constructor
    · intro h
      refine ⟨0, Nat.one_pos, ?_⟩
      by_contra hne
      apply h
      refine ⟨fun hp => hne hp.symm, ?_⟩
      intro e he
      cases he
    · rintro ⟨i, -, hp⟩ ⟨hne, -⟩
      exact hne hp.symm

/-- `CreateEntry` of the next entry. -/
theorem Represents.entry (hlaw : vm.Lawful conv) (henv : env.Succeeds) {s : FsState V}
    {es rest : List Newc.Entry} {e : Newc.Entry} (hwf : Newc.WellFormed (es ++ e :: rest))
    (h : Represents vm conv root s (fun p => Newc.treeOf es p ≠ none) (Newc.contentsOf es))
    {mode : Nat} (hmode : mode &&& 0xF000 = e.node.format) (hcontent : e.content.length < 2 ^ 64) :
    Represents vm conv root (createEntry vm env s root e.path mode e.content)
      (fun p => Newc.treeOf (es ++ [e]) p ≠ none) (Newc.contentsOf (es ++ [e])) := by
  have hself : e ∈ es ++ e :: rest := List.mem_append_right _ List.mem_cons_self
  have hother : ∀ e' ∈ es, e' ∈ es ++ e :: rest := fun e' he' => List.mem_append_left _ he'
  have hdistinct : ∀ e' ∈ es, e'.names ≠ e.names := by
    intro e' he'
    exact (List.pairwise_append.mp hwf.distinct).2.2 e' he' e List.mem_cons_self
  rcases hwf.names e hself with ⟨hne, hvalid⟩
  have hroot : s.tree.walk root [] = .ok root := rfl
  have habove : ∀ q, q <+: e.names → q ≠ e.names → Newc.contentsOf es q = none := by
    intro q hq hqne
    rcases Option.eq_none_or_eq_some (Newc.contentsOf es q) with hnone | ⟨content, hsome⟩
    · exact hnone
    · -- a file above the entry
      exfalso
      rcases Newc.contentsOf_some hsome with ⟨e', he', hnames, hnode⟩
      have hleaf := hwf.leaf e' (hother e' he') e hself (by rw [hnode]; exact Newc.Node.noConfusion)
      rw [hnames] at hleaf
      exact hqne (hleaf hq)
  have hfile : e.node ≠ .dir → ¬ Newc.treeOf es e.names ≠ none := by
    intro hnode hpresent
    apply hpresent
    rw [Newc.treeOf_none_iff]
    refine ⟨hne, ?_⟩
    intro e' he' hprefix
    exact hdistinct e' he' (hwf.leaf e hself e' (hother e' he') hnode hprefix).symm
  have hcreated := createEntry_spec hlaw henv h hroot hne hvalid hmode habove
    (fun _ => Newc.contentsOf_none hdistinct) hfile hcontent
  have hfiles : Newc.contentsOf (es ++ [e]) = withEntry (Newc.contentsOf es) e := by
    funext q
    rw [Newc.contentsOf_append hdistinct]
    unfold withEntry
    by_cases hq : q = e.names
    · -- the entry's own path
      rw [if_pos hq, hq, Newc.contentsOf_self]
      cases e.node with
      | dir => exact (Newc.contentsOf_none hdistinct).symm
      | file content =>
          dsimp only
          rw [Function.update_self]
    · rw [if_neg hq]
      cases e.node with
      | dir => rfl
      | file content =>
          dsimp only
          rw [Function.update_of_ne hq]
  rw [hfiles]
  apply hcreated.congr
  intro q
  have hiff : Newc.treeOf (es ++ [e]) q = none ↔ Newc.treeOf es q = none ∧ ¬ q <+: e.names := by
    rw [Newc.treeOf_none_iff, Newc.treeOf_none_iff, List.forall_mem_append, List.forall_mem_singleton,
      and_assoc]
  rw [ne_eq, hiff, not_and_or, not_not]

/-- The loop over the rest of an archive. -/
theorem populateLoop_represents (hlaw : vm.Lawful conv) (henv : env.Succeeds) {image : Image}
    {last : Nat} (hbound : last < 2 ^ 64) {rest : List Newc.Entry} {bytes : List UInt8}
    (harchive : Newc.Archive rest bytes) {es : List Newc.Entry} {ptr n : Nat} {s : FsState V}
    (hwf : Newc.WellFormed (es ++ rest)) (htrailer : ∀ e ∈ rest, ¬ trailer <+: e.path)
    (hat : StoredAt image ptr bytes) (haligned : ptr % 4 = 0) (hlast : ptr + bytes.length ≤ last)
    (hfuel : rest.length < n)
    (h : Represents vm conv root s (fun p => Newc.treeOf es p ≠ none) (Newc.contentsOf es)) :
    ∃ s', populateLoop vm env image root last n ptr s = some s' ∧
      Represents vm conv root s' (fun p => Newc.treeOf (es ++ rest) p ≠ none)
        (Newc.contentsOf (es ++ rest)) := by
  induction harchive generalizing es ptr n s with
  | trailer tail hh =>
      -- the loop breaks
      rw [List.append_nil]
      rcases n with _ | n
      · cases hfuel
      · exact ⟨s, populateLoop_trailer vm env s hh hat, h⟩
  | entry hh hmode hrest ih =>
      rename_i e header mode rest bytes
      -- one turn creates the entry, and the archive goes on at `next`
      rcases n with _ | n
      · cases hfuel
      · rcases List.forall_mem_cons.mp htrailer with ⟨hname, hnames⟩
        rcases populateLoop_entry vm env s hh hat haligned hlast hbound
            (Nat.le_trans (by decide) hrest.length_ge) hname with
          ⟨next, hnextAligned, hnextAt, hnextLast, hturn⟩
        have hcontent : e.content.length < 2 ^ 64 := Nat.lt_trans hh.filesize.lt (by decide)
        have hcreated := h.entry hlaw henv hwf hmode hcontent
        have hsplit : es ++ e :: rest = es ++ [e] ++ rest := by
          rw [List.append_assoc]
          rfl
        rw [hsplit] at hwf ⊢
        rw [hturn]
        exact ih hwf hnames hnextAt hnextAligned (by rw [hnextLast]; exact hlast)
          (Nat.lt_of_succ_lt_succ hfuel) hcreated

/-- `Populate` inverts the format, where no path begins with the name of the
trailer. -/
theorem populate_tree (hlaw : vm.Lawful conv) (henv : env.Succeeds) {es : List Newc.Entry}
    (hwf : Newc.WellFormed es) (htrailer : ∀ e ∈ es, ¬ trailer <+: e.path) :
    LoadsTree vm conv env es := by
  intro bytes image address ram harchive hat haligned hbound
  have hlast : usizeAdd address bytes.length = address + bytes.length := usizeAdd_eq hbound
  have hfuel : es.length < bytes.length + 1 := Nat.lt_succ_of_le harchive.entries_le
  have hwf' : Newc.WellFormed ([] ++ es) := hwf
  rcases populateLoop_represents hlaw henv (by rw [hlast]; exact hbound) harchive hwf' htrailer hat
      haligned (Nat.le_of_eq hlast.symm) hfuel (emptyRoot_represents vm conv ram) with
    ⟨s, hloop, hrep⟩
  exact ⟨s, hloop, hrep.showsTree⟩

/-! ## Two archives -/

/-- A frame above those that are taken. -/
def nextFrame : CpioEnv where
  vnodeAlloc _ := ⟨true, true⟩
  allocatePage used := some (used.foldr max 0 + 1)

/-- An allocator that counts frames up succeeds. -/
theorem nextFrame_succeeds : nextFrame.Succeeds where
  vnodes _ := rfl
  frames used := by
    refine ⟨_, rfl, ?_⟩
    intro hmem
    exact Nat.not_succ_le_self _ (List.le_max_of_le' 0 hmem (Nat.le_refl _))

/-- Memory with these bytes from address 0 on. -/
def imageOf (bytes : List UInt8) : Image := fun a => bytes.getD a 0

/-- The archive in memory is where it was put. -/
theorem imageOf_storedAt (bytes : List UInt8) : StoredAt (imageOf bytes) 0 bytes := by
  unfold StoredAt slice imageOf
  apply List.ext_getElem
  · rw [List.length_map, List.length_range]
  · intro j hj hj'
    rw [List.getElem_map, List.getElem_range, Nat.zero_add, List.getD_eq_getElem?_getD,
      List.getElem?_eq_getElem hj', Option.getD_some]

/-- The file "a/b", without an entry for "a". -/
def oneFile : List Newc.Entry := [⟨[[97], [98]], .file [1, 2]⟩]

/-- The archive of one file, loaded into the empty root, shows that file. -/
theorem oneFile_loaded : ∃ s, populate (pageList .base) nextFrame (imageOf (Newc.encode oneFile)) 0 0
      (Newc.encode oneFile).length
      { zeroRam with tree := (RamFsTree.emptyRoot (List VmPage)).toVnodes } = some s ∧
    ShowsTree (pageList .base) .base 0 s (Newc.treeOf oneFile) :=
  populate_tree (pageList_lawful .base) nextFrame_succeeds
    (by
      constructor
      · decide
      · exact List.pairwise_singleton _ _
      · decide)
    (by decide) (Newc.encode oneFile) (imageOf (Newc.encode oneFile)) 0 zeroRam
    (Newc.archive_encode (by decide)) (imageOf_storedAt _) rfl (by decide +kernel)

/-- A file with the name of the trailer. -/
def trailerFile : List Newc.Entry := [⟨[trailer], .file []⟩]

/-- The loop ends at an entry with the name of the trailer. -/
theorem trailer_name_not_loaded : Newc.WellFormed trailerFile ∧
    ¬ LoadsTree (pageList .base) .base nextFrame trailerFile := by
  constructor
  · constructor
    · decide
    · exact List.pairwise_singleton _ _
    · decide
  · -- after the loop the file is not found
    intro h
    rcases h (Newc.encode trailerFile) (imageOf (Newc.encode trailerFile)) 0 zeroRam
        (Newc.archive_encode (by decide)) (imageOf_storedAt _) rfl (by decide +kernel) with
      ⟨s, hrun, hshows⟩
    rcases hshows.files [trailer] [] (by decide) with ⟨v, hv, -⟩
    have habsent : (populate (pageList .base) nextFrame (imageOf (Newc.encode trailerFile)) 0 0
        (Newc.encode trailerFile).length
        { zeroRam with tree := (RamFsTree.emptyRoot (List VmPage)).toVnodes }).map
          (fun s => (s.tree.walk 0 [trailer]).toOption) = some none := by
      decide +kernel
    rw [hrun, Option.map_some, hv] at habsent
    cases habsent

end Ceryx.Fs.CpioLoader
