import Ceryx.Fs.CpioRoundTrip

/-!
# Ceryx.Fs.CpioOver — an archive unpacked into a tree that is not empty

`start_kernel` makes directories before it calls `Populate`, and an archive made
from a directory has entries for the directories too, so that most of these are
there already. Only the files have to be new.

* `Unpacks`: entries that have their place in the tree.
* `presentAfter`, `filesAfter`: the tree with the entries. `ShowsFiles`: what is found
  in it.
* `Unpacks.step`: one entry, and the others after it.
* `populate_represents`, `populate_over`: `Populate` yields the tree with the entries,
  and what was there is as it was.
* `topDirs`: the directories that `start_kernel` makes.
-/

namespace Ceryx.Fs.CpioLoader

open Lib RamFs Vfs Vnodes

variable {V : Type} {vm : VmObject V} {conv : Convention} {env : CpioEnv} {root : Nat}

/-! ## What is expected -/

/-- The paths that are there when the entries have been made. -/
def presentAfter (present : Path → Prop) (es : List Newc.Entry) (p : Path) : Prop :=
  present p ∨ ∃ e ∈ es, p <+: e.names

/-- The contents of the files then. -/
def filesAfter (files : Path → Option (List UInt8)) (es : List Newc.Entry) :
    Path → Option (List UInt8) := es.foldl withEntry files

/-- The entries have their place in the tree: only directories occur twice or are there
already, and no entry is below a file. -/
structure Unpacks (present : Path → Prop) (files : Path → Option (List UInt8))
    (es : List Newc.Entry) : Prop where
  names : ∀ e ∈ es, e.names ≠ [] ∧ ∀ c ∈ e.names, Newc.ValidName c
  once : es.Pairwise fun e e' => e.node ≠ .dir ∨ e'.node ≠ .dir → e.names ≠ e'.names
  leaf : ∀ e ∈ es, ∀ e' ∈ es, e.node ≠ .dir → e.names <+: e'.names → e.names = e'.names
  new : ∀ e ∈ es, e.node ≠ .dir → ¬ present e.names
  below : ∀ e ∈ es, ∀ p, p <+: e.names → files p = none

/-- What is found below the root: the paths that are there, and at the end of each a
directory or a file of these bytes. -/
structure ShowsFiles (vm : VmObject V) (conv : Convention) (root : Nat) (s : FsState V)
    (present : Path → Prop) (files : Path → Option (List UInt8)) : Prop where
  found : ∀ p, present p ↔ ∃ v, s.tree.walk root p = .ok v
  dirs : ∀ p v, s.tree.walk root p = .ok v → files p = none → s.tree.isDirectory v = true
  files : ∀ p v content, s.tree.walk root p = .ok v → files p = some content →
    HoldsFile vm conv s v content
  distinct : ∀ p q v, s.tree.walk root p = .ok v → s.tree.walk root q = .ok v → p = q

/-! ## Contents -/

theorem withEntry_other {files : Path → Option (List UInt8)} {e : Newc.Entry} {p : Path}
    (h : e.node ≠ .dir → p ≠ e.names) : withEntry files e p = files p := by
  unfold withEntry
  cases hnode : e.node with
  | dir => rfl
  | file content =>
      apply Function.update_of_ne
      exact h (by rw [hnode]; exact Newc.Node.noConfusion)

theorem filesAfter_other {files : Path → Option (List UInt8)} {es : List Newc.Entry} {p : Path}
    (h : ∀ e ∈ es, e.node ≠ .dir → p ≠ e.names) : filesAfter files es p = files p := by
  induction es generalizing files with
  | nil => rfl
  | cons e es ih =>
      rcases List.forall_mem_cons.mp h with ⟨hhead, htail⟩
      exact (ih htail).trans (withEntry_other hhead)

/-- A file that was there keeps its content. -/
theorem Unpacks.kept {present : Path → Prop} {files : Path → Option (List UInt8)}
    {es : List Newc.Entry} (h : Unpacks present files es) {p : Path} {content : List UInt8}
    (hp : files p = some content) : filesAfter files es p = some content := by
  rw [filesAfter_other, hp]
  rintro e he - rfl
  -- the entry would be at a file
  have hnone := h.below e he e.names (List.prefix_refl _)
  rw [hp] at hnone
  cases hnone

/-- A file of the archive has the content of its entry. -/
theorem Unpacks.unpacked {present : Path → Prop} {files : Path → Option (List UInt8)}
    {es : List Newc.Entry} (h : Unpacks present files es) {e : Newc.Entry} (he : e ∈ es)
    {content : List UInt8} (hnode : e.node = .file content) :
    filesAfter files es e.names = some content := by
  rcases List.append_of_mem he with ⟨before, after, rfl⟩
  have hrest := (List.pairwise_append.mp h.once).2.1
  have hbehind := (List.pairwise_cons.mp hrest).1
  unfold filesAfter
  rw [List.foldl_append, List.foldl_cons]
  change filesAfter (withEntry _ e) after e.names = _
  rw [filesAfter_other]
  · unfold withEntry
    rw [hnode]
    exact Function.update_self _ _ _
  · -- the entries behind it are elsewhere
    intro e' he' hfile
    exact hbehind e' he' (Or.inr hfile)

/-! ## From paths to the tree -/

/-- A file is found, with pages in frames that are taken. -/
theorem Represents.file {s : FsState V} {present : Path → Prop}
    {files : Path → Option (List UInt8)} (h : Represents vm conv root s present files) {p : Path}
    (hp : present p) {content : List UInt8} (hcontent : files p = some content) :
    ∃ v table, s.tree.walk root p = .ok v ∧
      Holds vm conv s.mem table (s.tree.node v).toRamFsNode (contentOf content) ∧
        ∀ k pfn, table k = some pfn → pfn ∈ s.used := by
  rcases h with ⟨g, hg, hpresent⟩
  rcases (hpresent p).mp hp with ⟨i, hi, hpath⟩
  refine ⟨i, g.tables i, ?_, ?_, fun k pfn hk => hg.frames.taken i k pfn hk⟩
  · rw [hg.tree]
    exact (hg.located.walk_root_iff p i).mpr ⟨hi, hpath⟩
  · rw [hg.tree]
    exact hg.holds i content hi (by rw [hpath]; exact hcontent)

theorem Represents.showsFiles {s : FsState V} {present : Path → Prop}
    {files : Path → Option (List UInt8)} (h : Represents vm conv root s present files) :
    ShowsFiles vm conv root s present files where
  found := h.present_iff
  dirs := by
    rcases h with ⟨g, hg, -⟩
    intro p v hv hnone
    rw [hg.tree] at hv ⊢
    rcases (hg.located.walk_root_iff p v).mp hv with ⟨hlt, hpath⟩
    exact hg.dirs v hlt (by rw [hpath]; exact hnone)
  files := by
    intro p v content hv hsome
    rcases h.file ((h.present_iff p).mpr ⟨v, hv⟩) hsome with ⟨v', table, hv', hholds, -⟩
    obtain rfl : v = v' := Except.ok.inj (hv.symm.trans hv')
    -- reading all of it gives the content
    have hread := Holds.read_all hholds
    rw [contentOf_size, contentOf_get] at hread
    exact ⟨⟨_, hholds⟩, hholds.size.trans (contentOf_size content), hread⟩
  distinct := by
    rcases h with ⟨g, hg, -⟩
    intro p q v hp hq
    rw [hg.tree] at hp hq
    have hpath := ((hg.located.walk_root_iff p v).mp hp).2
    exact hpath.symm.trans ((hg.located.walk_root_iff q v).mp hq).2

/-! ## The loop -/

/-- When the first entry has been made, the others have their place in the new tree. -/
theorem Unpacks.step {present : Path → Prop} {files : Path → Option (List UInt8)}
    {e : Newc.Entry} {es : List Newc.Entry} (h : Unpacks present files (e :: es)) :
    Unpacks (fun p => present p ∨ p <+: e.names) (withEntry files e) es := by
  have hmem : ∀ e' ∈ es, e' ∈ e :: es := fun e' he' => List.mem_cons_of_mem e he'
  rcases List.pairwise_cons.mp h.once with ⟨hfirst, honce⟩
  constructor
  · exact fun e' he' => h.names e' (hmem e' he')
  · exact honce
  · exact fun e₁ h₁ e₂ h₂ => h.leaf e₁ (hmem e₁ h₁) e₂ (hmem e₂ h₂)
  · -- a file is not above the entry
    intro e' he' hfile hpresent
    rcases hpresent with hold | habove
    · exact h.new e' (hmem e' he') hfile hold
    · have heq := h.leaf e' (hmem e' he') e List.mem_cons_self hfile habove
      exact hfirst e' he' (Or.inr hfile) heq.symm
  · -- and the entry, if it is a file, not above another one
    intro e' he' p hp
    rw [withEntry_other]
    · exact h.below e' (hmem e' he') p hp
    · rintro hfile rfl
      have heq := h.leaf e List.mem_cons_self e' (hmem e' he') hfile hp
      exact hfirst e' he' (Or.inl hfile) heq

/-- `CreateEntry` of the first entry. -/
theorem Represents.unpack (hlaw : vm.Lawful conv) (henv : env.Succeeds) {s : FsState V}
    {present : Path → Prop} {files : Path → Option (List UInt8)} {e : Newc.Entry}
    {es : List Newc.Entry} (hes : Unpacks present files (e :: es))
    (h : Represents vm conv root s present files) {mode : Nat}
    (hmode : mode &&& 0xF000 = e.node.format) (hcontent : e.content.length < 2 ^ 64) :
    Represents vm conv root (createEntry vm env s root e.path mode e.content)
      (fun p => present p ∨ p <+: e.names) (withEntry files e) := by
  have hself : e ∈ e :: es := List.mem_cons_self
  rcases hes.names e hself with ⟨hne, hvalid⟩
  exact createEntry_spec hlaw henv h rfl hne hvalid hmode
    (fun q hq _ => hes.below e hself q hq)
    (fun _ => hes.below e hself e.names (List.prefix_refl _)) (hes.new e hself) hcontent

theorem presentAfter_cons (present : Path → Prop) (e : Newc.Entry) (es : List Newc.Entry)
    (p : Path) : presentAfter present (e :: es) p ↔
      presentAfter (fun p => present p ∨ p <+: e.names) es p := by
  unfold presentAfter
  rw [List.exists_mem_cons_iff, or_assoc]

theorem populateLoop_over (hlaw : vm.Lawful conv) (henv : env.Succeeds) {image : Image}
    {last : Nat} (hbound : last < 2 ^ 64) {es : List Newc.Entry} {bytes : List UInt8}
    (harchive : Newc.Archive es bytes) {present : Path → Prop}
    {files : Path → Option (List UInt8)} {ptr n : Nat} {s : FsState V}
    (hes : Unpacks present files es) (htrailer : ∀ e ∈ es, ¬ trailer <+: e.path)
    (hat : StoredAt image ptr bytes) (haligned : ptr % 4 = 0) (hlast : ptr + bytes.length ≤ last)
    (hfuel : es.length < n) (h : Represents vm conv root s present files) :
    ∃ s', populateLoop vm env image root last n ptr s = some s' ∧
      Represents vm conv root s' (presentAfter present es) (filesAfter files es) := by
  induction harchive generalizing present files ptr n s with
  -- the end marker: no entry is left
  | trailer tail hh =>
      rcases n with _ | n
      · cases hfuel
      · refine ⟨s, populateLoop_trailer vm env s hh hat, h.congr ?_⟩
        intro p
        simp [presentAfter]
  -- an entry is unpacked, and the induction is on what follows it
  | entry hh hmode hrest ih =>
      rename_i e header mode es bytes
      rcases n with _ | n
      · cases hfuel
      · rcases List.forall_mem_cons.mp htrailer with ⟨hname, hnames⟩
        rcases populateLoop_entry vm env s hh hat haligned hlast hbound
            (Nat.le_trans (by decide) hrest.length_ge) hname with
          ⟨next, hnextAligned, hnextAt, hnextLast, hturn⟩
        have hcontent : e.content.length < 2 ^ 64 := Nat.lt_trans hh.filesize.lt (by decide)
        have hcreated := h.unpack hlaw henv hes hmode hcontent
        rw [hturn]
        rcases ih hes.step hnames hnextAt hnextAligned (by rw [hnextLast]; exact hlast)
          (Nat.lt_of_succ_lt_succ hfuel) hcreated with ⟨s', hloop, hrep⟩
        exact ⟨s', hloop, hrep.congr (presentAfter_cons present e es)⟩

/-- `Populate` of an archive. -/
theorem populate_represents (hlaw : vm.Lawful conv) (henv : env.Succeeds) {s : FsState V}
    {present : Path → Prop} {files : Path → Option (List UInt8)}
    (h : Represents vm conv root s present files) {es : List Newc.Entry}
    (hes : Unpacks present files es) (htrailer : ∀ e ∈ es, ¬ trailer <+: e.path)
    {bytes : List UInt8} {image : Image} {address : Nat} (harchive : Newc.Archive es bytes)
    (hat : StoredAt image address bytes) (haligned : address % 4 = 0)
    (hbound : address + bytes.length < 2 ^ 64) :
    ∃ s', populate vm env image root address bytes.length s = some s' ∧
      Represents vm conv root s' (presentAfter present es) (filesAfter files es) := by
  have hlast : usizeAdd address bytes.length = address + bytes.length := usizeAdd_eq hbound
  have hfuel : es.length < bytes.length + 1 := Nat.lt_succ_of_le harchive.entries_le
  exact populateLoop_over hlaw henv (by rw [hlast]; exact hbound) harchive hes htrailer hat
    haligned (Nat.le_of_eq hlast.symm) hfuel h

/-- `Populate` of any archive of entries that have their place in a tree: afterwards the
tree has the entries and the directories above them, each file of the archive reads as its
bytes, and so does each file that was there before. -/
theorem populate_over (hlaw : vm.Lawful conv) (henv : env.Succeeds) {s : FsState V}
    {present : Path → Prop} {files : Path → Option (List UInt8)}
    (h : Represents vm conv root s present files) {es : List Newc.Entry}
    (hes : Unpacks present files es) (htrailer : ∀ e ∈ es, ¬ trailer <+: e.path)
    {bytes : List UInt8} {image : Image} {address : Nat} (harchive : Newc.Archive es bytes)
    (hat : StoredAt image address bytes) (haligned : address % 4 = 0)
    (hbound : address + bytes.length < 2 ^ 64) :
    ∃ s', populate vm env image root address bytes.length s = some s' ∧
      ShowsFiles vm conv root s' (presentAfter present es) (filesAfter files es) ∧
      (∀ p content, files p = some content → filesAfter files es p = some content) ∧
      ∀ e ∈ es, ∀ content, e.node = .file content →
        filesAfter files es e.names = some content := by
  rcases populate_represents hlaw henv h hes htrailer harchive hat haligned hbound with
    ⟨s', hpopulate, hrep⟩
  exact ⟨s', hpopulate, hrep.showsFiles, fun _ _ => hes.kept, fun _ he _ => hes.unpacked he⟩

/-! ## The directories of start_kernel -/

/-- The calls of `Mkdir` on the root. -/
def topDirs (vm : VmObject V) (env : CpioEnv) (root : Nat) (s : FsState V)
    (names : List StringView) : FsState V :=
  names.foldl (fun s name =>
    { s with tree := (Vnodes.mkdir vm s.tree root name (env.vnodeAlloc s.tree.next)).2 }) s

/-- "dev", "proc", "sbin", "bin", "tmp" and "etc". -/
def startKernelDirs : List StringView :=
  [[100, 101, 118], [112, 114, 111, 99], [115, 98, 105, 110], [98, 105, 110], [116, 109, 112],
    [101, 116, 99]]

theorem topDirs_represents (hlaw : vm.Lawful conv) (henv : env.Succeeds) {s : FsState V}
    {present : Path → Prop} {files : Path → Option (List UInt8)}
    (h : Represents vm conv root s present files) (hroot : files [] = none)
    {names : List StringView} (hnames : ∀ name ∈ names, files [name] = none) :
    Represents vm conv root (topDirs vm env root s names)
      (fun p => present p ∨ ∃ name ∈ names, p = [name]) files := by
  induction names generalizing s present with
  | nil =>
      apply h.congr
      intro p
      simp
  -- `lookupOrMkdir` makes one directory, or finds it
  | cons name names ih =>
      rcases List.forall_mem_cons.mp hnames with ⟨hname, hrest⟩
      rcases h.mkdir hlaw henv rfl hroot hname with ⟨-, j, t', hmk, -, hrep⟩
      have hnext := ih hrep hrest
      unfold topDirs at hnext ⊢
      rw [List.foldl_cons, hmk]
      apply hnext.congr
      intro p
      rw [List.exists_mem_cons_iff, or_assoc]
      rfl

/-- "sbin" and "init". -/
def sbinInit : Path := [[115, 98, 105, 110], [105, 110, 105, 116]]

/-- An archive with `/sbin/init` and an entry for its directory. -/
def initArchive (file : List UInt8) : List Newc.Entry :=
  [⟨[[115, 98, 105, 110]], .dir⟩, ⟨sbinInit, .file file⟩]

/-- The paths of the six directories and of the root. -/
def startKernelPaths (p : Path) : Prop :=
  Newc.treeOf [] p ≠ none ∨ ∃ name ∈ startKernelDirs, p = [name]

theorem initArchive_unpacks (file : List UInt8) :
    Unpacks startKernelPaths (Newc.contentsOf []) (initArchive file) where
  names := by
    intro e he
    rcases List.mem_cons.mp he with rfl | hlast
    · decide
    · obtain rfl := List.mem_singleton.mp hlast
      change sbinInit ≠ [] ∧ ∀ c ∈ sbinInit, Newc.ValidName c
      decide
  once := by
    refine List.pairwise_pair.mpr fun _ => ?_
    change [[115, 98, 105, 110]] ≠ sbinInit
    decide
  leaf := by
    intro e he e' he' hfile hprefix
    -- of the two entries the second is the file
    rcases List.mem_cons.mp he with rfl | hlast
    · exact absurd rfl hfile
    · obtain rfl := List.mem_singleton.mp hlast
      rcases List.mem_cons.mp he' with rfl | hlast'
      · exact absurd hprefix (by change ¬ sbinInit <+: [[115, 98, 105, 110]]; decide)
      · obtain rfl := List.mem_singleton.mp hlast'
        rfl
  new := by
    intro e he hfile hpresent
    rcases List.mem_cons.mp he with rfl | hlast
    · exact hfile rfl
    · obtain rfl := List.mem_singleton.mp hlast
      rcases hpresent with htree | ⟨name, -, hp⟩
      · exact htree (Newc.treeOf_none_iff.mpr ⟨List.cons_ne_nil _ _, by simp⟩)
      · cases hp
  below _ _ _ _ := rfl

/-- The directories that `start_kernel` makes before `Populate`. Its nodes of devices and
`/proc/version` are left out: a tree of directories and RAM files does not have them. -/
def startKernelTree : FsState (List VmPage) :=
  topDirs (pageList .basePlusOffset) nextFrame 0
    { zeroRam with tree := (RamFsTree.emptyRoot (List VmPage)).toVnodes } startKernelDirs

theorem startKernelTree_represents :
    Represents (pageList .basePlusOffset) .basePlusOffset 0 startKernelTree startKernelPaths
      (Newc.contentsOf []) :=
  topDirs_represents (pageList_lawful .basePlusOffset) nextFrame_succeeds
    (emptyRoot_represents (pageList .basePlusOffset) .basePlusOffset zeroRam) rfl
    fun _ _ => rfl

/-- The directory is there already, and the file is new. -/
theorem init_unpacked :
    ∃ s', populate (pageList .basePlusOffset) nextFrame
          (imageOf (Newc.encode (initArchive [1, 2]))) 0 0
          (Newc.encode (initArchive [1, 2])).length startKernelTree = some s' ∧
      ShowsFiles (pageList .basePlusOffset) .basePlusOffset 0 s'
        (presentAfter startKernelPaths (initArchive [1, 2]))
        (filesAfter (Newc.contentsOf []) (initArchive [1, 2])) ∧
      (∀ p content, Newc.contentsOf [] p = some content →
        filesAfter (Newc.contentsOf []) (initArchive [1, 2]) p = some content) ∧
      ∀ e ∈ initArchive [1, 2], ∀ content, e.node = .file content →
        filesAfter (Newc.contentsOf []) (initArchive [1, 2]) e.names = some content :=
  populate_over (pageList_lawful .basePlusOffset) nextFrame_succeeds startKernelTree_represents
    (initArchive_unpacks [1, 2]) (by decide) (Newc.archive_encode (by decide))
    (imageOf_storedAt _) rfl (by decide +kernel)

end Ceryx.Fs.CpioLoader
