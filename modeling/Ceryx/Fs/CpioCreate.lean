import Ceryx.Lib.Newc
import Ceryx.Fs.RamFsRefine
import Ceryx.Fs.VfsPaths
import Ceryx.Fs.CpioLoader

/-!
# Ceryx.Fs.CpioCreate — what `CreateEntry` does to the tree

The file system seen by paths: which paths there are, and the bytes of those
that are files.

* `Represents`: the paths that are there and the contents, with vnodes, page
  tables and memory that agree.
* `Represents.mkdir`, `Represents.create`, `Represents.write`: one operation.
* `makeDirs_spec`: the loop makes the directories above the entry.
* `createEntry_spec`: the entry is there, and what is above it.
-/

namespace Ceryx.Fs.CpioLoader

open Lib RamFs Vfs Vnodes

/-- The components of a path. -/
abbrev Path := List StringView

variable {V : Type} {vm : VmObject V} {conv : Convention} {env : CpioEnv} {root : Nat}

/-- A file of these bytes. -/
def contentOf (data : List UInt8) : SparseFile UInt8 := (SparseFile.empty 0).write 0 data

/-- An empty file has no pages. -/
theorem contentOf_nil : contentOf [] = SparseFile.empty 0 := by
  unfold contentOf SparseFile.write SparseFile.empty
  rw [blit_nil]
  rfl

/-! ## The file system by paths -/

/-- The vnodes with their paths, and the pages of the files. -/
structure Layout (V : Type) where
  tree : RamFsTree V
  pathOf : Nat → Path
  tables : Nat → Nat → Option Nat

/-- The vnodes and the memory are as `g` says, and hold the files. -/
structure Shows (vm : VmObject V) (conv : Convention) (root : Nat) (s : FsState V) (g : Layout V)
    (files : Path → Option (List UInt8)) : Prop where
  tree : s.tree = g.tree.toVnodes
  located : Vfs.Located g.tree root g.pathOf
  frames : Frames g.tables s.used
  absent : ∀ i k, g.tree.next ≤ i → g.tables i k = none
  dirs : ∀ i, i < g.tree.next → files (g.pathOf i) = none → g.tree.isDirectory i = true
  holds : ∀ i data, i < g.tree.next → files (g.pathOf i) = some data →
    Holds vm conv s.mem (g.tables i) (g.tree.node i).toRamFsNode (contentOf data)

/-- The paths that are there, and the contents of the files. -/
def Represents (vm : VmObject V) (conv : Convention) (root : Nat) (s : FsState V)
    (present : Path → Prop) (files : Path → Option (List UInt8)) : Prop :=
  ∃ g, Shows vm conv root s g files ∧ ∀ p, present p ↔ ∃ i, i < g.tree.next ∧ g.pathOf i = p

/-- A tree represents whatever agrees with it on all paths. -/
theorem Represents.congr {s : FsState V} {present present' : Path → Prop}
    {files : Path → Option (List UInt8)} (h : Represents vm conv root s present files)
    (hp : ∀ p, present' p ↔ present p) : Represents vm conv root s present' files := by
  rcases h with ⟨g, hg, hpresent⟩
  refine ⟨g, hg, ?_⟩
  intro p
  rw [hp, hpresent]

/-- The paths that are there are those that are found. -/
theorem Represents.present_iff {s : FsState V} {present : Path → Prop}
    {files : Path → Option (List UInt8)} (h : Represents vm conv root s present files) (p : Path) :
    present p ↔ ∃ i, s.tree.walk root p = .ok i := by
  rcases h with ⟨g, hg, hpresent⟩
  rw [hpresent, hg.tree]
  constructor
  · rintro ⟨i, hi, hpath⟩
    exact ⟨i, (hg.located.walk_root_iff p i).mpr ⟨hi, hpath⟩⟩
  · rintro ⟨i, hwalk⟩
    exact ⟨i, (hg.located.walk_root_iff p i).mp hwalk⟩

/-! ## A new vnode -/

/-- A new child of a directory: a directory, or a file without bytes. -/
theorem Shows.grow (hlaw : vm.Lawful conv) {s : FsState V} {g : Layout V}
    {files files' : Path → Option (List UInt8)} (h : Shows vm conv root s g files)
    {type : VnodeType} {dir : Nat} (hdir : g.tree.isDirectory dir = true) {name : StringView}
    (hfree : g.tree.toVnodes.child dir name = none)
    (hold : ∀ p, p ≠ g.pathOf dir ++ [name] → files' p = files p)
    (hnew : type = .directory ∧ files' (g.pathOf dir ++ [name]) = none ∨
      type = .regular ∧ files' (g.pathOf dir ++ [name]) = some []) :
    Shows vm conv root { s with tree := withChild vm g.tree.toVnodes type dir name }
      ⟨g.tree.grow vm type hdir hfree,
        Function.update g.pathOf g.tree.next (g.pathOf dir ++ [name]), g.tables⟩ files' := by
  have hlt := g.tree.dir_lt dir hdir
  have hpathOld : ∀ i, i < g.tree.next →
      Function.update g.pathOf g.tree.next (g.pathOf dir ++ [name]) i = g.pathOf i := by
    intro i hi
    exact Function.update_of_ne (Nat.ne_of_lt hi) _ _
  have hfilesOld : ∀ i, i < g.tree.next → files' (g.pathOf i) = files (g.pathOf i) := by
    intro i hi
    exact hold _ (h.located.not_taken hlt hfree hi)
  have hcases : ∀ i, i < g.tree.next + 1 → i < g.tree.next ∨ i = g.tree.next := by
    intro i hi
    exact Nat.lt_or_eq_of_le (Nat.le_of_lt_succ hi)
  have hnode : (withChild vm g.tree.toVnodes type dir name).node g.tree.next =
      { newNode vm type with name := name } := withChild_new vm _ type name hlt
  constructor
  · rfl
  · exact h.located.grow type hdir hfree
  · exact h.frames
  · -- no table belongs to a vnode that is still to come
    intro i k hi
    exact h.absent i k (Nat.le_of_succ_le hi)
  · -- paths without content are directories
    intro i hi hnone
    change (withChild vm g.tree.toVnodes type dir name).isDirectory i = true
    rcases hcases i hi with hold' | hi'
    · dsimp only at hnone
      rw [hpathOld i hold', hfilesOld i hold'] at hnone
      rw [withChild_isDirectory vm _ type name (Nat.ne_of_lt hold')]
      exact h.dirs i hold' hnone
    · rcases hnew with ⟨htype, -⟩ | ⟨-, hsome⟩
      · -- the new vnode is one
        unfold Vnodes.isDirectory
        rw [hi', hnode, htype]
        rfl
      · exfalso
        dsimp only at hnone
        rw [hi', Function.update_self, hsome] at hnone
        cases hnone
  · -- the others hold their content
    intro i data hi hsome
    change Holds vm conv s.mem (g.tables i)
      ((withChild vm g.tree.toVnodes type dir name).node i).toRamFsNode (contentOf data)
    dsimp only at hsome
    rcases hcases i hi with hold' | hi'
    · rw [hpathOld i hold', hfilesOld i hold'] at hsome
      rw [(withChild_old vm _ type name (Nat.ne_of_lt hold')).1]
      exact h.holds i data hold' hsome
    · rw [hi', Function.update_self] at hsome
      rcases hnew with ⟨-, hnone⟩ | ⟨htype, hnil⟩
      · rw [hnone] at hsome
        cases hsome
      · -- the new file is empty
        rw [hnil] at hsome
        cases hsome
        rw [hi', hnode, htype, contentOf_nil]
        exact holds_new hlaw s.mem fun k => h.absent g.tree.next k (Nat.le_refl _)

/-- The new path is there, and found. -/
theorem grow_present {s : FsState V} {g : Layout V} {present : Path → Prop}
    {files : Path → Option (List UInt8)} {type : VnodeType} {dir : Nat}
    (hdir : g.tree.isDirectory dir = true) {name : StringView}
    (hfree : g.tree.toVnodes.child dir name = none) {p : Path} (hp : g.pathOf dir = p)
    (hpresent : ∀ q, present q ↔ ∃ i, i < g.tree.next ∧ g.pathOf i = q)
    (h : Shows vm conv root { s with tree := withChild vm g.tree.toVnodes type dir name }
      ⟨g.tree.grow vm type hdir hfree,
        Function.update g.pathOf g.tree.next (g.pathOf dir ++ [name]), g.tables⟩ files) :
    (withChild vm g.tree.toVnodes type dir name).walk root (p ++ [name]) = .ok g.tree.next ∧
      Represents vm conv root { s with tree := withChild vm g.tree.toVnodes type dir name }
        (fun q => present q ∨ q = p ++ [name]) files := by
  subst hp
  refine ⟨?_, _, h, ?_⟩
  · have hwalk := h.located.walk_root_iff (g.pathOf dir ++ [name]) g.tree.next
    exact hwalk.mpr ⟨Nat.lt_succ_self _, Function.update_self _ _ _⟩
  · intro q
    change (present q ∨ q = g.pathOf dir ++ [name]) ↔ ∃ i, i < g.tree.next + 1 ∧
      Function.update g.pathOf g.tree.next (g.pathOf dir ++ [name]) i = q
    rw [hpresent]
    constructor
    · rintro (⟨i, hi, hq⟩ | hq)
      · -- an old path
        refine ⟨i, Nat.lt_succ_of_lt hi, ?_⟩
        rw [Function.update_of_ne (Nat.ne_of_lt hi)]
        exact hq
      · refine ⟨g.tree.next, Nat.lt_succ_self _, ?_⟩
        rw [Function.update_self]
        exact hq.symm
    · rintro ⟨i, hi, hq⟩
      rcases Nat.lt_or_eq_of_le (Nat.le_of_lt_succ hi) with hlt | heq
      · rw [Function.update_of_ne (Nat.ne_of_lt hlt)] at hq
        exact Or.inl ⟨i, hlt, hq⟩
      · rw [heq, Function.update_self] at hq
        exact Or.inr hq.symm

/-! ## The operations -/

/-- With memory enough a child is made with the next node. -/
theorem addChild_ok (henv : env.Succeeds) (t : Vnodes V) (type : VnodeType) (dir : Nat)
    (name : StringView) : addChild vm t type dir name (env.vnodeAlloc t.next) =
      (.ok t.next, withChild vm t type dir name) := by
  unfold addChild
  rw [henv.vnodes]
  rfl

/-- `Mkdir` in a directory: the directory is there, now or before. -/
theorem Represents.mkdir (hlaw : vm.Lawful conv) (henv : env.Succeeds) {s : FsState V}
    {present : Path → Prop} {files : Path → Option (List UInt8)}
    (h : Represents vm conv root s present files) {p : Path} {name : StringView} {i : Nat}
    (hwalk : s.tree.walk root p = .ok i) (hp : files p = none) (hnew : files (p ++ [name]) = none) :
    s.tree.isDirectory i = true ∧ ∃ j t',
      Vnodes.mkdir vm s.tree i name (env.vnodeAlloc s.tree.next) = (.ok j, t') ∧
        t'.walk root (p ++ [name]) = .ok j ∧
          Represents vm conv root { s with tree := t' } (fun q => present q ∨ q = p ++ [name])
            files := by
  rcases h with ⟨g, hg, hpresent⟩
  have htree := hg.tree
  rw [htree] at hwalk ⊢
  rcases (hg.located.walk_root_iff p i).mp hwalk with ⟨hi, hpath⟩
  have hdir : g.tree.isDirectory i = true := by
    apply hg.dirs i hi
    rw [hpath]
    exact hp
  refine ⟨hdir, ?_⟩
  unfold Vnodes.mkdir
  rw [if_neg (by rw [hdir]; exact Bool.noConfusion)]
  rcases Option.eq_none_or_eq_some (g.tree.toVnodes.child i name) with hfree | ⟨c, hc⟩
  · -- a new directory
    simp only [hfree]
    rw [addChild_ok henv]
    have hnone : files (g.pathOf i ++ [name]) = none := by
      rw [hpath]
      exact hnew
    have hgrow := hg.grow hlaw hdir hfree (fun _ _ => rfl) (Or.inl ⟨rfl, hnone⟩)
    rcases grow_present hdir hfree hpath hpresent hgrow with ⟨hfound, hrep⟩
    exact ⟨_, _, rfl, hfound, hrep⟩
  · simp only [hc]
    -- the child is there
    rcases (hg.located.child_iff hi name c).mp hc with ⟨hclt, hcpath⟩
    rw [hpath] at hcpath
    refine ⟨c, _, rfl, (hg.located.walk_root_iff _ c).mpr ⟨hclt, hcpath⟩, g, ?_, ?_⟩
    · exact ⟨rfl, hg.located, hg.frames, hg.absent, hg.dirs, hg.holds⟩
    · intro q
      rw [← hpresent, or_iff_left_iff_imp]
      intro hq
      rw [hq, hpresent]
      exact ⟨c, hclt, hcpath⟩

/-- In a directory the loop does what `Mkdir` does. -/
theorem lookupOrMkdir_eq {t : Vnodes V} {dir : Nat} (hdir : t.isDirectory dir = true)
    (name : StringView) :
    lookupOrMkdir vm env t dir name = Vnodes.mkdir vm t dir name (env.vnodeAlloc t.next) := by
  have hnot : ¬ t.isDirectory dir = false := by
    rw [hdir]
    exact Bool.noConfusion
  unfold lookupOrMkdir lookup
  rw [if_neg hnot]
  rcases Option.eq_none_or_eq_some (t.child dir name) with hnone | ⟨c, hc⟩
  · rw [hnone]
  · rw [hc]
    dsimp only
    unfold Vnodes.mkdir
    rw [if_neg hnot, hc]

/-- `Create` of a path that is not there. -/
theorem Represents.create (hlaw : vm.Lawful conv) (henv : env.Succeeds) {s : FsState V}
    {present : Path → Prop} {files : Path → Option (List UInt8)}
    (h : Represents vm conv root s present files) {p : Path} {name : StringView} {i : Nat}
    (hwalk : s.tree.walk root p = .ok i) (hp : files p = none) (hnew : ¬ present (p ++ [name])) :
    ∃ j t', Vnodes.create vm s.tree i name (env.vnodeAlloc s.tree.next) = (.ok j, t') ∧
      t'.walk root (p ++ [name]) = .ok j ∧
        Represents vm conv root { s with tree := t' } (fun q => present q ∨ q = p ++ [name])
          (Function.update files (p ++ [name]) (some [])) := by
  rcases h with ⟨g, hg, hpresent⟩
  rw [hg.tree] at hwalk ⊢
  rcases (hg.located.walk_root_iff p i).mp hwalk with ⟨hi, hpath⟩
  -- the path is no file, so what it names is a directory
  have hdir : g.tree.isDirectory i = true := by
    apply hg.dirs i hi
    rw [hpath]
    exact hp
  -- and the new path is not there, so the name is free in it
  have hfree : g.tree.toVnodes.child i name = none := by
    rcases Option.eq_none_or_eq_some (g.tree.toVnodes.child i name) with hnone | ⟨c, hc⟩
    · exact hnone
    · exfalso
      rcases (hg.located.child_iff hi name c).mp hc with ⟨hclt, hcpath⟩
      rw [hpath] at hcpath
      exact hnew ((hpresent _).mpr ⟨c, hclt, hcpath⟩)
  unfold Vnodes.create
  rw [if_neg (by rw [hdir]; exact Bool.noConfusion)]
  simp only [hfree]
  rw [addChild_ok henv, ← hpath]
  have hgrow := hg.grow hlaw hdir hfree
    (fun q hq => Function.update_of_ne hq (some []) files)
    (Or.inr ⟨rfl, Function.update_self _ _ _⟩)
  rcases grow_present hdir hfree rfl hpresent hgrow with ⟨hfound, hrep⟩
  exact ⟨_, _, rfl, hfound, hrep⟩

/-! ## Write -/

/-- The results of `AllocatePage` are frames that no file has, one for each
byte. -/
theorem pages_spec (henv : env.Succeeds) (n : Nat) (used : List Nat) :
    (env.pages n used).length = n ∧ (∀ p ∈ env.pages n used, p ≠ none) ∧
      Fresh used (env.pages n used) := by
  induction n generalizing used with
  | zero =>
      refine ⟨rfl, ?_, List.nodup_nil, ?_⟩
      · intro p hp
        cases hp
      · intro pfn hpfn
        cases hpfn
  | succ n ih =>
      rcases henv.frames used with ⟨pfn, halloc, hpfn⟩
      rcases ih (pfn :: used) with ⟨hlen, hsome, hnodup, hfresh⟩
      unfold CpioEnv.pages
      simp only [halloc]
      refine ⟨?_, ?_, ?_, ?_⟩
      · rw [List.length_cons, hlen]
      · -- every result is a frame
        intro p hp
        rcases List.mem_cons.mp hp with heq | hmem
        · rw [heq]
          exact Option.some_ne_none pfn
        · exact hsome p hmem
      · -- the first frame is in use when the others are taken
        rw [List.filterMap_cons, id_eq, List.nodup_cons]
        refine ⟨?_, hnodup⟩
        intro hmem
        exact hfresh pfn hmem List.mem_cons_self
      · intro q hq
        rw [List.filterMap_cons, id_eq, List.mem_cons] at hq
        rcases hq with heq | hmem
        · rw [heq]
          exact hpfn
        · intro hused
          exact hfresh q hmem (List.mem_cons_of_mem pfn hused)

/-- `Write` to a file without bytes. -/
theorem Represents.write (hlaw : vm.Lawful conv) (henv : env.Succeeds) {s : FsState V}
    {present : Path → Prop} {files : Path → Option (List UInt8)}
    (h : Represents vm conv root s present files) {p : Path} {j : Nat}
    (hwalk : s.tree.walk root p = .ok j) (hp : files p = some []) {data : List UInt8}
    (hdata : data.length < 2 ^ 64) :
    Represents vm conv root (writeVnode vm env s j data) present
      (Function.update files p (some data)) := by
  rcases h with ⟨g, hg, hpresent⟩
  rw [hg.tree] at hwalk
  rcases (hg.located.walk_root_iff p j).mp hwalk with ⟨hj, hpath⟩
  have hold := hg.holds j [] hj (by rw [hpath]; exact hp)
  rw [contentOf_nil] at hold
  rcases pages_spec henv data.length s.used with ⟨hlen, hsome, hfresh⟩
  rcases hold.pages with ⟨vmo, hvmo, -⟩
  rcases @write_ok V vm s.toRam _ vmo hold.type hvmo data 0 _ hsome (Nat.le_of_eq hlen.symm) with
    ⟨copied, node', ram', hwrite⟩
  rcases write_spec hlaw hold hg.frames (by rw [Nat.zero_add]; exact hdata) hfresh
    (Or.inr (Or.inl (Nat.zero_mod _))) hwrite with ⟨tables', hstored, hframes, hnew, htype⟩
  have hstate : writeVnode vm env s j data =
      { ram' with tree := g.tree.toVnodes.setNode j node' } := by
    unfold writeVnode
    rw [hg.tree, hwrite]
  rw [hstate]
  have hnode : node'.type = (g.tree.node j).type := htype
  refine ⟨⟨g.tree.setNode j node' hnode, g.pathOf, tables'⟩, ?_, hpresent⟩
  have hself : ∀ i, i < g.tree.next → g.pathOf i = p → i = j := by
    intro i hi hip
    exact hg.located.inj i j hi hj (hip.trans hpath.symm)
  constructor
  · rfl
  · exact hg.located.setNode j node' hnode
  · exact hframes
  · intro i k hi
    change tables' i k = none
    rw [hstored.kept i (Nat.ne_of_gt (Nat.lt_of_lt_of_le hj hi))]
    exact hg.absent i k hi
  · intro i hi hnone
    by_cases hip : g.pathOf i = p
    · -- the written path has content
      exfalso
      dsimp only at hnone
      rw [hip, Function.update_self] at hnone
      cases hnone
    · dsimp only at hnone
      rw [Function.update_of_ne hip] at hnone
      have hdir := hg.dirs i hi hnone
      unfold Vnodes.isDirectory at hdir ⊢
      rw [← setNode_type g.tree.toVnodes j node' hnode i] at hdir
      exact hdir
  · intro i content hi hcontent
    change Holds vm conv ram'.mem (tables' i)
      ((g.tree.toVnodes.setNode j node').node i).toRamFsNode (contentOf content)
    dsimp only at hcontent
    by_cases hij : i = j
    · -- the written file
      rw [hij, hpath, Function.update_self] at hcontent
      cases hcontent
      rw [hij, setNode_self]
      exact hnew
    · -- the other files have their frames to themselves
      have hip : g.pathOf i ≠ p := fun hip => hij (hself i hi hip)
      rw [Function.update_of_ne hip] at hcontent
      rw [setNode_other g.tree.toVnodes j node' hij]
      exact (hg.holds i content hi hcontent).other hstored hij

/-! ## The directories above an entry -/

/-- The loop over the components ends at the last one, which it leaves to the caller. -/
theorem makeDirs_last {path leaf : StringView} {n offset : Nat} (current : Nat) (t : Vnodes V)
    (hleaf : path.drop offset = leaf) (hout : slash ∉ leaf) :
    makeDirs vm env path n offset current t = (some (current, offset), t) := by
  cases n with
  | zero => rfl
  | succ n =>
      unfold makeDirs
      have hnone : find path slash offset = none := by
        rcases Option.eq_none_or_eq_some (find path slash offset) with hnone | ⟨k, hk⟩
        · exact hnone
        · exfalso
          rcases find_some hk with ⟨-, -, -, hsplit⟩
          apply hout
          rw [← hleaf, hsplit]
          exact List.mem_append_right _ List.mem_cons_self
      rw [hnone]

/-- Before that, each component is looked up, or made, and descended into. -/
theorem makeDirs_step {path name rest : StringView} {n offset current c : Nat} {t t' : Vnodes V}
    (hsplit : path.drop offset = name ++ slash :: rest) (hout : slash ∉ name) (hempty : name ≠ [])
    (hdot : name ≠ dot) (hmk : lookupOrMkdir vm env t current name = (.ok c, t')) :
    makeDirs vm env path (n + 1) offset current t =
      makeDirs vm env path n (offset + name.length + 1) c t' := by
  rcases find_append hsplit hout with ⟨hfind, hsub, -⟩
  conv => lhs; unfold makeDirs
  rw [hfind]
  dsimp only
  rw [Nat.add_sub_cancel_left, hsub, if_neg (not_or.mpr ⟨hempty, hdot⟩), hmk]

/-- The loop makes the directories of all components but the last. -/
theorem makeDirs_spec (hlaw : vm.Lawful conv) (henv : env.Succeeds) {path : StringView}
    {files : Path → Option (List UInt8)} (names : Path) (leaf : StringView)
    (hleaf : Newc.ValidName leaf) (hnames : ∀ c ∈ names, Newc.ValidName c) {n offset : Nat}
    (hn : names.length ≤ n) {s : FsState V} {present : Path → Prop}
    (h : Represents vm conv root s present files) {p : Path} {i : Nat}
    (hpath : path.drop offset = [slash].intercalate (names ++ [leaf]))
    (hwalk : s.tree.walk root p = .ok i) (hfiles : ∀ q, q <+: names → files (p ++ q) = none) :
    ∃ j offset' t', makeDirs vm env path n offset i s.tree = (some (j, offset'), t') ∧
      path.drop offset' = leaf ∧ t'.walk root (p ++ names) = .ok j ∧
        Represents vm conv root { s with tree := t' }
          (fun q => present q ∨ ∃ r, r <+: names ∧ q = p ++ r) files := by
  induction names generalizing n offset s present p i with
  | nil =>
      -- only the leaf is left
      rw [List.nil_append, List.intercalate_singleton] at hpath
      refine ⟨i, offset, s.tree, makeDirs_last i s.tree hpath hleaf.2.2.1, hpath, ?_, ?_⟩
      · rw [List.append_nil]
        exact hwalk
      · apply h.congr
        intro q
        constructor
        · rintro (hq | ⟨r, hr, hq⟩)
          · exact hq
          · rw [hq, List.prefix_nil.mp hr, List.append_nil, h.present_iff]
            exact ⟨i, hwalk⟩
        · exact Or.inl
  | cons c names ih =>
      rcases List.forall_mem_cons.mp hnames with ⟨⟨hempty, -, hout, hdot⟩, hrest⟩
      cases n with
      | zero => cases hn
      | succ n =>
          rw [List.cons_append, List.intercalate_cons_of_ne_nil (List.concat_ne_nil _ _),
            List.append_assoc] at hpath
          have hp : files p = none := by
            have hnil := hfiles [] List.nil_prefix
            rw [List.append_nil] at hnil
            exact hnil
          have hpc := hfiles [c] (List.singleton_prefix_cons_iff.mpr rfl)
          -- `c` is made or found, and the rest of the path is below it
          rcases h.mkdir hlaw henv hwalk hp hpc with ⟨hdir, k, t₁, hmk, hwalk₁, hrep₁⟩
          rw [← lookupOrMkdir_eq hdir] at hmk
          rcases find_append hpath hout with ⟨-, -, hdrop⟩
          have hfiles₁ : ∀ q, q <+: names → files ((p ++ [c]) ++ q) = none := by
            intro q hq
            rw [List.append_assoc]
            exact hfiles (c :: q) (List.cons_prefix_cons.mpr ⟨rfl, hq⟩)
          rcases ih hrest (Nat.le_of_succ_le_succ hn) hrep₁ hdrop hwalk₁ hfiles₁ with
            ⟨j, offset', t', hloop, hlast, hwalk', hrep'⟩
          refine ⟨j, offset', t', ?_, hlast, ?_, ?_⟩
          · rw [makeDirs_step hpath hout hempty hdot hmk]
            exact hloop
          · rw [List.append_assoc] at hwalk'
            exact hwalk'
          · apply hrep'.congr
            intro q
            constructor
            · rintro (hq | ⟨r, hr, hq⟩)
              · exact Or.inl (Or.inl hq)
              · rcases r with _ | ⟨d, r⟩
                · -- the directory the loop started in
                  left
                  left
                  rw [hq, List.append_nil, h.present_iff]
                  exact ⟨i, hwalk⟩
                · rcases List.cons_prefix_cons.mp hr with ⟨hd, hr⟩
                  rw [hd] at hq
                  right
                  refine ⟨r, hr, ?_⟩
                  rw [List.append_assoc]
                  exact hq
            · rintro ((hq | hq) | ⟨r, hr, hq⟩)
              · exact Or.inl hq
              · exact Or.inr ⟨[c], List.singleton_prefix_cons_iff.mpr rfl, hq⟩
              · rw [List.append_assoc] at hq
                exact Or.inr ⟨c :: r, List.cons_prefix_cons.mpr ⟨rfl, hr⟩, hq⟩

/-! ## The entry -/

/-- The contents with those of the entry. -/
def withEntry (files : Path → Option (List UInt8)) (e : Newc.Entry) : Path → Option (List UInt8) :=
  match e.node with
  | .dir => files
  | .file content => Function.update files e.names (some content)

/-- A path of two components or more has a slash in it. -/
theorem slash_mem_path {c d : StringView} (names : Path) :
    slash ∈ [slash].intercalate (c :: d :: names) := by
  rw [List.intercalate_cons_of_ne_nil (List.cons_ne_nil _ _)]
  exact List.mem_append_left _ (List.mem_append_right _ (List.mem_singleton_self slash))

/-- No path of valid names is the entry for the directory itself. -/
theorem path_ne_dot {names : Path} (hnames : ∀ c ∈ names, Newc.ValidName c)
    (hne : names ≠ []) : [slash].intercalate names ≠ dot := by
  rcases names with _ | ⟨c, _ | ⟨d, rest⟩⟩
  · exact absurd rfl hne
  · rw [List.intercalate_singleton]
    exact (hnames c List.mem_cons_self).2.2.2
  · -- two components have a slash between them
    intro hdot
    have hmem := @slash_mem_path c d rest
    rw [hdot] at hmem
    exact slash_notMem_dot hmem

/-- A path has no fewer bytes than components. -/
theorem names_length_le (names : Path) (leaf : StringView) :
    names.length ≤ ([slash].intercalate (names ++ [leaf])).length := by
  induction names with
  | nil => exact Nat.zero_le _
  | cons c names ih =>
      rw [List.cons_append, List.intercalate_cons_of_ne_nil (List.concat_ne_nil _ _),
        List.length_append, List.length_append, List.length_cons, List.length_singleton]
      omega

/-- The last component, in its directory. -/
theorem createLeaf_spec (hlaw : vm.Lawful conv) (henv : env.Succeeds) {s : FsState V}
    {present : Path → Prop} {files : Path → Option (List UInt8)}
    (h : Represents vm conv root s present files) {e : Newc.Entry} {p : Path} {leaf : StringView}
    (hnames : e.names = p ++ [leaf]) {i : Nat} (hwalk : s.tree.walk root p = .ok i)
    (hp : files p = none) {mode : Nat} (hmode : mode &&& 0xF000 = e.node.format)
    (hdir : e.node = .dir → files e.names = none) (hfile : e.node ≠ .dir → ¬ present e.names)
    (hcontent : e.content.length < 2 ^ 64) :
    Represents vm conv root (createLeaf vm env s i leaf mode e.content)
      (fun q => present q ∨ q = e.names) (withEntry files e) := by
  unfold createLeaf withEntry
  cases hnode : e.node with
  | dir =>
      rw [hnode] at hmode
      change mode &&& 0xF000 = 0x4000 at hmode
      have hnone := hdir hnode
      rw [hnames] at hnone ⊢
      -- S_IFDIR
      rcases h.mkdir hlaw henv hwalk hp hnone with ⟨-, j, t', hmk, -, hrep⟩
      rw [if_pos hmode, hmk]
      exact hrep
  | file content =>
      rw [hnode] at hmode
      change mode &&& 0xF000 = 0x8000 at hmode
      have hne : ¬ mode &&& 0xF000 = 0x4000 := by
        rw [hmode]
        decide
      have hnew := hfile (by rw [hnode]; exact Newc.Node.noConfusion)
      have hbytes : e.content = content := by
        unfold Newc.Entry.content
        rw [hnode]
      rw [hbytes] at hcontent
      rw [hnames] at hnew ⊢
      -- S_IFREG: an empty file, then its bytes
      rcases h.create hlaw henv hwalk hp hnew with ⟨j, t', hcreate, hwalk', hrep⟩
      have hwritten := hrep.write hlaw henv hwalk' (Function.update_self _ _ _) hcontent
      rw [Function.update_idem] at hwritten
      rw [if_neg hne, if_pos hmode, hcreate, hbytes]
      exact hwritten

/-- `CreateEntry`: the entry is there, and the directories above it. -/
theorem createEntry_spec (hlaw : vm.Lawful conv) (henv : env.Succeeds) {s : FsState V}
    {present : Path → Prop} {files : Path → Option (List UInt8)}
    (h : Represents vm conv root s present files) (hroot : s.tree.walk root [] = .ok root)
    {e : Newc.Entry} (hne : e.names ≠ []) (hvalid : ∀ c ∈ e.names, Newc.ValidName c) {mode : Nat}
    (hmode : mode &&& 0xF000 = e.node.format)
    (habove : ∀ q, q <+: e.names → q ≠ e.names → files q = none)
    (hdir : e.node = .dir → files e.names = none) (hfile : e.node ≠ .dir → ¬ present e.names)
    (hcontent : e.content.length < 2 ^ 64) :
    Represents vm conv root (createEntry vm env s root e.path mode e.content)
      (fun q => present q ∨ q <+: e.names) (withEntry files e) := by
  rcases List.eq_nil_or_concat' e.names with hnil | ⟨names, leaf, hnames⟩
  · exact absurd hnil hne
  · have hleaf : Newc.ValidName leaf := by
      apply hvalid
      rw [hnames]
      exact List.mem_append_right _ (List.mem_singleton_self leaf)
    have hfront : ∀ c ∈ names, Newc.ValidName c := by
      intro c hc
      apply hvalid
      rw [hnames]
      exact List.mem_append_left _ hc
    have hpath : e.path.drop 0 = [slash].intercalate (names ++ [leaf]) := by
      unfold Newc.Entry.path
      rw [hnames]
      rfl
    have hfiles : ∀ q, q <+: names → files ([] ++ q) = none := by
      intro q hq
      apply habove q
      · rw [hnames]
        exact hq.trans (List.prefix_append names [leaf])
      · intro heq
        have hlen := hq.length_le
        rw [heq, hnames, List.length_append, List.length_singleton] at hlen
        omega
    have hfuel : names.length ≤ e.path.length + 1 := by
      have hlen := names_length_le names leaf
      rw [← hpath, List.drop_zero] at hlen
      exact Nat.le_succ_of_le hlen
    have hdot : e.path ≠ dot := path_ne_dot hvalid hne
    rcases makeDirs_spec hlaw henv names leaf hleaf hfront hfuel h hpath hroot hfiles with
      ⟨j, offset, t', hloop, hlast, hwalk, hrep⟩
    have hp : files names = none := by
      have hself := hfiles names (List.prefix_refl names)
      exact hself
    rw [List.nil_append] at hwalk
    have hnew : e.node ≠ .dir → ¬ (present e.names ∨ ∃ r, r <+: names ∧ e.names = [] ++ r) := by
      intro hnode
      rintro (hpresent | ⟨r, hr, heq⟩)
      · exact hfile hnode hpresent
      · -- the entry is longer than the directories above it
        have hlen := hr.length_le
        rw [List.nil_append] at heq
        rw [← heq, hnames, List.length_append, List.length_singleton] at hlen
        omega
    have hleafSpec := createLeaf_spec hlaw henv hrep hnames hwalk hp hmode hdir hnew hcontent
    unfold createEntry
    rw [if_neg hdot, hloop]
    dsimp only
    rw [hlast, if_neg hleaf.1]
    apply hleafSpec.congr
    intro q
    rw [hnames, List.prefix_concat_iff]
    constructor
    · rintro (hq | hq | hq)
      · exact Or.inl (Or.inl hq)
      · exact Or.inr hq
      · exact Or.inl (Or.inr ⟨q, hq, rfl⟩)
    · rintro ((hq | ⟨r, hr, hq⟩) | hq)
      · exact Or.inl hq
      · rw [List.nil_append] at hq
        rw [hq]
        exact Or.inr (Or.inr hr)
      · exact Or.inr (Or.inl hq)

end Ceryx.Fs.CpioLoader
