import Mathlib.Algebra.Group.Nat.Defs
import Mathlib.Data.List.Infix
import Mathlib.Tactic.Tauto

/-!
# Ceryx.Lib.Newc — the SVR4 "newc" archive format

An archive is a list of entries and a trailer. An entry is a header of thirteen
fields of eight hexadecimal digits, the path with a NUL, and the content; path
and content are padded to four bytes.

* `Archive`: the bytes that are an archive of a list of entries. Digits are in
  either case; the fields that say nothing about the tree are free.
* `encode`: one such archive.
* `WellFormed`, `treeOf`: entries that make a tree, and this tree, with the
  directories that have no entry of their own.
-/

namespace Ceryx.Lib.Newc

abbrev Name := List UInt8

/-! ## Hexadecimal fields -/

/-- A digit, in either case. -/
def HexDigit (d : Nat) (c : UInt8) : Prop :=
  (d < 10 ∧ c.toNat = 48 + d) ∨ (10 ≤ d ∧ d < 16 ∧ (c.toNat = 87 + d ∨ c.toNat = 55 + d))

/-- The digits of a number, the first digit first. -/
inductive HexDigits : Nat → List UInt8 → Prop
  | nil : HexDigits 0 []
  | snoc {v : Nat} {cs : List UInt8} {d : Nat} {c : UInt8} (h : HexDigits v cs)
      (hd : HexDigit d c) : HexDigits (16 * v + d) (cs ++ [c])

/-- A field of eight digits. -/
structure HexField (v : Nat) (cs : List UInt8) : Prop where
  digits : HexDigits v cs
  length : cs.length = 8

/-! ## Headers -/

/-- "070701". -/
def magic : List UInt8 := [48, 55, 48, 55, 48, 49]

structure Header where
  ino : List UInt8
  mode : List UInt8
  uid : List UInt8
  gid : List UInt8
  nlink : List UInt8
  mtime : List UInt8
  filesize : List UInt8
  devmajor : List UInt8
  devminor : List UInt8
  rdevmajor : List UInt8
  rdevminor : List UInt8
  namesize : List UInt8
  check : List UInt8

def Header.bytes (h : Header) : List UInt8 :=
  magic ++ (h.ino ++ (h.mode ++ (h.uid ++ (h.gid ++ (h.nlink ++ (h.mtime ++ (h.filesize ++
    (h.devmajor ++ (h.devminor ++ (h.rdevmajor ++ (h.rdevminor ++ (h.namesize ++ h.check))))))))))))

/-- The fields that are free hold any numbers. -/
structure Header.Encodes (h : Header) (mode filesize namesize : Nat) : Prop where
  mode : HexField mode h.mode
  filesize : HexField filesize h.filesize
  namesize : HexField namesize h.namesize
  free : ∀ f ∈ [h.ino, h.uid, h.gid, h.nlink, h.mtime, h.devmajor, h.devminor, h.rdevmajor,
    h.rdevminor, h.check], ∃ v, HexField v f

/-! ## Entries -/

/-- What is at a path. -/
inductive Node where
  | dir
  | file (content : List UInt8)
deriving DecidableEq, Repr

/-- The components of the path, and what is there. -/
structure Entry where
  names : List Name
  node : Node
deriving DecidableEq, Repr

/-- The character '/'. -/
def separator : UInt8 := 47

def Entry.path (e : Entry) : Name := [separator].intercalate e.names

def Entry.content (e : Entry) : List UInt8 :=
  match e.node with
  | .dir => []
  | .file content => content

/-- The type of the file in the mode: S_IFDIR or S_IFREG. -/
def Node.format : Node → Nat
  | .dir => 0x4000
  | .file _ => 0x8000

/-- Zeroes up to the next multiple of four. -/
def padding (n : Nat) : List UInt8 := List.replicate ((4 - n % 4) % 4) 0

/-- A path in the archive, behind a header of 110 bytes. -/
def pathBytes (path : Name) : List UInt8 := path ++ 0 :: padding (110 + (path.length + 1))

def contentBytes (content : List UInt8) : List UInt8 := content ++ padding content.length

/-- "TRAILER!!!". -/
def trailer : Name := [84, 82, 65, 73, 76, 69, 82, 33, 33, 33]

/-- The bytes are an archive of the entries. Anything may follow the trailer. -/
inductive Archive : List Entry → List UInt8 → Prop
  | trailer {h : Header} {mode : Nat} (rest : List UInt8)
      (hh : h.Encodes mode 0 (trailer.length + 1)) :
      Archive [] (h.bytes ++ (pathBytes trailer ++ rest))
  | entry {e : Entry} {h : Header} {mode : Nat} {es : List Entry} {bytes : List UInt8}
      (hh : h.Encodes mode e.content.length (e.path.length + 1))
      (hmode : mode &&& 0xF000 = e.node.format) (hrest : Archive es bytes) :
      Archive (e :: es) (h.bytes ++ (pathBytes e.path ++ (contentBytes e.content ++ bytes)))

/-! ## The tree of the entries -/

/-- A component of a path. -/
def ValidName (c : Name) : Prop := c ≠ [] ∧ 0 ∉ c ∧ separator ∉ c ∧ c ≠ [46]

instance (c : Name) : Decidable (ValidName c) := inferInstanceAs (Decidable (_ ∧ _))

/-- The paths are relative paths of valid components, pairwise distinct, and no
file is above another entry. -/
structure WellFormed (es : List Entry) : Prop where
  names : ∀ e ∈ es, e.names ≠ [] ∧ ∀ c ∈ e.names, ValidName c
  distinct : es.Pairwise fun e e' => e.names ≠ e'.names
  leaf : ∀ e ∈ es, ∀ e' ∈ es, e.node ≠ .dir → e.names <+: e'.names → e.names = e'.names

/-- The tree: the entries and the directories above them. -/
def treeOf (es : List Entry) (names : List Name) : Option Node :=
  match es.find? fun e => e.names = names with
  | some e => some e.node
  | none => if names = [] ∨ ∃ e ∈ es, names <+: e.names then some .dir else none

theorem treeOf_none_iff {es : List Entry} {names : List Name} :
    treeOf es names = none ↔ names ≠ [] ∧ ∀ e ∈ es, ¬ names <+: e.names := by
  unfold treeOf
  rcases hfind : es.find? fun e => e.names = names with _ | e
  · rw [hfind]
    dsimp only
    by_cases h : names = [] ∨ ∃ e ∈ es, names <+: e.names
    · rw [if_pos h]
      constructor
      · intro hnone
        cases hnone
      · rintro ⟨hne, hall⟩
        rcases h with hnil | ⟨e, he, hprefix⟩
        · exact absurd hnil hne
        · exact absurd hprefix (hall e he)
    · rw [if_neg h]
      rw [not_or, not_exists] at h
      constructor
      · intro _
        refine ⟨h.1, ?_⟩
        intro e he hprefix
        exact h.2 e ⟨he, hprefix⟩
      · intro _
        rfl
  · -- an entry of that path
    rw [hfind]
    have hnames := List.find?_some hfind
    have hmem := List.mem_of_find?_eq_some hfind
    constructor
    · intro hnone
      cases hnone
    · rintro ⟨-, hall⟩
      exfalso
      apply hall e hmem
      rw [of_decide_eq_true hnames]

/-- The content of a file. -/
def contentsOf (es : List Entry) (names : List Name) : Option (List UInt8) :=
  match es.find? fun e => e.names = names with
  | some ⟨_, .file content⟩ => some content
  | _ => none

theorem treeOf_file_iff {es : List Entry} {names : List Name} {content : List UInt8} :
    treeOf es names = some (.file content) ↔ contentsOf es names = some content := by
  unfold treeOf contentsOf
  rcases hfind : es.find? fun e => e.names = names with _ | ⟨p, _ | c⟩
  · -- no entry: at most a directory that other entries are in
    rw [hfind]
    dsimp only
    split
    · simp
    · simp
  · -- a directory
    rw [hfind]
    simp
  · -- a file
    rw [hfind]
    simp

theorem contentsOf_some {es : List Entry} {names : List Name} {content : List UInt8}
    (h : contentsOf es names = some content) : ∃ e ∈ es, e.names = names ∧ e.node = .file content := by
  unfold contentsOf at h
  rcases hfind : es.find? fun e => e.names = names with _ | ⟨p, _ | c⟩
  · rw [hfind] at h
    cases h
  · rw [hfind] at h
    cases h
  · rw [hfind] at h
    cases h
    have hnames := List.find?_some hfind
    exact ⟨_, List.mem_of_find?_eq_some hfind, of_decide_eq_true hnames, rfl⟩

/-- A path without an entry has no content. -/
theorem contentsOf_none {es : List Entry} {names : List Name} (h : ∀ e ∈ es, e.names ≠ names) :
    contentsOf es names = none := by
  rcases Option.eq_none_or_eq_some (contentsOf es names) with hnone | ⟨content, hsome⟩
  · exact hnone
  · rcases contentsOf_some hsome with ⟨e, he, hnames, -⟩
    exact absurd hnames (h e he)

theorem contentsOf_self (e : Entry) : contentsOf [e] e.names =
    match e.node with
    | .dir => none
    | .file content => some content := by
  unfold contentsOf
  rw [List.find?_singleton, if_pos (decide_eq_true rfl)]
  rcases e with ⟨names, _ | content⟩
  · rfl
  · rfl

/-- One more entry. -/
theorem contentsOf_append {es : List Entry} {e : Entry} (h : ∀ e' ∈ es, e'.names ≠ e.names)
    (names : List Name) : contentsOf (es ++ [e]) names =
      if names = e.names then contentsOf [e] names else contentsOf es names := by
  by_cases hnames : names = e.names
  · -- the appended entry is the only one of its name
    have hnone : es.find? (fun e' => decide (e'.names = names)) = none := by
      rw [List.find?_eq_none]
      intro e' he'
      rw [hnames, decide_eq_true_eq]
      exact h e' he'
    rw [if_pos hnames]
    unfold contentsOf
    rw [List.find?_append, hnone, Option.none_or]
  · -- and no other name is its own
    have hnone : [e].find? (fun e' => decide (e'.names = names)) = none := by
      rw [List.find?_singleton, if_neg]
      rw [decide_eq_true_eq]
      exact fun heq => hnames heq.symm
    rw [if_neg hnames]
    unfold contentsOf
    rw [List.find?_append, hnone, Option.or_none]

/-! ## One archive -/

/-- The digit, as a capital letter from 10 on. -/
def hexDigit (d : Nat) : UInt8 := UInt8.ofNat (if d < 10 then 48 + d else 55 + d)

/-- The last `k` digits. -/
def hexDigits : Nat → Nat → List UInt8
  | 0, _ => []
  | k + 1, v => hexDigits k (v / 16) ++ [hexDigit (v % 16)]

def header (mode filesize namesize : Nat) : Header where
  ino := hexDigits 8 0
  mode := hexDigits 8 mode
  uid := hexDigits 8 0
  gid := hexDigits 8 0
  nlink := hexDigits 8 1
  mtime := hexDigits 8 0
  filesize := hexDigits 8 filesize
  devmajor := hexDigits 8 0
  devminor := hexDigits 8 0
  rdevmajor := hexDigits 8 0
  rdevminor := hexDigits 8 0
  namesize := hexDigits 8 namesize
  check := hexDigits 8 0

/-- Paths and contents whose lengths have eight digits. -/
def Entry.Fits (e : Entry) : Prop := e.path.length + 1 < 16 ^ 8 ∧ e.content.length < 16 ^ 8

instance (e : Entry) : Decidable e.Fits := inferInstanceAs (Decidable (_ ∧ _))

def encode : List Entry → List UInt8
  | [] => (header 0 0 (trailer.length + 1)).bytes ++ (pathBytes trailer ++ [])
  | e :: es =>
      (header e.node.format e.content.length (e.path.length + 1)).bytes ++
        (pathBytes e.path ++ (contentBytes e.content ++ encode es))

theorem hexDigit_spec {d : Nat} (h : d < 16) : HexDigit d (hexDigit d) := by
  unfold HexDigit hexDigit
  by_cases hd : d < 10
  · left
    rw [if_pos hd, UInt8.toNat_ofNat_of_lt' (by change 48 + d < 256; omega)]
    exact ⟨hd, rfl⟩
  · right
    rw [if_neg hd, UInt8.toNat_ofNat_of_lt' (by change 55 + d < 256; omega)]
    exact ⟨Nat.le_of_not_lt hd, h, Or.inr rfl⟩

theorem hexDigits_length (k v : Nat) : (hexDigits k v).length = k := by
  induction k generalizing v with
  | zero => rfl
  | succ k ih =>
      unfold hexDigits
      rw [List.length_append, ih]
      rfl

theorem hexDigits_spec (k : Nat) {v : Nat} (h : v < 16 ^ k) : HexDigits v (hexDigits k v) := by
  induction k generalizing v with
  | zero =>
      have hzero : v = 0 := Nat.lt_one_iff.mp h
      rw [hzero]
      exact HexDigits.nil
  | succ k ih =>
      have hdiv : v / 16 < 16 ^ k := by
        rw [Nat.pow_succ] at h
        exact Nat.div_lt_of_lt_mul (Nat.mul_comm _ _ ▸ h)
      have hsnoc := HexDigits.snoc (ih hdiv) (hexDigit_spec (Nat.mod_lt v (by decide : 0 < 16)))
      rw [Nat.div_add_mod] at hsnoc
      exact hsnoc

theorem hexField_hexDigits {v : Nat} (h : v < 16 ^ 8) : HexField v (hexDigits 8 v) :=
  ⟨hexDigits_spec 8 h, hexDigits_length 8 v⟩

theorem header_encodes {mode filesize namesize : Nat} (hmode : mode < 16 ^ 8)
    (hfilesize : filesize < 16 ^ 8) (hnamesize : namesize < 16 ^ 8) :
    (header mode filesize namesize).Encodes mode filesize namesize where
  mode := hexField_hexDigits hmode
  filesize := hexField_hexDigits hfilesize
  namesize := hexField_hexDigits hnamesize
  free f hf := by
    have hcases : f = hexDigits 8 0 ∨ f = hexDigits 8 1 := by
      simp only [header, List.mem_cons, List.not_mem_nil, or_false] at hf
      tauto
    rcases hcases with hzero | hone
    · rw [hzero]
      exact ⟨0, hexField_hexDigits (by decide)⟩
    · rw [hone]
      exact ⟨1, hexField_hexDigits (by decide)⟩

/-- Entries whose lengths fit have an archive. -/
theorem archive_encode {es : List Entry} (h : ∀ e ∈ es, e.Fits) : Archive es (encode es) := by
  induction es with
  | nil => exact Archive.trailer [] (header_encodes (by decide) (by decide) (by decide))
  | cons e es ih =>
      rcases h e List.mem_cons_self with ⟨hpath, hcontent⟩
      have hmode : e.node.format < 16 ^ 8 ∧ e.node.format &&& 0xF000 = e.node.format := by
        cases e.node with
        | dir => decide
        | file content => exact ⟨(by decide : 0x8000 < 16 ^ 8), (by decide : 0x8000 &&& 0xF000 = 0x8000)⟩
      exact Archive.entry (header_encodes hmode.1 hcontent hpath) hmode.2
        (ih fun e' he' => h e' (List.mem_cons_of_mem e he'))

/-! ## Lengths -/

theorem Header.Encodes.lengths {h : Header} {mode filesize namesize : Nat}
    (hh : h.Encodes mode filesize namesize) : h.ino.length = 8 ∧ h.uid.length = 8 ∧
      h.gid.length = 8 ∧ h.nlink.length = 8 ∧ h.mtime.length = 8 ∧ h.devmajor.length = 8 ∧
        h.devminor.length = 8 ∧ h.rdevmajor.length = 8 ∧ h.rdevminor.length = 8 ∧
          h.check.length = 8 := by
  have hfree := hh.free
  simp only [List.forall_mem_cons, List.not_mem_nil, false_implies, implies_true, and_true] at hfree
  rcases hfree with ⟨⟨_, h₁⟩, ⟨_, h₂⟩, ⟨_, h₃⟩, ⟨_, h₄⟩, ⟨_, h₅⟩, ⟨_, h₆⟩, ⟨_, h₇⟩, ⟨_, h₈⟩, ⟨_, h₉⟩,
    ⟨_, h₁₀⟩⟩
  exact ⟨h₁.length, h₂.length, h₃.length, h₄.length, h₅.length, h₆.length, h₇.length, h₈.length,
    h₉.length, h₁₀.length⟩

theorem Header.Encodes.length {h : Header} {mode filesize namesize : Nat}
    (hh : h.Encodes mode filesize namesize) : h.bytes.length = 110 := by
  rcases hh.lengths with ⟨h₁, h₂, h₃, h₄, h₅, h₆, h₇, h₈, h₉, h₁₀⟩
  unfold Header.bytes
  simp only [List.length_append, h₁, h₂, h₃, h₄, h₅, h₆, h₇, h₈, h₉, h₁₀, hh.mode.length,
    hh.filesize.length, hh.namesize.length]
  rfl

/-- A part between others, by its place. -/
theorem take_drop_append {α : Type} {front part back : List α} {n m : Nat} (hn : front.length = n)
    (hm : part.length = m) : ((front ++ (part ++ back)).drop n).take m = part := by
  rw [← hn, ← hm, List.drop_left, List.take_left]

/-- Where the fields are that a reader needs. -/
theorem Header.Encodes.fields {h : Header} {mode filesize namesize : Nat}
    (hh : h.Encodes mode filesize namesize) : h.bytes.take 6 = magic ∧
      (h.bytes.drop 14).take 8 = h.mode ∧ (h.bytes.drop 54).take 8 = h.filesize ∧
        (h.bytes.drop 94).take 8 = h.namesize := by
  rcases hh.lengths with ⟨h₁, h₂, h₃, h₄, h₅, h₆, h₇, h₈, h₉, -⟩
  -- each field is split off behind the fields before it
  refine ⟨rfl, ?_, ?_, ?_⟩
  · have hfront : (magic ++ h.ino).length = 14 := by
      rw [List.length_append, h₁]
      rfl
    unfold Header.bytes
    rw [← List.append_assoc]
    exact take_drop_append hfront hh.mode.length
  · have hfront : (magic ++ (h.ino ++ (h.mode ++ (h.uid ++ (h.gid ++ (h.nlink ++
        h.mtime)))))).length = 54 := by
      simp only [List.length_append, h₁, h₂, h₃, h₄, h₅, hh.mode.length]
      rfl
    have hsplit : h.bytes = (magic ++ (h.ino ++ (h.mode ++ (h.uid ++ (h.gid ++ (h.nlink ++
        h.mtime)))))) ++ (h.filesize ++ (h.devmajor ++ (h.devminor ++ (h.rdevmajor ++
          (h.rdevminor ++ (h.namesize ++ h.check)))))) := by
      unfold Header.bytes
      simp only [List.append_assoc]
    rw [hsplit]
    exact take_drop_append hfront hh.filesize.length
  · have hfront : (magic ++ (h.ino ++ (h.mode ++ (h.uid ++ (h.gid ++ (h.nlink ++ (h.mtime ++
        (h.filesize ++ (h.devmajor ++ (h.devminor ++ (h.rdevmajor ++
          h.rdevminor))))))))))).length = 94 := by
      simp only [List.length_append, h₁, h₂, h₃, h₄, h₅, h₆, h₇, h₈, h₉, hh.mode.length,
        hh.filesize.length]
      rfl
    have hsplit : h.bytes = (magic ++ (h.ino ++ (h.mode ++ (h.uid ++ (h.gid ++ (h.nlink ++ (h.mtime ++
        (h.filesize ++ (h.devmajor ++ (h.devminor ++ (h.rdevmajor ++ h.rdevminor))))))))))) ++
          (h.namesize ++ h.check) := by
      unfold Header.bytes
      simp only [List.append_assoc]
    rw [hsplit]
    exact take_drop_append hfront hh.namesize.length

/-- The number of eight digits is below `16 ^ 8`. -/
theorem HexDigits.lt {v : Nat} {cs : List UInt8} (h : HexDigits v cs) : v < 16 ^ cs.length := by
  induction h with
  | nil => decide
  | snoc h hd ih =>
      rename_i v cs d c
      have hlt : d < 16 := by
        rcases hd with ⟨hd, -⟩ | ⟨-, hd, -⟩
        · exact Nat.lt_trans hd (by decide)
        · exact hd
      rw [List.length_append, List.length_singleton, Nat.pow_succ]
      omega

theorem HexField.lt {v : Nat} {cs : List UInt8} (h : HexField v cs) : v < 2 ^ 32 := by
  have hlt := h.digits.lt
  rw [h.length] at hlt
  exact hlt

theorem pathBytes_length (path : Name) :
    (pathBytes path).length = path.length + 1 + (4 - (110 + (path.length + 1)) % 4) % 4 := by
  unfold pathBytes padding
  rw [List.length_append, List.length_cons, List.length_replicate]
  omega

theorem contentBytes_length (content : List UInt8) :
    (contentBytes content).length = content.length + (4 - content.length % 4) % 4 := by
  unfold contentBytes padding
  rw [List.length_append, List.length_replicate]

/-- Each entry has bytes of its own. -/
theorem Archive.entries_le {es : List Entry} {bytes : List UInt8} (h : Archive es bytes) :
    es.length ≤ bytes.length := by
  induction h with
  | trailer rest hh => exact Nat.zero_le _
  | entry hh hmode hrest ih =>
      rw [List.length_append, List.length_append, List.length_append, hh.length, List.length_cons]
      omega

/-- There is at least the header of the trailer. -/
theorem Archive.length_ge {es : List Entry} {bytes : List UInt8} (h : Archive es bytes) :
    110 ≤ bytes.length := by
  cases h with
  | trailer rest hh =>
      rw [List.length_append, hh.length]
      exact Nat.le_add_right _ _
  | entry hh hmode hrest =>
      rw [List.length_append, hh.length]
      exact Nat.le_add_right _ _

end Ceryx.Lib.Newc
