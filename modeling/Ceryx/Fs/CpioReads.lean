import Ceryx.Fs.CpioRoundTrip

/-!
# Ceryx.Fs.CpioReads — does the loader stay inside the archive?

`Populate` compares the start of each record with the end of the archive. What
it reads behind that, the header, the name and the data, it does not compare.

* `turnReads`: what a turn reads, range by range. Of a name it is what `Find`
  looks at, and of the data what `Write` copies.
* `populateLoop_turn`: the loop, turn by turn.
* `makeDirsRead_le_iff`: `Find` stops early only at a directory that cannot be
  made.
* `TurnFits`: the condition on a record.
* `populate_congr`: a run that stays inside depends only on the archive.
* `staysInside_iff`: all reads are inside the archive just if all records of the
  run meet the condition.
-/

namespace Ceryx.Fs.CpioLoader

open Lib RamFs Vfs

/-- An address and a number of bytes. -/
abbrev Range := Nat × Nat

/-! ## A record -/

section
variable (image : Image) (ptr : Nat)

/-- `c_filesize`. -/
def entrySize : Nat := parseHex (slice image (ptr + 54) 8)

/-- `c_namesize`. -/
def nameSize : Nat := parseHex (slice image (ptr + 94) 8)

/-- `c_mode`, as the `uint32_t` it is kept in. -/
def entryMode : Nat := parseHex (slice image (ptr + 14) 8) % 2 ^ 32

/-- `StringView(filename, namesize - 1)`. -/
def entryPath : StringView :=
  slice image (ptr + sizeofCpioHeader) (usizeAdd (nameSize image ptr) (2 ^ 64 - 1))

/-- `data`. -/
def entryData : Nat := align4 (usizeAdd ptr (sizeofCpioHeader + nameSize image ptr))

/-- The next record. -/
def nextRecord : Nat := align4 (usizeAdd (entryData image ptr) (entrySize image ptr))

end

section
variable {V : Type} (vm : VmObject V) (env : CpioEnv) (image : Image) (root last : Nat)

/-- A turn of the loop of `Populate`: where the next one starts, or nothing when
the loop ends. -/
def populateTurn (ptr : Nat) (s : FsState V) : Option (Nat × FsState V) :=
  if ptr < last then
    if slice image ptr 6 ≠ magic then none
    else if slice image (ptr + sizeofCpioHeader) 10 = trailer then none
    else
      some (nextRecord image ptr,
        createEntry vm env s root (entryPath image ptr) (entryMode image ptr)
          (slice image (entryData image ptr) (entrySize image ptr)))
  else none

/-- The loop of `Populate`, one turn taken off. -/
theorem populateLoop_turn (n ptr : Nat) (s : FsState V) :
    populateLoop vm env image root last (n + 1) ptr s =
      match populateTurn vm env image root last ptr s with
      | none => some s
      | some (next, s') => populateLoop vm env image root last n next s' := by
  conv_lhs => unfold populateLoop
  unfold populateTurn
  -- the three ways to leave the loop, in its order
  by_cases hlt : ptr < last
  · rw [if_pos hlt, if_pos hlt]
    by_cases hmagic : slice image ptr 6 ≠ magic
    · rw [if_pos hmagic, if_pos hmagic]
    · rw [if_neg hmagic, if_neg hmagic]
      dsimp only
      by_cases htrailer : slice image (ptr + sizeofCpioHeader) 10 = trailer
      · rw [if_pos htrailer, if_pos htrailer]
      · rw [if_neg htrailer, if_neg htrailer]
        rfl
  · rw [if_neg hlt, if_neg hlt]

/-- The turn number `n` of the run, if it gets there. -/
def turnAt (start : Nat × FsState V) : Nat → Option (Nat × FsState V)
  | 0 => some start
  | n + 1 => (turnAt start n).bind fun (ptr, s) => populateTurn vm env image root last ptr s

/-! ## What is read -/

/-- How many bytes of the path the calls of `Find` look at. The loop ends early
when a directory cannot be made. -/
def makeDirsRead (path : StringView) : Nat → Nat → Nat → Vnodes V → Nat
  | 0, _, _, _ => path.length
  | n + 1, offset, current, t =>
      match find path slash offset with
      | none => path.length
      | some nextSlash =>
          let dirName := subView path offset (nextSlash - offset)
          if dirName = [] ∨ dirName = dot then makeDirsRead path n (nextSlash + 1) current t
          else
            match lookupOrMkdir vm env t current dirName with
            | (.error _, _) => nextSlash + 1
            | (.ok c, t) => makeDirsRead path n (nextSlash + 1) c t

/-- How many bytes of the path `CreateEntry` looks at. The comparison with "."
looks at a path of one byte. -/
def nameRead (path : StringView) (t : Vnodes V) : Nat :=
  if path = dot then path.length else makeDirsRead vm env path (path.length + 1) 0 root t

/-- The file that `CreateEntry` makes for the data of an entry. -/
def openedFile (s : FsState V) (path : StringView) (mode : Nat) : Option (Nat × Vnodes V) :=
  if path = dot then none
  else
    match makeDirs vm env path (path.length + 1) 0 root s.tree with
    | (none, _) => none
    | (some (current, offset), t) =>
        if path.drop offset = [] then none
        else if mode &&& 0xF000 = 0x4000 then none
        else if mode &&& 0xF000 = 0x8000 then
          match Vnodes.create vm t current (path.drop offset) (env.vnodeAlloc t.next) with
          | (.error _, _) => none
          | (.ok file, t) => some (file, t)
        else none

/-- How many of the `size` bytes of data there are pages for in the new file. -/
def dataRead (s : FsState V) (path : StringView) (mode size : Nat) : Nat :=
  match openedFile vm env root s path mode with
  | none => 0
  | some (file, t) =>
      match (t.node file).vmo with
      | none => 0
      | some vmo => reach vm size 0 size 0 vmo (env.pages size s.used)

/-- The fields of the header that are parsed, and the start of the name, which is
compared with the trailer's. -/
def headerReads (ptr : Nat) : List Range :=
  [(ptr + 54, 8), (ptr + 94, 8), (ptr + 14, 8), (ptr + sizeofCpioHeader, 10)]

/-- What a turn reads. A comparison reads the bytes that it is given. -/
def turnReads (ptr : Nat) (s : FsState V) : List Range :=
  if ptr < last then
    if slice image ptr 6 ≠ magic then [(ptr, 6)]
    else if slice image (ptr + sizeofCpioHeader) 10 = trailer then (ptr, 6) :: headerReads ptr
    else
      (ptr, 6) :: headerReads ptr ++
        [(ptr + sizeofCpioHeader, nameRead vm env root (entryPath image ptr) s.tree),
          (entryData image ptr,
            dataRead vm env root s (entryPath image ptr) (entryMode image ptr)
              (entrySize image ptr))]
  else []

/-- The bytes of the range are in the archive. -/
def Inside (address last : Nat) (r : Range) : Prop :=
  ∀ a, r.1 ≤ a → a < r.1 + r.2 → address ≤ a ∧ a < last

/-- Every byte that `Populate` reads is in the archive. -/
def StaysInside (address size : Nat) (s : FsState V) : Prop :=
  ∀ n ptr s', turnAt vm env image root (usizeAdd address size) (address, s) n = some (ptr, s') →
    ∀ r ∈ turnReads vm env image root (usizeAdd address size) ptr s',
      Inside address (usizeAdd address size) r

/-! ## The condition -/

/-- The name is in the archive, or the part of it that is names a directory that
can be neither found nor made. -/
def NameFits (ptr : Nat) (s : FsState V) : Prop :=
  (entryPath image ptr).length ≤ last - (ptr + sizeofCpioHeader) ∨
    (makeDirs vm env ((entryPath image ptr).take (last - (ptr + sizeofCpioHeader)))
      ((entryPath image ptr).length + 1) 0 root s.tree).1 = none

/-- The data is in the archive, or there are no pages for more of it. -/
def DataFits (address ptr : Nat) (s : FsState V) : Prop :=
  let room := if address ≤ entryData image ptr then last - entryData image ptr else 0
  entrySize image ptr ≤ room ∨
    dataRead vm env root s (entryPath image ptr) (entryMode image ptr) (entrySize image ptr) ≤ room

/-- The record is in the archive, as far as it is read. -/
structure TurnFits (address ptr : Nat) (s : FsState V) : Prop where
  start : address ≤ ptr ∧ ptr + 6 ≤ last
  header : slice image ptr 6 = magic → ptr + sizeofCpioHeader + 10 ≤ last
  entry : slice image ptr 6 = magic → slice image (ptr + sizeofCpioHeader) 10 ≠ trailer →
    NameFits vm env image root last ptr s ∧ DataFits vm env image root last address ptr s

/-- Every record that the run gets to meets the condition. -/
def RecordsFit (address size : Nat) (s : FsState V) : Prop :=
  ∀ n ptr s', turnAt vm env image root (usizeAdd address size) (address, s) n = some (ptr, s') →
    ptr < usizeAdd address size →
      TurnFits vm env image root (usizeAdd address size) address ptr s'

end

/-! ## Names -/

/-- A search in a part of a name finds what the search in all of it does, if that lies
in the part. -/
theorem find_take (s : StringView) (c : UInt8) (m offset : Nat) :
    find (s.take m) c offset = (find s c offset).bind fun k => if k < m then some k else none := by
  unfold find
  rw [List.drop_take, List.findIdx?_take]
  cases (s.drop offset).findIdx? (· = c) with
  | none => rfl
  | some i =>
      by_cases hlt : i < m - offset
      · have hk : offset + i < m := by omega
        simp [Option.guard, hlt, hk]
      · have hk : ¬ offset + i < m := by omega
        simp [Option.guard, hlt, hk]

/-- A component that lies in the part is the same there. -/
theorem subView_take (s : StringView) {m offset k : Nat} (hk : k ≤ m) :
    subView (s.take m) offset (k - offset) = subView s offset (k - offset) := by
  unfold subView
  rw [List.drop_take, List.take_take]
  congr 1
  omega

section
variable {V : Type} {vm : VmObject V} {env : CpioEnv}

/-- What is read of a path does not shrink, -/
theorem makeDirsRead_ge (vm : VmObject V) (env : CpioEnv) (path : StringView) (n : Nat)
    {offset : Nat} (current : Nat) (t : Vnodes V) (hoffset : offset ≤ path.length) :
    offset ≤ makeDirsRead vm env path n offset current t := by
  induction n generalizing offset current t with
  | zero => exact hoffset
  | succ n ih =>
      unfold makeDirsRead
      cases hfind : find path slash offset with
      | none => exact hoffset
      -- an empty component is skipped, any other is looked up
      | some nextSlash =>
          rcases find_some hfind with ⟨hle, hlt, -, -⟩
          dsimp only
          split
          · have hrest := ih current t (show nextSlash + 1 ≤ path.length from hlt)
            omega
          · rcases lookupOrMkdir vm env t current (subView path offset (nextSlash - offset)) with
              ⟨_ | c, t'⟩
            · dsimp only
              omega
            · have hrest := ih c t' (show nextSlash + 1 ≤ path.length from hlt)
              dsimp only
              omega

/-- and ends with the path. -/
theorem makeDirsRead_le (path : StringView) (n offset current : Nat) (t : Vnodes V) :
    makeDirsRead vm env path n offset current t ≤ path.length := by
  induction n generalizing offset current t with
  | zero => exact Nat.le_refl _
  | succ n ih =>
      unfold makeDirsRead
      cases hfind : find path slash offset with
      | none => exact Nat.le_refl _
      | some nextSlash =>
          rcases find_some hfind with ⟨-, hlt, -, -⟩
          dsimp only
          split
          · exact ih _ _ _
          · rcases lookupOrMkdir vm env t current (subView path offset (nextSlash - offset)) with
              ⟨_ | c, t'⟩
            · exact hlt
            · exact ih _ _ _

/-- `Find` does not look behind the first `room` bytes of a longer path just if
a directory that they name cannot be made. -/
theorem makeDirsRead_le_iff {path : StringView} {room : Nat} (hroom : room < path.length) (n : Nat)
    (offset current : Nat) (t : Vnodes V) :
    makeDirsRead vm env path n offset current t ≤ room ↔
      (makeDirs vm env (path.take room) n offset current t).1 = none := by
  induction n generalizing offset current t with
  | zero =>
      have hlong : ¬ path.length ≤ room := Nat.not_le_of_lt hroom
      exact iff_of_false hlong (Option.some_ne_none _)
  | succ n ih =>
      have hcut := find_take path slash room offset
      unfold makeDirsRead makeDirs
      cases hfind : find path slash offset with
      | none =>
          rw [hfind] at hcut
          rw [hcut]
          have hlong : ¬ path.length ≤ room := Nat.not_le_of_lt hroom
          exact iff_of_false hlong (Option.some_ne_none _)
      | some nextSlash =>
          rcases find_some hfind with ⟨-, hlt, -, -⟩
          rw [hfind, Option.bind_some] at hcut
          by_cases hk : nextSlash < room
          · -- the slash is among the first `room` bytes: the turns are the same
            rw [if_pos hk] at hcut
            rw [hcut]
            dsimp only
            rw [subView_take path (Nat.le_of_lt hk)]
            split
            · exact ih _ _ _
            · rcases lookupOrMkdir vm env t current (subView path offset (nextSlash - offset)) with
                ⟨_ | c, t'⟩
              · exact iff_of_true hk rfl
              · exact ih _ _ _
          · -- `Find` has gone behind them to get to the slash
            rw [if_neg hk] at hcut
            rw [hcut]
            refine iff_of_false ?_ (Option.some_ne_none _)
            dsimp only
            split
            · have hge := makeDirsRead_ge vm env path n current t
                (show nextSlash + 1 ≤ path.length from hlt)
              omega
            · rcases lookupOrMkdir vm env t current (subView path offset (nextSlash - offset)) with
                ⟨_ | c, t'⟩
              · dsimp only
                omega
              · have hge := makeDirsRead_ge vm env path n c t'
                  (show nextSlash + 1 ≤ path.length from hlt)
                dsimp only
                omega

/-- The path is read no further than `room` if it is no longer, or if its directories
fail before that. -/
theorem nameRead_le_iff (path : StringView) (root room : Nat) (t : Vnodes V) :
    nameRead vm env root path t ≤ room ↔
      path.length ≤ room ∨
        (makeDirs vm env (path.take room) (path.length + 1) 0 root t).1 = none := by
  rcases Nat.lt_or_ge room path.length with hshort | hfits
  · have hlong : ¬ path.length ≤ room := Nat.not_le_of_lt hshort
    rw [or_iff_right hlong, ← makeDirsRead_le_iff hshort]
    unfold nameRead
    by_cases hdot : path = dot
    · -- there is no slash in "."
      have hnone : find path slash 0 = none := by
        rw [hdot]
        decide
      have hread : makeDirsRead vm env path (path.length + 1) 0 root t = path.length := by
        unfold makeDirsRead
        rw [hnone]
      rw [if_pos hdot, hread]
    · rw [if_neg hdot]
  · refine iff_of_true ?_ (Or.inl hfits)
    unfold nameRead
    split
    · exact hfits
    · exact Nat.le_trans (makeDirsRead_le path _ 0 root t) hfits

/-- The name is read at most to its end. -/
theorem nameRead_le (vm : VmObject V) (env : CpioEnv) (root : Nat) (path : StringView)
    (t : Vnodes V) : nameRead vm env root path t ≤ path.length :=
  (nameRead_le_iff path root path.length t).mpr (Or.inl (Nat.le_refl _))

/-- So are the contents. -/
theorem dataRead_le (vm : VmObject V) (env : CpioEnv) (root : Nat) (s : FsState V)
    (path : StringView) (mode size : Nat) : dataRead vm env root s path mode size ≤ size := by
  unfold dataRead
  split
  · exact Nat.zero_le size
  · split
    · exact Nat.zero_le size
    · exact (reach_bounds vm 0 size (Nat.zero_le size) _ _).2

/-! ## Nothing else is read -/

/-- When the first `room` bytes of a path name a directory that cannot be made,
the others do not matter. -/
theorem makeDirs_take {path : StringView} {room n offset current : Nat} {t : Vnodes V}
    (hfail : (makeDirs vm env (path.take room) n offset current t).1 = none) :
    makeDirs vm env path n offset current t =
      makeDirs vm env (path.take room) n offset current t := by
  induction n generalizing offset current t with
  | zero => exact absurd hfail (Option.some_ne_none _)
  | succ n ih =>
      have hcut := find_take path slash room offset
      unfold makeDirs at hfail ⊢
      cases hfind : find path slash offset with
      | none =>
          rw [hfind] at hcut
          rw [hcut] at hfail
          exact absurd hfail (Option.some_ne_none _)
      | some nextSlash =>
          rw [hfind, Option.bind_some] at hcut
          by_cases hk : nextSlash < room
          · rw [if_pos hk] at hcut
            rw [hcut] at hfail ⊢
            dsimp only at hfail ⊢
            rw [subView_take path (Nat.le_of_lt hk)] at hfail ⊢
            split at hfail
            · -- an empty name or "." is passed over
              rename_i hskip
              rw [if_pos hskip, if_pos hskip]
              exact ih hfail
            · rename_i hskip
              rw [if_neg hskip, if_neg hskip]
              rcases hdir : lookupOrMkdir vm env t current
                (subView path offset (nextSlash - offset)) with ⟨_ | c, t'⟩
              · rfl
              · rw [hdir] at hfail
                exact ih hfail
          · -- the part ends before the slash, and the loop with it
            rw [if_neg hk] at hcut
            rw [hcut] at hfail
            exact absurd hfail (Option.some_ne_none _)

/-- `CreateEntry` depends on the bytes of the path that it looks at. -/
theorem createEntry_path {s : FsState V} {root mode : Nat} {path path' : StringView}
    (data : List UInt8) (hlen : path.length = path'.length)
    (h : path.take (nameRead vm env root path s.tree) =
      path'.take (nameRead vm env root path s.tree)) :
    createEntry vm env s root path mode data = createEntry vm env s root path' mode data := by
  generalize hk : nameRead vm env root path s.tree = k at h
  have hread := (nameRead_le_iff path root k s.tree).mp (Nat.le_of_eq hk)
  by_cases hall : path.length ≤ k
  · rw [List.take_of_length_le hall, List.take_of_length_le (hlen ▸ hall)] at h
    rw [h]
  · -- a directory cannot be made
    have hfail := hread.resolve_left hall
    have hnot : ∀ p : StringView, p.take k = path.take k → p ≠ dot := by
      rintro p hp rfl
      rw [← hp] at hfail
      have hnone : find (dot.take k) slash 0 = none := by
        rw [find_take]
        rfl
      unfold makeDirs at hfail
      rw [hnone] at hfail
      exact absurd hfail (Option.some_ne_none _)
    have hfail' : (makeDirs vm env (path'.take k) (path'.length + 1) 0 root s.tree).1 = none := by
      rw [← h, ← hlen]
      exact hfail
    have hsame : makeDirs vm env path (path.length + 1) 0 root s.tree =
        makeDirs vm env path' (path'.length + 1) 0 root s.tree := by
      rw [makeDirs_take hfail, makeDirs_take hfail', h, hlen]
    have hnone : (makeDirs vm env path' (path'.length + 1) 0 root s.tree).1 = none := by
      rw [makeDirs_take hfail']
      exact hfail'
    unfold createEntry
    rw [if_neg (hnot path rfl), if_neg (hnot path' h.symm), hsame]
    rcases hdirs : makeDirs vm env path' (path'.length + 1) 0 root s.tree with ⟨found, t⟩
    rw [hdirs] at hnone
    obtain rfl : found = none := hnone
    rfl

/-- `Write` depends on the bytes that there are pages for. -/
theorem writeVnode_congr {s : FsState V} {file : Nat} {data data' : List UInt8}
    (hlen : data.length = data'.length)
    (h : ∀ vmo, (s.tree.node file).vmo = some vmo →
      data.take (reach vm data.length 0 data.length 0 vmo (env.pages data.length s.used)) =
        data'.take (reach vm data.length 0 data.length 0 vmo (env.pages data.length s.used))) :
    writeVnode vm env s file data = writeVnode vm env s file data' := by
  unfold writeVnode RamFs.write
  rw [← hlen]
  by_cases htype : (s.tree.node file).type ≠ .regular
  · rw [if_pos htype, if_pos htype]
  · rw [if_neg htype, if_neg htype]
    cases hvmo : (s.tree.node file).vmo with
    | none => rfl
    | some vmo =>
        dsimp only
        rw [writeLoop_congr vm hlen 0 data.length (Nat.zero_le _) _ (h vmo hvmo)]

/-- `CreateEntry` looks at the data only to write it to the file that it made. -/
theorem createEntry_openedFile (s : FsState V) (root : Nat) (path : StringView) (mode : Nat) :
    (openedFile vm env root s path mode = none ∧
      ∀ data data', createEntry vm env s root path mode data =
        createEntry vm env s root path mode data') ∨
    ∃ file t, openedFile vm env root s path mode = some (file, t) ∧
      ∀ data, createEntry vm env s root path mode data =
        writeVnode vm env { s with tree := t } file data := by
  unfold openedFile createEntry
  by_cases hdot : path = dot
  · left
    refine ⟨if_pos hdot, ?_⟩
    intro data data'
    rw [if_pos hdot, if_pos hdot]
  · rw [if_neg hdot]
    simp only [if_neg hdot]
    rcases makeDirs vm env path (path.length + 1) 0 root s.tree with ⟨_ | ⟨current, offset⟩, t⟩
    · exact Or.inl ⟨rfl, fun _ _ => rfl⟩
    · dsimp only
      by_cases hleaf : path.drop offset = []
      · left
        refine ⟨if_pos hleaf, ?_⟩
        intro data data'
        rw [if_pos hleaf, if_pos hleaf]
      · rw [if_neg hleaf]
        simp only [if_neg hleaf]
        unfold createLeaf
        by_cases hdir : mode &&& 0xF000 = 0x4000
        · left
          refine ⟨if_pos hdir, ?_⟩
          intro data data'
          rw [if_pos hdir, if_pos hdir]
        · rw [if_neg hdir]
          simp only [if_neg hdir]
          by_cases hfile : mode &&& 0xF000 = 0x8000
          · -- a regular file: the data is written if it can be made
            rw [if_pos hfile]
            simp only [if_pos hfile]
            rcases Vnodes.create vm t current (path.drop offset) (env.vnodeAlloc t.next) with
              ⟨_ | file, t'⟩
            · exact Or.inl ⟨rfl, fun _ _ => rfl⟩
            · exact Or.inr ⟨file, t', rfl, fun _ => rfl⟩
          · left
            refine ⟨if_neg hfile, ?_⟩
            intro data data'
            rw [if_neg hfile, if_neg hfile]

/-- Contents that are not read do not matter. -/
theorem createEntry_data {s : FsState V} {root mode : Nat} {path : StringView}
    {data data' : List UInt8} (hlen : data.length = data'.length)
    (h : data.take (dataRead vm env root s path mode data.length) =
      data'.take (dataRead vm env root s path mode data.length)) :
    createEntry vm env s root path mode data = createEntry vm env s root path mode data' := by
  rcases createEntry_openedFile s root path mode with ⟨-, hsame⟩ | ⟨file, t, hopened, hwrite⟩
  · exact hsame data data'
  · rw [hwrite, hwrite]
    apply writeVnode_congr hlen
    intro vmo hvmo
    dsimp only at hvmo
    unfold dataRead at h
    rw [hopened] at h
    dsimp only at h
    rw [hvmo] at h
    exact h

/-- The fields of a record, and where the next one starts. -/
theorem record_congr {image image' : Image} {ptr : Nat}
    (h : ∀ r ∈ headerReads ptr, slice image r.1 r.2 = slice image' r.1 r.2) :
    entrySize image ptr = entrySize image' ptr ∧ nameSize image ptr = nameSize image' ptr ∧
      entryMode image ptr = entryMode image' ptr ∧ entryData image ptr = entryData image' ptr ∧
        nextRecord image ptr = nextRecord image' ptr := by
  -- each field is read from the header, and the header is the same
  have hsize : entrySize image ptr = entrySize image' ptr := by
    have hfilesize := h (ptr + 54, 8) (by simp [headerReads])
    unfold entrySize
    rw [hfilesize]
  have hnameSize : nameSize image ptr = nameSize image' ptr := by
    have hnamesize := h (ptr + 94, 8) (by simp [headerReads])
    unfold nameSize
    rw [hnamesize]
  have hmode : entryMode image ptr = entryMode image' ptr := by
    have hfield := h (ptr + 14, 8) (by simp [headerReads])
    unfold entryMode
    rw [hfield]
  have hdata : entryData image ptr = entryData image' ptr := by
    unfold entryData
    rw [hnameSize]
  refine ⟨hsize, hnameSize, hmode, hdata, ?_⟩
  unfold nextRecord
  rw [hdata, hsize]

/-- `CreateEntry` for a record: of its name and of its data it depends on what is
looked at. -/
theorem entry_congr {image image' : Image} {root ptr : Nat} {s : FsState V}
    (hnameSize : nameSize image ptr = nameSize image' ptr)
    (hseen : slice image (ptr + sizeofCpioHeader)
        (nameRead vm env root (entryPath image ptr) s.tree) =
      slice image' (ptr + sizeofCpioHeader) (nameRead vm env root (entryPath image ptr) s.tree))
    {size data mode : Nat}
    (hcopied : slice image data (dataRead vm env root s (entryPath image ptr) mode size) =
      slice image' data (dataRead vm env root s (entryPath image ptr) mode size)) :
    createEntry vm env s root (entryPath image ptr) mode (slice image data size) =
      createEntry vm env s root (entryPath image' ptr) mode (slice image' data size) := by
  have hlength : (entryPath image ptr).length = (entryPath image' ptr).length := by
    unfold entryPath
    rw [slice_length, slice_length, hnameSize]
  -- the two paths agree as far as they are read
  have hread : (entryPath image ptr).take (nameRead vm env root (entryPath image ptr) s.tree) =
      (entryPath image' ptr).take (nameRead vm env root (entryPath image ptr) s.tree) := by
    have hle := nameRead_le vm env root (entryPath image ptr) s.tree
    generalize nameRead vm env root (entryPath image ptr) s.tree = k at hle hseen ⊢
    unfold entryPath at hle ⊢
    rw [slice_length] at hle
    rw [← hnameSize, slice_take _ _ hle, slice_take _ _ hle]
    exact hseen
  rw [← createEntry_path _ hlength hread]
  apply createEntry_data
  · rw [slice_length, slice_length]
  · have hle := dataRead_le vm env root s (entryPath image ptr) mode size
    have hsize := slice_length image data size
    rw [hsize]
    generalize dataRead vm env root s (entryPath image ptr) mode size = k at hle hcopied ⊢
    rw [slice_take _ _ hle, slice_take _ _ hle]
    exact hcopied

/-- A turn depends only on the bytes that `turnReads` names. -/
theorem populateTurn_congr {image image' : Image} {root last ptr : Nat} {s : FsState V}
    (h : ∀ r ∈ turnReads vm env image root last ptr s, slice image r.1 r.2 = slice image' r.1 r.2) :
    populateTurn vm env image root last ptr s = populateTurn vm env image' root last ptr s := by
  unfold turnReads at h
  unfold populateTurn
  by_cases hlt : ptr < last
  · rw [if_pos hlt] at h
    rw [if_pos hlt, if_pos hlt]
    by_cases hmagic : slice image ptr 6 ≠ magic
    · rw [if_pos hmagic, List.forall_mem_singleton] at h
      rw [← h, if_pos hmagic, if_pos hmagic]
    · rw [if_neg hmagic] at h
      by_cases htrailer : slice image (ptr + sizeofCpioHeader) 10 = trailer
      · rw [if_pos htrailer] at h
        have hmagic' := h (ptr, 6) (by simp)
        have hname := h (ptr + sizeofCpioHeader, 10) (by simp [headerReads])
        rw [← hmagic', ← hname, if_neg hmagic, if_neg hmagic, if_pos htrailer, if_pos htrailer]
      · rw [if_neg htrailer, List.forall_mem_append, List.forall_mem_cons, List.forall_mem_cons,
          List.forall_mem_singleton] at h
        rcases h with ⟨⟨hmagic', hheader⟩, hseen, hcopied⟩
        have hname := hheader (ptr + sizeofCpioHeader, 10) (by simp [headerReads])
        rcases record_congr hheader with ⟨hsize, hnameSize, hmode, hdata, hnext⟩
        -- the entry is the same, as far as it is looked at
        dsimp only at hseen hcopied
        have hentry := entry_congr hnameSize hseen hcopied
        rw [← hmagic', ← hname, if_neg hmagic, if_neg hmagic, if_neg htrailer, if_neg htrailer,
          ← hnext, ← hmode, ← hdata, ← hsize, hentry]
  · rw [if_neg hlt, if_neg hlt]

/-! ## Turns -/

/-- A range without bytes is inside of anything. -/
theorem inside_iff {address last : Nat} {r : Range} :
    Inside address last r ↔ r.2 = 0 ∨ address ≤ r.1 ∧ r.1 + r.2 ≤ last := by
  unfold Inside
  constructor
  · intro h
    by_cases hzero : r.2 = 0
    · exact Or.inl hzero
    · right
      have hfirst := h r.1 (Nat.le_refl _) (by omega)
      have hlast := h (r.1 + r.2 - 1) (by omega) (by omega)
      omega
  · intro h a hle hlt
    omega

/-- The header with the first ten bytes of the name, which are compared with the end
marker, is inside. -/
theorem headerReads_inside {address last ptr : Nat} (haddress : address ≤ ptr) :
    (∀ r ∈ headerReads ptr, Inside address last r) ↔ ptr + sizeofCpioHeader + 10 ≤ last := by
  unfold headerReads sizeofCpioHeader
  constructor
  · intro h
    have hname := inside_iff.mp (h (ptr + 110, 10) (by simp))
    dsimp only at hname
    omega
  · intro hlast r hr
    rw [inside_iff]
    simp only [List.mem_cons, List.not_mem_nil, or_false] at hr
    rcases hr with rfl | rfl | rfl | rfl
    · exact Or.inr ⟨by omega, by dsimp only; omega⟩
    · exact Or.inr ⟨by omega, by dsimp only; omega⟩
    · exact Or.inr ⟨by omega, by dsimp only; omega⟩
    · exact Or.inr ⟨by omega, by dsimp only; omega⟩

/-- The name is read inside the archive just if it fits. -/
theorem nameRead_inside (image : Image) (root : Nat) {address last ptr : Nat}
    (haddress : address ≤ ptr) (hlast : ptr + sizeofCpioHeader + 10 ≤ last) (s : FsState V) :
    Inside address last
        (ptr + sizeofCpioHeader, nameRead vm env root (entryPath image ptr) s.tree) ↔
      NameFits vm env image root last ptr s := by
  unfold NameFits
  rw [inside_iff, ← nameRead_le_iff]
  dsimp only
  constructor
  · intro h
    omega
  · intro h
    omega

/-- The data is read inside the archive just if it fits. -/
theorem dataRead_inside (image : Image) (root address last ptr : Nat) (s : FsState V) :
    Inside address last
        (entryData image ptr,
          dataRead vm env root s (entryPath image ptr) (entryMode image ptr)
            (entrySize image ptr)) ↔
      DataFits vm env image root last address ptr s := by
  -- no more is read than the record says
  have hle := dataRead_le vm env root s (entryPath image ptr) (entryMode image ptr)
    (entrySize image ptr)
  unfold DataFits
  rw [inside_iff]
  dsimp only
  constructor
  · intro h
    split
    · omega
    · omega
  · intro h
    split at h
    · omega
    · omega

/-- A turn reads inside the archive just if its record meets the condition. -/
theorem turnReads_inside (image : Image) (root : Nat) {address last ptr : Nat} (hlt : ptr < last)
    (s : FsState V) :
    (∀ r ∈ turnReads vm env image root last ptr s, Inside address last r) ↔
      TurnFits vm env image root last address ptr s := by
  have hstart : Inside address last (ptr, 6) ↔ address ≤ ptr ∧ ptr + 6 ≤ last := by
    rw [inside_iff]
    exact or_iff_right (Nat.succ_ne_zero 5)
  unfold turnReads
  rw [if_pos hlt]
  by_cases hmagic : slice image ptr 6 = magic
  · rw [if_neg (not_not_intro hmagic)]
    by_cases htrailer : slice image (ptr + sizeofCpioHeader) 10 = trailer
    · -- the last record: its header only
      rw [if_pos htrailer, List.forall_mem_cons, hstart]
      constructor
      · rintro ⟨hin, hheader⟩
        exact ⟨hin, fun _ => (headerReads_inside hin.1).mp hheader,
          fun _ hnot => absurd htrailer hnot⟩
      · intro h
        exact ⟨h.start, (headerReads_inside h.start.1).mpr (h.header hmagic)⟩
    · rw [if_neg htrailer, List.forall_mem_append, List.forall_mem_cons, hstart,
        List.forall_mem_cons, List.forall_mem_singleton, dataRead_inside]
      constructor
      · rintro ⟨⟨hin, hheader⟩, hname, hdata⟩
        have hlast := (headerReads_inside hin.1).mp hheader
        exact ⟨hin, fun _ => hlast,
          fun _ _ => ⟨(nameRead_inside image root hin.1 hlast s).mp hname, hdata⟩⟩
      · intro h
        have hlast := h.header hmagic
        have haddress := h.start.1
        rcases h.entry hmagic htrailer with ⟨hname, hdata⟩
        exact ⟨⟨h.start, (headerReads_inside haddress).mpr hlast⟩,
          (nameRead_inside image root haddress hlast s).mpr hname, hdata⟩
  · -- no record: the loop ends behind the comparison
    rw [if_pos hmagic, List.forall_mem_singleton, hstart]
    constructor
    · intro hin
      exact ⟨hin, fun h => absurd h hmagic, fun h => absurd h hmagic⟩
    · intro h
      exact h.start

/-- The turns of a run that stays inside, in two memories with the same archive. -/
theorem populateLoop_congr {image image' : Image} {root address size : Nat} {s : FsState V}
    (hfit : RecordsFit vm env image root address size s)
    (hsame : ∀ a, address ≤ a → a < usizeAdd address size → image a = image' a) (n : Nat)
    {k ptr : Nat} {t : FsState V}
    (hat : turnAt vm env image root (usizeAdd address size) (address, s) k = some (ptr, t)) :
    populateLoop vm env image root (usizeAdd address size) n ptr t =
      populateLoop vm env image' root (usizeAdd address size) n ptr t := by
  induction n generalizing k ptr t with
  | zero => rfl
  | succ n ih =>
      -- this turn reads inside the archive, where the images agree
      have hturn : populateTurn vm env image root (usizeAdd address size) ptr t =
          populateTurn vm env image' root (usizeAdd address size) ptr t := by
        by_cases hlt : ptr < usizeAdd address size
        · apply populateTurn_congr
          intro r hr
          have hinside := (turnReads_inside image root hlt t).mpr (hfit k ptr t hat hlt) r hr
          apply slice_eq_iff.mpr
          intro j hj
          have hbyte := hinside (r.1 + j) (Nat.le_add_right _ _) (Nat.add_lt_add_left hj _)
          exact hsame _ hbyte.1 hbyte.2
        · unfold populateTurn
          rw [if_neg hlt, if_neg hlt]
      rw [populateLoop_turn, populateLoop_turn, ← hturn]
      cases hnext : populateTurn vm env image root (usizeAdd address size) ptr t with
      | none => rfl
      -- and the next one starts where it ends
      | some next =>
          have hnextAt : turnAt vm env image root (usizeAdd address size) (address, s) (k + 1) =
              some (next.1, next.2) := by
            unfold turnAt
            rw [hat]
            exact hnext
          exact ih hnextAt

/-- `Populate` depends only on the archive, when all records meet the condition. -/
theorem populate_congr {image image' : Image} {root address size : Nat} {s : FsState V}
    (hfit : RecordsFit vm env image root address size s)
    (hsame : ∀ a, address ≤ a → a < usizeAdd address size → image a = image' a) :
    populate vm env image root address size s = populate vm env image' root address size s :=
  populateLoop_congr hfit hsame (size + 1) (k := 0) rfl

/-- All reads are inside the archive just if all records meet the condition. -/
theorem staysInside_iff (image : Image) (root address size : Nat) (s : FsState V) :
    StaysInside vm env image root address size s ↔
      RecordsFit vm env image root address size s := by
  constructor
  · intro h n ptr s' hat hlt
    exact (turnReads_inside image root hlt s').mp (h n ptr s' hat)
  · intro h n ptr s' hat
    by_cases hlt : ptr < usizeAdd address size
    · exact (turnReads_inside image root hlt s').mpr (h n ptr s' hat hlt)
    · -- behind the end nothing is read
      intro r hr
      unfold turnReads at hr
      rw [if_neg hlt] at hr
      exact absurd hr List.not_mem_nil

end

/-- Six bytes that start like an archive. -/
def magicOnly : Image := blit (fun _ => 0) 4096 magic

/-- The header of the first record is read, and there is none. -/
theorem magicOnly_not_inside :
    ¬ StaysInside (pageList .base) nextFrame magicOnly 0 4096 magic.length
      { zeroRam with tree := (RamFsTree.emptyRoot (List VmPage)).toVnodes } := by
  intro h
  have hread : ∀ r ∈ headerReads 4096, Inside 4096 4102 r := by
    intro r hr
    refine h 0 4096 _ rfl r ?_
    unfold turnReads
    rw [if_pos (by decide), if_neg (by decide), if_neg (by decide)]
    exact List.mem_append_left _ (List.mem_cons_of_mem _ hr)
  have hfilesize := hread (4096 + 54, 8) List.mem_cons_self (4096 + 54) (by decide) (by decide)
  exact absurd hfilesize.2 (by decide)

end Ceryx.Fs.CpioLoader
