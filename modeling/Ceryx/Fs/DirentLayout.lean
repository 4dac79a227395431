import Ceryx.Fs.Getdents

/-!
# Ceryx.Fs.DirentLayout — the records as a user reads them

The comment of `Iterate` states the layout of `linux_dirent64`: the name follows
the header of 19 bytes. `Iterate` itself writes the name behind
`sizeof(Dirent64Header)`, which is 24, and leaves the five bytes in between alone.

* `decodeDirents`: the records by the stated layout, if they tile the bytes.
* `Decodes`: what is decoded are the children.
* `decodes_iff_preset`: where all records fit, this holds if and only if the buffer
  already has each name, with its NUL, in the five bytes.
* `letter_not_decoded`: a directory with the file "a", and a buffer of zeros.
-/

namespace Ceryx.Fs.Vfs

open Lib RamFs

variable {V : Type}

/-! ## The stated layout -/

/-- `linux_dirent64`. -/
structure Dirent where
  ino : BitVec 64
  off : BitVec 64
  type : UInt8
  name : StringView
deriving DecidableEq, Repr

/-- Where `d_name` is. -/
def nameOffset : Nat := 19

/-- The string at `p`, up to its NUL; nothing is read from `stop` on. -/
def stringAt (buf : Nat → UInt8) (stop p : Nat) : StringView :=
  (slice buf p (stop - p)).takeWhile (· ≠ 0)

/-- The records from offset `p` on; `none` unless they end at `stop`. -/
def decodeDirents (buf : Nat → UInt8) (stop : Nat) : Nat → Nat → Option (List Dirent)
  | 0, p => if p = stop then some [] else none
  | n + 1, p =>
      if p = stop then some []
      else if stop < p then none
      else
        (decodeDirents buf stop n (p + bufField buf (p + 16) 2)).map fun rest =>
          { ino := BitVec.ofNat 64 (bufField buf p 8)
            off := BitVec.ofNat 64 (bufField buf (p + 8) 8)
            type := buf (p + 18)
            name := stringAt buf stop (p + nameOffset) } :: rest

section
variable (t : Vnodes V) (addr : Nat → BitVec 64)

/-- The entry for child `c`, which has index `i`. -/
def direntOf (i c : Nat) : Dirent where
  ino := addr c
  off := BitVec.ofNat 64 (i + 1)
  type := vtypeToDt (t.node c).type
  name := (t.node c).name

/-- The entries for children from index `i` on. -/
def direntsOf : Nat → List Nat → List Dirent
  | _, [] => []
  | i, c :: cs => direntOf t addr i c :: direntsOf (i + 1) cs

/-- The children from the cookie on. -/
def Listing.rest (s : Listing V) : List Nat := s.d.children.drop s.offset

/-- What `Iterate` writes decodes to the children from the cookie on. -/
def Decodes (s : Listing V) (bufLen : Nat) (buf : Nat → UInt8) : Prop :=
  ∃ n buf', iterate s.d.tree addr s.d.dir buf bufLen s.offset = .ok (n, buf') ∧
    decodeDirents buf' n n 0 = some (direntsOf s.d.tree addr s.offset s.rest)

/-- The five bytes behind the header already begin with the name and its NUL. -/
def Preset (buf : Nat → UInt8) (p c : Nat) : Prop :=
  (t.node c).name ++ [0] <+: slice buf (p + nameOffset) (headerSize - nameOffset)

/-- So it is for all records from offset `p` on. -/
def AllPreset (buf : Nat → UInt8) : Nat → List Nat → Prop
  | _, [] => True
  | p, c :: cs => Preset t buf p c ∧ AllPreset buf (p + recSize t c) cs

/-- The names have no NUL, and the lengths of their records fit into `d_reclen`. -/
def Encodable (cs : List Nat) : Prop :=
  ∀ c ∈ cs, 0 ∉ (t.node c).name ∧ recSize t c < 2 ^ 16

end

/-! ## Strings -/

theorem takeWhile_nul {s rest : StringView} (h : 0 ∉ s) :
    (s ++ 0 :: rest).takeWhile (· ≠ 0) = s := by
  rw [List.takeWhile_append_of_pos]
  · rw [List.takeWhile_cons_of_neg (by decide), List.append_nil]
  · intro b hb
    rw [decide_eq_true_eq]
    rintro rfl
    exact h hb

/-- A string that ends in the padding is there with its NUL. -/
theorem prefix_of_takeWhile {pad rest name : StringView} (hnul : 0 ∈ pad)
    (h : (pad ++ rest).takeWhile (· ≠ 0) = name) : name ++ [0] <+: pad := by
  induction pad generalizing name with
  | nil => exact absurd hnul List.not_mem_nil
  | cons b pad ih =>
      by_cases hb : b = 0
      · rw [hb, List.cons_append, List.takeWhile_cons_of_neg (by decide)] at h
        rw [← h, hb]
        exact List.prefix_append [0] pad
      · rw [List.cons_append, List.takeWhile_cons_of_pos (by simpa using hb)] at h
        have hrest := ih (List.mem_of_ne_of_mem (Ne.symm hb) hnul) rfl
        rw [← h, List.cons_append]
        exact List.cons_prefix_cons.mpr ⟨rfl, hrest⟩

/-- Behind padding, a string is read only where it is in the padding already. -/
theorem takeWhile_padded_iff {pad name rest : StringView} (hpad : pad ≠ []) (hname : 0 ∉ name) :
    (pad ++ (name ++ 0 :: rest)).takeWhile (· ≠ 0) = name ↔ name ++ [0] <+: pad := by
  constructor
  · intro h
    by_cases hnul : (0 : UInt8) ∈ pad
    · exact prefix_of_takeWhile hnul h
    · -- no NUL in the padding: then the string is longer than the name
      exfalso
      rw [← List.append_assoc, takeWhile_nul] at h
      · exact hpad (List.append_left_eq_self.mp h)
      · rw [List.mem_append, not_or]
        exact ⟨hnul, hname⟩
  · rintro ⟨tail, rfl⟩
    rw [List.append_assoc, List.append_assoc, List.singleton_append]
    exact takeWhile_nul hname

/-! ## The bytes behind the header -/

section
variable {t : Vnodes V} {addr : Nat → BitVec 64}

/-- `Iterate` leaves the bytes between the header and the name alone. -/
theorem writeRecord_padding (buf : Nat → UInt8) {p i c j : Nat} (hj : nameOffset ≤ j)
    (hj' : j < headerSize) : writeRecord t addr buf p i c (p + j) = buf (p + j) := by
  unfold nameOffset at hj
  unfold headerSize at hj'
  unfold writeRecord headerSize
  rw [blit_outside (.inl (by omega)), blit_outside (.inl (by omega)),
    blit_outside (.inr (by rw [List.length_singleton]; omega)),
    blit_outside (.inr (by rw [toLE_length]; omega)),
    blit_outside (.inr (by rw [toLE_length]; omega)),
    blit_outside (.inr (by rw [toLE_length]; omega))]

/-- From offset `p` on, the bytes behind the headers are those of `buf`. -/
def Padded (t : Vnodes V) (buf buf' : Nat → UInt8) : Nat → List Nat → Prop
  | _, [] => True
  | p, c :: cs =>
      slice buf' (p + nameOffset) (headerSize - nameOffset) =
          slice buf (p + nameOffset) (headerSize - nameOffset) ∧
        Padded t buf buf' (p + recSize t c) cs

theorem Padded.congr {buf buf₁ buf' : Nat → UInt8} {p : Nat} {cs : List Nat}
    (h : Padded t buf₁ buf' p cs) (hsame : ∀ j, p ≤ j → buf₁ j = buf j) :
    Padded t buf buf' p cs := by
  induction cs generalizing p with
  | nil => trivial
  | cons c cs ih =>
      refine ⟨?_, ih h.2 fun j hj => hsame j (by omega)⟩
      rw [h.1]
      apply slice_eq_iff.mpr
      intro j _
      exact hsame _ (by omega)

/-- The loop of `Iterate` where everything fits. -/
theorem iterateLoop_all (bufLen : Nat) (cs : List Nat) (i written : Nat) (buf : Nat → UInt8)
    (hroom : written + recordsSize t cs ≤ bufLen) :
    ∃ buf', iterateLoop t addr bufLen i written cs buf = (written + recordsSize t cs, buf') ∧
      (∀ j, j < written → buf' j = buf j) ∧ Padded t buf buf' written cs ∧
      Records t addr buf' written i cs := by
  induction cs generalizing i written buf with
  | nil => exact ⟨buf, rfl, fun _ _ => rfl, trivial, trivial⟩
  | cons c cs ih =>
      rw [recordsSize_cons] at hroom
      have hsize := recSize_ge t c
      rcases ih (i + 1) (written + recSize t c) (writeRecord t addr buf written i c) (by omega) with
        ⟨buf', heq, hout, hpadded, hrecords⟩
      rw [recordsSize_cons, ← Nat.add_assoc]
      unfold iterateLoop
      rw [if_neg (by omega)]
      refine ⟨buf', heq, ?_, ⟨?_, ?_⟩, ?_, hrecords⟩
      · intro j hj
        rw [hout j (by omega)]
        exact writeRecord_outside buf (.inl hj)
      · apply slice_eq_iff.mpr
        intro j hj
        unfold nameOffset headerSize at hj
        unfold nameOffset
        rw [hout _ (by unfold headerSize at hsize; omega), Nat.add_assoc]
        exact writeRecord_padding buf (Nat.le_add_right _ _) (by unfold headerSize; omega)
      · apply hpadded.congr
        intro j hj
        exact writeRecord_outside buf (.inr hj)
      · -- the later records leave this one alone
        apply (writeRecord_raw t addr buf written i c).congr
        intro j _ hj
        exact hout j hj

/-! ## Reading the records -/

/-- What the stated layout finds at the name of a record. -/
theorem stringAt_iff {buf : Nat → UInt8} {stop p i c : Nat} (h : RawAt t addr buf p i c)
    (hname : 0 ∉ (t.node c).name) (hstop : p + recSize t c ≤ stop) :
    stringAt buf stop (p + nameOffset) = (t.node c).name ↔ Preset t buf p c := by
  have hsize := recSize_ge t c
  generalize hn : (t.node c).name.length = n at *
  -- what follows the offset: the bytes before the name, the name, a NUL, and the rest
  have hsplit : slice buf (p + nameOffset) (stop - (p + nameOffset)) =
      slice buf (p + nameOffset) (headerSize - nameOffset) ++
        ((t.node c).name ++ 0 :: slice buf (p + headerSize + n + 1)
          (stop - (p + headerSize + n + 1))) := by
    have hlength : stop - (p + nameOffset) =
        (headerSize - nameOffset) + (n + (1 + (stop - (p + headerSize + n + 1)))) := by
      unfold headerSize nameOffset at *
      omega
    have hstart : p + nameOffset + (headerSize - nameOffset) = p + headerSize := rfl
    have hname' : slice buf (p + headerSize) n = (t.node c).name := by
      rw [← hn]
      exact h.name
    have hnul : slice buf (p + headerSize + n) 1 = [0] := by
      have hnul := h.nul
      rw [hn] at hnul
      rw [← hnul]
      rfl
    rw [hlength, slice_add, hstart, slice_add, hname', slice_add, hnul]
    rfl
  unfold stringAt Preset
  rw [hsplit]
  apply takeWhile_padded_iff _ hname
  intro hnil
  have hlength := slice_length buf (p + nameOffset) (headerSize - nameOffset)
  rw [hnil] at hlength
  cases hlength

/-- The records decode to their children exactly where all names are preset. -/
theorem decodeDirents_iff {buf : Nat → UInt8} {stop fuel p i : Nat} {cs : List Nat}
    (h : Records t addr buf p i cs) (henc : Encodable t cs) (hstop : p + recordsSize t cs = stop)
    (hfuel : cs.length ≤ fuel) :
    decodeDirents buf stop fuel p = some (direntsOf t addr i cs) ↔ AllPreset t buf p cs := by
  induction cs generalizing fuel p i with
  | nil =>
      have hend : p = stop := hstop
      refine iff_of_true ?_ trivial
      cases fuel with
      | zero => exact if_pos hend
      | succ fuel => exact if_pos hend
  | cons c cs ih =>
      obtain ⟨hname, hlen⟩ := henc c List.mem_cons_self
      have hsize := recSize_ge t c
      rw [recordsSize_cons] at hstop
      cases fuel with
      | zero => exact absurd hfuel (Nat.not_succ_le_zero _)
      | succ fuel =>
          -- all fields but the name are read back as they were written
          have hreclen : bufField buf (p + 16) 2 = recSize t c := by
            rw [bufField, h.1.reclen]
            exact ofLE_toLE_iff.mpr hlen
          have hino : BitVec.ofNat 64 (bufField buf p 8) = addr c := by
            rw [bufField, h.1.ino, ofLE_toLE_iff.mpr (addr c).isLt, BitVec.ofNat_toNat,
              BitVec.setWidth_eq]
          have hoff : BitVec.ofNat 64 (bufField buf (p + 8) 8) = BitVec.ofNat 64 (i + 1) := by
            rw [bufField, h.1.off, ofLE_toLE]
            apply BitVec.eq_of_toNat_eq
            rw [BitVec.toNat_ofNat, BitVec.toNat_ofNat]
            exact Nat.mod_mod _ _
          have hstring := stringAt_iff h.1 hname (by omega : p + recSize t c ≤ stop)
          have hrest := ih h.2 (fun c' hc' => henc c' (List.mem_cons_of_mem _ hc'))
            (by omega) (Nat.le_of_succ_le_succ hfuel)
          unfold decodeDirents direntsOf direntOf AllPreset
          rw [if_neg (by omega), if_neg (by omega), hreclen, hino, hoff, h.1.type,
            Option.map_eq_some_iff]
          constructor
          · rintro ⟨rest, hdecode, heq⟩
            rw [List.cons.injEq, Dirent.mk.injEq] at heq
            rw [heq.2] at hdecode
            exact ⟨hstring.mp heq.1.2.2.2, hrest.mp hdecode⟩
          · rintro ⟨hpreset, hall⟩
            refine ⟨_, hrest.mpr hall, ?_⟩
            rw [hstring.mpr hpreset]

theorem Padded.preset_iff {buf buf' : Nat → UInt8} {p : Nat} {cs : List Nat}
    (h : Padded t buf buf' p cs) : AllPreset t buf' p cs ↔ AllPreset t buf p cs := by
  induction cs generalizing p with
  | nil => exact Iff.rfl
  | cons c cs ih =>
      unfold AllPreset Preset
      rw [h.1, ih h.2]

end

/-- Where all records fit, they decode to the children if and only if the buffer
already has the names. -/
theorem decodes_iff_preset (addr : Nat → BitVec 64) (s : Listing V) (bufLen : Nat)
    (buf : Nat → UInt8) (henc : Encodable s.d.tree s.rest)
    (hroom : recordsSize s.d.tree s.rest ≤ bufLen) :
    Decodes addr s bufLen buf ↔ AllPreset s.d.tree buf 0 s.rest := by
  have hdir := s.d.isDir
  obtain ⟨buf', hloop, -, hpadded, hrecords⟩ := @iterateLoop_all V s.d.tree addr bufLen s.rest
    s.offset 0 buf (by omega)
  rw [Nat.zero_add] at hloop
  -- with room for all records the call writes them all
  have hiterate : iterate s.d.tree addr s.d.dir buf bufLen s.offset =
      .ok (recordsSize s.d.tree s.rest, buf') := by
    rw [iterate, if_neg (by rw [hdir]; decide)]
    exact congrArg _ hloop
  have hdecode := decodeDirents_iff hrecords henc (Nat.zero_add _)
    (length_le_recordsSize s.d.tree s.rest)
  rw [← hpadded.preset_iff, ← hdecode]
  constructor
  · rintro ⟨n, buf'', heq, hsome⟩
    rw [hiterate] at heq
    cases heq
    exact hsome
  · intro hsome
    exact ⟨_, buf', hiterate, hsome⟩

/-- A buffer that has an "a" at the name of its first record. -/
def presetBuffer : Nat → UInt8 := fun j => if j = 19 then 97 else 0

theorem oneListing_encodable : Encodable oneListing.d.tree oneListing.rest := by
  intro c hc
  obtain rfl := List.mem_singleton.mp hc
  exact ⟨by decide, by decide⟩

/-- One letter is read right in a buffer that has held that letter there before. -/
theorem letter_decoded : Decodes (fun _ => 0) oneListing 64 presetBuffer :=
  (decodes_iff_preset (fun _ => 0) oneListing 64 presetBuffer oneListing_encodable
    (by decide)).mpr ⟨⟨[0, 0, 0], rfl⟩, trivial⟩

/-- In a buffer of zeros, the name of the file "a" reads as the empty string. -/
theorem letter_not_decoded :
    Encodable oneListing.d.tree oneListing.rest ∧
      recordsSize oneListing.d.tree oneListing.rest ≤ 64 ∧
      ¬ Decodes (fun _ => 0) oneListing 64 (fun _ => 0) := by
  refine ⟨oneListing_encodable, by decide, ?_⟩
  rintro ⟨n, buf', heq, hsome⟩
  have hiterate : iterate oneListing.d.tree (fun _ => 0) oneListing.d.dir (fun _ => 0) 64
      oneListing.offset = .ok (32, writeRecord oneListing.d.tree (fun _ => 0) (fun _ => 0) 0 0 1) := rfl
  rw [hiterate] at heq
  cases heq
  exact absurd hsome (by decide)

end Ceryx.Fs.Vfs
