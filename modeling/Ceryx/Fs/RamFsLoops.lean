import Ceryx.Fs.RamFs

/-!
# Ceryx.Fs.RamFsLoops — the loops of Read and Write

* `readLoop_start`: what `Read` stores, its first turn apart.
* `reach`: how far `Write` gets, by the pages that are resident and the results
  of `AllocatePage`.
* `writeLoop_reach`: so it ends with its size or with an error.
* `writeLoop_stored`: however the loop of `Write` ends, the bytes up to `reach`
  are in the file and nothing else has changed. Offsets wrap at 2^64.
* `writeLoop_ok`: with a page for each byte it goes through.
-/

namespace Ceryx.Fs.RamFs

open Lib

variable {V : Type} {vm : VmObject V} {conv : Convention}

/-! ## Arithmetic of the loops -/

theorem kPageSize_pos : 0 < kPageSize := by decide

/-- `offset & (PAGE_SIZE - 1)`, as the remainder. -/
theorem pageOffset_eq (o : Nat) : o &&& (kPageSize - 1) = o % kPageSize :=
  Nat.and_two_pow_sub_one_eq_mod o 12

/-- Addition in `size_t`, where it does not wrap. -/
theorem usizeAdd_eq {a b : Nat} (h : a + b < 2 ^ 64) : usizeAdd a b = a + b := Nat.mod_eq_of_lt h

/-- Each turn copies to the end of the page, or of the request. -/
theorem toCopy_eq (left o : Nat) : toCopy left o = min left (kPageSize - o % kPageSize) := by
  unfold toCopy
  rw [pageOffset_eq]
  dsimp only
  split <;> omega

/-- A turn makes progress. -/
theorem toCopy_pos {left o : Nat} (h : 0 < left) : 0 < toCopy left o := by
  have hmod : o % kPageSize < kPageSize := Nat.mod_lt _ kPageSize_pos
  rw [toCopy_eq]
  omega

theorem toCopy_le (left o : Nat) : toCopy left o ≤ left := by
  rw [toCopy_eq]
  exact Nat.min_le_left _ _

/-- And does not leave its page. -/
theorem toCopy_fits (left o : Nat) : o % kPageSize + toCopy left o ≤ kPageSize := by
  have hmod : o % kPageSize < kPageSize := Nat.mod_lt _ kPageSize_pos
  rw [toCopy_eq]
  omega

/-- After a turn the loop is at its end or at the start of a page. -/
theorem toCopy_next (left o : Nat) :
    toCopy left o = left ∨ (o + toCopy left o) % kPageSize = 0 := by
  rw [toCopy_eq]
  rcases Nat.le_total left (kPageSize - o % kPageSize) with hle | hle
  · exact Or.inl (Nat.min_eq_left hle)
  · right
    rw [Nat.min_eq_right hle]
    have hmod : o % kPageSize < kPageSize := Nat.mod_lt _ kPageSize_pos
    have hdiv : kPageSize * (o / kPageSize) + o % kPageSize = o := Nat.div_add_mod o kPageSize
    have hnext : o + (kPageSize - o % kPageSize) = kPageSize * (o / kPageSize) + kPageSize := by
      omega
    rw [hnext, Nat.mul_add_mod, Nat.mod_self]

/-- The start of the page of an offset. -/
theorem pageStart_eq (o : Nat) : o - o % kPageSize = o / kPageSize * kPageSize := by
  have hdiv : o / kPageSize * kPageSize + o % kPageSize = o := Nat.div_add_mod' o kPageSize
  omega

/-- A page that starts at a multiple of the page size covers the offsets with
its number. -/
theorem covers_iff (o o' pfn : Nat) :
    (VmPage.mk (o - o % kPageSize) kPageSize pfn).Covers o' ↔ o' / kPageSize = o / kPageSize := by
  unfold VmPage.Covers
  dsimp only
  rw [pageStart_eq]
  have hmod : o' % kPageSize < kPageSize := Nat.mod_lt _ kPageSize_pos
  have hdiv : o' / kPageSize * kPageSize + o' % kPageSize = o' := Nat.div_add_mod' o' kPageSize
  constructor
  · rintro ⟨hle, hlt⟩
    apply Nat.div_eq_of_lt_le hle
    rw [Nat.succ_mul]
    exact hlt
  · intro heq
    rw [heq] at hdiv
    constructor
    · omega
    · omega

/-- Pages do not reach over the last offset. -/
theorem usizeAdd_lt (a b : Nat) : usizeAdd a b < 2 ^ 64 := Nat.mod_lt _ (by decide)

/-- The bytes of one turn do not wrap: only the next turn starts at 0. -/
theorem turn_fits (a b left : Nat) :
    usizeAdd a b + toCopy left (usizeAdd a b) ≤ 2 ^ 64 := by
  have hfits := toCopy_fits left (usizeAdd a b)
  have hlt := usizeAdd_lt a b
  unfold kPageSize at hfits
  omega

theorem usizeAdd_add (a b c : Nat) : usizeAdd a (b + c) = (usizeAdd a b + c) % 2 ^ 64 := by
  unfold usizeAdd
  rw [Nat.mod_add_mod, Nat.add_assoc]

/-- The next turn, if there is one, starts at a page. -/
theorem usizeAdd_next (a b left : Nat) :
    toCopy left (usizeAdd a b) = left ∨
      usizeAdd a (b + toCopy left (usizeAdd a b)) % kPageSize = 0 := by
  rcases toCopy_next left (usizeAdd a b) with hend | haligned
  · exact Or.inl hend
  · right
    rw [usizeAdd_add, Nat.mod_mod_of_dvd _ (by decide)]
    exact haligned

/-- At the start of a page the two conventions of `Lookup` agree. -/
theorem Convention.shift_zero (conv : Convention) : conv.shift 0 = 0 := by
  cases conv <;> rfl

/-! ## Pages -/

/-- The pages of an object are those of the table. -/
def Maps (vm : VmObject V) (conv : Convention) (vmo : V) (table : Nat → Option Nat) : Prop :=
  ∀ o, vm.lookup vmo o =
    (table (o / kPageSize)).map fun pfn => pfnToPhysical pfn + conv.shift (o % kPageSize)

/-- The bytes of a file in memory. -/
abbrev fileBytes (mem : Nat → UInt8) (table : Nat → Option Nat) : Nat → UInt8 :=
  content kPageSize 0 mem table

/-! ## Read -/

/-- Every turn copies a byte, so the loop returns `count`. -/
theorem readLoop_count (vmo : V) (mem : Nat → UInt8) (offset count n : Nat) {copied : Nat}
    (buffer : List UInt8) (hle : copied ≤ count) (hfuel : count - copied ≤ n) :
    (readLoop vm vmo mem offset count n copied buffer).1 = count := by
  -- over the turns: each copies at least a byte, so the fuel is enough
  induction n generalizing copied buffer with
  | zero =>
      have hall : copied = count := by omega
      exact hall
  | succ n ih =>
      unfold readLoop
      split
      · rename_i hlt
        have hpos := @toCopy_pos (count - copied) (usizeAdd offset copied) (by omega)
        have hcopy := toCopy_le (count - copied) (usizeAdd offset copied)
        apply ih
        · omega
        · omega
      · rename_i hge
        dsimp only
        omega

/-- A turn reads as many bytes as it copies. -/
theorem readTurn_length (vmo : V) (mem : Nat → UInt8) (currOffset n : Nat) :
    (readTurn vm vmo mem currOffset n).length = n := by
  unfold readTurn
  split
  · exact slice_length mem _ n
  · exact List.length_replicate

/-- As many bytes are stored. -/
theorem readLoop_length (vmo : V) (mem : Nat → UInt8) (offset count n : Nat) {copied : Nat}
    (buffer : List UInt8) (hle : copied ≤ count) (hfuel : count - copied ≤ n) :
    (readLoop vm vmo mem offset count n copied buffer).2.length =
      buffer.length + (count - copied) := by
  induction n generalizing copied buffer with
  | zero =>
      have hall : count - copied = 0 := by omega
      rw [hall]
      rfl
  | succ n ih =>
      unfold readLoop
      split
      · -- a turn copies its bytes, the induction hypothesis gives the others
        rename_i hlt
        have hpos := @toCopy_pos (count - copied) (usizeAdd offset copied) (by omega)
        have hcopy := toCopy_le (count - copied) (usizeAdd offset copied)
        dsimp only
        rw [ih _ (by omega) (by omega), List.length_append, readTurn_length]
        omega
      · rename_i hge
        have hall : count - copied = 0 := by omega
        rw [hall]
        rfl

section
variable {vmo : V} {mem : Nat → UInt8} {table : Nat → Option Nat}

/-- What a turn of `Read` stores: bytes of the page, at the place that the
convention gives. -/
theorem readTurn_eq (hmaps : Maps vm conv vmo table) (o left : Nat) :
    readTurn vm vmo mem o (toCopy left o) =
      slice (fileBytes mem table) (o - o % kPageSize + conv.shift (o % kPageSize))
        (toCopy left o) := by
  have hfits := toCopy_fits left o
  have hshift : conv.shift (o % kPageSize) ≤ o % kPageSize := by
    cases conv with
    | base => exact Nat.zero_le _
    | basePlusOffset => exact Nat.le_refl _
  -- the positions of the turn are in one page
  have hpage : ∀ j, j < toCopy left o →
      (o - o % kPageSize + conv.shift (o % kPageSize) + j) / kPageSize = o / kPageSize ∧
      (o - o % kPageSize + conv.shift (o % kPageSize) + j) % kPageSize =
        conv.shift (o % kPageSize) + j := by
    intro j hj
    have hlt : conv.shift (o % kPageSize) + j < kPageSize := by omega
    rw [pageStart_eq, Nat.add_assoc]
    constructor
    · exact page_div hlt
    · rw [Nat.mul_add_mod_self_right, Nat.mod_eq_of_lt hlt]
  unfold readTurn
  rw [hmaps o]
  cases hframe : table (o / kPageSize) with
  | none =>
      symm
      apply slice_eq_replicate
      intro j hj
      apply content_none
      rw [(hpage j hj).1]
      exact hframe
  | some pfn =>
      apply slice_eq_iff.mpr
      intro j hj
      have htable : table ((o - o % kPageSize + conv.shift (o % kPageSize) + j) / kPageSize) =
          some pfn := by
        rw [(hpage j hj).1]
        exact hframe
      unfold fileBytes
      rw [content_some htable, (hpage j hj).2]
      unfold pfnToPhysical
      rw [Nat.add_assoc]

/-- The loop of `Read` from a place where `Lookup` gives the address. -/
theorem readLoop_ring (hmaps : Maps vm conv vmo table) {offset count : Nat} (n : Nat) {copied : Nat}
    (buffer : List UInt8) (hle : copied ≤ count) (hfuel : count - copied ≤ n)
    (hstraight : copied < count →
      conv.shift (usizeAdd offset copied % kPageSize) = usizeAdd offset copied % kPageSize) :
    readLoop vm vmo mem offset count n copied buffer =
      (count, buffer ++
        ringSlice (2 ^ 64) (fileBytes mem table) (offset + copied) (count - copied)) := by
  induction n generalizing copied buffer with
  | zero =>
      have hall : copied = count := by omega
      subst hall
      simp [readLoop, ringSlice]
  | succ n ih =>
      unfold readLoop
      split
      · rename_i hlt
        have hmod : usizeAdd offset copied % kPageSize ≤ usizeAdd offset copied := Nat.mod_le _ _
        have hpos := @toCopy_pos (count - copied) (usizeAdd offset copied) (by omega)
        have hcopy := toCopy_le (count - copied) (usizeAdd offset copied)
        have hfits := turn_fits offset copied (count - copied)
        have hnext := usizeAdd_next offset copied (count - copied)
        dsimp only
        rw [readTurn_eq hmaps, hstraight hlt, Nat.sub_add_cancel hmod]
        generalize toCopy (count - copied) (usizeAdd offset copied) = m at hpos hcopy hfits hnext ⊢
        -- after the first turn each page is read from its start
        have hrest : copied + m < count → conv.shift (usizeAdd offset (copied + m) % kPageSize) =
            usizeAdd offset (copied + m) % kPageSize := by
          intro hmore
          rcases hnext with hend | haligned
          · omega
          · rw [haligned]
            exact conv.shift_zero
        rw [ih _ (by omega) (by omega) hrest, List.append_assoc,
          ← ringSlice_eq_slice (fileBytes mem table) hfits]
        unfold usizeAdd
        rw [ringSlice_mod, ← Nat.add_assoc, ← ringSlice_add]
        congr 4
        omega
      · have hall : copied = count := by omega
        subst hall
        simp [ringSlice]

/-- The loop of `Read` from its start: the first turn may be in the wrong
place. -/
theorem readLoop_start_ring (hmaps : Maps vm conv vmo table) {offset : Nat}
    (hoffset : offset < 2 ^ 64) (count : Nat) :
    readLoop vm vmo mem offset count count 0 [] =
      (count, slice (fileBytes mem table)
          (offset - offset % kPageSize + conv.shift (offset % kPageSize))
          (min count (kPageSize - offset % kPageSize)) ++
        ringSlice (2 ^ 64) (fileBytes mem table)
          (offset + min count (kPageSize - offset % kPageSize))
          (count - min count (kPageSize - offset % kPageSize))) := by
  cases count with
  | zero => simp [readLoop, slice, ringSlice]
  -- the first turn starts inside a page, the others at the start of one
  | succ n =>
      have hcurr : usizeAdd offset 0 = offset := usizeAdd_eq hoffset
      have hpos := @toCopy_pos (n + 1) offset (Nat.succ_pos n)
      have hcopy := toCopy_le (n + 1) offset
      have hnext := usizeAdd_next offset 0 (n + 1)
      rw [hcurr, Nat.zero_add] at hnext
      unfold readLoop
      rw [if_pos (Nat.succ_pos n)]
      dsimp only
      rw [Nat.sub_zero, hcurr, readTurn_eq hmaps, ← toCopy_eq, List.nil_append, Nat.zero_add]
      generalize toCopy (n + 1) offset = m at hpos hcopy hnext ⊢
      apply readLoop_ring hmaps n _ hcopy (by omega)
      intro hmore
      rcases hnext with hend | haligned
      · omega
      · rw [haligned]
        exact conv.shift_zero

/-- The same where the offsets do not wrap. -/
theorem readLoop_eq (hmaps : Maps vm conv vmo table) {offset count : Nat}
    (hbound : offset + count < 2 ^ 64) (n : Nat) {copied : Nat} (buffer : List UInt8)
    (hle : copied ≤ count) (hfuel : count - copied ≤ n)
    (hstraight : copied < count →
      conv.shift ((offset + copied) % kPageSize) = (offset + copied) % kPageSize) :
    readLoop vm vmo mem offset count n copied buffer =
      (count, buffer ++ slice (fileBytes mem table) (offset + copied) (count - copied)) := by
  have hcurr : usizeAdd offset copied = offset + copied := usizeAdd_eq (by omega)
  rw [← ringSlice_eq_slice (N := 2 ^ 64) _ (by omega)]
  apply readLoop_ring hmaps n buffer hle hfuel
  rw [hcurr]
  exact hstraight

theorem readLoop_start (hmaps : Maps vm conv vmo table) {offset count : Nat}
    (hbound : offset + count < 2 ^ 64) :
    readLoop vm vmo mem offset count count 0 [] =
      (count, slice (fileBytes mem table)
          (offset - offset % kPageSize + conv.shift (offset % kPageSize))
          (min count (kPageSize - offset % kPageSize)) ++
        slice (fileBytes mem table) (offset + min count (kPageSize - offset % kPageSize))
          (count - min count (kPageSize - offset % kPageSize))) := by
  rw [readLoop_start_ring hmaps (by omega), ringSlice_eq_slice _ (by omega)]

end

/-! ## Write -/

/-- `bytes` went to file `i` at position `p`, and nothing else happened to the
files. -/
structure Stored (i p : Nat) (bytes : List UInt8) (mem mem' : Nat → UInt8)
    (tables tables' : Nat → Nat → Option Nat) : Prop where
  kept : ∀ j, j ≠ i → tables' j = tables j
  self : fileBytes mem' (tables' i) = blit (fileBytes mem (tables i)) p bytes
  others : ∀ j, j ≠ i → fileBytes mem' (tables' j) = fileBytes mem (tables j)

/-- The same for positions that wrap at 2^64. -/
structure RingStored (i p : Nat) (bytes : List UInt8) (mem mem' : Nat → UInt8)
    (tables tables' : Nat → Nat → Option Nat) : Prop where
  kept : ∀ j, j ≠ i → tables' j = tables j
  self : fileBytes mem' (tables' i) = ringBlit (2 ^ 64) (fileBytes mem (tables i)) p bytes
  others : ∀ j, j ≠ i → fileBytes mem' (tables' j) = fileBytes mem (tables j)

section
variable {mem mem' mem'' : Nat → UInt8} {tables tables' tables'' : Nat → Nat → Option Nat} {i p : Nat}

/-- A write that does not wrap is one to consecutive offsets. -/
theorem RingStored.stored {bytes : List UInt8} (h : RingStored i p bytes mem mem' tables tables')
    (hfit : p + bytes.length ≤ 2 ^ 64) : Stored i p bytes mem mem' tables tables' where
  kept := h.kept
  self := by rw [h.self, ringBlit_eq_blit hfit]
  others := h.others

/-- And the other way round. -/
theorem Stored.ring {bytes : List UInt8} (h : Stored i p bytes mem mem' tables tables')
    (hfit : p + bytes.length ≤ 2 ^ 64) : RingStored i p bytes mem mem' tables tables' where
  kept := h.kept
  self := by rw [h.self, ringBlit_eq_blit hfit]
  others := h.others

/-- Nothing went to the file. -/
theorem RingStored.none (htables : ∀ j, j ≠ i → tables' j = tables j)
    (hbytes : ∀ j, fileBytes mem' (tables' j) = fileBytes mem (tables j)) (p : Nat) :
    RingStored i p [] mem mem' tables tables' where
  kept := htables
  self := by
    rw [ringBlit_nil]
    exact hbytes i
  others j _ := hbytes j

/-- No bytes store nothing. -/
theorem RingStored.refl (mem : Nat → UInt8) (tables : Nat → Nat → Option Nat) (i p : Nat) :
    RingStored i p [] mem mem tables tables :=
  RingStored.none (fun _ _ => rfl) (fun _ => rfl) p

/-- Two writes, the second where the first has ended, are one. -/
theorem RingStored.trans {xs ys : List UInt8} (h : RingStored i p xs mem mem' tables tables')
    (hp : p < 2 ^ 64) (hlen : xs.length + ys.length ≤ 2 ^ 64)
    (h' : RingStored i ((p + xs.length) % 2 ^ 64) ys mem' mem'' tables' tables'') :
    RingStored i p (xs ++ ys) mem mem'' tables tables'' where
  kept j hj := (h'.kept j hj).trans (h.kept j hj)
  self := by rw [h'.self, h.self, ringBlit_append _ hp hlen]
  others j hj := (h'.others j hj).trans (h.others j hj)

end

/-- What the loop of `Write` on file `i` keeps. -/
structure WriteInv (vm : VmObject V) (conv : Convention) (i : Nat) (w : Writing V)
    (tables : Nat → Nat → Option Nat) : Prop where
  maps : Maps vm conv w.vmo (tables i)
  frames : Frames tables w.used
  fresh : Fresh w.used w.pages

/-- `Lookup` fails where the file has no page. -/
theorem Maps.lookup_none {vmo : V} {table : Nat → Option Nat} (h : Maps vm conv vmo table) {o : Nat} :
    vm.lookup vmo o = none ↔ table (o / kPageSize) = none := by
  rw [h o, Option.map_eq_none_iff]

/-- A page where none was. -/
theorem Maps.insertBlock (hlaw : vm.Lawful conv) {vmo : V} {tables : Nat → Nat → Option Nat}
    {i : Nat} (h : Maps vm conv vmo (tables i)) {o : Nat} (hnone : vm.lookup vmo o = none)
    (pfn : Nat) :
    Maps vm conv (vm.insertBlock vmo ⟨o - o % kPageSize, kPageSize, pfn⟩)
      (Frames.addPage tables i (o / kPageSize) pfn i) := by
  have hvacant : ∀ o', (VmPage.mk (o - o % kPageSize) kPageSize pfn).Covers o' →
      vm.lookup vmo o' = none := by
    intro o' hcovers
    rw [h.lookup_none, (covers_iff o o' pfn).mp hcovers]
    exact h.lookup_none.mp hnone
  intro o'
  -- inside the new block its own page, outside what was there
  by_cases hcovers : (VmPage.mk (o - o % kPageSize) kPageSize pfn).Covers o'
  · rw [hlaw.lookup_inside _ _ _ hvacant hcovers, (covers_iff o o' pfn).mp hcovers,
      Frames.addPage_self]
    rfl
  · have hne : o' / kPageSize ≠ o / kPageSize := fun heq => hcovers ((covers_iff o o' pfn).mpr heq)
    rw [hlaw.lookup_outside _ _ _ hvacant hcovers, Frames.addPage_ne_page i hne]
    exact h o'

/-- The first frame of a fresh list is not in use, and the rest is fresh beside it. -/
theorem Fresh.cons {used : List Nat} {pfn : Nat} {rest : List (Option Nat)}
    (h : Fresh used (some pfn :: rest)) : pfn ∉ used ∧ Fresh (pfn :: used) rest := by
  rcases h with ⟨hnodup, hout⟩
  simp only [List.filterMap_cons, id_eq, List.nodup_cons] at hnodup hout
  refine ⟨hout pfn List.mem_cons_self, hnodup.2, ?_⟩
  intro q hq hmem
  rcases List.mem_cons.mp hmem with rfl | hold
  · exact hnodup.1 hq
  · exact hout q (List.mem_cons_of_mem _ hq) hold

/-- A turn of `Write` gets the page, in the right place unless it was resident
and `Lookup` adds the offset. -/
theorem lookupOrInsert_spec (hlaw : vm.Lawful conv) {i : Nat} {w w' : Writing V}
    {tables : Nat → Nat → Option Nat} (h : WriteInv vm conv i w tables) {o phys : Nat}
    (hok : conv.shift (o % kPageSize) = 0 ∨ vm.lookup w.vmo o = none)
    (heq : lookupOrInsert vm w o = (some phys, w')) :
    ∃ tables' pfn, WriteInv vm conv i w' tables' ∧ tables' i (o / kPageSize) = some pfn ∧
      phys = pfnToPhysical pfn ∧ RingStored i o [] w.mem w'.mem tables tables' := by
  unfold lookupOrInsert at heq
  cases hlookup : vm.lookup w.vmo o with
  | some found =>
      -- the page is there
      rw [hlookup] at heq hok
      cases heq
      have hmaps := h.maps o
      rw [hlookup] at hmaps
      rcases Option.map_eq_some_iff.mp hmaps.symm with ⟨pfn, hframe, hphys⟩
      have hshift : conv.shift (o % kPageSize) = 0 := hok.elim id fun hnone => by cases hnone
      rw [hshift, Nat.add_zero] at hphys
      exact ⟨tables, pfn, h, hframe, hphys.symm, RingStored.refl _ _ _ _⟩
  | none =>
      -- a hole gets a page that no file has
      rw [hlookup] at heq
      have hframe := h.maps.lookup_none.mp hlookup
      dsimp only at heq
      unfold allocatePage at heq
      split at heq
      · cases heq
      · rename_i w₁ pfn w₂ halloc
        split at halloc
        · cases halloc
        · cases halloc
        · rename_i p rest hpages
          cases halloc
          cases heq
          have hfresh := h.fresh
          rw [hpages] at hfresh
          rcases hfresh.cons with ⟨hunused, hrest⟩
          refine ⟨Frames.addPage tables i (o / kPageSize) pfn, pfn, ⟨?_, ?_, hrest⟩,
            Frames.addPage_self i _ pfn, rfl, RingStored.none ?_ ?_ o⟩
          · dsimp only
            rw [pageOffset_eq]
            exact h.maps.insertBlock hlaw hlookup pfn
          · exact h.frames.alloc i _ hunused
          · exact fun j hj => Frames.addPage_ne_file hj _ pfn
          · exact fun j => h.frames.content_alloc hunused hframe kPageSize_pos j

/-- A turn that gets no page leaves everything as it is. -/
theorem lookupOrInsert_none {i : Nat} {w w' : Writing V} {tables : Nat → Nat → Option Nat}
    (h : WriteInv vm conv i w tables) {o : Nat} (heq : lookupOrInsert vm w o = (none, w')) :
    WriteInv vm conv i w' tables ∧ w'.mem = w.mem := by
  unfold lookupOrInsert at heq
  cases hlookup : vm.lookup w.vmo o with
  | some found =>
      rw [hlookup] at heq
      cases heq
  | none =>
      rw [hlookup] at heq
      dsimp only at heq
      unfold allocatePage at heq
      -- no answer left, no memory, or a page
      rcases hpages : w.pages with _ | ⟨_ | pfn, rest⟩
      · rw [hpages] at heq
        cases heq
        exact ⟨h, rfl⟩
      · rw [hpages] at heq
        cases heq
        have hfresh := h.fresh
        rw [hpages] at hfresh
        exact ⟨⟨h.maps, h.frames, hfresh⟩, rfl⟩
      · rw [hpages] at heq
        cases heq

/-- How far the loop of `Write` gets from `copied` on: to the end, or to the
first page that is not resident and that `AllocatePage` does not give. -/
def reach (vm : VmObject V) (size offset : Nat) : Nat → Nat → V → List (Option Nat) → Nat
  | 0, copied, _, _ => copied
  | n + 1, copied, vmo, pages =>
      if copied < size then
        let currOffset := usizeAdd offset copied
        let next := copied + toCopy (size - copied) currOffset
        match vm.lookup vmo currOffset with
        | some _ => reach vm size offset n next vmo pages
        | none =>
            match pages with
            | some pfn :: rest =>
                let page : VmPage :=
                  { offset := currOffset - (currOffset &&& (kPageSize - 1))
                    sizeBytes := kPageSize
                    pfn := pfn }
                reach vm size offset n next (vm.insertBlock vmo page) rest
            | _ => copied
      else copied

/-- The loop gets no further than the first page it cannot have, -/
theorem reach_none {w w' : Writing V} {size offset copied : Nat} (hlt : copied < size) (n : Nat)
    (heq : lookupOrInsert vm w (usizeAdd offset copied) = (none, w')) :
    reach vm size offset (n + 1) copied w.vmo w.pages = copied := by
  unfold lookupOrInsert allocatePage at heq
  unfold reach
  rw [if_pos hlt]
  dsimp only
  cases hlookup : vm.lookup w.vmo (usizeAdd offset copied) with
  -- a page that is there does not fail
  | some found =>
      rw [hlookup] at heq
      cases heq
  | none =>
      rw [hlookup] at heq
      dsimp only at heq ⊢
      rcases hpages : w.pages with _ | ⟨_ | pfn, rest⟩
      · rfl
      · rfl
      · rw [hpages] at heq
        cases heq

/-- goes on behind one that it has, -/
theorem reach_some {w w' : Writing V} {size offset copied phys : Nat} (hlt : copied < size)
    (n : Nat) (heq : lookupOrInsert vm w (usizeAdd offset copied) = (some phys, w')) :
    reach vm size offset (n + 1) copied w.vmo w.pages =
      reach vm size offset n (copied + toCopy (size - copied) (usizeAdd offset copied))
        w'.vmo w'.pages := by
  unfold lookupOrInsert allocatePage at heq
  conv_lhs => unfold reach
  rw [if_pos hlt]
  dsimp only
  cases hlookup : vm.lookup w.vmo (usizeAdd offset copied) with
  -- the page is resident
  | some found =>
      rw [hlookup] at heq
      cases heq
      rfl
  -- it is allocated
  | none =>
      rw [hlookup] at heq
      dsimp only at heq ⊢
      rcases hpages : w.pages with _ | ⟨_ | pfn, rest⟩
      · rw [hpages] at heq
        cases heq
      · rw [hpages] at heq
        cases heq
      · rw [hpages] at heq
        cases heq
        rfl

/-- and ends with the request. -/
theorem reach_done {size copied : Nat} (h : size ≤ copied) (offset n : Nat) (vmo : V)
    (pages : List (Option Nat)) : reach vm size offset n copied vmo pages = copied := by
  cases n with
  | zero => rfl
  | succ n =>
      unfold reach
      rw [if_neg (Nat.not_lt.mpr h)]

/-- It never gets behind it, and never back. -/
theorem reach_bounds (vm : VmObject V) {size : Nat} (offset n : Nat) {copied : Nat}
    (hle : copied ≤ size) (vmo : V) (pages : List (Option Nat)) :
    copied ≤ reach vm size offset n copied vmo pages ∧
      reach vm size offset n copied vmo pages ≤ size := by
  induction n generalizing copied vmo pages with
  | zero => exact ⟨Nat.le_refl _, hle⟩
  | succ n ih =>
      have hcopy := toCopy_le (size - copied) (usizeAdd offset copied)
      unfold reach
      split
      · -- a turn with a page that is resident, or allocated, or not to be had
        rename_i hlt
        dsimp only
        split
        · have hnext := @ih (copied + toCopy (size - copied) (usizeAdd offset copied)) (by omega)
            vmo pages
          omega
        · split
          · constructor
            · exact Nat.le_trans (Nat.le_add_right _ _) (ih (by omega) _ _).1
            · exact (ih (by omega) _ _).2
          · exact ⟨Nat.le_refl _, hle⟩
      · exact ⟨Nat.le_refl _, hle⟩

/-! ### How the loop of Write ends -/

/-- With nothing left to copy the loop returns the count. -/
theorem writeLoop_done {src : List UInt8} {copied : Nat} (h : src.length ≤ copied) (offset n : Nat)
    (w : Writing V) : writeLoop vm src offset n copied w = (.ok copied, w) := by
  cases n with
  | zero => rfl
  | succ n =>
      unfold writeLoop
      rw [if_neg (Nat.not_lt.mpr h)]

/-- One turn. -/
theorem writeLoop_turn {src : List UInt8} {copied : Nat} (h : copied < src.length) (offset n : Nat)
    (w : Writing V) :
    writeLoop vm src offset (n + 1) copied w =
      match lookupOrInsert vm w (usizeAdd offset copied) with
      | (none, w) => (.error (-ENOMEM), w)
      | (some phys, w) =>
          writeLoop vm src offset n
            (copied + toCopy (src.length - copied) (usizeAdd offset copied))
            { w with
              mem := blit w.mem (phys + usizeAdd offset copied % kPageSize)
                ((src.drop copied).take
                  (toCopy (src.length - copied) (usizeAdd offset copied))) } := by
  have hpage := pageOffset_eq (usizeAdd offset copied)
  conv_lhs => unfold writeLoop
  rw [if_pos h]
  dsimp only
  exact hpage ▸ rfl

/-- The loop writes all if it has or gets all its pages. -/
theorem writeLoop_reach (vm : VmObject V) (src : List UInt8) (offset n : Nat) {copied : Nat}
    (w : Writing V) (hle : copied ≤ src.length) (hn : src.length - copied ≤ n) :
    (writeLoop vm src offset n copied w).1 =
      if reach vm src.length offset n copied w.vmo w.pages = src.length then .ok src.length
      else .error (-ENOMEM) := by
  induction n generalizing copied w with
  | zero =>
      have hall : copied = src.length := by omega
      subst hall
      exact (if_pos rfl).symm
  | succ n ih =>
      rcases Nat.lt_or_ge copied src.length with hlt | hge
      · rw [writeLoop_turn hlt]
        have hpos := @toCopy_pos (src.length - copied) (usizeAdd offset copied) (by omega)
        have hcopy := toCopy_le (src.length - copied) (usizeAdd offset copied)
        -- a turn without a page ends the loop, one with a page goes on
        rcases hturn : lookupOrInsert vm w (usizeAdd offset copied) with ⟨_ | phys, w₁⟩
        · rw [reach_none hlt n hturn, if_neg (Nat.ne_of_lt hlt)]
        · rw [reach_some hlt n hturn]
          exact ih _ (by omega) (by omega)
      · have hall : copied = src.length := Nat.le_antisymm hle hge
        subst hall
        rw [writeLoop_done (Nat.le_refl _), reach_done (Nat.le_refl _), if_pos rfl]

/-- What is written in the end is all of it. -/
theorem writeLoop_all {src : List UInt8} {offset n : Nat} {w w' : Writing V}
    (h : writeLoop vm src offset src.length 0 w = (.ok n, w')) : n = src.length := by
  have hres := writeLoop_reach vm src offset src.length w (Nat.zero_le _) (Nat.sub_le _ _)
  rw [h] at hres
  dsimp only at hres
  split at hres
  · exact Except.ok.inj hres
  · cases hres

/-- The bytes of a turn and those of the rest. -/
theorem drop_take_turn {src : List UInt8} {copied m k : Nat} (h : copied + m ≤ k) :
    (src.take k).drop copied = (src.drop copied).take m ++ (src.take k).drop (copied + m) := by
  rw [← List.drop_drop, ← List.take_append_drop m ((src.take k).drop copied)]
  congr 1
  · rw [List.drop_take, List.take_take, Nat.min_eq_left (by omega)]
  · rw [List.take_append_drop]

/-- What `Write` does with the bytes behind `reach` does not depend on them: it
does not copy them. -/
theorem writeLoop_congr (vm : VmObject V) {src src' : List UInt8} (hlen : src.length = src'.length)
    (offset n : Nat) {copied : Nat} (hle : copied ≤ src.length) (w : Writing V)
    (h : src.take (reach vm src.length offset n copied w.vmo w.pages) =
      src'.take (reach vm src.length offset n copied w.vmo w.pages)) :
    writeLoop vm src offset n copied w = writeLoop vm src' offset n copied w := by
  induction n generalizing copied w with
  | zero => rfl
  | succ n ih =>
      by_cases hlt : copied < src.length
      · have hlt' : copied < src'.length := by omega
        rw [writeLoop_turn hlt, writeLoop_turn hlt']
        rcases hturn : lookupOrInsert vm w (usizeAdd offset copied) with ⟨_ | phys, w₁⟩
        · rfl
        · rw [reach_some hlt n hturn] at h
          have hcopy := toCopy_le (src.length - copied) (usizeAdd offset copied)
          have hnext : copied + toCopy (src.length - copied) (usizeAdd offset copied) ≤
              src.length := by omega
          have hbounds := reach_bounds vm offset n hnext w₁.vmo w₁.pages
          -- the bytes of this turn are before `reach`
          have hbefore := congrArg
            (List.take (copied + toCopy (src.length - copied) (usizeAdd offset copied))) h
          rw [List.take_take, List.take_take, Nat.min_eq_left hbounds.1] at hbefore
          have hbytes := congrArg (List.drop copied) hbefore
          rw [List.drop_take, List.drop_take, Nat.add_sub_cancel_left] at hbytes
          dsimp only
          rw [← hlen, hbytes]
          exact ih hnext _ h
      · have hge : src.length ≤ copied := Nat.le_of_not_lt hlt
        rw [writeLoop_done hge, writeLoop_done (by omega)]

/-- What the loop of `Write` does, however it ends. -/
theorem writeLoop_stored (hlaw : vm.Lawful conv) {src : List UInt8} (hlen : src.length < 2 ^ 64)
    {offset i : Nat} (n : Nat) {copied : Nat} {w : Writing V} {tables : Nat → Nat → Option Nat}
    (h : WriteInv vm conv i w tables) (hle : copied ≤ src.length) (hfuel : src.length - copied ≤ n)
    (hok : copied < src.length → conv.shift (usizeAdd offset copied % kPageSize) = 0 ∨
      vm.lookup w.vmo (usizeAdd offset copied) = none)
    {k : Nat} (hk : reach vm src.length offset n copied w.vmo w.pages = k)
    {result : Except Int Nat} {w' : Writing V}
    (heq : writeLoop vm src offset n copied w = (result, w')) :
    ∃ tables', WriteInv vm conv i w' tables' ∧
      RingStored i (usizeAdd offset copied) ((src.take k).drop copied) w.mem w'.mem tables tables' ∧
      result = if k = src.length then .ok src.length else .error (-ENOMEM) := by
  induction n generalizing copied w tables with
  | zero =>
      have hall : copied = src.length := by omega
      cases heq
      subst hk
      subst hall
      have hnil : (src.take src.length).drop src.length = [] := by simp
      refine ⟨tables, h, ?_, (if_pos rfl).symm⟩
      rw [reach_done (Nat.le_refl _), hnil]
      exact RingStored.refl _ _ _ _
  | succ n ih =>
      by_cases hlt : copied < src.length
      · unfold writeLoop at heq
        rw [if_pos hlt] at heq
        dsimp only at heq
        rw [pageOffset_eq] at heq
        rcases hturn : lookupOrInsert vm w (usizeAdd offset copied) with ⟨_ | phys, w₁⟩
        · -- no page: nothing is stored
          rw [hturn] at heq
          cases heq
          rw [reach_none hlt n hturn] at hk
          subst hk
          rcases lookupOrInsert_none h hturn with ⟨h₁, hmem⟩
          have hnil : (src.take copied).drop copied = [] := by simp
          rw [hnil, hmem, if_neg (Nat.ne_of_lt hlt)]
          exact ⟨tables, h₁, RingStored.refl _ _ _ _, rfl⟩
        · rw [hturn] at heq
          dsimp only at heq
          rw [reach_some hlt n hturn] at hk
          have hpos := @toCopy_pos (src.length - copied) (usizeAdd offset copied) (by omega)
          have hcopy := toCopy_le (src.length - copied) (usizeAdd offset copied)
          have hfits := toCopy_fits (src.length - copied) (usizeAdd offset copied)
          have hring := turn_fits offset copied (src.length - copied)
          have hnext := usizeAdd_next offset copied (src.length - copied)
          rcases lookupOrInsert_spec hlaw h (hok hlt) hturn with
            ⟨tables₁, pfn, h₁, hframe, hphys, hstored₁⟩
          subst hphys
          generalize toCopy (src.length - copied) (usizeAdd offset copied) = m at *
          -- the turn writes `m` bytes into the page
          have hbytes : ((src.drop copied).take m).length = m := by
            rw [List.length_take, List.length_drop]
            omega
          have hstored₂ : RingStored i (usizeAdd offset copied) ((src.drop copied).take m) w₁.mem
              (blit w₁.mem (pfnToPhysical pfn + usizeAdd offset copied % kPageSize)
                ((src.drop copied).take m)) tables₁ tables₁ := by
            rcases h₁.frames.content_blit hframe (by rw [hbytes]; exact hfits) kPageSize_pos with
              ⟨hself, hothers⟩
            rw [Nat.div_add_mod' (usizeAdd offset copied) kPageSize] at hself
            exact Stored.ring ⟨fun _ _ => rfl, hself, hothers⟩ (by rw [hbytes]; exact hring)
          have hinv₂ : WriteInv vm conv i { w₁ with
              mem := blit w₁.mem (pfnToPhysical pfn + usizeAdd offset copied % kPageSize)
                ((src.drop copied).take m) } tables₁ := ⟨h₁.maps, h₁.frames, h₁.fresh⟩
          -- the rest is the induction hypothesis
          have hok₂ : copied + m < src.length →
              conv.shift (usizeAdd offset (copied + m) % kPageSize) = 0 ∨
                vm.lookup w₁.vmo (usizeAdd offset (copied + m)) = none := by
            intro hmore
            rcases hnext with hend | haligned
            · omega
            · left
              rw [haligned]
              exact conv.shift_zero
          rcases ih hinv₂ (by omega) (by omega) hok₂ hk heq with ⟨tables', h', hstored₃, hresult⟩
          have hmore : copied + m ≤ src.length := by omega
          have hbounds := reach_bounds vm offset n hmore w₁.vmo w₁.pages
          rw [hk] at hbounds
          refine ⟨tables', h', ?_, hresult⟩
          rw [drop_take_turn hbounds.1, ← List.nil_append ((src.drop copied).take m ++ _)]
          have hrest : ((src.take k).drop (copied + m)).length = k - (copied + m) := by
            rw [List.length_drop, List.length_take, Nat.min_eq_left hbounds.2]
          apply hstored₁.trans (usizeAdd_lt _ _)
          · simp only [List.length_nil, List.length_append, hbytes, hrest]
            omega
          · rw [List.length_nil, Nat.add_zero, Nat.mod_eq_of_lt (usizeAdd_lt _ _)]
            apply hstored₂.trans (usizeAdd_lt _ _)
            · rw [hbytes, hrest]
              omega
            · rw [hbytes, ← usizeAdd_add]
              exact hstored₃
      · have hall : copied = src.length := by omega
        unfold writeLoop at heq
        rw [if_neg hlt] at heq
        cases heq
        rw [reach_done (Nat.le_of_eq hall.symm)] at hk
        subst hk
        subst hall
        have hnil : (src.take src.length).drop src.length = [] := by simp
        rw [hnil, if_pos rfl]
        exact ⟨tables, h, RingStored.refl _ _ _ _, rfl⟩

/-- The loop of `Write`, when it goes through and the offsets do not wrap. -/
theorem writeLoop_spec (hlaw : vm.Lawful conv) {src : List UInt8} {offset : Nat}
    (hbound : offset + src.length < 2 ^ 64) {i : Nat} {total : Nat} {w w' : Writing V}
    {tables : Nat → Nat → Option Nat} (h : WriteInv vm conv i w tables)
    (hok : src ≠ [] → conv.shift (offset % kPageSize) = 0 ∨ vm.lookup w.vmo offset = none)
    (heq : writeLoop vm src offset src.length 0 w = (.ok total, w')) :
    ∃ tables', WriteInv vm conv i w' tables' ∧ Stored i offset src w.mem w'.mem tables tables' := by
  have hcurr : usizeAdd offset 0 = offset := usizeAdd_eq (by omega)
  rcases writeLoop_stored hlaw (by omega) src.length h (Nat.zero_le _) (Nat.le_refl _)
    (fun hlt => by
      rw [hcurr]
      exact hok (List.ne_nil_of_length_pos hlt)) rfl heq with ⟨tables', h', hstored, hresult⟩
  split at hresult
  · rename_i hall
    rw [hall, hcurr, List.take_length, List.drop_zero] at hstored
    exact ⟨tables', h', hstored.stored (by omega)⟩
  · cases hresult

/-! ## Enough pages -/

/-- A turn of `Write` takes a page at most. -/
theorem lookupOrInsert_ok {w : Writing V} (o : Nat) (hsome : ∀ p ∈ w.pages, p ≠ none)
    (hpos : 0 < w.pages.length) :
    ∃ phys w', lookupOrInsert vm w o = (some phys, w') ∧ (∀ p ∈ w'.pages, p ≠ none) ∧
      w.pages.length ≤ w'.pages.length + 1 := by
  unfold lookupOrInsert
  cases vm.lookup w.vmo o with
  | some phys => exact ⟨phys, w, rfl, hsome, Nat.le_succ _⟩
  | none =>
      dsimp only
      unfold allocatePage
      rcases hp : w.pages with _ | ⟨p, rest⟩
      · rw [hp] at hpos
        cases hpos
      · -- one page of the supply is used up, at most
        rw [hp] at hsome
        rcases List.forall_mem_cons.mp hsome with ⟨hne, hrest⟩
        cases p with
        | none => exact absurd rfl hne
        | some pfn => exact ⟨_, _, rfl, hrest, Nat.le_refl _⟩

/-- With a page for each byte `Write` goes through. -/
theorem writeLoop_ok (src : List UInt8) (offset n : Nat) {copied : Nat} {w : Writing V}
    (hsome : ∀ p ∈ w.pages, p ≠ none) (hpages : src.length - copied ≤ w.pages.length) :
    ∃ total w', writeLoop vm src offset n copied w = (.ok total, w') := by
  -- over the turns: a turn copies at least one byte and uses at most one page
  induction n generalizing copied w with
  | zero => exact ⟨copied, w, rfl⟩
  | succ n ih =>
      unfold writeLoop
      split
      · rename_i hlt
        have hcopy := @toCopy_pos (src.length - copied) (usizeAdd offset copied) (by omega)
        rcases @lookupOrInsert_ok V vm w (usizeAdd offset copied) hsome (by omega) with
          ⟨phys, w', hturn, hsome', hlen⟩
        simp only [hturn]
        apply ih
        · exact hsome'
        · dsimp only
          omega
      · exact ⟨copied, w, rfl⟩

/-- With a frame for every byte, and so for every page, a write completes. -/
theorem write_ok {ram : Ram} {node : RamFsNode V} {vmo : V} (htype : node.type = .regular)
    (hvmo : node.vmo = some vmo) (src : List UInt8) (offset : Nat) {pages : List (Option Nat)}
    (hsome : ∀ p ∈ pages, p ≠ none) (hpages : src.length ≤ pages.length) :
    ∃ copied node' ram', write vm ram node src offset pages = (.ok copied, node', ram') := by
  rcases @writeLoop_ok V vm src offset src.length 0 { ram with vmo := vmo, pages := pages } hsome
    hpages with ⟨total, w', hloop⟩
  unfold RamFs.write
  rw [if_neg (not_not_intro htype)]
  simp only [hvmo, hloop]
  exact ⟨_, _, _, rfl⟩

end Ceryx.Fs.RamFs
