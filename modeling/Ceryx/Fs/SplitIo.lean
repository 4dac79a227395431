import Mathlib.Algebra.GroupWithZero.Nat
import Ceryx.Fs.FileRuns

/-!
# Ceryx.Fs.SplitIo — one call on a file and several

What `Write` does with `xs ++ ys`, next to a `Write` of `xs` and then one of `ys`
at the offset behind; and what reads of several lengths return, next to a `Read` of
their sum.

* `SamePages`: two writes have the same pages, and the same results of
  `AllocatePage` are left. Memory plays no part in it (`writeLoop_samePages`).
* `writeLoop_append`: both ways end alike and with the same pages. Memory is the same
  as well where the second `Write` starts a page, or where `Lookup` returns the base
  address.
* `splitCount_eq_iff`: the reads return as much as one `Read`, unless just one of the
  two ways wraps at 2^64 and takes the bytes from 0 on for those behind the end.
-/

namespace Ceryx.Fs.RamFs

open Lib

variable {V : Type} {vm : VmObject V} {conv : Convention}

/-! ## Memory plays no part -/

/-- Two writing states that differ at most in what memory holds: the same object, the
same page table, the same number of frames used. -/
structure SamePages (w u : Writing V) : Prop where
  vmo : w.vmo = u.vmo
  pages : w.pages = u.pages
  used : w.used = u.used

theorem SamePages.refl (w : Writing V) : SamePages w w := ⟨rfl, rfl, rfl⟩

theorem SamePages.trans {w u x : Writing V} (h : SamePages w u) (h' : SamePages u x) :
    SamePages w x := ⟨h.vmo.trans h'.vmo, h.pages.trans h'.pages, h.used.trans h'.used⟩

theorem SamePages.symm {w u : Writing V} (h : SamePages w u) : SamePages u w :=
  ⟨h.vmo.symm, h.pages.symm, h.used.symm⟩

theorem SamePages.setMem {w u : Writing V} (h : SamePages w u) (m m' : Nat → UInt8) :
    SamePages { w with mem := m } { u with mem := m' } := ⟨h.vmo, h.pages, h.used⟩

/-- With the same memory they are the same. -/
theorem SamePages.eq {w u : Writing V} (h : SamePages w u) (hmem : w.mem = u.mem) : w = u := by
  obtain ⟨⟨m, used⟩, vmo, pages⟩ := w
  obtain ⟨⟨m', used'⟩, vmo', pages'⟩ := u
  obtain ⟨rfl, rfl, rfl⟩ := h
  cases hmem
  rfl

/-- Which page is found or allocated does not depend on what memory holds. -/
theorem lookupOrInsert_samePages (vm : VmObject V) {w u : Writing V} (h : SamePages w u) (o : Nat) :
    (lookupOrInsert vm w o).1 = (lookupOrInsert vm u o).1 ∧
      SamePages (lookupOrInsert vm w o).2 (lookupOrInsert vm u o).2 := by
  obtain ⟨⟨m, used⟩, vmo, pages⟩ := w
  obtain ⟨⟨m', used'⟩, vmo', pages'⟩ := u
  obtain ⟨rfl, rfl, rfl⟩ := h
  unfold lookupOrInsert allocatePage
  dsimp only
  cases vm.lookup vmo o with
  | some phys => exact ⟨rfl, rfl, rfl, rfl⟩
  | none =>
      rcases pages with _ | ⟨_ | pfn, rest⟩
      · exact ⟨rfl, rfl, rfl, rfl⟩
      · exact ⟨rfl, rfl, rfl, rfl⟩
      · exact ⟨rfl, rfl, rfl, rfl⟩

/-- Nor do the count and the pages of a whole write. -/
theorem writeLoop_samePages (vm : VmObject V) (src : List UInt8) (offset n : Nat) {copied : Nat}
    {w u : Writing V} (h : SamePages w u) :
    (writeLoop vm src offset n copied w).1 = (writeLoop vm src offset n copied u).1 ∧
      SamePages (writeLoop vm src offset n copied w).2 (writeLoop vm src offset n copied u).2 := by
  -- over the turns: equal supplies answer alike and stay equal
  induction n generalizing copied w u with
  | zero => exact ⟨rfl, h⟩
  | succ n ih =>
      unfold writeLoop
      split
      · dsimp only
        obtain ⟨hphys, hpages⟩ := lookupOrInsert_samePages vm h (usizeAdd offset copied)
        rcases hw : lookupOrInsert vm w (usizeAdd offset copied) with ⟨phys, w₁⟩
        rcases hu : lookupOrInsert vm u (usizeAdd offset copied) with ⟨phys', u₁⟩
        rw [hw, hu] at hphys hpages
        cases hphys
        cases phys with
        | none => exact ⟨rfl, hpages⟩
        | some phys => exact ih (hpages.setMem _ _)
      · exact ⟨rfl, h⟩

/-! ## Fuel and position -/

/-- Enough turns are enough. -/
theorem writeLoop_fuel (src : List UInt8) (offset n n' : Nat) {copied : Nat} (w : Writing V)
    (hn : src.length - copied ≤ n) (hn' : src.length - copied ≤ n') :
    writeLoop vm src offset n copied w = writeLoop vm src offset n' copied w := by
  induction n generalizing n' copied w with
  | zero =>
      cases n' with
      | zero => rfl
      | succ n' =>
          have hdone : ¬ copied < src.length := by omega
          conv_rhs => unfold writeLoop
          rw [if_neg hdone]
          rfl
  | succ n ih =>
      cases n' with
      | zero =>
          have hdone : ¬ copied < src.length := by omega
          conv_lhs => unfold writeLoop
          rw [if_neg hdone]
          rfl
      | succ n' =>
          unfold writeLoop
          split
          · -- each turn copies a byte at least, so either number of turns is enough
            have hpos := @toCopy_pos (src.length - copied) (usizeAdd offset copied) (by omega)
            dsimp only
            rcases lookupOrInsert vm w (usizeAdd offset copied) with ⟨_ | phys, w₁⟩
            · rfl
            · exact ih _ _ (by omega) (by omega)
          · rfl

/-- The loop on `xs ++ ys` behind `xs` is the loop on `ys`. -/
theorem writeLoop_shift (vm : VmObject V) (xs ys : List UInt8) (offset n c : Nat) (w : Writing V) :
    writeLoop vm (xs ++ ys) offset n (xs.length + c) w =
      ((writeLoop vm ys (usizeAdd offset xs.length) n c w).1.map (xs.length + ·),
        (writeLoop vm ys (usizeAdd offset xs.length) n c w).2) := by
  induction n generalizing c w with
  | zero => rfl
  | succ n ih =>
      unfold writeLoop
      have hlt : xs.length + c < (xs ++ ys).length ↔ c < ys.length := by
        rw [List.length_append]
        omega
      by_cases hc : c < ys.length
      · -- the loop over both buffers is, behind the first, that over the second
        have hcurr : usizeAdd offset (xs.length + c) = usizeAdd (usizeAdd offset xs.length) c := by
          unfold usizeAdd
          rw [Nat.mod_add_mod, Nat.add_assoc]
        have hleft : (xs ++ ys).length - (xs.length + c) = ys.length - c := by
          rw [List.length_append]
          omega
        have hdrop : (xs ++ ys).drop (xs.length + c) = ys.drop c := by
          rw [← List.drop_drop, List.drop_left]
        rw [if_pos (hlt.mpr hc), if_pos hc]
        dsimp only
        rw [hcurr, hleft, hdrop]
        rcases lookupOrInsert vm w (usizeAdd (usizeAdd offset xs.length) c) with ⟨_ | phys, w₁⟩
        · rfl
        · dsimp only
          rw [Nat.add_assoc xs.length]
          exact ih _ _
      · rw [if_neg (fun h => hc (hlt.mp h)), if_neg hc]
        rfl

/-! ## Two writes -/

/-- A page that has been looked up or inserted is resident at all its offsets. -/
theorem lookupOrInsert_maps (hlaw : vm.Lawful conv) {w w' : Writing V} {table : Nat → Option Nat}
    (h : Maps vm conv w.vmo table) {o phys : Nat}
    (heq : lookupOrInsert vm w o = (some phys, w')) :
    ∃ table' pfn, Maps vm conv w'.vmo table' ∧ table' (o / kPageSize) = some pfn ∧
      (conv = .base → phys = pfnToPhysical pfn) := by
  unfold lookupOrInsert at heq
  cases hlookup : vm.lookup w.vmo o with
  | some found =>
      -- resident before
      rw [hlookup] at heq
      cases heq
      have hmaps := h o
      rw [hlookup] at hmaps
      rcases Option.map_eq_some_iff.mp hmaps.symm with ⟨pfn, hframe, hphys⟩
      refine ⟨table, pfn, h, hframe, ?_⟩
      rintro rfl
      have hshift : Convention.base.shift (o % kPageSize) = 0 := rfl
      rw [hshift, Nat.add_zero] at hphys
      exact hphys.symm
  | none =>
      rw [hlookup] at heq
      dsimp only at heq
      unfold allocatePage at heq
      rcases hpages : w.pages with _ | ⟨_ | pfn, rest⟩
      · rw [hpages] at heq
        cases heq
      · rw [hpages] at heq
        cases heq
      · rw [hpages] at heq
        cases heq
        have hinsert := @Maps.insertBlock V vm conv hlaw w.vmo (fun _ => table) 0 h o hlookup pfn
        refine ⟨Frames.addPage (fun _ => table) 0 (o / kPageSize) pfn 0, pfn, ?_,
          Frames.addPage_self 0 _ pfn, fun _ => rfl⟩
        rw [pageOffset_eq]
        exact hinsert

/-- A resident page is looked up. -/
theorem lookupOrInsert_resident {w : Writing V} {table : Nat → Option Nat}
    (h : Maps vm conv w.vmo table) {o pfn : Nat} (hframe : table (o / kPageSize) = some pfn) :
    lookupOrInsert vm w o = (some (pfnToPhysical pfn + conv.shift (o % kPageSize)), w) := by
  unfold lookupOrInsert
  rw [h o, hframe]
  rfl

/-- The second write goes where the first would have gone on. -/
def Seamless (conv : Convention) (offset : Nat) : Prop :=
  conv = .base ∨ offset % kPageSize = 0

/-- What the loop on `xs` does, and then the loop on the rest of `xs ++ ys`. -/
def writeTwo (vm : VmObject V) (xs ys : List UInt8) (offset n k copied : Nat) (w : Writing V) :
    Except Int Nat × Writing V :=
  match writeLoop vm xs offset n copied w with
  | (.error e, w) => (.error e, w)
  | (.ok _, w) => writeLoop vm (xs ++ ys) offset k xs.length w

/-- The parts of a turn on either side of an offset inside the page. -/
theorem toCopy_split {left left' o : Nat} (hle : left ≤ left')
    (hin : left < kPageSize - o % kPageSize) :
    toCopy left o = left ∧ (o + left) % kPageSize = o % kPageSize + left ∧
      (o + left) / kPageSize = o / kPageSize ∧
      toCopy left' o = left + toCopy (left' - left) (o + left) := by
  have hmod : o % kPageSize < kPageSize := Nat.mod_lt _ kPageSize_pos
  have hdiv : kPageSize * (o / kPageSize) + o % kPageSize = o := Nat.div_add_mod o kPageSize
  -- the two parts lie in the same page
  have hsum : o + left = kPageSize * (o / kPageSize) + (o % kPageSize + left) := by omega
  have hlt : o % kPageSize + left < kPageSize := by omega
  have hmod' : (o + left) % kPageSize = o % kPageSize + left := by
    rw [hsum, Nat.mul_add_mod, Nat.mod_eq_of_lt hlt]
  have hdiv' : (o + left) / kPageSize = o / kPageSize := by
    rw [hsum, Nat.mul_add_div kPageSize_pos, Nat.div_eq_of_lt hlt, Nat.add_zero]
  refine ⟨?_, hmod', hdiv', ?_⟩
  · rw [toCopy_eq]
    omega
  · rw [toCopy_eq, toCopy_eq, hmod']
    omega

/-- The loop from two states with the same pages, and with the same memory if `P`. -/
theorem writeLoop_agree {P : Prop} (src : List UInt8) (offset : Nat) {n n' copied : Nat}
    {w u : Writing V} (hpages : SamePages w u) (hmem : P → w.mem = u.mem)
    (hn : src.length - copied ≤ n) (hn' : src.length - copied ≤ n') :
    (writeLoop vm src offset n copied w).1 = (writeLoop vm src offset n' copied u).1 ∧
      SamePages (writeLoop vm src offset n copied w).2 (writeLoop vm src offset n' copied u).2 ∧
      (P → (writeLoop vm src offset n copied w).2.mem =
        (writeLoop vm src offset n' copied u).2.mem) := by
  rw [writeLoop_fuel src offset n n' w hn hn']
  obtain ⟨hres, hsame⟩ := writeLoop_samePages vm src offset n' hpages
  refine ⟨hres, hsame, fun hP => ?_⟩
  rw [hpages.eq (hmem hP)]

/-- Writing `xs` and then `ys` behind it is writing both at once. The induction is on
the fuel of the first loop; the page that the two share is found again by the second. -/
theorem writeLoop_two (hlaw : vm.Lawful conv) {xs ys : List UInt8} (hys : ys ≠ []) (offset n : Nat)
    {k m copied : Nat} {w u : Writing V} {table : Nat → Option Nat}
    (hmaps : Maps vm conv w.vmo table) (hpages : SamePages w u) (hle : copied ≤ xs.length)
    (hn : xs.length - copied ≤ n) (hk : ys.length ≤ k)
    (hm : (xs ++ ys).length - copied ≤ m) {P : Prop} (hmem : P → w.mem = u.mem)
    (hP : P → Seamless conv (usizeAdd offset xs.length)) :
    (writeTwo vm xs ys offset n k copied w).1 = (writeLoop vm (xs ++ ys) offset m copied u).1 ∧
      SamePages (writeTwo vm xs ys offset n k copied w).2
        (writeLoop vm (xs ++ ys) offset m copied u).2 ∧
      (P → (writeTwo vm xs ys offset n k copied w).2.mem =
        (writeLoop vm (xs ++ ys) offset m copied u).2.mem) := by
  have hlen : (xs ++ ys).length = xs.length + ys.length := List.length_append
  have hpos : 0 < ys.length := List.length_pos_iff.mpr hys
  induction n generalizing m copied w u table with
  | zero =>
      have hall : copied = xs.length := by omega
      subst hall
      have htwo : writeTwo vm xs ys offset 0 k xs.length w =
          writeLoop vm (xs ++ ys) offset k xs.length w := rfl
      rw [htwo]
      exact writeLoop_agree _ _ hpages hmem (by omega) hm
  | succ n ih =>
      rcases Nat.lt_or_ge copied xs.length with hlt | hge
      · obtain ⟨m, rfl⟩ : ∃ m', m = m' + 1 := ⟨m - 1, by omega⟩
        have hlt' : copied < (xs ++ ys).length := by omega
        have hcur := usizeAdd_lt offset copied
        have hmod : usizeAdd offset copied % kPageSize < kPageSize := Nat.mod_lt _ kPageSize_pos
        have hnext := usizeAdd_add offset copied
        unfold writeTwo
        rw [writeLoop_turn hlt, writeLoop_turn hlt']
        obtain ⟨hphys, hsame⟩ :=
          lookupOrInsert_samePages vm hpages (usizeAdd offset copied)
        have hsamemem : P → (lookupOrInsert vm w (usizeAdd offset copied)).2.mem =
            (lookupOrInsert vm u (usizeAdd offset copied)).2.mem := by
          intro h
          rw [hpages.eq (hmem h)]
        rcases hw : lookupOrInsert vm w (usizeAdd offset copied) with ⟨phys, w₁⟩
        rcases hu : lookupOrInsert vm u (usizeAdd offset copied) with ⟨phys', u₁⟩
        rw [hw, hu] at hphys hsame hsamemem
        dsimp only at hphys hsame hsamemem
        subst hphys
        cases phys with
        | none => exact ⟨rfl, hsame, hsamemem⟩
        | some phys =>
            obtain ⟨table₁, pfn, hmaps₁, hframe, hbase⟩ := lookupOrInsert_maps hlaw hmaps hw
            dsimp only
            rcases Nat.lt_or_ge (xs.length - copied)
                (kPageSize - usizeAdd offset copied % kPageSize) with hin | hout
            · -- `xs` ends inside the page
              obtain ⟨hcopy, hmod', hdiv', hsplit⟩ := toCopy_split
                (show xs.length - copied ≤ (xs ++ ys).length - copied by omega) hin
              have hsum : copied + (xs.length - copied) = xs.length := by omega
              have hstart : usizeAdd offset xs.length =
                  usizeAdd offset copied + (xs.length - copied) := by
                have hwrap := usizeAdd_add offset copied (xs.length - copied)
                rw [hsum] at hwrap
                rw [hwrap]
                apply Nat.mod_eq_of_lt
                unfold kPageSize at hin
                omega
              have hrest : (xs ++ ys).length - copied - (xs.length - copied) =
                  (xs ++ ys).length - xs.length := by omega
              rw [← hstart] at hmod' hdiv' hsplit
              rw [hrest] at hsplit
              rw [hcopy, hsplit, hsum, writeLoop_done (Nat.le_refl _)]
              -- the second write starts in the same page, which is there now
              obtain ⟨k, rfl⟩ : ∃ k', k = k' + 1 := ⟨k - 1, by omega⟩
              have hframe' : table₁ (usizeAdd offset xs.length / kPageSize) = some pfn := by
                rw [hdiv']
                exact hframe
              have hlt₂ : xs.length < (xs ++ ys).length := by omega
              dsimp only
              have hturn := lookupOrInsert_resident (w := { w₁ with
                mem := blit w₁.mem (phys + usizeAdd offset copied % kPageSize)
                  ((xs.drop copied).take (xs.length - copied)) }) hmaps₁ hframe'
              rw [writeLoop_turn hlt₂, hturn]
              dsimp only
              rw [← Nat.add_assoc, hsum]
              have hb := @toCopy_pos ((xs ++ ys).length - xs.length) (usizeAdd offset xs.length)
                (by omega)
              generalize toCopy ((xs ++ ys).length - xs.length) (usizeAdd offset xs.length) = b
                at hb ⊢
              have hbytes : ((xs ++ ys).drop copied).take (xs.length - copied + b) =
                  (xs.drop copied).take (xs.length - copied) ++
                    ((xs ++ ys).drop xs.length).take b := by
                rw [List.take_add, List.drop_drop, hsum, List.drop_append_of_le_length hle,
                  List.take_append_of_le_length (Nat.le_of_eq List.length_drop.symm)]
              have hfirst : ((xs.drop copied).take (xs.length - copied)).length =
                  xs.length - copied := by
                rw [List.length_take, List.length_drop, Nat.min_self]
              refine writeLoop_agree _ _ (hsame.setMem _ _) ?_ (by omega) (by omega)
              intro h
              dsimp only
              rcases hP h with hconv | haligned
              · -- one range after the other
                have hphys := hbase hconv
                subst hconv
                have hplace : pfnToPhysical pfn +
                    Convention.base.shift (usizeAdd offset xs.length % kPageSize) +
                      usizeAdd offset xs.length % kPageSize =
                    phys + usizeAdd offset copied % kPageSize +
                      ((xs.drop copied).take (xs.length - copied)).length := by
                  have hshift : Convention.base.shift (usizeAdd offset xs.length % kPageSize) = 0 :=
                    rfl
                  rw [hshift, hphys, hmod', hfirst]
                  omega
                rw [hplace, blit_append, hbytes, hsamemem h]
              · omega
            · -- the turn is within `xs`
              have hcopy : toCopy (xs.length - copied) (usizeAdd offset copied) =
                  kPageSize - usizeAdd offset copied % kPageSize := by
                rw [toCopy_eq]
                omega
              have hcopy' : toCopy ((xs ++ ys).length - copied) (usizeAdd offset copied) =
                  kPageSize - usizeAdd offset copied % kPageSize := by
                rw [toCopy_eq]
                omega
              have hbytes : ((xs ++ ys).drop copied).take
                    (kPageSize - usizeAdd offset copied % kPageSize) =
                  (xs.drop copied).take (kPageSize - usizeAdd offset copied % kPageSize) := by
                rw [List.drop_append_of_le_length hle, List.take_append_of_le_length]
                rw [List.length_drop]
                exact hout
              rw [hcopy, hcopy', hbytes]
              refine ih (w := { w₁ with
                mem := blit w₁.mem (phys + usizeAdd offset copied % kPageSize)
                  ((xs.drop copied).take (kPageSize - usizeAdd offset copied % kPageSize)) })
                hmaps₁ (hsame.setMem _ _) (by omega) (by omega) (by omega) ?_
              intro h
              dsimp only
              rw [hsamemem h]
      · have hall : copied = xs.length := Nat.le_antisymm hle hge
        subst hall
        have htwo : writeTwo vm xs ys offset (n + 1) k xs.length w =
            writeLoop vm (xs ++ ys) offset k xs.length w := by
          unfold writeTwo
          rw [writeLoop_done (Nat.le_refl _)]
        rw [htwo]
        exact writeLoop_agree _ _ hpages hmem (by omega) hm

/-- A `Write` of `xs ++ ys` ends as a `Write` of `xs` and then one of `ys` behind it,
with the same pages. -/
theorem writeLoop_append (hlaw : vm.Lawful conv) (xs ys : List UInt8) (offset : Nat)
    {w w₁ : Writing V} {table : Nat → Option Nat} (hmaps : Maps vm conv w.vmo table)
    {res : Except Int Nat} (hxs : writeLoop vm xs offset xs.length 0 w = (res, w₁)) :
    match res with
    | .error e => (writeLoop vm (xs ++ ys) offset (xs ++ ys).length 0 w).1 = .error e
    | .ok _ =>
        (writeLoop vm (xs ++ ys) offset (xs ++ ys).length 0 w).1 =
          (writeLoop vm ys (usizeAdd offset xs.length) ys.length 0 w₁).1.map (xs.length + ·) ∧
        SamePages (writeLoop vm ys (usizeAdd offset xs.length) ys.length 0 w₁).2
          (writeLoop vm (xs ++ ys) offset (xs ++ ys).length 0 w).2 ∧
        (ys = [] ∨ Seamless conv (usizeAdd offset xs.length) →
          (writeLoop vm ys (usizeAdd offset xs.length) ys.length 0 w₁).2 =
            (writeLoop vm (xs ++ ys) offset (xs ++ ys).length 0 w).2) := by
  by_cases hys : ys = []
  · -- nothing is left for the second `Write`
    subst hys
    cases res with
    | error e =>
        dsimp only
        rw [List.append_nil, hxs]
    | ok n =>
        have hall := writeLoop_all hxs
        subst hall
        dsimp only
        rw [List.append_nil, hxs]
        exact ⟨rfl, SamePages.refl _, fun _ => rfl⟩
  · obtain ⟨hres, hsame, hmem⟩ := writeLoop_two (m := (xs ++ ys).length) hlaw hys offset xs.length
      hmaps (SamePages.refl w) (Nat.zero_le _) (Nat.sub_le _ _) (Nat.le_refl ys.length)
      (Nat.sub_le _ _) (P := Seamless conv (usizeAdd offset xs.length)) (fun _ => rfl) id
    unfold writeTwo at hres hsame hmem
    rw [hxs] at hres hsame hmem
    cases res with
    | error e => exact hres.symm
    | ok copied =>
        dsimp only at hres hsame hmem ⊢
        have hshift := writeLoop_shift vm xs ys offset ys.length 0 w₁
        rw [Nat.add_zero] at hshift
        rw [hshift] at hres hsame hmem
        exact ⟨hres.symm, hsame, fun h => hsame.eq (hmem (h.resolve_left hys))⟩

/-! ## The first page -/

/-- The loop gets somewhere if it gets a page for the first byte. -/
theorem reach_pos_iff (vm : VmObject V) {size : Nat} (hsize : 0 < size) (offset : Nat)
    (w : Writing V) :
    0 < reach vm size offset size 0 w.vmo w.pages ↔
      (lookupOrInsert vm w (usizeAdd offset 0)).1 ≠ none := by
  obtain ⟨n, rfl⟩ : ∃ n, size = n + 1 := ⟨size - 1, by omega⟩
  rcases hturn : lookupOrInsert vm w (usizeAdd offset 0) with ⟨_ | phys, w₁⟩
  · rw [reach_none hsize n hturn]
    exact iff_of_false (Nat.lt_irrefl 0) (fun h => h rfl)
  · rw [reach_some hsize n hturn]
    have hpos := @toCopy_pos (n + 1 - 0) (usizeAdd offset 0) hsize
    have hcopy := toCopy_le (n + 1 - 0) (usizeAdd offset 0)
    have hbounds := reach_bounds vm offset n
      (show 0 + toCopy (n + 1 - 0) (usizeAdd offset 0) ≤ n + 1 by omega) w₁.vmo w₁.pages
    exact iff_of_true (by omega) nofun

/-- Without that page `Write` fails at once, whatever it was to write. -/
theorem writeLoop_fails {src : List UInt8} (hsrc : 0 < src.length) (offset : Nat) {w : Writing V}
    (hnone : (lookupOrInsert vm w (usizeAdd offset 0)).1 = none) :
    writeLoop vm src offset src.length 0 w =
      (.error (-ENOMEM), (lookupOrInsert vm w (usizeAdd offset 0)).2) := by
  obtain ⟨n, hn⟩ : ∃ n, src.length = n + 1 := ⟨src.length - 1, by omega⟩
  rw [hn, writeLoop_turn hsrc]
  rcases hturn : lookupOrInsert vm w (usizeAdd offset 0) with ⟨_ | phys, w₁⟩
  · rfl
  · rw [hturn] at hnone
    cases hnone

/-- The pages stay pages. -/
theorem writeLoop_maps (hlaw : vm.Lawful conv) (src : List UInt8) (offset n : Nat) {copied : Nat}
    {w : Writing V} (h : ∃ table, Maps vm conv w.vmo table) :
    ∃ table, Maps vm conv (writeLoop vm src offset n copied w).2.vmo table := by
  induction n generalizing copied w with
  | zero => exact h
  | succ n ih =>
      obtain ⟨table, hmaps⟩ := h
      rcases Nat.lt_or_ge copied src.length with hlt | hge
      · rw [writeLoop_turn hlt]
        rcases hturn : lookupOrInsert vm w (usizeAdd offset copied) with ⟨_ | phys, w₁⟩
        · -- nothing was inserted
          have hvmo : w₁.vmo = w.vmo := by
            unfold lookupOrInsert allocatePage at hturn
            cases hlookup : vm.lookup w.vmo (usizeAdd offset copied) with
            | some found =>
                rw [hlookup] at hturn
                cases hturn
            | none =>
                rw [hlookup] at hturn
                rcases hpages : w.pages with _ | ⟨_ | pfn, rest⟩
                · rw [hpages] at hturn
                  cases hturn
                  rfl
                · rw [hpages] at hturn
                  cases hturn
                  rfl
                · rw [hpages] at hturn
                  cases hturn
          refine ⟨table, ?_⟩
          dsimp only
          rw [hvmo]
          exact hmaps
        · obtain ⟨table₁, -, hmaps₁, -⟩ := lookupOrInsert_maps hlaw hmaps hturn
          exact ih ⟨table₁, hmaps₁⟩
      · rw [writeLoop_done hge]
        exact ⟨table, hmaps⟩

/-! ## Reads of several lengths -/

/-- What `Read` returns for a file of that size. -/
def readN (fileSize size offset : Nat) : Nat :=
  if offset < fileSize then readCount fileSize size offset else 0

/-- What reads of these lengths return together: a short one is the last. -/
def splitCount (fileSize : Nat) : List Nat → Nat → Nat
  | [], _ => 0
  | len :: rest, offset =>
      if len = 0 then splitCount fileSize rest offset
      else
        let n := readN fileSize len offset
        if n < len then n else n + splitCount fileSize rest (usizeAdd offset n)

/-- The places that their bytes are from. -/
def splitPlaces (conv : Convention) (fileSize : Nat) : List Nat → Nat → List Nat
  | [], _ => []
  | len :: rest, offset =>
      if len = 0 then splitPlaces conv fileSize rest offset
      else
        let n := readN fileSize len offset
        (List.range n).map (readPlace conv offset) ++
          if n < len then [] else splitPlaces conv fileSize rest (usizeAdd offset n)

/-- The first end of a read that is not in front of the end of the file. -/
def firstPast (fileSize : Nat) : List Nat → Nat → Option Nat
  | [], _ => none
  | len :: rest, offset =>
      if fileSize ≤ offset + len then some (offset + len)
      else firstPast fileSize rest (offset + len)

/-- A read up to `x` wraps, and its end looks like one inside the file. -/
def Overreads (fileSize x : Nat) : Prop := 2 ^ 64 ≤ x ∧ x ≤ 2 ^ 64 + fileSize

instance (fileSize x : Nat) : Decidable (Overreads fileSize x) :=
  inferInstanceAs (Decidable (_ ∧ _))

section
variable {fileSize : Nat}

theorem readN_le (size offset : Nat) (h : fileSize < 2 ^ 64) :
    readN fileSize size offset ≤ size := by
  unfold readN readCount
  split
  · split
    · unfold usizeAdd at *
      omega
    · exact Nat.le_refl _
  · exact Nat.zero_le _

/-- Nothing is read from behind the end. -/
theorem readN_past {size offset : Nat} (h : fileSize ≤ offset) : readN fileSize size offset = 0 :=
  if_neg (Nat.not_lt.mpr h)

/-- One read, by where its end lies. -/
theorem readN_eq {size offset : Nat} (hin : offset < fileSize) (hsize : size < 2 ^ 64)
    (hfile : fileSize < 2 ^ 64) :
    readN fileSize size offset =
      if offset + size < fileSize ∨ Overreads fileSize (offset + size) then size
      else fileSize - offset := by
  unfold readN readCount Overreads usizeAdd
  rw [if_pos hin]
  split
  · split <;> omega
  · split <;> omega

/-- So nothing is read by any of the buffers. -/
theorem splitCount_past (lens : List Nat) {offset : Nat} (h : fileSize ≤ offset) :
    splitCount fileSize lens offset = 0 := by
  induction lens with
  | nil => rfl
  | cons len rest ih =>
      unfold splitCount
      split
      · exact ih
      · rename_i hlen
        dsimp only
        rw [readN_past h, if_pos (Nat.pos_of_ne_zero hlen)]

/-- Up to the end of the file all is read. -/
theorem splitCount_inside {lens : List Nat} {offset : Nat} (hfile : fileSize < 2 ^ 64)
    (h : offset + lens.sum ≤ fileSize) : splitCount fileSize lens offset = lens.sum := by
  induction lens generalizing offset with
  | nil => rfl
  | cons len rest ih =>
      rw [List.sum_cons] at h ⊢
      unfold splitCount
      split
      · -- an empty buffer is skipped
        rename_i hlen
        rw [hlen] at h ⊢
        rw [Nat.zero_add] at h ⊢
        exact ih h
      · rename_i hlen
        -- the file does not end inside of this one
        have hread : readN fileSize len offset = len := by
          rw [readN_eq (by omega) (by omega) hfile]
          split
          · rfl
          · omega
        dsimp only
        rw [hread, if_neg (Nat.lt_irrefl len), usizeAdd_eq (by omega), ih (by omega)]

/-- When no part ends at or behind the end of the file, all parts together are inside.
-/
theorem firstPast_none {lens : List Nat} {offset : Nat} (hin : offset < fileSize)
    (h : firstPast fileSize lens offset = none) : offset + lens.sum < fileSize := by
  induction lens generalizing offset with
  | nil => exact hin
  | cons len rest ih =>
      unfold firstPast at h
      split at h
      · cases h
      · rw [List.sum_cons, ← Nat.add_assoc]
        exact ih (by omega) h

/-- Otherwise the first such end is no further than that of all parts together. -/
theorem firstPast_le {lens : List Nat} {offset x : Nat}
    (h : firstPast fileSize lens offset = some x) : fileSize ≤ x ∧ x ≤ offset + lens.sum := by
  induction lens generalizing offset with
  | nil => cases h
  | cons len rest ih =>
      rw [List.sum_cons]
      unfold firstPast at h
      split at h
      · rename_i hpast
        cases h
        exact ⟨hpast, by omega⟩
      · obtain ⟨hle, hx⟩ := ih h
        exact ⟨hle, by omega⟩

/-- A read that ends behind the end of the file, and does not seem to end inside it,
is short. -/
theorem splitCount_short {lens : List Nat} {offset x : Nat} (hin : offset < fileSize)
    (hfile : fileSize < 2 ^ 64) (hsum : lens.sum < 2 ^ 64)
    (h : firstPast fileSize lens offset = some x) (hx : ¬ Overreads fileSize x) :
    splitCount fileSize lens offset = fileSize - offset := by
  induction lens generalizing offset with
  | nil => cases h
  | cons len rest ih =>
      rw [List.sum_cons] at hsum
      unfold firstPast at h
      unfold splitCount
      rcases Nat.eq_zero_or_pos len with rfl | hlen
      · rw [if_neg (by omega)] at h
        rw [if_pos rfl]
        exact ih hin (by omega) h
      · rw [if_neg (Nat.ne_of_gt hlen)]
        dsimp only
        rw [readN_eq hin (by omega) hfile]
        split at h
        · -- this is the read
          cases h
          rw [if_neg (not_or.mpr ⟨by omega, hx⟩)]
          split
          · rfl
          · rw [usizeAdd_eq (by omega), splitCount_past rest (by omega), Nat.add_zero]
        · rename_i hbefore
          rw [if_pos (Or.inl (Nat.lt_of_not_le hbefore)), if_neg (Nat.lt_irrefl len),
            usizeAdd_eq (by omega), ih (by omega) (by omega) h]
          omega

/-- A read that seems to end inside the file is a full one. -/
theorem splitCount_over {lens : List Nat} {offset x : Nat} (hin : offset < fileSize)
    (hfile : fileSize < 2 ^ 64) (hsum : lens.sum < 2 ^ 64)
    (h : firstPast fileSize lens offset = some x) (hx : Overreads fileSize x) :
    x ≤ offset + splitCount fileSize lens offset ∧
      (Overreads fileSize (offset + lens.sum) →
        splitCount fileSize lens offset = lens.sum) := by
  induction lens generalizing offset with
  | nil => cases h
  | cons len rest ih =>
      rw [List.sum_cons] at hsum ⊢
      unfold firstPast at h
      unfold splitCount
      rcases Nat.eq_zero_or_pos len with rfl | hlen
      · rw [if_neg (by omega)] at h
        rw [if_pos rfl, Nat.zero_add]
        exact ih hin (by omega) h
      · rw [if_neg (Nat.ne_of_gt hlen)]
        dsimp only
        rw [readN_eq hin (by omega) hfile]
        split at h
        · -- behind it the rest is read from the front of the file
          cases h
          rw [if_pos (Or.inr hx), if_neg (Nat.lt_irrefl len)]
          have hwrap : usizeAdd offset len = offset + len - 2 ^ 64 := by
            unfold Overreads at hx
            unfold usizeAdd
            omega
          constructor
          · omega
          · intro hall
            unfold Overreads at hx hall
            rw [hwrap, splitCount_inside hfile (by omega)]
        · rename_i hbefore
          rw [if_pos (Or.inl (Nat.lt_of_not_le hbefore)), if_neg (Nat.lt_irrefl len),
            usizeAdd_eq (by omega)]
          obtain ⟨hle, hall⟩ := ih (by omega) (by omega) h
          constructor
          · omega
          · intro hover
            rw [← Nat.add_assoc] at hover
            rw [hall hover]

/-- The reads return as much as one read, unless just one of the two ways overreads. -/
theorem splitCount_eq_iff {lens : List Nat} {offset : Nat} (hoffset : offset < 2 ^ 64)
    (hfile : fileSize < 2 ^ 64) (hsum : lens.sum < 2 ^ 64) :
    splitCount fileSize lens offset = readN fileSize lens.sum offset ↔
      (offset < fileSize → (Overreads fileSize (offset + lens.sum) ↔
        ∃ x, firstPast fileSize lens offset = some x ∧ Overreads fileSize x)) := by
  rcases Nat.lt_or_ge offset fileSize with hin | hpast
  · rw [readN_eq hin hsum hfile]
    cases hfirst : firstPast fileSize lens offset with
    | none =>
        -- all of it is in the file
        have hend := firstPast_none hin hfirst
        have hover : ¬ Overreads fileSize (offset + lens.sum) := by
          unfold Overreads
          omega
        rw [splitCount_inside hfile (Nat.le_of_lt hend), if_pos (Or.inl hend)]
        refine iff_of_true rfl fun _ => iff_of_false hover ?_
        rintro ⟨x, hx, -⟩
        cases hx
    | some x =>
        obtain ⟨hle, hx⟩ := firstPast_le hfirst
        have hpast : ¬ offset + lens.sum < fileSize := by omega
        by_cases hover : Overreads fileSize x
        · obtain ⟨hcount, hall⟩ := splitCount_over hin hfile hsum hfirst hover
          have hsome : ∃ y, some x = some y ∧ Overreads fileSize y := ⟨x, rfl, hover⟩
          by_cases hsingle : Overreads fileSize (offset + lens.sum)
          · rw [hall hsingle, if_pos (Or.inr hsingle)]
            exact iff_of_true rfl fun _ => iff_of_true hsingle hsome
          · rw [if_neg (not_or.mpr ⟨hpast, hsingle⟩)]
            unfold Overreads at hover
            exact iff_of_false (by omega) fun h => hsingle ((h hin).mpr hsome)
        · rw [splitCount_short hin hfile hsum hfirst hover]
          have hnone : ¬ ∃ y, some x = some y ∧ Overreads fileSize y := by
            rintro ⟨y, hy, hyover⟩
            cases hy
            exact hover hyover
          by_cases hsingle : Overreads fileSize (offset + lens.sum)
          · rw [if_pos (Or.inr hsingle)]
            refine iff_of_false ?_ fun h => hnone ((h hin).mp hsingle)
            unfold Overreads at hsingle
            omega
          · rw [if_neg (not_or.mpr ⟨hpast, hsingle⟩)]
            exact iff_of_true rfl fun _ => iff_of_false hsingle hnone
  · rw [splitCount_past lens hpast, readN_past hpast]
    exact iff_of_true rfl fun h => absurd h (Nat.not_lt.mpr hpast)

theorem splitPlaces_length (conv : Convention) (lens : List Nat) (offset : Nat) :
    (splitPlaces conv fileSize lens offset).length = splitCount fileSize lens offset := by
  induction lens generalizing offset with
  | nil => rfl
  | cons len rest ih =>
      unfold splitPlaces splitCount
      split
      · exact ih offset
      · dsimp only
        split
        · simp
        · simp [ih]

theorem splitCount_le (hfile : fileSize < 2 ^ 64) (lens : List Nat) (offset : Nat) :
    splitCount fileSize lens offset ≤ lens.sum := by
  induction lens generalizing offset with
  | nil => exact Nat.le_refl 0
  | cons len rest ih =>
      have hread := readN_le len offset hfile
      rw [List.sum_cons]
      unfold splitCount
      split
      · exact Nat.le_trans (ih offset) (Nat.le_add_left _ _)
      · dsimp only
        split
        · omega
        · have hrest := ih (usizeAdd offset (readN fileSize len offset))
          omega

/-- With straight places the parts read one interval. -/
-- behind a short read the call stops, otherwise the next begins where it has ended
theorem splitPlaces_straight (lens : List Nat) {offset : Nat} (hoffset : offset < 2 ^ 64) :
    splitPlaces .basePlusOffset fileSize lens offset =
      (List.range (splitCount fileSize lens offset)).map (usizeAdd offset) := by
  -- over the buffers: with this convention a read of any length is one stretch
  induction lens generalizing offset with
  | nil => rfl
  | cons len rest ih =>
      have hfirst : ∀ n, (List.range n).map (readPlace .basePlusOffset offset) =
          (List.range n).map (usizeAdd offset) :=
        fun n => List.map_congr_left fun j _ => readPlace_straight hoffset j
      unfold splitPlaces splitCount
      split
      · exact ih hoffset
      · dsimp only
        rw [hfirst]
        split
        · rw [List.append_nil]
        · rw [ih (usizeAdd_lt _ _), List.range_add, List.map_append, List.map_map]
          congr 1
          refine List.map_congr_left fun j _ => ?_
          have hsum := usizeAdd_add offset (readN fileSize len offset) j
          exact hsum.symm

end

end Ceryx.Fs.RamFs
