import Ceryx.Lib.Newc
import Ceryx.Fs.RamFsRefine
import Ceryx.Fs.CpioLoader

/-!
# Ceryx.Fs.CpioParse — what the loader reads of an archive

The loader at an entry of a "newc" archive that is in memory at an address
divisible by four.

* `parseHex_eq`: `ParseHex` of a field.
* `filename_trailer`: the test for the end compares ten bytes of the path.
* `populateLoop_entry`: a turn creates the entry and goes on at the next one.
* `populateLoop_trailer`: the loop ends at the trailer.
-/

namespace Ceryx.Fs.CpioLoader

open Lib RamFs Vfs

/-! ## Numbers -/

theorem parseHexTurn_eq {v d : Nat} {c : UInt8} (hv : v < 2 ^ 60) (hd : Newc.HexDigit d c) :
    parseHexTurn v c = 16 * v + d := by
  -- the shift loses no bit, and the digit fits below it
  have hshift : (v <<< 4) % 2 ^ 64 = v <<< 4 := by
    rw [Nat.shiftLeft_eq]
    exact Nat.mod_eq_of_lt (by omega)
  have hlt : d < 2 ^ 4 := by
    rcases hd with ⟨hd, -⟩ | ⟨-, hd, -⟩
    · exact Nat.lt_trans hd (by decide)
    · exact hd
  have hsum : v <<< 4 ||| d = 16 * v + d := by
    rw [← Nat.shiftLeft_add_eq_or_of_lt hlt, Nat.shiftLeft_eq, Nat.mul_comm v]
  unfold parseHexTurn
  dsimp only
  rw [hshift, ← hsum]
  -- a decimal digit, a capital, or a small letter
  rcases hd with ⟨hd, hc⟩ | ⟨hten, hd, hc | hc⟩
  · rw [if_pos (by omega), hc, Nat.add_sub_cancel_left]
  · rw [if_neg (by omega), if_pos (by omega)]
    congr 1
    omega
  · rw [if_neg (by omega), if_neg (by omega), if_pos (by omega)]
    congr 1
    omega

theorem parseHex_digits {v : Nat} {cs : List UInt8} (h : Newc.HexDigits v cs)
    (hlen : cs.length ≤ 16) : parseHex cs = v := by
  induction h with
  | nil => rfl
  | snoc h hd ih =>
      rename_i v cs d c
      rw [List.length_append, List.length_singleton] at hlen
      have hv : v < 2 ^ 60 := by
        have hpow : 16 ^ cs.length ≤ 16 ^ 15 := Nat.pow_le_pow_right (by decide) (by omega)
        exact Nat.lt_of_lt_of_le h.lt hpow
      have hturn := parseHexTurn_eq hv hd
      unfold parseHex at ih ⊢
      rw [List.foldl_append, ih (by omega), List.foldl_cons, List.foldl_nil, hturn]

/-- `ParseHex` of a field of the header. -/
theorem parseHex_eq {v : Nat} {cs : List UInt8} (h : Newc.HexField v cs) : parseHex cs = v :=
  parseHex_digits h.digits (by rw [h.length]; decide)

theorem align4_eq {q : Nat} (h : q + 3 < 2 ^ 64) : align4 q = q + (4 - q % 4) % 4 := by
  unfold align4
  rw [usizeAdd_eq h]
  omega

/-! ## Bytes in memory -/

/-- The bytes are in memory at the address. -/
def StoredAt (image : Image) (ptr : Nat) (bytes : List UInt8) : Prop :=
  slice image ptr bytes.length = bytes

theorem StoredAt.append {image : Image} {ptr : Nat} {xs ys : List UInt8}
    (h : StoredAt image ptr (xs ++ ys)) :
    StoredAt image ptr xs ∧ StoredAt image (ptr + xs.length) ys := by
  unfold StoredAt at h ⊢
  rw [List.length_append, slice_add] at h
  exact List.append_inj h (slice_length image ptr xs.length)

theorem StoredAt.part {image : Image} {ptr n m : Nat} {bytes : List UInt8}
    (h : StoredAt image ptr bytes) (hfit : n + m ≤ bytes.length) :
    slice image (ptr + n) m = (bytes.drop n).take m := by
  have hsplit : bytes = bytes.take n ++ ((bytes.drop n).take m ++ (bytes.drop n).drop m) := by
    rw [List.take_append_drop, List.take_append_drop]
  rw [hsplit] at h
  have hpart := (h.append.2).append.1
  have hn : (bytes.take n).length = n := List.length_take_of_le (by omega)
  have hm : ((bytes.drop n).take m).length = m :=
    List.length_take_of_le (by rw [List.length_drop]; omega)
  unfold StoredAt at hpart
  rw [hn, hm] at hpart
  exact hpart

/-- The ten bytes of the test are those of the path, if they are the trailer's:
the NUL behind a shorter path is not one of them. -/
theorem filename_trailer {image : Image} {ptr : Nat} {path rest : List UInt8}
    (hpath : StoredAt image ptr (path ++ 0 :: rest)) (h : slice image ptr 10 = trailer) :
    trailer <+: path := by
  rcases Nat.lt_or_ge path.length 10 with hshort | hlong
  · exfalso
    -- a shorter path ends in a NUL, which the marker does not contain
    have hnul : slice image (ptr + path.length) 1 = [0] := by
      rw [hpath.part (by rw [List.length_append, List.length_cons]; omega), List.drop_left]
      rfl
    have hin : slice image (ptr + path.length) 1 = (trailer.drop path.length).take 1 := by
      have hten : StoredAt image ptr trailer := h
      exact hten.part (by change _ ≤ 10; omega)
    rw [hnul] at hin
    have hmem : (0 : UInt8) ∈ trailer := by
      apply List.mem_of_mem_drop (i := path.length)
      apply List.mem_of_mem_take (i := 1)
      rw [← hin]
      exact List.mem_singleton_self 0
    revert hmem
    decide
  · have hpart := hpath.part (n := 0) (m := 10)
      (by rw [List.length_append, List.length_cons]; omega)
    rw [Nat.add_zero, h, List.drop_zero, List.take_append_of_le_length hlong] at hpart
    rw [hpart]
    exact List.take_prefix 10 path

/-! ## Turns of the loop -/

section
variable {V : Type} (vm : VmObject V) (env : CpioEnv)

/-- What the loop reads of a header. -/
theorem header_read {image : Image} {ptr mode filesize namesize : Nat} {h : Newc.Header}
    (hh : h.Encodes mode filesize namesize) (hat : StoredAt image ptr h.bytes) :
    slice image ptr 6 = magic ∧ parseHex (slice image (ptr + 54) 8) = filesize ∧
      parseHex (slice image (ptr + 94) 8) = namesize ∧
        parseHex (slice image (ptr + 14) 8) % 2 ^ 32 = mode := by
  rcases hh.fields with ⟨hmagic, hmode, hfilesize, hnamesize⟩
  have hlen := hh.length
  refine ⟨?_, ?_, ?_, ?_⟩
  · have hpart := hat.part (n := 0) (m := 6) (by omega)
    rw [Nat.add_zero, List.drop_zero, hmagic] at hpart
    exact hpart
  · rw [hat.part (by omega), hfilesize, parseHex_eq hh.filesize]
  · rw [hat.part (by omega), hnamesize, parseHex_eq hh.namesize]
  · rw [hat.part (by omega), hmode, parseHex_eq hh.mode]
    exact Nat.mod_eq_of_lt hh.mode.lt

/-- A turn at an entry creates it and goes on behind it. -/
theorem populateLoop_entry {image : Image} {root last n ptr mode : Nat} {e : Newc.Entry}
    {h : Newc.Header} {bytes : List UInt8} (s : FsState V)
    (hh : h.Encodes mode e.content.length (e.path.length + 1))
    (hat : StoredAt image ptr (h.bytes ++ (Newc.pathBytes e.path ++
      (Newc.contentBytes e.content ++ bytes))))
    (haligned : ptr % 4 = 0)
    (hlast : ptr + (h.bytes ++ (Newc.pathBytes e.path ++
      (Newc.contentBytes e.content ++ bytes))).length ≤ last) (hbound : last < 2 ^ 64)
    (hmore : 4 ≤ bytes.length) (htrailer : ¬ trailer <+: e.path) :
    ∃ next, next % 4 = 0 ∧ StoredAt image next bytes ∧ next + bytes.length = ptr +
        (h.bytes ++ (Newc.pathBytes e.path ++ (Newc.contentBytes e.content ++ bytes))).length ∧
      populateLoop vm env image root last (n + 1) ptr s =
        populateLoop vm env image root last n next
          (createEntry vm env s root e.path mode e.content) := by
  rcases hat.append with ⟨hheader, hrest⟩
  rcases hrest.append with ⟨hpath, hrest⟩
  rcases hrest.append with ⟨hcontent, hnext⟩
  rcases header_read hh hheader with ⟨hmagic, hfilesize, hnamesize, hmode⟩
  rw [hh.length] at hpath hcontent hnext
  rw [List.length_append, List.length_append, List.length_append, hh.length] at hlast ⊢
  have hpathLen := Newc.pathBytes_length e.path
  have hcontentLen := Newc.contentBytes_length e.content
  -- the two aligned sums
  have hdata : align4 (usizeAdd ptr (sizeofCpioHeader + (e.path.length + 1))) =
      ptr + 110 + (Newc.pathBytes e.path).length := by
    unfold sizeofCpioHeader
    rw [usizeAdd_eq (by omega), align4_eq (by omega)]
    omega
  have hend : align4 (usizeAdd (ptr + 110 + (Newc.pathBytes e.path).length) e.content.length) =
      ptr + 110 + (Newc.pathBytes e.path).length + (Newc.contentBytes e.content).length := by
    rw [usizeAdd_eq (by omega), align4_eq (by omega)]
    omega
  have hname : slice image (ptr + 110) (usizeAdd (e.path.length + 1) (2 ^ 64 - 1)) = e.path := by
    have hlen : usizeAdd (e.path.length + 1) (2 ^ 64 - 1) = e.path.length := by
      unfold usizeAdd
      omega
    rw [hlen]
    exact hpath.append.1
  have hbytes : slice image (ptr + 110 + (Newc.pathBytes e.path).length) e.content.length =
      e.content := hcontent.append.1
  have hnot : ¬ slice image (ptr + 110) 10 = trailer := by
    intro hten
    exact htrailer (filename_trailer hpath hten)
  refine ⟨_, ?_, hnext, ?_, ?_⟩
  · omega
  · omega
  · conv => lhs; unfold populateLoop
    rw [if_pos (by omega), if_neg (not_not_intro hmagic)]
    simp only [hfilesize, hnamesize, hmode]
    rw [hdata, hend, hbytes]
    unfold sizeofCpioHeader
    rw [if_neg hnot, hname]

/-- The loop ends at the trailer. -/
theorem populateLoop_trailer {image : Image} {root last n ptr mode : Nat} {h : Newc.Header}
    {rest : List UInt8} (s : FsState V)
    (hh : h.Encodes mode 0 (Newc.trailer.length + 1))
    (hat : StoredAt image ptr (h.bytes ++ (Newc.pathBytes Newc.trailer ++ rest))) :
    populateLoop vm env image root last (n + 1) ptr s = some s := by
  rcases hat.append with ⟨hheader, hrest⟩
  rcases hrest.append with ⟨hpath, -⟩
  rcases header_read hh hheader with ⟨hmagic, -⟩
  rw [hh.length] at hpath
  have hten : slice image (ptr + 110) 10 = trailer := hpath.append.1
  unfold populateLoop
  by_cases hlt : ptr < last
  · rw [if_pos hlt, if_neg (not_not_intro hmagic)]
    unfold sizeofCpioHeader
    dsimp only
    rw [if_pos hten]
  · rw [if_neg hlt]

end

end Ceryx.Fs.CpioLoader
