import Ceryx.Fs.AppendWrites
import Ceryx.Fs.FileRuns

/-!
# Ceryx.Fs.FileEnds — Read and Write where offset + size wraps

`Read`, `Write` and `sys_lseek` add `usize` values, modulo 2^64. A request that
ends at 2^64 or behind it is taken for a short one.

* `OpenFiles.lseek`: any offset can be set; `lseek_any`.
* `Exact`: what is asked of a call of `Read` and of `Write` with a size and an
  offset.
* `exact_iff`: both are exact if and only if the end of the request fits into 64
  bits, or the file ends before the offset and `Write` gets no first page.
* `not_exactLaw`: two bytes at the last offset.
-/

namespace Ceryx.Fs.RamFs

open Lib Vfs

/-- A signed 64-bit value as a `usize`. -/
def toUsize (x : Int) : Nat := (x % 2 ^ 64).toNat

namespace OpenFiles

variable {V : Type}

/-- `fd_desc->offset` after `sys_lseek`, by the size of the vnode. -/
def seekTo (descOffset vnodeSize : Nat) (offset : Int) (whence : Int) : Except Int Nat :=
  match whence with
  | 0 => if offset < 0 then .error (-EINVAL) else .ok (toUsize offset)
  | 1 =>
      if offset < 0 ∧ descOffset < toUsize (-offset) then .error (-EINVAL)
      else .ok (toUsize (descOffset + offset))
  | 2 => .ok (toUsize (vnodeSize + offset))
  | _ => .error (-EINVAL)

/-- `sys_lseek`. -/
def lseek (s : OpenFiles V) (d : Nat) (rsi : BitVec 64) (rdx : BitVec 32) :
    Except Int (Nat × OpenFiles V) :=
  match s.target d with
  | none => .error (-EBADF)
  | some (desc, node) =>
      match seekTo desc.offset node.size rsi.toInt rdx.toInt with
      | .error e => .error e
      | .ok offset => .ok (offset, { s with descs := s.descs.set d { desc with offset := offset } })

/-- From the end of the file every offset can be set. -/
theorem lseek_any {s : OpenFiles V} {d : Nat} {desc : OpenFile} {node : RamFsNode V}
    (htarget : s.target d = some (desc, node)) {offset : Nat} (hoffset : offset < 2 ^ 64) :
    s.lseek d (BitVec.ofInt 64 (offset - node.size)) 2 =
      .ok (offset, { s with descs := s.descs.set d { desc with offset := offset } }) := by
  have hseek : seekTo desc.offset node.size (BitVec.ofInt 64 (offset - node.size)).toInt
      (2 : BitVec 32).toInt = .ok offset := by
    change Except.ok (toUsize (node.size + (BitVec.ofInt 64 (offset - node.size)).toInt)) = _
    unfold toUsize
    -- the sum wraps to the offset, whatever the size is
    have hmod : (node.size + (BitVec.ofInt 64 (offset - node.size)).toInt) % 2 ^ 64 = offset := by
      have hpow : (2 ^ 64 : Int) = ((2 ^ 64 : Nat) : Int) := by decide
      rw [BitVec.toInt_ofInt, hpow, Int.add_emod, Int.bmod_emod, ← Int.add_emod]
      omega
    rw [hmod]
    rfl
  unfold lseek
  rw [htarget]
  dsimp only
  rw [hseek]

end OpenFiles

/-! ## One call -/

section
variable {V : Type} (vm : VmObject V)

/-- Nothing has changed but bytes of file `i` in a range. -/
def OnlyInside (s s' : Files V) (i offset size : Nat) : Prop :=
  ∀ j p, s'.byteAt vm j p ≠ s.byteAt vm j p → j = i ∧ offset ≤ p ∧ p < offset + size

/-- A call of `Write` with this buffer is exact: if it succeeds it stores into
the range and the file is as long as that, and if the range has no end it is
refused. -/
structure WriteExact (s : Files V) (i : Nat) (src : List UInt8) (offset : Nat) (s' : Files V)
    (result : Except Int Nat) : Prop where
  inside : ∀ n, result = .ok n → OnlyInside vm s s' i offset src.length
  size : ∀ n, result = .ok n → s'.sizeAt i = max (s.sizeAt i) (offset + src.length)
  refused : 2 ^ 64 ≤ offset + src.length → (∃ e, result = .error e) ∧
    (∀ j p, s'.byteAt vm j p = s.byteAt vm j p) ∧ ∀ j, s'.sizeAt j = s.sizeAt j

/-- `Read` and `Write` of file `i` are exact for this size and offset, whatever
the buffer of `Write`. -/
structure Exact (s : Files V) (i size offset : Nat) (pages : List (Option Nat)) : Prop where
  read : ∀ node, s.nodes[i]? = some node → ∃ bytes,
    RamFs.read vm s.mem node size offset = .ok (bytes.length, bytes) ∧
      bytes.length = if offset < node.size then min size (node.size - offset) else 0
  write : ∀ src result s', src.length = size →
    s.write vm i src offset pages = some (result, s') → WriteExact vm s i src offset s' result

/-- The page of the offset is not resident, and `AllocatePage` gives none. -/
def NoFirstPage (s : Files V) (i offset : Nat) (pages : List (Option Nat)) : Prop :=
  (((s.nodes[i]?).bind RamFsNode.vmo).bind fun vmo => vm.lookup vmo offset) = none ∧
    pages.head?.join = none

end

/-- The law, for a convention of `Lookup`. -/
def ExactLaw (conv : Convention) : Prop :=
  ∀ (V : Type) (vm : VmObject V), vm.Lawful conv → ∀ (ram : Ram) (before : List FileOp)
    (s : Files V), run (fileStep vm) { ram with } before = some s →
    ∀ i size offset pages, i < s.nodes.length → size < 2 ^ 64 → offset < 2 ^ 64 →
      Fresh s.used pages → Exact vm s i size offset pages

variable {V : Type} {vm : VmObject V} {conv : Convention}

theorem reach_eq_zero {size offset : Nat} (hsize : 0 < size) (hoffset : offset < 2 ^ 64) (vmo : V)
    (pages : List (Option Nat)) :
    reach vm size offset size 0 vmo pages = 0 ↔
      vm.lookup vmo offset = none ∧ pages.head?.join = none := by
  have hcurr : usizeAdd offset 0 = offset := usizeAdd_eq hoffset
  have hpos : 0 < 0 + toCopy (size - 0) (usizeAdd offset 0) := by
    rw [Nat.zero_add]
    exact toCopy_pos hsize
  have hle := toCopy_le (size - 0) (usizeAdd offset 0)
  obtain ⟨n, rfl⟩ : ∃ n, size = n + 1 := ⟨size - 1, by omega⟩
  -- once a turn is done the loop is past 0
  have hnext : ∀ vmo' pages', reach vm (n + 1) offset n
      (0 + toCopy (n + 1 - 0) (usizeAdd offset 0)) vmo' pages' ≠ 0 := by
    intro vmo' pages'
    have hmore : 0 + toCopy (n + 1 - 0) (usizeAdd offset 0) ≤ n + 1 := by omega
    have hbounds := reach_bounds vm offset n hmore vmo' pages'
    omega
  unfold reach
  rw [if_pos hsize]
  dsimp only
  rw [hcurr] at hnext ⊢
  cases hlookup : vm.lookup vmo offset with
  | some phys => exact iff_of_false (hnext _ _) fun h => by cases h.1
  | none =>
      rcases pages with _ | ⟨_ | pfn, rest⟩
      · exact iff_of_true rfl ⟨rfl, rfl⟩
      · exact iff_of_true rfl ⟨rfl, rfl⟩
      · exact iff_of_false (hnext _ _) fun h => by cases h.2

/-- `Write` of one buffer, by what it stores. -/
theorem PagesSound.write_cases (hlaw : vm.Lawful conv) {s s' : Files V} (hs : PagesSound vm conv s)
    {i : Nat} {node : RamFsNode V} (hnode : s.nodes[i]? = some node) {src : List UInt8}
    {offset : Nat} {pages : List (Option Nat)} (hoffset : offset < 2 ^ 64)
    (hlen : src.length < 2 ^ 64) (hfresh : Fresh s.used pages)
    (hok : WellPlaced vm conv s (.write i src offset pages)) {result : Except Int Nat}
    (hwrite : s.write vm i src offset pages = some (result, s')) :
    (∀ j, s'.byteAt vm j =
      if j = i then ringBlit (2 ^ 64) (s.byteAt vm i) offset (storedBytes vm node src offset pages)
      else s.byteAt vm j) ∧
    (∀ j, j ≠ i → s'.sizeAt j = s.sizeAt j) ∧
    (result = .ok src.length ∧ s'.sizeAt i = grownSize node.size src.length offset ∧
        storedBytes vm node src offset pages = src ∨
      result = .error (-ENOMEM) ∧ s'.sizeAt i = node.size) := by
  rcases hs.write hlaw hoffset hlen hfresh hok hwrite with
    ⟨node₁, node', hnode₁, hnodes, -, hbytes, hresult⟩
  obtain rfl : node = node₁ := Option.some.inj (hnode.symm.trans hnode₁)
  rcases List.getElem?_eq_some_iff.mp hnode with ⟨hi, -⟩
  -- the node that is written is the new one
  have hsize : s'.sizeAt i = node'.size := by
    unfold Files.sizeAt
    rw [hnodes, List.getElem?_set_self hi]
  refine ⟨hbytes, ?_, ?_⟩
  · intro j hji
    unfold Files.sizeAt
    rw [hnodes, List.getElem?_set_ne (Ne.symm hji)]
  · rw [hsize]
    rcases hresult with hgood | hbad
    · exact Or.inl hgood
    · exact Or.inr ⟨hbad.1, hbad.2.1⟩

/-- A request that ends below 2^64. -/
theorem writeExact_of_fits (hlaw : vm.Lawful conv) {s s' : Files V} (hs : PagesSound vm conv s)
    {i : Nat} (hi : i < s.nodes.length) {src : List UInt8} {offset : Nat}
    {pages : List (Option Nat)} (hfresh : Fresh s.used pages)
    (hok : WellPlaced vm conv s (.write i src offset pages)) {result : Except Int Nat}
    (hwrite : s.write vm i src offset pages = some (result, s'))
    (hfits : offset + src.length < 2 ^ 64) : WriteExact vm s i src offset s' result := by
  have hnode : s.nodes[i]? = some s.nodes[i] := List.getElem?_eq_getElem hi
  generalize s.nodes[i] = node at hnode
  have hsize : s.sizeAt i = node.size := by
    unfold Files.sizeAt
    rw [hnode]
  rcases hs.write_cases hlaw hnode (by omega) (by omega) hfresh hok hwrite with
    ⟨hbytes, -, hresult⟩
  refine ⟨?_, ?_, fun hwrap => absurd hwrap (Nat.not_le.mpr hfits)⟩
  · -- a byte that has changed lies in the file and in the range
    intro n hn j p hne
    rcases hresult with ⟨-, -, hstored⟩ | ⟨hbad, -⟩
    · rw [hbytes j] at hne
      split at hne
      · rename_i hji
        refine ⟨hji, ?_⟩
        rw [hstored, ringBlit_eq_blit (by omega), hji] at hne
        by_contra hout
        exact hne (blit_outside (by omega))
      · exact absurd rfl hne
    · rw [hn] at hbad
      cases hbad
  · intro n hn
    rcases hresult with ⟨-, hgrown, -⟩ | ⟨hbad, -⟩
    · -- the end of the write does not wrap
      rw [hgrown, hsize, grownSize_eq hfits]
    · rw [hn] at hbad
      cases hbad

/-- A request that finds no memory for its first byte. -/
theorem writeExact_of_noFirstPage (hlaw : vm.Lawful conv) {s s' : Files V}
    (hs : PagesSound vm conv s) {i : Nat} (hi : i < s.nodes.length) {src : List UInt8} {offset : Nat}
    {pages : List (Option Nat)} (hoffset : offset < 2 ^ 64) (hlen : src.length < 2 ^ 64)
    (hpos : 0 < src.length) (hfresh : Fresh s.used pages)
    (hok : WellPlaced vm conv s (.write i src offset pages)) {result : Except Int Nat}
    (hwrite : s.write vm i src offset pages = some (result, s'))
    (hfirst : NoFirstPage vm s i offset pages) : WriteExact vm s i src offset s' result := by
  have hnode : s.nodes[i]? = some s.nodes[i] := List.getElem?_eq_getElem hi
  generalize s.nodes[i] = node at hnode
  have hsize : s.sizeAt i = node.size := by
    unfold Files.sizeAt
    rw [hnode]
  -- without the first page the loop stops before its first byte
  have hnothing : storedBytes vm node src offset pages = [] := by
    unfold NoFirstPage at hfirst
    rw [hnode, Option.bind_some] at hfirst
    unfold storedBytes
    cases hvmo : node.vmo with
    | none => rfl
    | some vmo =>
        rw [hvmo, Option.bind_some] at hfirst
        dsimp only
        rw [(reach_eq_zero hpos hoffset vmo pages).mpr hfirst]
        rfl
  rcases hs.write_cases hlaw hnode hoffset hlen hfresh hok hwrite with ⟨hbytes, hothers, hresult⟩
  rcases hresult with ⟨-, -, hstored⟩ | ⟨hbad, hkept⟩
  · -- a success stores all of `src`, which has a byte
    rw [hnothing] at hstored
    rw [← hstored] at hpos
    cases hpos
  · refine ⟨?_, ?_, fun _ => ⟨⟨_, hbad⟩, ?_, ?_⟩⟩
    · intro n hn
      rw [hn] at hbad
      cases hbad
    · intro n hn
      rw [hn] at hbad
      cases hbad
    · intro j p
      rw [hbytes j, hnothing, ringBlit_nil]
      split
      · rename_i hji
        rw [hji]
      · rfl
    · intro j
      by_cases hji : j = i
      · rw [hji, hkept, hsize]
      · exact hothers j hji

theorem exists_other_byte (byte : UInt8) : ∃ x, x ≠ byte := by
  by_cases hzero : byte = 0
  · exact ⟨1, by rw [hzero]; decide⟩
  · exact ⟨0, Ne.symm hzero⟩

/-- A request that wraps and is refused has found no page for its first byte: if
it had, a new byte would be in the file. -/
theorem noFirstPage_of_exact (hlaw : vm.Lawful conv) {s : Files V} (hs : PagesSound vm conv s)
    {i : Nat} (hi : i < s.nodes.length) {size offset : Nat} {pages : List (Option Nat)}
    (hsize : size < 2 ^ 64) (hoffset : offset < 2 ^ 64) (hfresh : Fresh s.used pages)
    (hok : ∀ src, src.length = size → WellPlaced vm conv s (.write i src offset pages))
    (hwraps : 2 ^ 64 ≤ offset + size) (h : Exact vm s i size offset pages) :
    NoFirstPage vm s i offset pages := by
  have hnode : s.nodes[i]? = some s.nodes[i] := List.getElem?_eq_getElem hi
  generalize s.nodes[i] = node at hnode
  have hvmo : ∃ vmo, node.vmo = some vmo := by
    rcases hs with ⟨tables, hinv⟩
    rcases (hinv.file i node hnode).pages with ⟨vmo, hvmo, -⟩
    exact ⟨vmo, hvmo⟩
  rcases hvmo with ⟨vmo, hvmo⟩
  have hpos : 0 < size := by omega
  -- a buffer of bytes that are not there
  obtain ⟨x, hx⟩ := exists_other_byte (s.byteAt vm i offset)
  have hlen : (List.replicate size x).length = size := List.length_replicate
  have hcall : ∃ r, s.write vm i (List.replicate size x) offset pages = some r := by
    unfold Files.write
    rw [hnode]
    exact ⟨_, rfl⟩
  rcases hcall with ⟨⟨result, s'⟩, hwrite⟩
  have hrefused := (h.write _ result s' hlen hwrite).refused (by rw [hlen]; exact hwraps)
  rcases hs.write_cases hlaw hnode hoffset (by rw [hlen]; exact hsize) hfresh (hok _ hlen) hwrite with
    ⟨hbytes, -, -⟩
  unfold NoFirstPage
  rw [hnode, Option.bind_some, hvmo, Option.bind_some, ← reach_eq_zero hpos hoffset vmo pages]
  by_contra hreach
  have hfirst : (storedBytes vm node (List.replicate size x) offset pages)[0]? = some x := by
    unfold storedBytes
    rw [hvmo, hlen]
    dsimp only
    rw [List.take_replicate, List.getElem?_replicate, if_pos (by omega)]
  rcases List.getElem?_eq_some_iff.mp hfirst with ⟨hlt, hget⟩
  have hshort : (storedBytes vm node (List.replicate size x) offset pages).length ≤ 2 ^ 64 := by
    unfold storedBytes
    rw [hvmo]
    dsimp only
    rw [List.length_take, hlen]
    omega
  have hnew := ringBlit_inside (s.byteAt vm i) hoffset hshort hlt
  rw [Nat.add_zero, Nat.mod_eq_of_lt hoffset, hget] at hnew
  have hold := hrefused.2.1 i offset
  rw [hbytes i, if_pos rfl, hnew] at hold
  exact hx hold

/-! ## The exact condition -/

/-- `Read` counts right unless the file reaches over the offset and the sum
wraps. -/
theorem readExact_iff {s : Files V} (hs : PagesSound vm conv s) {i : Nat} {node : RamFsNode V}
    (hnode : s.nodes[i]? = some node) {size offset : Nat} (hsize : size < 2 ^ 64)
    (hoffset : offset < 2 ^ 64) :
    (∃ bytes, read vm s.mem node size offset = .ok (bytes.length, bytes) ∧
      bytes.length = if offset < node.size then min size (node.size - offset) else 0) ↔
      offset + size < 2 ^ 64 ∨ node.size ≤ offset := by
  rcases hs with ⟨tables, hinv⟩
  have hregular := hinv.file i node hnode
  have hbound := hregular.bound
  rw [hregular.read_eq s.mem size hoffset]
  by_cases hin : offset < node.size
  · rw [if_pos hin, if_pos hin]
    -- the count is right exactly when the end of the request does not wrap
    have hcount : readCount node.size size offset = min size (node.size - offset) ↔
        offset + size < 2 ^ 64 := by
      unfold readCount usizeAdd
      split <;> omega
    rw [or_iff_left (Nat.not_le.mpr hin), ← hcount]
    constructor
    · rintro ⟨bytes, hread, hlen⟩
      have hfst := congrArg Prod.fst (Except.ok.inj hread)
      dsimp only at hfst
      rw [hfst, hlen]
    · intro h
      refine ⟨_, congrArg Except.ok (Prod.ext_iff.mpr ⟨?_, rfl⟩), ?_⟩
      · rw [List.length_map, List.length_range]
      · rw [List.length_map, List.length_range, h]
  · rw [if_neg hin, if_neg hin]
    exact iff_of_true ⟨[], rfl, rfl⟩ (Or.inr (Nat.not_lt.mp hin))

/-- `Read` and `Write` are exact if and only if the end of the request fits into
64 bits, or the file ends before the offset and `Write` gets no first page. -/
theorem exact_iff (hlaw : vm.Lawful conv) {ram : Ram} {before : List FileOp} {s : Files V}
    (hrun : run (fileStep vm) { ram with } before = some s)
    (hbefore : StepsMeet (fileStep vm) (WellPlaced vm conv) { ram with } before) {i : Nat}
    (hi : i < s.nodes.length) {size offset : Nat} {pages : List (Option Nat)}
    (hsize : size < 2 ^ 64) (hoffset : offset < 2 ^ 64) (hfresh : Fresh s.used pages)
    (hok : ∀ src, src.length = size → WellPlaced vm conv s (.write i src offset pages)) :
    Exact vm s i size offset pages ↔ offset + size < 2 ^ 64 ∨
      (s.sizeAt i ≤ offset ∧ NoFirstPage vm s i offset pages) := by
  have hs := (start_sound vm conv ram).run hlaw hbefore hrun
  have hnode : s.nodes[i]? = some s.nodes[i] := List.getElem?_eq_getElem hi
  have hat : s.sizeAt i = s.nodes[i].size := by
    unfold Files.sizeAt
    rw [hnode]
  rw [hat]
  constructor
  · intro h
    rcases (readExact_iff hs hnode hsize hoffset).mp (h.read _ hnode) with hfits | hpast
    · exact Or.inl hfits
    · -- the read is exact past the end of the file, so the write decides
      rcases Nat.lt_or_ge (offset + size) (2 ^ 64) with hfits | hwraps
      · exact Or.inl hfits
      · exact Or.inr ⟨hpast, noFirstPage_of_exact hlaw hs hi hsize hoffset hfresh hok hwraps h⟩
  · intro h
    constructor
    · intro node hnode'
      obtain rfl : s.nodes[i] = node := Option.some.inj (hnode.symm.trans hnode')
      apply (readExact_iff hs hnode hsize hoffset).mpr
      exact h.imp id And.left
    · intro src result s' hlen hwrite
      subst hlen
      rcases Nat.lt_or_ge (offset + src.length) (2 ^ 64) with hfits | hwraps
      · exact writeExact_of_fits hlaw hs hi hfresh (hok src rfl) hwrite hfits
      · rcases h with hfits | ⟨-, hfirst⟩
        · exact absurd hfits (Nat.not_lt.mpr hwraps)
        · exact writeExact_of_noFirstPage hlaw hs hi hoffset hsize (by omega) hfresh (hok src rfl)
            hwrite hfirst

/-! ## The last offset -/

/-- Two bytes at offset 2^64 - 1 are written: the second goes to offset 0. -/
theorem not_exactLaw : ¬ ∃ conv, ExactLaw conv := by
  rintro ⟨conv, hlaw⟩
  have hwrong : ∃ r, (oneFile conv).write (pageList conv) 0 [1, 2] (2 ^ 64 - 1) [some 1, some 2] =
      some r ∧ r.1 = .ok 2 := by
    cases conv with
    | base => exact exists_start (by decide +kernel)
    | basePlusOffset => exact exists_start (by decide +kernel)
  rcases hwrong with ⟨⟨result, s'⟩, hwrite, hresult⟩
  have hexact := hlaw _ (pageList conv) (pageList_lawful conv) zeroRam [.create] (oneFile conv)
    (oneFile_run conv) 0 2 (2 ^ 64 - 1) [some 1, some 2] (by decide : 0 < 1) (by decide) (by decide)
    (by decide : Fresh [] [some 1, some 2])
  rcases ((hexact.write [1, 2] result s' rfl hwrite).refused (by decide)).1 with ⟨e, he⟩
  dsimp only at hresult
  rw [he] at hresult
  cases hresult

/-- A page at the start of an empty file. -/
theorem first_page_exact : Exact (pageList .base) (oneFile .base) 0 4096 0 [some 1] := by
  have hbefore : StepsMeet (fileStep (pageList .base)) (WellPlaced (pageList .base) .base)
      { zeroRam with } [.create] := by decide +kernel
  have hi : 0 < (oneFile .base).nodes.length := by decide
  have hfresh : Fresh (oneFile .base).used [some 1] := by decide
  exact (exact_iff (pageList_lawful .base) (oneFile_run .base) hbefore hi (by decide) (by decide)
    hfresh fun _ _ => Or.inl rfl).mpr (Or.inl (by decide))

end Ceryx.Fs.RamFs
