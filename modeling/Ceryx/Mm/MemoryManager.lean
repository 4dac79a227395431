import Ceryx.Lib.Qword
import Ceryx.Lib.Tiling

/-!
# Ceryx.Mm.MemoryManager — the zones at boot

`MemoryManager::Initialize` up to the registration of the zones: three loops over
the memory map find the end of memory, the entry that holds the array of page
descriptors, and the zones of the page frame allocator.

* The size of the array for a number of pages is any function; the addresses in the
  HHDM are too.
* `LimineMap`: what the boot loader guarantees of its map.
* `registerRange_tiles`: the loop over the chunks of 4 GiB tiles its range.
* `ExactZones`: the zones are exactly the usable memory less the pages of the array,
  cut into aligned pieces of at most 4 GiB, and each page has a descriptor.
* `zones_exact`: so it is for each map in which the array fits somewhere.
-/

namespace Ceryx.Mm

open Lib

/-! ## The memory map -/

/-- `limine_memmap_entry`. -/
structure MemmapEntry where
  base : Word
  length : Word
  type : Word

/-- `limine_memmap_response`: pointers to entries, and what lies there. -/
structure MemmapResponse where
  entries : List Word
  entry : Word → MemmapEntry

def LIMINE_MEMMAP_USABLE : Word := 0
def LIMINE_MEMMAP_BOOTLOADER_RECLAIMABLE : Word := 5

def kPageSize : Word := 4096

/-- 4 GiB, a block of order 20. -/
def kMaxZoneSize : Word := (1 <<< 20) * kPageSize

theorem kPageSize_toNat : kPageSize.toNat = 4096 := rfl

theorem kMaxZoneSize_toNat : kMaxZoneSize.toNat = 2 ^ 32 := rfl

/-- `chunk_size`. -/
def chunkSize (length : Word) : Word := if kMaxZoneSize < length then kMaxZoneSize else length

theorem chunkSize_toNat (length : Word) : (chunkSize length).toNat = min (2 ^ 32) length.toNat := by
  unfold chunkSize
  split
  · rename_i hlt
    have hlt' : kMaxZoneSize.toNat < length.toNat := hlt
    rw [kMaxZoneSize_toNat] at hlt' ⊢
    omega
  · rename_i hle
    have hle' : length.toNat ≤ kMaxZoneSize.toNat := Nat.le_of_not_lt hle
    rw [kMaxZoneSize_toNat] at hle'
    omega

theorem sub_chunkSize_toNat (length : Word) :
    (length - chunkSize length).toNat = length.toNat - (chunkSize length).toNat := by
  have hchunk := chunkSize_toNat length
  bv_omega

def MemmapEntry.usable (e : MemmapEntry) : Prop := e.type = LIMINE_MEMMAP_USABLE

/-- The entries whose pages get descriptors. -/
def MemmapEntry.managed (e : MemmapEntry) : Prop :=
  e.type = LIMINE_MEMMAP_USABLE ∨ e.type = LIMINE_MEMMAP_BOOTLOADER_RECLAIMABLE

instance (e : MemmapEntry) : Decidable e.usable := inferInstanceAs (Decidable (_ = _))

instance (e : MemmapEntry) : Decidable e.managed := inferInstanceAs (Decidable (_ ∨ _))

/-! ## Initialize -/

section
variable (r : MemmapResponse)

/-- One turn of the first loop. -/
def rangeStep (maxPhysAddr p : Word) : Word :=
  let entry := r.entry p
  if entry.managed then
    if maxPhysAddr < entry.base + entry.length then entry.base + entry.length else maxPhysAddr
  else maxPhysAddr

/-- `max_phys_addr`. -/
def maxPhysAddr : Word := r.entries.foldl (rangeStep r) 0

/-- `total_pages`. -/
def totalPages : Word := (maxPhysAddr r + kPageSize - 1) / kPageSize

/-- One turn of the second loop. -/
def bestStep (pdArraySize : Word) (bestEntry : Option Word) (p : Word) : Option Word :=
  if (r.entry p).usable then
    let availableLen := (r.entry p).length
    if pdArraySize ≤ availableLen then
      match bestEntry with
      | none => some p
      | some best => if (r.entry best).length < availableLen then some p else some best
    else bestEntry
  else bestEntry

/-- `best_entry`, as a pointer. -/
def bestEntry (pdArraySize : Word) : Option Word := r.entries.foldl (bestStep r pdArraySize) none

/-- What `RegisterZone` is called with; all zones are `RegionType::Generic`. -/
structure Zone where
  base : Word
  pages : Word
  virt : Word

variable (toVirtual : Word → Word)

/-- The loop that registers a range in chunks. -/
def registerRange (base length : Word) : List Zone :=
  if kPageSize ≤ length then
    ⟨base, chunkSize length / kPageSize, toVirtual base⟩ ::
      registerRange (base + chunkSize length) (length - chunkSize length)
  else []
termination_by length.toNat
decreasing_by
  have hpage : kPageSize.toNat ≤ length.toNat := ‹kPageSize ≤ length›
  rw [kPageSize_toNat] at hpage
  rw [sub_chunkSize_toNat, chunkSize_toNat]
  omega

/-- One turn of the third loop. -/
def registerEntry (best usedByPd p : Word) : List Zone :=
  let entry := r.entry p
  if entry.usable then
    if p = best then
      if entry.length ≤ usedByPd then []
      else registerRange toVirtual (entry.base + usedByPd) (entry.length - usedByPd)
    else registerRange toVirtual entry.base entry.length
  else []

/-- What `Initialize` has set up when the zones are registered. -/
structure Boot where
  maxPhysAddr : Word
  /-- The array of page descriptors: the number of pages from `Pfn{0}` on, the physical
  address and the bytes. -/
  totalPages : Word
  pdArray : Word
  pdArraySize : Word
  zones : List Zone

/-- `MemoryManager::Initialize` up to the registration of the zones, with the texts of
`FK_BUG_ON`; `hhdm` is `ToVirtual` of the offset in the response. -/
def memoryManagerInitialize (initialized : Bool) (memmap : Option MemmapResponse) (hhdm : Option (Word → Word))
    (storageSize : Word → Word) : Except String Boot :=
  if initialized then .error "MemoryManager::Initialize: already initialized"
  else
    match memmap, hhdm with
    | none, _ => .error "MemoryManager::Initialize: null memmap response"
    | some _, none => .error "MemoryManager::Initialize: null HHDM response"
    | some r, some toVirtual =>
        let pdArraySize := storageSize (totalPages r)
        match bestEntry r pdArraySize with
        | none =>
            .error
              "MemoryManager::Initialize: no usable memory region large enough for PD array found"
        | some best =>
            let usedByPd := (pdArraySize + kPageSize - 1) &&& ~~~(kPageSize - 1)
            .ok
              { maxPhysAddr := maxPhysAddr r
                totalPages := totalPages r
                pdArray := (r.entry best).base
                pdArraySize := pdArraySize
                zones := r.entries.flatMap (registerEntry r toVirtual best usedByPd) }

end

/-! ## The property -/

/-- The addresses of an entry. -/
def MemmapEntry.addrs (e : MemmapEntry) : Set Nat :=
  Set.Ico e.base.toNat (e.base.toNat + e.length.toNat)

/-- A map as the boot loader passes it: usable entries are aligned to pages and do not
overlap, and memory ends below the last page of the 64-bit space. -/
structure LimineMap extends MemmapResponse where
  aligned : ∀ p ∈ entries, (entry p).usable →
    4096 ∣ (entry p).base.toNat ∧ 4096 ∣ (entry p).length.toNat
  disjoint : entries.Pairwise fun p q =>
    (entry p).usable → (entry q).usable → Disjoint (entry p).addrs (entry q).addrs
  inSpace : ∀ p ∈ entries, (entry p).managed →
    (entry p).base.toNat + (entry p).length.toNat ≤ 2 ^ 64 - 4096

/-- The addresses of a zone. -/
def Zone.addrs (z : Zone) : Set Nat := Set.Ico z.base.toNat (z.base.toNat + z.pages.toNat * 4096)

/-- The pages in which a byte of the descriptor array lies. -/
def Boot.pdPages (b : Boot) : Set Nat :=
  {a | ∃ i < b.pdArraySize.toNat, a / 4096 = (b.pdArray.toNat + i) / 4096}

/-- The usable memory of a map. -/
def LimineMap.usableAddrs (map : LimineMap) : Set Nat :=
  {a | ∃ p ∈ map.entries, (map.entry p).usable ∧ a ∈ (map.entry p).addrs}

/-- The zones are the usable memory less the pages of the array. -/
structure ExactZones (map : LimineMap) (b : Boot) : Prop where
  aligned : ∀ z ∈ b.zones, 4096 ∣ z.base.toNat
  nonempty : ∀ z ∈ b.zones, 0 < z.pages.toNat
  small : ∀ z ∈ b.zones, z.pages.toNat * 4096 ≤ 2 ^ 32
  disjoint : b.zones.Pairwise fun z z' => Disjoint z.addrs z'.addrs
  apart : ∀ z ∈ b.zones, Disjoint z.addrs b.pdPages
  stored : b.pdPages ⊆ map.usableAddrs
  described : ∀ z ∈ b.zones, ∀ a ∈ z.addrs,
    a < b.maxPhysAddr.toNat ∧ a / 4096 < b.totalPages.toNat
  cover : ∀ a, (∃ z ∈ b.zones, a ∈ z.addrs) ↔ a ∈ map.usableAddrs ∧ a ∉ b.pdPages

/-! ## The end of memory -/

section
variable {r : MemmapResponse}

theorem rangeStep_le (m p : Word) : m ≤ rangeStep r m p := by
  unfold rangeStep
  dsimp only
  split
  · split
    · rename_i hlt
      exact BitVec.le_of_lt hlt
    · exact BitVec.le_refl m
  · exact BitVec.le_refl m

theorem le_rangeStep {p : Word} (h : (r.entry p).managed) (m : Word) :
    (r.entry p).base + (r.entry p).length ≤ rangeStep r m p := by
  unfold rangeStep
  dsimp only
  rw [if_pos h]
  split
  · exact BitVec.le_refl _
  · rename_i hle
    exact BitVec.not_lt.mp hle

theorem foldl_rangeStep_le (ps : List Word) (m : Word) : m ≤ ps.foldl (rangeStep r) m := by
  induction ps generalizing m with
  | nil => exact BitVec.le_refl m
  | cons p ps ih => exact BitVec.le_trans (rangeStep_le m p) (ih _)

/-- The loop passes no managed entry by. -/
theorem le_foldl_rangeStep {ps : List Word} {p : Word} (hp : p ∈ ps) (h : (r.entry p).managed)
    (m : Word) : (r.entry p).base + (r.entry p).length ≤ ps.foldl (rangeStep r) m := by
  induction ps generalizing m with
  | nil => exact absurd hp List.not_mem_nil
  | cons q ps ih =>
      rcases List.mem_cons.mp hp with rfl | hrest
      · exact BitVec.le_trans (le_rangeStep h m) (foldl_rangeStep_le ps _)
      · exact ih hrest _

/-- What bounds all ends of managed entries bounds the end of memory. -/
theorem foldl_rangeStep_bound {ps : List Word} {b : Nat}
    (h : ∀ p ∈ ps, (r.entry p).managed → (r.entry p).base.toNat + (r.entry p).length.toNat ≤ b)
    {m : Word} (hm : m.toNat ≤ b) : (ps.foldl (rangeStep r) m).toNat ≤ b := by
  induction ps generalizing m with
  | nil => exact hm
  | cons p ps ih =>
      apply ih (fun q hq => h q (List.mem_cons_of_mem _ hq))
      unfold rangeStep
      dsimp only
      split
      · rename_i hmanaged
        have hend := h p List.mem_cons_self hmanaged
        split
        · rw [BitVec.toNat_add]
          exact (Nat.mod_le _ _).trans hend
        · exact hm
      · exact hm

end

theorem MemmapEntry.usable.managed {e : MemmapEntry} (h : e.usable) : e.managed := .inl h

theorem LimineMap.maxPhysAddr_le (map : LimineMap) :
    (maxPhysAddr map.toMemmapResponse).toNat ≤ 2 ^ 64 - 4096 :=
  foldl_rangeStep_bound map.inSpace (Nat.zero_le _)

/-- A usable entry ends at `max_phys_addr` or before. -/
theorem LimineMap.end_le (map : LimineMap) {p : Word} (hp : p ∈ map.entries)
    (h : (map.entry p).usable) :
    (map.entry p).base.toNat + (map.entry p).length.toNat ≤
      (maxPhysAddr map.toMemmapResponse).toNat := by
  have hspace := map.inSpace p hp h.managed
  have hle : ((map.entry p).base + (map.entry p).length).toNat ≤
      (maxPhysAddr map.toMemmapResponse).toNat := le_foldl_rangeStep hp h.managed 0
  rw [BitVec.toNat_add, Nat.mod_eq_of_lt (by omega)] at hle
  exact hle

/-- `total_pages` is rounded up. -/
theorem LimineMap.totalPages_toNat (map : LimineMap) :
    (totalPages map.toMemmapResponse).toNat =
      ((maxPhysAddr map.toMemmapResponse).toNat + 4095) / 4096 := by
  have hle := map.maxPhysAddr_le
  have hsum : (maxPhysAddr map.toMemmapResponse + kPageSize - 1).toNat =
      (maxPhysAddr map.toMemmapResponse).toNat + 4095 := by
    unfold kPageSize
    bv_omega
  rw [totalPages, BitVec.toNat_udiv, hsum, kPageSize_toNat]

/-! ## The entry that holds the array -/

section
variable {r : MemmapResponse} {pdArraySize : Word}

/-- The entry can hold the array. -/
def Holds (r : MemmapResponse) (pdArraySize p : Word) : Prop :=
  (r.entry p).usable ∧ pdArraySize ≤ (r.entry p).length

/-- A turn keeps what is found, or finds an entry that can hold the array. -/
theorem bestStep_cases (best : Option Word) (p : Word) :
    bestStep r pdArraySize best p = best ∨
      bestStep r pdArraySize best p = some p ∧ Holds r pdArraySize p := by
  unfold bestStep
  split
  · rename_i husable
    dsimp only
    split
    · rename_i hfits
      split
      · exact .inr ⟨rfl, husable, hfits⟩
      · split
        · exact .inr ⟨rfl, husable, hfits⟩
        · exact .inl rfl
    · exact .inl rfl
  · exact .inl rfl

theorem foldl_bestStep_holds {ps : List Word} {best : Option Word} {p : Word}
    (h : ps.foldl (bestStep r pdArraySize) best = some p) :
    best = some p ∨ p ∈ ps ∧ Holds r pdArraySize p := by
  induction ps generalizing best with
  | nil => exact .inl h
  | cons q ps ih =>
      rcases ih h with hnow | ⟨hmem, hholds⟩
      · rcases @bestStep_cases r pdArraySize best q with hsame | ⟨hq, hholds⟩
        · rw [hsame] at hnow
          exact .inl hnow
        · rw [hq] at hnow
          cases hnow
          exact .inr ⟨List.mem_cons_self, hholds⟩
      · exact .inr ⟨List.mem_cons_of_mem _ hmem, hholds⟩

theorem foldl_bestStep_some (ps : List Word) (p : Word) :
    (ps.foldl (bestStep r pdArraySize) (some p)).isSome = true := by
  induction ps generalizing p with
  | nil => rfl
  | cons q ps ih =>
      rw [List.foldl_cons]
      rcases @bestStep_cases r pdArraySize (some p) q with hsame | ⟨hq, -⟩
      · rw [hsame]
        exact ih p
      · rw [hq]
        exact ih q

/-- The loop finds an entry if there is one. -/
theorem foldl_bestStep_finds {ps : List Word} {p : Word} (hp : p ∈ ps) (h : Holds r pdArraySize p)
    (best : Option Word) : (ps.foldl (bestStep r pdArraySize) best).isSome = true := by
  induction ps generalizing best with
  | nil => exact absurd hp List.not_mem_nil
  | cons q ps ih =>
      rcases List.mem_cons.mp hp with rfl | hrest
      · -- the entry itself: it is taken, or a better one stays
        have hfound : ∃ q, bestStep r pdArraySize best p = some q := by
          unfold bestStep
          rw [if_pos h.1]
          dsimp only
          rw [if_pos h.2]
          split
          · exact ⟨p, rfl⟩
          · split
            · exact ⟨p, rfl⟩
            · exact ⟨_, rfl⟩
        obtain ⟨q, hq⟩ := hfound
        rw [List.foldl_cons, hq]
        exact foldl_bestStep_some ps q
      · -- one further on
        exact ih hrest _

theorem bestEntry_spec {best : Word} (h : bestEntry r pdArraySize = some best) :
    best ∈ r.entries ∧ Holds r pdArraySize best := by
  rcases foldl_bestStep_holds h with hnone | hfound
  · cases hnone
  · exact hfound

theorem bestEntry_finds {p : Word} (hp : p ∈ r.entries) (h : Holds r pdArraySize p) :
    ∃ best, bestEntry r pdArraySize = some best :=
  Option.isSome_iff_exists.mp (foldl_bestStep_finds hp h none)

end

/-! ## The chunks of a range -/

/-- Aligned to pages, not empty, and 4 GiB at most. -/
structure Zone.Sound (z : Zone) : Prop where
  aligned : 4096 ∣ z.base.toNat
  nonempty : 0 < z.pages.toNat
  small : z.pages.toNat * 4096 ≤ 2 ^ 32

section
variable {toVirtual : Word → Word} {base length : Word}

theorem div_kPageSize_toNat (w : Word) (h : 4096 ∣ w.toNat) :
    (w / kPageSize).toNat * 4096 = w.toNat := by
  rw [BitVec.toNat_udiv, kPageSize_toNat]
  exact Nat.div_mul_cancel h

theorem chunkSize_aligned (h : 4096 ∣ length.toNat) : 4096 ∣ (chunkSize length).toNat := by
  rw [chunkSize_toNat]
  omega

/-- The loop over the chunks tiles its range. -/
theorem registerRange_tiles (hbase : 4096 ∣ base.toNat) (hlength : 4096 ∣ length.toNat)
    (hspace : base.toNat + length.toNat < 2 ^ 64) :
    (∀ z ∈ registerRange toVirtual base length, z.Sound) ∧
      Tiles ((registerRange toVirtual base length).map Zone.addrs)
        (Set.Ico base.toNat (base.toNat + length.toNat)) := by
  induction base, length using registerRange.induct with
  | case1 base length hpage ih =>
      have hpage' : 4096 ≤ length.toNat := hpage
      have hchunk := chunkSize_toNat length
      -- a chunk is whole pages, so what is left is aligned again
      have halign := chunkSize_aligned hlength
      have hbase' : (base + chunkSize length).toNat = base.toNat + (chunkSize length).toNat := by
        rw [BitVec.toNat_add]
        exact Nat.mod_eq_of_lt (by omega)
      have hrest := sub_chunkSize_toNat length
      have hend : base.toNat + (chunkSize length).toNat + (length.toNat - (chunkSize length).toNat) =
          base.toNat + length.toNat := by omega
      obtain ⟨hsound, htiles⟩ := ih
        (by rw [hbase']; exact Nat.dvd_add hbase halign)
        (by rw [hrest]; exact Nat.dvd_sub hlength halign)
        (by rw [hbase', hrest, hend]; exact hspace)
      rw [hbase', hrest, hend] at htiles
      rw [registerRange, if_pos hpage]
      have hpages := div_kPageSize_toNat (chunkSize length) halign
      constructor
      · intro z hz
        rcases List.mem_cons.mp hz with rfl | hlater
        · exact ⟨hbase, by dsimp only; omega, by dsimp only; omega⟩
        · exact hsound z hlater
      · -- the zone of the chunk is the first interval of the tiling
        have hfirst : Zone.addrs ⟨base, chunkSize length / kPageSize, toVirtual base⟩ =
            Set.Ico base.toNat (base.toNat + (chunkSize length).toNat) := by
          unfold Zone.addrs
          rw [hpages]
        rw [List.map_cons, hfirst]
        exact htiles.cons_Ico (Nat.le_add_right _ _) (by omega)
  | case2 base length hpage =>
      have hpage' : ¬ 4096 ≤ length.toNat := hpage
      have hzero : length.toNat = 0 := by omega
      rw [registerRange, if_neg hpage, hzero]
      refine ⟨nofun, ?_⟩
      rw [Nat.add_zero, Set.Ico_self]
      exact tiles_empty

end

/-! ## The zones -/

section
variable {map : LimineMap} {toVirtual : Word → Word} {best pdArraySize : Word}

/-- `used_by_pd`. -/
theorem usedByPd_toNat (h : pdArraySize.toNat + 4095 < 2 ^ 64) :
    ((pdArraySize + kPageSize - 1) &&& ~~~(kPageSize - 1)).toNat =
      (pdArraySize.toNat + 4095) / 4096 * 4096 := by
  have hsum : (pdArraySize + kPageSize - 1).toNat = pdArraySize.toNat + 4095 := by
    unfold kPageSize
    bv_omega
  have hmask : kPageSize - 1 = BitVec.ofNat 64 (2 ^ 12 - 1) := rfl
  rw [hmask, toNat_and_not_mask, hsum]
  rfl

/-- The pages of the array are the first part of its entry. -/
theorem pdPages_eq {b : Boot} (h : 4096 ∣ b.pdArray.toNat) :
    b.pdPages = Set.Ico b.pdArray.toNat
      (b.pdArray.toNat + (b.pdArraySize.toNat + 4095) / 4096 * 4096) := by
  ext a
  constructor
  · rintro ⟨i, hi, heq⟩
    constructor
    · omega
    · omega
  · rintro ⟨hle, hlt⟩
    by_cases hin : a - b.pdArray.toNat < b.pdArraySize.toNat
    · refine ⟨a - b.pdArray.toNat, hin, ?_⟩
      rw [Nat.add_sub_cancel' hle]
    · -- behind the array, in its last page
      refine ⟨b.pdArraySize.toNat - 1, by omega, ?_⟩
      omega

/-- The first bytes of an entry. -/
def MemmapEntry.front (e : MemmapEntry) (size : Nat) : Set Nat :=
  Set.Ico e.base.toNat (e.base.toNat + size)

/-- What is left of an entry when the array is stored. -/
def LimineMap.freePart (map : LimineMap) (best : Word) (used : Nat) (p : Word) : Set Nat :=
  {a | (map.entry p).usable ∧ a ∈ (map.entry p).addrs ∧ a ∉ (map.entry best).front used}

/-- Entries at different addresses do not overlap. -/
theorem LimineMap.addrs_disjoint {p q : Word} (hp : p ∈ map.entries) (hq : q ∈ map.entries)
    (hne : p ≠ q) (hpu : (map.entry p).usable) (hqu : (map.entry q).usable) :
    Disjoint (map.entry p).addrs (map.entry q).addrs := by
  have hsymm : Std.Symm fun p q => (map.entry p).usable → (map.entry q).usable →
      Disjoint (map.entry p).addrs (map.entry q).addrs :=
    ⟨fun _ _ h hq hp => (h hp hq).symm⟩
  exact map.disjoint.forall hp hq hne hpu hqu

/-- A turn of the third loop tiles what is left of its entry. -/
theorem registerEntry_tiles {p usedByPd : Word} (hp : p ∈ map.entries) (hbest : best ∈ map.entries)
    (husable : (map.entry best).usable) (hused : 4096 ∣ usedByPd.toNat)
    (hle : usedByPd.toNat ≤ (map.entry best).length.toNat) :
    (∀ z ∈ registerEntry map.toMemmapResponse toVirtual best usedByPd p, z.Sound) ∧
      Tiles ((registerEntry map.toMemmapResponse toVirtual best usedByPd p).map Zone.addrs)
        (map.freePart best usedByPd.toNat p) := by
  unfold registerEntry
  dsimp only
  split
  · rename_i hpu
    obtain ⟨hbase, hlength⟩ := map.aligned p hp hpu
    have hspace := map.inSpace p hp hpu.managed
    split
    · -- the entry that holds the array
      rename_i hpbest
      subst hpbest
      split
      · rename_i hfull
        have hfull' : (map.entry p).length.toNat ≤ usedByPd.toNat := hfull
        have hnone : map.freePart p usedByPd.toNat p = ∅ := by
          ext a
          simp only [LimineMap.freePart, MemmapEntry.addrs, MemmapEntry.front, Set.mem_Ico,
            Set.mem_ofPred_eq, Set.mem_empty_iff_false, iff_false]
          omega
        rw [hnone]
        exact ⟨nofun, tiles_empty⟩
      · have hrest : map.freePart p usedByPd.toNat p =
            Set.Ico ((map.entry p).base.toNat + usedByPd.toNat)
              ((map.entry p).base.toNat + (map.entry p).length.toNat) := by
          ext a
          simp only [LimineMap.freePart, MemmapEntry.addrs, MemmapEntry.front, Set.mem_Ico,
            Set.mem_ofPred_eq, hpu, true_and]
          omega
        have hbase' : ((map.entry p).base + usedByPd).toNat =
            (map.entry p).base.toNat + usedByPd.toNat := by
          rw [BitVec.toNat_add]
          exact Nat.mod_eq_of_lt (by omega)
        have hlength' : ((map.entry p).length - usedByPd).toNat =
            (map.entry p).length.toNat - usedByPd.toNat := by bv_omega
        have htiles := @registerRange_tiles toVirtual ((map.entry p).base + usedByPd)
          ((map.entry p).length - usedByPd)
          (by rw [hbase']; exact Nat.dvd_add hbase hused)
          (by rw [hlength']; exact Nat.dvd_sub hlength hused)
          (by rw [hbase', hlength']; omega)
        have hend : (map.entry p).base.toNat + usedByPd.toNat +
            ((map.entry p).length.toNat - usedByPd.toNat) =
              (map.entry p).base.toNat + (map.entry p).length.toNat := by omega
        rw [hbase', hlength', hend] at htiles
        rw [hrest]
        exact htiles
    · -- the array is in another entry
      rename_i hne
      have hall : map.freePart best usedByPd.toNat p = (map.entry p).addrs := by
        ext a
        constructor
        · exact fun ha => ha.2.1
        · intro ha
          refine ⟨hpu, ha, ?_⟩
          intro hfront
          apply Set.disjoint_left.mp (map.addrs_disjoint hp hbest hne hpu husable) ha
          exact Set.Ico_subset_Ico_right (Nat.add_le_add_left hle _) hfront
      rw [hall]
      exact registerRange_tiles hbase hlength (by omega)
  · rename_i hpu
    have hnone : map.freePart best usedByPd.toNat p = ∅ := by
      ext a
      exact iff_of_false (fun ha => hpu ha.1) (Set.notMem_empty a)
    rw [hnone]
    exact ⟨nofun, tiles_empty⟩

/-- The whole loop. -/
theorem zones_tile {usedByPd : Word} (hbest : best ∈ map.entries)
    (husable : (map.entry best).usable) (hused : 4096 ∣ usedByPd.toNat)
    (hle : usedByPd.toNat ≤ (map.entry best).length.toNat) :
    (∀ z ∈ map.entries.flatMap (registerEntry map.toMemmapResponse toVirtual best usedByPd),
      z.Sound) ∧
      Tiles ((map.entries.flatMap
          (registerEntry map.toMemmapResponse toVirtual best usedByPd)).map Zone.addrs)
        {a | ∃ p ∈ map.entries, a ∈ map.freePart best usedByPd.toNat p} := by
  constructor
  · intro z hz
    obtain ⟨p, hp, hzp⟩ := List.mem_flatMap.mp hz
    exact (registerEntry_tiles hp hbest husable hused hle).1 z hzp
  · rw [List.map_flatMap]
    apply tiles_flatMap
    · intro p hp
      exact (registerEntry_tiles hp hbest husable hused hle).2
    · -- entries do not overlap, so their free parts do not
      apply map.disjoint.imp
      intro p q hdisjoint
      rw [Set.disjoint_left]
      intro a hap haq
      exact Set.disjoint_left.mp (hdisjoint hap.1 haq.1) hap.2.1 haq.2.1

/-- Zones that tile what is left of the entries are exact. -/
theorem exactZones_of_tiles {b : Boot} {used : Nat} (hbest : best ∈ map.entries)
    (husable : (map.entry best).usable) (hle : used ≤ (map.entry best).length.toNat)
    (hmax : b.maxPhysAddr = maxPhysAddr map.toMemmapResponse)
    (htotal : b.totalPages = totalPages map.toMemmapResponse)
    (hpd : b.pdPages = (map.entry best).front used) (hsound : ∀ z ∈ b.zones, z.Sound)
    (htiles : Tiles (b.zones.map Zone.addrs)
      {a | ∃ p ∈ map.entries, a ∈ map.freePart best used p}) : ExactZones map b := by
  have hcover : ∀ a, (∃ z ∈ b.zones, a ∈ z.addrs) ↔
      ∃ p ∈ map.entries, a ∈ map.freePart best used p := by
    intro a
    constructor
    · rintro ⟨z, hz, ha⟩
      exact (htiles.mem_iff a).mpr ⟨z.addrs, List.mem_map_of_mem hz, ha⟩
    · intro ha
      obtain ⟨c, hc, hac⟩ := (htiles.mem_iff a).mp ha
      obtain ⟨z, hz, rfl⟩ := List.mem_map.mp hc
      exact ⟨z, hz, hac⟩
  constructor
  case aligned => exact fun z hz => (hsound z hz).aligned
  case nonempty => exact fun z hz => (hsound z hz).nonempty
  case small => exact fun z hz => (hsound z hz).small
  case disjoint => exact List.pairwise_map.mp htiles.disjoint
  case apart =>
    intro z hz
    rw [hpd, Set.disjoint_left]
    intro a ha
    obtain ⟨p, hp, hfree⟩ := (hcover a).mp ⟨z, hz, ha⟩
    exact hfree.2.2
  case stored =>
    rw [hpd]
    intro a ha
    exact ⟨best, hbest, husable, Set.Ico_subset_Ico_right (Nat.add_le_add_left hle _) ha⟩
  case described =>
    intro z hz a ha
    obtain ⟨p, hp, hpu, hin, -⟩ := (hcover a).mp ⟨z, hz, ha⟩
    -- `total_pages` counts up to the end of the last usable entry
    have hend := map.end_le hp hpu
    have hlt : a < (map.entry p).base.toNat + (map.entry p).length.toNat := hin.2
    rw [hmax, htotal, map.totalPages_toNat]
    omega
  case cover =>
    intro a
    rw [hcover, hpd]
    constructor
    · rintro ⟨p, hp, hpu, hin, hout⟩
      exact ⟨⟨p, hp, hpu, hin⟩, hout⟩
    · rintro ⟨⟨p, hp, hpu, hin⟩, hout⟩
      exact ⟨p, hp, hpu, hin, hout⟩

end

/-- Boot hands over exactly the free memory: if the array fits into a usable entry,
`Initialize` gets to its end and the zones are the usable memory less the array. -/
theorem zones_exact (map : LimineMap) (toVirtual storageSize : Word → Word)
    (hfits : ∃ p ∈ map.entries,
      Holds map.toMemmapResponse (storageSize (totalPages map.toMemmapResponse)) p) :
    ∃ b, memoryManagerInitialize false (some map.toMemmapResponse) (some toVirtual) storageSize =
        .ok b ∧ ExactZones map b := by
  obtain ⟨p, hp, hholds⟩ := hfits
  obtain ⟨best, hbest⟩ := bestEntry_finds hp hholds
  obtain ⟨hmem, husable, hlen⟩ := bestEntry_spec hbest
  unfold memoryManagerInitialize
  dsimp only
  rw [if_neg Bool.false_ne_true, hbest]
  dsimp only
  refine ⟨_, rfl, ?_⟩
  generalize storageSize (totalPages map.toMemmapResponse) = pdArraySize at *
  -- the array and the rest of its last page fit into the entry
  obtain ⟨hbase, hlength⟩ := map.aligned best hmem husable
  have hspace := map.inSpace best hmem husable.managed
  have hlen' : pdArraySize.toNat ≤ (map.entry best).length.toNat := hlen
  have hused := @usedByPd_toNat pdArraySize (by omega)
  obtain ⟨hsound, htiles⟩ := @zones_tile map toVirtual best
    ((pdArraySize + kPageSize - 1) &&& ~~~(kPageSize - 1)) hmem husable
    (by rw [hused]; exact Nat.dvd_mul_left _ _) (by rw [hused]; omega)
  rw [hused] at htiles
  have hle : (pdArraySize.toNat + 4095) / 4096 * 4096 ≤ (map.entry best).length.toNat := by omega
  exact exactZones_of_tiles hmem husable hle rfl rfl (pdPages_eq hbase) hsound htiles

/-- Low memory, a reclaimable range, and 6 GiB from 1 MiB on. -/
def bootMap : LimineMap where
  entries := [1, 2, 3]
  entry p :=
    if p = 1 then ⟨0x1000, 0x9E000, LIMINE_MEMMAP_USABLE⟩
    else if p = 2 then ⟨0x9F000, 0x1000, LIMINE_MEMMAP_BOOTLOADER_RECLAIMABLE⟩
    else ⟨0x100000, 0x180000000, LIMINE_MEMMAP_USABLE⟩
  aligned := by simp [MemmapEntry.usable, LIMINE_MEMMAP_USABLE]
  disjoint := by
    simp [MemmapEntry.usable, MemmapEntry.addrs, LIMINE_MEMMAP_USABLE,
      LIMINE_MEMMAP_BOOTLOADER_RECLAIMABLE]
  inSpace := by simp [MemmapEntry.managed, LIMINE_MEMMAP_USABLE]

/-- With descriptors of 64 bytes, the array lies in the last of the entries. -/
theorem bootMap_exact :
    ∃ b, memoryManagerInitialize false (some bootMap.toMemmapResponse)
        (some fun a => a + 0xFFFF800000000000) (fun pages => 64 * pages) =
        .ok b ∧ ExactZones bootMap b := by
  apply zones_exact
  exact ⟨3, by decide, by decide, by decide⟩

end Ceryx.Mm
