import Ceryx.Proc.UserKernel

/-!
# Ceryx.Proc.Brk — the heap and the pages mapped for it

`sys_brk` of `SyscallDispatch.cpp` keeps `m_heap_end` and maps or unmaps the
pages between the old end and the new one. Both ends are rounded up to a page
modulo 2^64.

* `Vmm`: the two functions of the inner `AddressSpace` that `sys_brk` calls, and
  the pages that are mapped on behalf of the heap. `Vmm.Lawful` is what is
  assumed of them.
* `BrkOk`: the heap starts where it started, does not end before that, its
  pages are those up to its end, and the last call returned the new end.
* `brkOk_iff_rounds`: all calls of a run leave the heap so if and only if each
  asks for an end that can be rounded up in 64 bits, or for one before the
  start.
* `last_page_not_mapped`: a call with 2^64 - 1.
-/

namespace Ceryx.Proc

open Lib ElfLoader Fs.RamFs

/-- The inner `AddressSpace` of a process, as `sys_brk` uses it. `heapPages`: the
numbers of the pages that are mapped on behalf of the heap. -/
structure Vmm (S : Type) where
  heapPages : S → Nat → Prop
  mapAnonymous : S → Nat → Nat → Option S
  unmap : S → Nat → Nat → Option S

/-- The pages of a range. -/
def InRange (addr len page : Nat) : Prop := addr ≤ page * 0x1000 ∧ page * 0x1000 < addr + len

instance (addr len page : Nat) : Decidable (InRange addr len page) :=
  inferInstanceAs (Decidable (_ ∧ _))

/-- `MapAnonymous`, with `Fixed`, of a range of user space that is free maps just
this range or fails, outside user space it fails; `Unmap` of pages that are
mapped unmaps just these. -/
structure Vmm.Lawful {S : Type} (vmm : Vmm S) (userBase userTop : Nat) : Prop where
  map : ∀ s s' addr len, addr % 0x1000 = 0 → len % 0x1000 = 0 → 0 < len → userBase ≤ addr →
    addr + len ≤ userTop → (∀ page, InRange addr len page → ¬ vmm.heapPages s page) →
    vmm.mapAnonymous s addr len = some s' →
    ∀ page, vmm.heapPages s' page ↔ vmm.heapPages s page ∨ InRange addr len page
  outside : ∀ s addr len, ¬ (userBase ≤ addr ∧ addr + len ≤ userTop) →
    vmm.mapAnonymous s addr len = none
  unmap : ∀ s addr len, addr % 0x1000 = 0 → len % 0x1000 = 0 →
    (∀ page, InRange addr len page → vmm.heapPages s page) →
    ∃ s', vmm.unmap s addr len = some s' ∧
      ∀ page, vmm.heapPages s' page ↔ vmm.heapPages s page ∧ ¬ InRange addr len page

/-- `(x + 0xFFF) & ~0xFFF`. -/
def pageUp (x : Nat) : Nat := pageAligned (usizeAdd x 0xFFF)

/-- `Process::SetHeap`. -/
def ProcessImage.setHeap (im : ProcessImage) (start stop : Nat) : ProcessImage :=
  { im with heapStart := start, heapEnd := stop }

/-- `sys_brk` of a process. -/
def sysBrk {S : Type} (vmm : Vmm S) (im : ProcessImage) (space : S) (newBrk : Nat) :
    Nat × ProcessImage × S :=
  let currentBrk := im.heapEnd
  let heapStart := im.heapStart
  if newBrk = 0 ∨ newBrk < heapStart then (currentBrk, im, space)
  else if currentBrk < newBrk then
    let alignedCurrent := pageUp currentBrk
    let alignedNew := pageUp newBrk
    if alignedCurrent < alignedNew then
      match vmm.mapAnonymous space alignedCurrent (alignedNew - alignedCurrent) with
      | none => (currentBrk, im, space)
      | some space => (newBrk, im.setHeap heapStart newBrk, space)
    else (newBrk, im.setHeap heapStart newBrk, space)
  else if newBrk < currentBrk then
    let alignedCurrent := pageUp currentBrk
    let alignedNew := pageUp newBrk
    if alignedNew < alignedCurrent then
      -- the result of `Unmap` is not looked at
      (newBrk, im.setHeap heapStart newBrk,
        (vmm.unmap space alignedNew (alignedCurrent - alignedNew)).getD space)
    else (newBrk, im.setHeap heapStart newBrk, space)
  else (newBrk, im.setHeap heapStart newBrk, space)

/-! ## Runs -/

/-- What the last call was: the argument, the heap end before it and the
result. -/
structure BrkCall where
  requested : Nat
  previous : Nat
  returned : Nat
deriving DecidableEq, Repr

/-- A process and its address space; `last` is read by no function. -/
structure BrkState (S : Type) where
  image : ProcessImage
  space : S
  last : Option BrkCall := none

/-- After a call with this result. -/
def BrkState.after {S : Type} (b : BrkState S) (newBrk : Nat) (result : Nat × ProcessImage × S) :
    BrkState S where
  image := result.2.1
  space := result.2.2
  last := some { requested := newBrk, previous := b.image.heapEnd, returned := result.1 }

def brkStep {S : Type} (vmm : Vmm S) (b : BrkState S) (newBrk : BitVec 64) : Option (BrkState S) :=
  some (b.after newBrk.toNat (sysBrk vmm b.image b.space newBrk.toNat))

/-- The end of the heap, rounded up to a page. -/
def roundedEnd (im : ProcessImage) : Nat := (im.heapEnd + 0xFFF) / 0x1000 * 0x1000

/-- The heap and its mapping are in step, and the last call returned the end. -/
structure BrkOk {S : Type} (vmm : Vmm S) (base : Nat) (b : BrkState S) : Prop where
  start : b.image.heapStart = base
  ordered : base ≤ b.image.heapEnd
  pages : ∀ page, vmm.heapPages b.space page ↔
    base ≤ page * 0x1000 ∧ page * 0x1000 < roundedEnd b.image
  returned : ∀ call, b.last = some call → call.returned = b.image.heapEnd ∧
    (call.returned = call.requested ∨ call.returned = call.previous)

/-- A process whose heap is empty. -/
structure EmptyHeap {S : Type} (vmm : Vmm S) (base : Nat) (b : BrkState S) : Prop where
  start : b.image.heapStart = base
  stop : b.image.heapEnd = base
  pages : ∀ page, ¬ vmm.heapPages b.space page
  last : b.last = none

/-- The law of `sys_brk`. -/
def BrkLaw : Prop :=
  ∀ (S : Type) (vmm : Vmm S) (userBase userTop : Nat), vmm.Lawful userBase userTop →
    ∀ (base : Nat) (b : BrkState S), base < 2 ^ 64 → base % 0x1000 = 0 →
      EmptyHeap vmm base b → ∀ calls, Always (brkStep vmm) (BrkOk vmm base) b calls

/-- The end that is asked for lies before the start, or it can be rounded up in
64 bits. -/
def Rounds {S : Type} (b : BrkState S) (newBrk : BitVec 64) : Prop :=
  newBrk.toNat < b.image.heapStart ∨ newBrk.toNat + 0xFFF < 2 ^ 64

instance {S : Type} (b : BrkState S) (newBrk : BitVec 64) : Decidable (Rounds b newBrk) :=
  inferInstanceAs (Decidable (_ ∨ _))

variable {S : Type} {vmm : Vmm S} {userBase userTop : Nat}

/-! ## Rounding -/

theorem pageUp_eq {x : Nat} (h : x + 0xFFF < 2 ^ 64) : pageUp x = (x + 0xFFF) / 0x1000 * 0x1000 := by
  unfold pageUp pageAligned usizeAdd
  omega

/-- The last 4095 values are rounded to 0. -/
theorem pageUp_wraps {x : Nat} (hx : x < 2 ^ 64) (h : 2 ^ 64 ≤ x + 0xFFF) : pageUp x = 0 := by
  unfold pageUp pageAligned usizeAdd
  omega

/-! ## One call -/

/-- How a call ends: it is refused, or the heap gets the new end and the pages
change as the branches say. -/
inductive BrkCase (vmm : Vmm S) (im : ProcessImage) (space : S) (newBrk : Nat) :
    Nat × ProcessImage × S → Prop
  | refused : BrkCase vmm im space newBrk (im.heapEnd, im, space)
  | mapped (space' : S) (hstart : im.heapStart ≤ newBrk) (hgrows : im.heapEnd < newBrk)
      (hpages : pageUp im.heapEnd < pageUp newBrk)
      (hmap : vmm.mapAnonymous space (pageUp im.heapEnd) (pageUp newBrk - pageUp im.heapEnd) =
        some space') :
      BrkCase vmm im space newBrk (newBrk, im.setHeap im.heapStart newBrk, space')
  | unmapped (hstart : im.heapStart ≤ newBrk) (hshrinks : newBrk < im.heapEnd)
      (hpages : pageUp newBrk < pageUp im.heapEnd) :
      BrkCase vmm im space newBrk (newBrk, im.setHeap im.heapStart newBrk,
        (vmm.unmap space (pageUp newBrk) (pageUp im.heapEnd - pageUp newBrk)).getD space)
  | kept (hstart : im.heapStart ≤ newBrk)
      (hgrows : im.heapEnd < newBrk → pageUp newBrk ≤ pageUp im.heapEnd)
      (hshrinks : newBrk < im.heapEnd → pageUp im.heapEnd ≤ pageUp newBrk) :
      BrkCase vmm im space newBrk (newBrk, im.setHeap im.heapStart newBrk, space)

theorem sysBrk_cases (vmm : Vmm S) (im : ProcessImage) (space : S) (newBrk : Nat) :
    BrkCase vmm im space newBrk (sysBrk vmm im space newBrk) := by
  unfold sysBrk
  dsimp only
  split
  · -- below the start of the heap, or wrapping round
    exact .refused
  · rename_i hstart
    rw [not_or, Nat.not_lt] at hstart
    split
    · -- the break goes up
      rename_i hgrows
      split
      · rename_i hpages
        split
        · exact .refused
        · rename_i space' hmap
          exact .mapped space' hstart.2 hgrows hpages hmap
      · rename_i hpages
        refine .kept hstart.2 (fun _ => Nat.not_lt.mp hpages) ?_
        omega
    · split
      · -- it goes down
        rename_i hshrinks
        split
        · rename_i hpages
          exact .unmapped hstart.2 hshrinks hpages
        · rename_i hpages
          refine .kept hstart.2 ?_ fun _ => Nat.not_lt.mp hpages
          omega
      · refine .kept hstart.2 ?_ ?_ <;> omega

/-- An end that wraps is taken without a page for it. -/
theorem sysBrk_wraps {im : ProcessImage} (space : S) {newBrk : Nat} (hlt : newBrk < 2 ^ 64)
    (hstart : im.heapStart ≤ newBrk) (hgrows : im.heapEnd < newBrk)
    (hwraps : 2 ^ 64 ≤ newBrk + 0xFFF) :
    sysBrk vmm im space newBrk = (newBrk, im.setHeap im.heapStart newBrk, space) := by
  unfold sysBrk
  dsimp only
  rw [if_neg (by omega), if_pos hgrows, pageUp_wraps hlt hwraps, if_neg (Nat.not_lt_zero _)]

/-- The heap is in step and its end can be rounded up. -/
structure BrkInv (vmm : Vmm S) (base : Nat) (b : BrkState S) : Prop extends BrkOk vmm base b where
  aligned : base % 0x1000 = 0
  bound : b.image.heapEnd + 0xFFF < 2 ^ 64

theorem EmptyHeap.inv {base : Nat} (hbase : base < 2 ^ 64) (haligned : base % 0x1000 = 0)
    {b : BrkState S} (h : EmptyHeap vmm base b) : BrkInv vmm base b where
  start := h.start
  ordered := Nat.le_of_eq h.stop.symm
  pages page := by
    refine iff_of_false (h.pages page) ?_
    unfold roundedEnd
    rw [h.stop]
    omega
  returned call hcall := by
    rw [h.last] at hcall
    cases hcall
  aligned := haligned
  bound := by
    rw [h.stop]
    omega

/-- A call whose end can be rounded up. -/
theorem BrkInv.step (hlaw : vmm.Lawful userBase userTop) {base : Nat} {b b' : BrkState S}
    (h : BrkInv vmm base b) {newBrk : BitVec 64} (hok : Rounds b newBrk)
    (hstep : brkStep vmm b newBrk = some b') : BrkInv vmm base b' := by
  obtain ⟨⟨hstart, hordered, hpages, -⟩, haligned, hbound⟩ := h
  have hcurrent := pageUp_eq hbound
  unfold Rounds at hok
  unfold brkStep at hstep
  generalize newBrk.toNat = n at hok hstep
  have hcases := sysBrk_cases vmm b.image b.space n
  generalize sysBrk vmm b.image b.space n = result at hcases hstep
  obtain rfl := Option.some.inj hstep
  unfold roundedEnd at hpages
  cases hcases with
  | refused =>
      refine ⟨⟨hstart, hordered, hpages, ?_⟩, haligned, hbound⟩
      rintro call ⟨⟩
      exact ⟨rfl, Or.inr rfl⟩
  | mapped space' hle hgrows hmore hmap =>
      have hn : n + 0xFFF < 2 ^ 64 := hok.resolve_left (Nat.not_lt.mpr hle)
      have hnew := pageUp_eq hn
      rw [hcurrent, hnew] at hmap hmore
      -- what was mapped lies in user space
      have huser : userBase ≤ (b.image.heapEnd + 0xFFF) / 0x1000 * 0x1000 ∧
          (b.image.heapEnd + 0xFFF) / 0x1000 * 0x1000 + ((n + 0xFFF) / 0x1000 * 0x1000 -
            (b.image.heapEnd + 0xFFF) / 0x1000 * 0x1000) ≤ userTop := by
        by_contra hout
        rw [hlaw.outside _ _ _ hout] at hmap
        cases hmap
      have hexact := hlaw.map b.space space' _ _ (by omega) (by omega) (by omega) huser.1 huser.2
        (fun page hin hmapped => by
          have hold := (hpages page).mp hmapped
          unfold InRange at hin
          omega) hmap
      refine ⟨⟨hstart, ?_, ?_, ?_⟩, haligned, hn⟩
      · exact Nat.le_trans hordered (Nat.le_of_lt hgrows)
      · intro page
        change vmm.heapPages space' page ↔ base ≤ page * 0x1000 ∧
          page * 0x1000 < (n + 0xFFF) / 0x1000 * 0x1000
        rw [hexact page, hpages page]
        unfold InRange
        omega
      · rintro call ⟨⟩
        exact ⟨rfl, Or.inl rfl⟩
  | unmapped hle hshrinks hless =>
      have hn : n + 0xFFF < 2 ^ 64 := hok.resolve_left (Nat.not_lt.mpr hle)
      have hnew := pageUp_eq hn
      rw [hstart] at hle
      rw [hcurrent, hnew] at hless ⊢
      rcases hlaw.unmap b.space ((n + 0xFFF) / 0x1000 * 0x1000)
        ((b.image.heapEnd + 0xFFF) / 0x1000 * 0x1000 - (n + 0xFFF) / 0x1000 * 0x1000) (by omega)
        (by omega) (fun page hin => by
          rw [hpages page]
          unfold InRange at hin
          omega) with ⟨space', hunmap, hexact⟩
      rw [hunmap]
      refine ⟨⟨hstart, hle, ?_, ?_⟩, haligned, hn⟩
      · intro page
        change vmm.heapPages space' page ↔ base ≤ page * 0x1000 ∧
          page * 0x1000 < (n + 0xFFF) / 0x1000 * 0x1000
        rw [hexact page, hpages page]
        unfold InRange
        omega
      · rintro call ⟨⟩
        exact ⟨rfl, Or.inl rfl⟩
  | kept hle hgrows hshrinks =>
      have hn : n + 0xFFF < 2 ^ 64 := hok.resolve_left (Nat.not_lt.mpr hle)
      have hnew := pageUp_eq hn
      rw [hcurrent, hnew] at hgrows hshrinks
      rw [hstart] at hle
      refine ⟨⟨hstart, hle, ?_, ?_⟩, haligned, hn⟩
      · intro page
        change vmm.heapPages b.space page ↔ base ≤ page * 0x1000 ∧
          page * 0x1000 < (n + 0xFFF) / 0x1000 * 0x1000
        rw [hpages page]
        -- both ends are in the same page
        omega
      · rintro call ⟨⟩
        exact ⟨rfl, Or.inl rfl⟩

/-- A call whose end cannot be rounded up leaves the last page below 2^64
unmapped. -/
theorem BrkInv.breaks {base : Nat} {b b' : BrkState S} (h : BrkInv vmm base b)
    {newBrk : BitVec 64} (hmiss : ¬ Rounds b newBrk) (hstep : brkStep vmm b newBrk = some b') :
    ¬ BrkOk vmm base b' := by
  obtain rfl := Option.some.inj hstep
  obtain ⟨⟨hstart, hordered, hpages, -⟩, haligned, hbound⟩ := h
  unfold Rounds at hmiss
  rw [not_or, Nat.not_lt, Nat.not_lt] at hmiss
  have hlt : newBrk.toNat < 2 ^ 64 := newBrk.isLt
  intro hnew
  have hpage := hnew.pages (2 ^ 52 - 1)
  rw [sysBrk_wraps b.space hlt hmiss.1 (by omega) hmiss.2] at hpage
  unfold BrkState.after roundedEnd ProcessImage.setHeap at hpage
  dsimp only at hpage
  rw [hpages] at hpage
  unfold roundedEnd at hpage
  omega

/-- All calls of a run keep the heap and its mapping in step if and only if each
of them asks for an end that can be rounded up in 64 bits, or for one before the
start. -/
theorem brkOk_iff_rounds (hlaw : vmm.Lawful userBase userTop) {base : Nat} (hbase : base < 2 ^ 64)
    (haligned : base % 0x1000 = 0) {b : BrkState S} (hempty : EmptyHeap vmm base b)
    (calls : List (BitVec 64)) :
    Always (brkStep vmm) (BrkOk vmm base) b calls ↔ StepsMeet (brkStep vmm) Rounds b calls := by
  refine always_iff_stepsMeet_of (I := BrkInv vmm base) (L := fun _ => True)
    (fun _ h => h.toBrkOk) ?_ ?_ calls (fun _ _ => trivial) (hempty.inv hbase haligned)
  · intro b newBrk b' _ h hok hstep
    exact h.step hlaw hok hstep
  · intro b newBrk b' _ h hmiss hstep
    exact h.breaks hmiss hstep

/-! ## The end of the address space -/

/-- Pages as a set of numbers; all of user space is free. -/
def pageSet (userBase userTop : Nat) : Vmm (Nat → Bool) where
  heapPages s page := s page = true
  mapAnonymous s addr len :=
    if userBase ≤ addr ∧ addr + len ≤ userTop then
      some fun page => s page || decide (InRange addr len page)
    else none
  unmap s addr len := some fun page => s page && !decide (InRange addr len page)

theorem pageSet_lawful (userBase userTop : Nat) :
    (pageSet userBase userTop).Lawful userBase userTop where
  map s s' addr len _ _ _ hbase htop _ hmap page := by
    unfold pageSet at hmap
    dsimp only at hmap
    rw [if_pos ⟨hbase, htop⟩] at hmap
    cases hmap
    simp [pageSet]
  outside s addr len hout := if_neg hout
  unmap s addr len _ _ _ := by
    refine ⟨_, rfl, ?_⟩
    intro page
    simp [pageSet]

/-- A process with an empty heap at 4 MiB. -/
def atFourMiB : BrkState (Nat → Bool) where
  image := { heapStart := 0x400000, heapEnd := 0x400000, addressSpace := 0, root := 0, cwd := 0 }
  space := fun _ => false

theorem atFourMiB_empty (userBase userTop : Nat) :
    EmptyHeap (pageSet userBase userTop) 0x400000 atFourMiB where
  start := rfl
  stop := rfl
  pages _ h := by cases h
  last := rfl

/-- `brk(2^64 - 1)` is granted and maps nothing. -/
theorem last_page_not_mapped : ¬ BrkLaw := by
  intro hlaw
  have halways := hlaw _ (pageSet 0x1000 0x7FFFFFFFF000) 0x1000 0x7FFFFFFFF000
    (pageSet_lawful _ _) 0x400000 atFourMiB (by decide) (by decide) (atFourMiB_empty _ _)
    [0xFFFFFFFFFFFFFFFF]
  have hok := (halways.2 _ rfl).head
  have hmapped := (hok.pages 0x400).mpr (by decide +kernel)
  cases hmapped

/-- Two growing calls, and one that shrinks the heap. -/
theorem grow_and_shrink_in_step : Always (brkStep (pageSet 0x1000 0x7FFFFFFFF000))
    (BrkOk (pageSet 0x1000 0x7FFFFFFFF000) 0x400000) atFourMiB [0x401000, 0x402800, 0x400001] := by
  have hrounds : StepsMeet (brkStep (pageSet 0x1000 0x7FFFFFFFF000)) Rounds atFourMiB
      [0x401000, 0x402800, 0x400001] := by decide +kernel
  exact (brkOk_iff_rounds (pageSet_lawful _ _) (by decide) (by decide) (atFourMiB_empty _ _) _).mpr
    hrounds

end Ceryx.Proc
