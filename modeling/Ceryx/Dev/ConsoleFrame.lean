import Ceryx.Dev.Screen

/-!
# Ceryx.Dev.ConsoleFrame — the memory around the framebuffer

Which bytes the console stores to. `putpixel` checks the point, and the `MemoryMove` of
the scroll has a count that fits when the framebuffer does. The scroll moves whole lines,
with the bytes behind their last pixel, so that the region is `pitch` times `height` bytes.

* `Draws.run_outside`: a run of calls leaves what is outside of the framebuffer.
* `run_none`: without a framebuffer it leaves all of the memory.
* `run_before`: before the initialization only the mode changes.
* `console_inside`: all of them, for the calls before the initialization and after it.
-/

namespace Ceryx.Dev

open Lib

section
variable {fb : Framebuffer} {h : fb.Fits} {data : Nat → UInt8} {s : LinearFb} {t : Screen}
  {a : Word}

/-- A pixel that is off the screen is not drawn; one on it lies in the region. -/
theorem putpixel_outside (ha : a ∉ (fb.raster h).region) (x y color : Nat) (mem : ByteMem) :
    putpixel (some fb) x y color mem a = mem a := by
  rw [Framebuffer.putpixel_eq h]
  exact Raster.plot_outside mem (Framebuffer.colorBytes_length h color) ha

theorem wipe_outside (ha : a ∉ (fb.raster h).region) (y₀ color : Nat) (mem : ByteMem) :
    fb.wipe y₀ color mem a = mem a := by
  unfold Framebuffer.wipe
  apply forRange_keeps (P := fun m : ByteMem => m a = mem a) _ rfl
  intro y m hm
  apply forRange_keeps (P := fun m : ByteMem => m a = mem a) _ hm
  intro x m hm
  exact (putpixel_outside ha x y color m).trans hm

/-- A glyph is 128 pixels. -/
theorem drawGlyph_outside (hfb : s.fb = some fb) (ha : a ∉ (fb.raster h).region)
    (data : Nat → UInt8) (ch px py : Nat) :
    s.drawGlyph data ch px py a = s.mem a := by
  unfold LinearFb.drawGlyph
  rw [hfb]
  apply forRange_keeps (P := fun m : ByteMem => m a = s.mem a)
  · -- the glyph, bit by bit
    intro row m hm
    apply forRange_keeps (P := fun m : ByteMem => m a = s.mem a) _ hm
    intro col m hm
    by_cases hbit : (data (u32 (ch * s.fontGlyphH) + row)).toNat &&& (1 <<< (7 - col)) ≠ 0
    · rw [if_pos hbit]
      exact (putpixel_outside ha _ _ _ m).trans hm
    · rw [if_neg hbit]
      exact hm
  · -- a character that the font does not have: a filled box
    apply forRange_keeps (P := fun m : ByteMem => m a = s.mem a) _ rfl
    intro row m hm
    apply forRange_keeps (P := fun m : ByteMem => m a = s.mem a) _ hm
    intro col m hm
    exact (putpixel_outside ha _ _ _ m).trans hm

/-- The scroll stays between the first line and the last. -/
theorem Draws.scroll_outside (hd : Draws fb h data s t) (ha : a ∉ (fb.raster h).region) :
    s.consoleScroll.mem a = s.mem a := by
  rcases Framebuffer.rows_bounds (h := h) with ⟨hpos, hfits, _⟩
  rw [hd.scroll_mem, wipe_outside ha]
  exact Raster.shiftUp_outside_region s.mem (show 16 * (fb.rows - 1) + 16 ≤ fb.height by omega) ha

/-- The next row may scroll: `MemoryMove` stays in the region, and so does the last
row's wipe. -/
theorem Draws.nextRow_outside (hd : Draws fb h data s t) (ha : a ∉ (fb.raster h).region) :
    ({ s with consoleCol := 0 } : LinearFb).nextRow.mem a = s.mem a := by
  have hcol := Nat.zero_lt_of_lt hd.col_lt
  have hd' : Draws fb h data { s with consoleCol := 0 } { t with col := 0 } :=
    { hd with col := rfl, col_lt := hcol }
  unfold LinearFb.nextRow
  dsimp only
  by_cases hlast : s.consoleRows ≤ u32 (s.consoleRow + 1)
  · rw [if_pos hlast, hd.scroll_cursor 0 _ s.consoleRow]
    exact hd'.scroll_outside ha
  · rw [if_neg hlast]

/-- A character is a glyph, or moves the cursor. -/
theorem Draws.putc_outside (hd : Draws fb h data s t) (ha : a ∉ (fb.raster h).region) (c : UInt8) :
    (s.consolePutc c).mem a = s.mem a := by
  unfold LinearFb.consolePutc
  rw [hd.font]
  cases s.fbMode with
  | graphics => rfl
  | console =>
      -- newline, carriage return and backspace draw nothing, unless they scroll
      show (s.putcWith data c).mem a = s.mem a
      unfold LinearFb.putcWith
      by_cases hnl : c = 10
      · rw [if_pos hnl]
        exact hd.nextRow_outside ha
      rw [if_neg hnl]
      by_cases hcr : c = 13
      · rw [if_pos hcr]
      rw [if_neg hcr]
      by_cases hbs : c = 8
      · rw [if_pos hbs, apply_ite LinearFb.mem, ite_self]
      rw [if_neg hbs]
      -- a glyph, and perhaps a new row
      rcases hd.cursor with ⟨hpx, hpy, hnext⟩
      rw [hd.glyph, hpx, hpy, hnext]
      dsimp only
      have hdrawn := drawGlyph_outside hd.framebuffer ha data c.toNat (t.col * 8) (t.row * 16)
      by_cases hlast : s.consoleCols ≤ s.consoleCol + 1
      · rw [if_pos hlast]
        have hrow := (draws_glyph hd c).nextRow_outside ha
        exact hrow.trans hdrawn
      · rw [if_neg hlast]
        exact hdrawn

/-- A text is its characters. -/
theorem Draws.puts_outside (hd : Draws fb h data s t) (ha : a ∉ (fb.raster h).region)
    (text : List UInt8) : (s.consolePuts text).mem a = s.mem a := by
  induction text generalizing s t with
  | nil => rfl
  | cons c cs ih =>
      unfold LinearFb.consolePuts
      by_cases hnul : c = 0
      · rw [if_pos hnul]
      · rw [if_neg hnul, ih (draws_putc hd c)]
        exact hd.putc_outside ha c

theorem setCursor_mem (s : LinearFb) (col row : Nat) :
    (s.consoleSetCursor col row).mem = s.mem ∧ (s.consoleSetCursor col row).fb = s.fb := by
  unfold LinearFb.consoleSetCursor
  dsimp only
  split
  · split <;> exact ⟨rfl, rfl⟩
  · split <;> exact ⟨rfl, rfl⟩

/-- Each console call is one of these. -/
theorem Draws.step_outside (hd : Draws fb h data s t) (ha : a ∉ (fb.raster h).region)
    (call : LinearFb.Call) : (s.step call).mem a = s.mem a := by
  cases call with
  | putc c => exact hd.putc_outside ha c
  | puts text => exact hd.puts_outside ha text
  | clear color =>
      show (s.consoleClear color).mem a = s.mem a
      unfold LinearFb.consoleClear
      split
      · rfl
      · rename_i fb' hsome
        rw [hd.framebuffer] at hsome
        cases hsome
        exact wipe_outside ha 0 color s.mem
  | setCursor col row =>
      exact congrFun (setCursor_mem s col row).1 a
  | setMode mode => rfl

/-- And a run is its calls, by induction. -/
theorem Draws.run_outside (hd : Draws fb h data s t) (ha : a ∉ (fb.raster h).region)
    (calls : List LinearFb.Call) : (s.run calls).mem a = s.mem a := by
  induction calls generalizing s t with
  | nil => rfl
  | cons call calls ih =>
      have hrest := ih (draws_step hd call)
      exact hrest.trans (hd.step_outside ha call)

/-! ## Without a framebuffer -/

/-- There is nothing to scroll, -/
theorem consoleScroll_none (hnone : s.fb = none) : s.consoleScroll = s := by
  unfold LinearFb.consoleScroll
  rw [hnone]

/-- so a new row moves the cursor only. -/
theorem nextRow_none (hnone : s.fb = none) : s.nextRow.fb = none ∧ s.nextRow.mem = s.mem := by
  unfold LinearFb.nextRow
  dsimp only
  split
  · rw [@consoleScroll_none { s with consoleRow := u32 (s.consoleRow + 1) } hnone]
    exact ⟨hnone, rfl⟩
  · exact ⟨hnone, rfl⟩

/-- A glyph is drawn nowhere: both its pixels and the box in its place. -/
theorem drawGlyph_none (hnone : s.fb = none) (data : Nat → UInt8) (ch px py : Nat) :
    s.drawGlyph data ch px py = s.mem := by
  have hpixel : ∀ x y color (mem : ByteMem), putpixel s.fb x y color mem = mem := by
    intro x y color mem
    rw [hnone]
    rfl
  unfold LinearFb.drawGlyph
  apply forRange_keeps (P := fun m : ByteMem => m = s.mem)
  · intro row m hm
    apply forRange_keeps (P := fun m : ByteMem => m = s.mem) _ hm
    intro col m hm
    rw [hpixel, ite_self]
    exact hm
  · apply forRange_keeps (P := fun m : ByteMem => m = s.mem) _ rfl
    intro row m hm
    apply forRange_keeps (P := fun m : ByteMem => m = s.mem) _ hm
    intro col m hm
    rw [hpixel]
    exact hm

/-- There is nothing to store to. -/
theorem putcWith_none (hnone : s.fb = none) (c : UInt8) :
    (s.putcWith data c).fb = none ∧ (s.putcWith data c).mem = s.mem := by
  unfold LinearFb.putcWith
  split
  · exact @nextRow_none { s with consoleCol := 0 } hnone
  split
  · exact ⟨hnone, rfl⟩
  split
  · split
    · exact ⟨hnone, rfl⟩
    · exact ⟨hnone, rfl⟩
  dsimp only
  rw [drawGlyph_none hnone]
  split
  · exact @nextRow_none { s with consoleCol := 0 } hnone
  · exact ⟨hnone, rfl⟩

/-- Before `linearfb_console_init` there is no framebuffer to draw on. -/
theorem putc_none (hnone : s.fb = none) (c : UInt8) :
    (s.consolePutc c).fb = none ∧ (s.consolePutc c).mem = s.mem := by
  unfold LinearFb.consolePutc
  split
  · exact putcWith_none hnone c
  · exact ⟨hnone, rfl⟩

theorem puts_none (hnone : s.fb = none) (text : List UInt8) :
    (s.consolePuts text).fb = none ∧ (s.consolePuts text).mem = s.mem := by
  induction text generalizing s with
  | nil => exact ⟨hnone, rfl⟩
  | cons c cs ih =>
      unfold LinearFb.consolePuts
      by_cases hnul : c = 0
      · rw [if_pos hnul]
        exact ⟨hnone, rfl⟩
      · rw [if_neg hnul]
        rcases putc_none hnone c with ⟨hfb, hmem⟩
        rcases ih hfb with ⟨hfb', hmem'⟩
        exact ⟨hfb', hmem'.trans hmem⟩

theorem step_none (hnone : s.fb = none) (call : LinearFb.Call) :
    (s.step call).fb = none ∧ (s.step call).mem = s.mem := by
  cases call with
  | putc c => exact putc_none hnone c
  | puts text => exact puts_none hnone text
  | clear color =>
      show (s.consoleClear color).fb = none ∧ (s.consoleClear color).mem = s.mem
      have hsame : s.consoleClear color = s := by
        unfold LinearFb.consoleClear
        rw [hnone]
      rw [hsame]
      exact ⟨hnone, rfl⟩
  | setCursor col row =>
      rcases setCursor_mem s col row with ⟨hmem, hfb⟩
      exact ⟨hfb.trans hnone, hmem⟩
  | setMode mode => exact ⟨hnone, rfl⟩

theorem run_none (hnone : s.fb = none) (calls : List LinearFb.Call) :
    (s.run calls).mem = s.mem := by
  induction calls generalizing s with
  | nil => rfl
  | cons call calls ih =>
      rcases step_none hnone call with ⟨hfb, hmem⟩
      exact (ih hfb).trans hmem

end

/-! ## Before the initialization -/

/-- There are no columns, no rows and no font yet, so a call changes the mode at most. -/
theorem step_before (mem : ByteMem) (mode : Mode) (call : LinearFb.Call) :
    ∃ mode', ({ mem := mem, fbMode := mode } : LinearFb).step call =
      { mem := mem, fbMode := mode' } := by
  have hputc : ∀ c, ({ mem := mem, fbMode := mode } : LinearFb).consolePutc c =
      { mem := mem, fbMode := mode } := by
    intro c
    cases mode <;> rfl
  cases call with
  | putc c => exact ⟨mode, hputc c⟩
  -- by induction on the text
  | puts text =>
      refine ⟨mode, ?_⟩
      show ({ mem := mem, fbMode := mode } : LinearFb).consolePuts text = _
      induction text with
      | nil => rfl
      | cons c cs ih =>
          unfold LinearFb.consolePuts
          rw [hputc c, ih, ite_self]
  | clear color => exact ⟨mode, rfl⟩
  | setCursor col row => exact ⟨mode, rfl⟩
  | setMode mode' => exact ⟨mode', rfl⟩

/-- So of all the calls before the initialization only `setMode` does anything. -/
theorem run_before (mem : ByteMem) (calls : List LinearFb.Call) :
    ∃ mode, ({ mem := mem } : LinearFb).run calls = { mem := mem, fbMode := mode } := by
  have hrun : ∀ mode, ∃ mode', ({ mem := mem, fbMode := mode } : LinearFb).run calls =
      { mem := mem, fbMode := mode' } := by
    induction calls with
    | nil => exact fun mode => ⟨mode, rfl⟩
    | cons call calls ih =>
        intro mode
        rcases step_before mem mode call with ⟨mode', hcall⟩
        rcases ih mode' with ⟨last, hrest⟩
        refine ⟨last, ?_⟩
        show ((({ mem := mem, fbMode := mode } : LinearFb).step call).run calls) = _
        rw [hcall, hrest]
  exact hrun .console

/-- The initialization sets the mode itself. -/
theorem consoleInit_before (mem : ByteMem) (before : List LinearFb.Call)
    (response : Option (List Framebuffer)) (consoleFont : Nat → UInt8) :
    (({ mem := mem } : LinearFb).run before).consoleInit response consoleFont =
      ({ mem := mem } : LinearFb).consoleInit response consoleFont := by
  rcases run_before mem before with ⟨mode, hrun⟩
  rw [hrun]
  rcases response with _ | _ | ⟨fb, rest⟩ <;> rfl

/-- The calls before the initialization store nothing, and whatever is written to the
console after it, whether there is a framebuffer or not, a byte outside of the lines of a
framebuffer that fits stays as it is. -/
theorem console_inside (response : Option (List Framebuffer)) (consoleFont : Nat → UInt8)
    (mem : ByteMem) (before calls : List LinearFb.Call) (a : Word)
    (hout : ∀ fb, (response.bind List.head?) = some fb →
      ∃ h : fb.Fits, a ∉ (fb.raster h).region) :
    (({ mem := mem } : LinearFb).run before).mem = mem ∧
      (((({ mem := mem } : LinearFb).run before).consoleInit response consoleFont).2.run
        calls).mem a = mem a := by
  refine ⟨run_none rfl before, ?_⟩
  rw [consoleInit_before]
  have hcases : (∃ fb rest, response = some (fb :: rest)) ∨
      (({ mem := mem } : LinearFb).init response).2 = { mem := mem } := by
    rcases response with _ | _ | ⟨fb, rest⟩
    · exact Or.inr rfl
    · exact Or.inr rfl
    · exact Or.inl ⟨fb, rest, rfl⟩
  -- with a framebuffer all that is drawn is inside; without, nothing is
  rcases hcases with ⟨fb, rest, rfl⟩ | hinit
  · rcases hout fb rfl with ⟨h, ha⟩
    have hd : Draws fb h consoleFont _ _ := draws_init mem rest
    have hwipe := wipe_outside ha 0 0 mem
    rw [hd.run_outside ha calls, ← hwipe]
    exact congrFun (setCursor_mem _ 0 0).1 a
  · have hnone : (({ mem := mem } : LinearFb).consoleInit response consoleFont).2.fb = none ∧
        (({ mem := mem } : LinearFb).consoleInit response consoleFont).2.mem = mem := by
      unfold LinearFb.consoleInit
      rw [hinit]
      rcases setCursor_mem _ 0 0 with ⟨hmem, hfb⟩
      exact ⟨hfb, hmem⟩
    rw [run_none hnone.1 calls, hnone.2]

/-- The byte before the framebuffer, text that comes too early and text that scrolls. -/
theorem before_smallFb :
    (({ mem := fun _ => 0xFF } : LinearFb).run [.puts [72, 0], .clear 0]).mem = (fun _ => 0xFF) ∧
      (((({ mem := fun _ => 0xFF } : LinearFb).run [.puts [72, 0], .clear 0]).consoleInit
        (some [smallFb]) fun _ => 0).2.run
          [.puts [72, 105, 33, 10, 10, 63, 0], .clear 0xFF0000]).mem 0xFCFFFFFF = 0xFF := by
  apply console_inside
  intro fb hfb
  cases hfb
  refine ⟨smallFb_fits, ?_⟩
  rintro ⟨k, hk, heq⟩
  have hlt : k < 2048 := hk
  have haddr : (0xFCFFFFFF : Word) = 0xFD000000 + BitVec.ofNat 64 k := heq
  bv_omega

end Ceryx.Dev
