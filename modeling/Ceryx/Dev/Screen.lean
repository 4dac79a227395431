import Ceryx.Dev.LinearFb

/-!
# Ceryx.Dev.Screen — what the console shows

A screen has cells with characters, and a cursor. `Screen.step` is what a caller of the
console expects of a call; `Screen.picture` is how a screen looks in a font.

* `Framebuffer.Fits` is what the boot loader is asked for: the lines do not overlap, a
  pixel has at most four bytes, one cell at least fits, and the framebuffer has less than
  2^32 bytes.
* `Draws`: the framebuffer shows the picture of the screen, with the cursor of the screen.
  Every call keeps it (`draws_step`).
* `console_shows`: so it is after every run of calls from the initialization on.
-/

namespace Ceryx.Dev

open Lib

/-! ## Screens -/

/-- A text screen: the cursor, and what is in each cell. -/
structure Screen where
  cell : Nat × Nat → Option UInt8 := fun _ => none
  col : Nat := 0
  row : Nat := 0
  bg : Nat := 0
  mode : Mode := .console

namespace Screen

section
variable (cols rows : Nat)

/-- All rows go up by one, and the last one is empty. -/
def scroll (t : Screen) : Screen :=
  { t with cell := fun p => if p.2 + 1 < rows then t.cell (p.1, p.2 + 1) else none }

/-- To the start of the next row. -/
def newline (t : Screen) : Screen :=
  if t.row + 1 < rows then { t with col := 0, row := t.row + 1 }
  else { t.scroll rows with col := 0 }

/-- To the next cell. -/
def advance (t : Screen) : Screen :=
  if t.col + 1 < cols then { t with col := t.col + 1 } else t.newline rows

/-- A character at the cursor. -/
def write (t : Screen) (c : UInt8) : Screen :=
  { t with cell := Function.update t.cell (t.col, t.row) (some c) }.advance cols rows

def putc (t : Screen) (c : UInt8) : Screen :=
  if t.mode = .graphics then t
  else if c = 10 then t.newline rows
  else if c = 13 then { t with col := 0 }
  else if c = 8 then { t with col := t.col - 1 }
  else t.write cols rows c

/-- The characters of a text up to the first NUL. -/
def puts (t : Screen) (text : List UInt8) : Screen :=
  (text.takeWhile fun c => decide (c ≠ 0)).foldl (putc cols rows) t

def step (t : Screen) : LinearFb.Call → Screen
  | .putc c => t.putc cols rows c
  | .puts text => t.puts cols rows text
  | .clear color => { cell := fun _ => none, col := 0, row := 0, bg := color, mode := t.mode }
  | .setCursor col row =>
      { t with col := if col < cols then col else t.col, row := if row < rows then row else t.row }
  | .setMode mode => { t with mode := mode }

def run (t : Screen) (calls : List LinearFb.Call) : Screen := calls.foldl (step cols rows) t

/-- Whether the glyph of `c` has a dot. -/
def dot (data : Nat → UInt8) (c : UInt8) (x y : Nat) : Prop :=
  (data (c.toNat * 16 + y)).toNat &&& (1 <<< (7 - x)) ≠ 0

instance (data : Nat → UInt8) (c : UInt8) (x y : Nat) : Decidable (dot data c x y) :=
  inferInstanceAs (Decidable (_ ≠ _))

/-- The colour of a point. -/
def picture (data : Nat → UInt8) (t : Screen) (p : Nat × Nat) : Nat :=
  if p.1 / 8 < cols ∧ p.2 / 16 < rows then
    match t.cell (p.1 / 8, p.2 / 16) with
    | some c => if dot data c (p.1 % 8) (p.2 % 16) then 0xFFFFFFFF else t.bg
    | none => t.bg
  else t.bg

end

end Screen

/-! ## The framebuffer -/

structure Framebuffer.Fits (fb : Framebuffer) : Prop where
  depth : fb.bpp / 8 ≤ 4
  line : fb.width * (fb.bpp / 8) ≤ fb.pitch
  span : fb.pitch * fb.height < 2 ^ 32
  cols : 8 ≤ fb.width
  rows : 16 ≤ fb.height

namespace Framebuffer

/-- The framebuffer as a raster of pixels, when its lines fit. -/
def raster (fb : Framebuffer) (h : fb.Fits) : Raster where
  base := fb.address
  width := fb.width
  height := fb.height
  pitch := fb.pitch
  depth := fb.bpp / 8
  line := h.line
  span := by
    have hspan := h.span
    omega

variable {fb : Framebuffer} (h : fb.Fits) {mem : ByteMem} {pic : Raster.Picture}

include h in
/-- A color takes as many bytes as a pixel. -/
theorem colorBytes_length (color : Nat) : (fb.colorBytes color).length = fb.bpp / 8 := by
  have hdepth := h.depth
  rw [colorBytes, List.length_take, toLE_length]
  omega

/-- The products that `putpixel` makes are not cut off. -/
theorem putpixel_eq (x y color : Nat) (mem : ByteMem) :
    putpixel (some fb) x y color mem = (fb.raster h).plot mem x y (fb.colorBytes color) := by
  unfold putpixel Raster.plot
  show (if fb.width ≤ x ∨ fb.height ≤ y then mem else _) =
    if x < fb.width ∧ y < fb.height then mem.store ((fb.raster h).pixel x y) _ else mem
  by_cases hin : x < fb.width ∧ y < fb.height
  · have hnot : ¬ (fb.width ≤ x ∨ fb.height ≤ y) := by omega
    rw [if_neg hnot, if_pos hin]
    -- a line is shorter than the whole
    have hplace : x * (fb.bpp / 8) ≤ fb.width * (fb.bpp / 8) :=
      Nat.mul_le_mul_right _ (Nat.le_of_lt hin.1)
    have hpitch : fb.pitch * 1 ≤ fb.pitch * fb.height := Nat.mul_le_mul_left _ (by omega)
    have hline := h.line
    have hspan := h.span
    have hcut : u32 (x * (fb.bpp / 8)) = x * (fb.bpp / 8) := Nat.mod_eq_of_lt (by omega)
    have haddr : fb.address + BitVec.ofNat 64 (y * fb.pitch) +
        BitVec.ofNat 64 (u32 (x * (fb.bpp / 8))) = (fb.raster h).pixel x y := by
      rw [hcut, BitVec.add_assoc, ← BitVec.ofNat_add]
      rfl
    rw [haddr]
  · have hout : fb.width ≤ x ∨ fb.height ≤ y := by omega
    rw [if_pos hout, if_neg hin]

/-- A framebuffer that shows a picture shows it with one pixel changed. -/
theorem shows_putpixel (hshows : (fb.raster h).Shows mem pic) (x y color : Nat) :
    (fb.raster h).Shows (putpixel (some fb) x y color mem)
      (Function.update pic (x, y) (fb.colorBytes color)) := by
  rw [putpixel_eq h]
  exact Raster.shows_plot (colorBytes_length h color) hshows x y

/-- The lines from `y₀` on get one colour. -/
theorem shows_wipe (y₀ color : Nat) (hshows : (fb.raster h).Shows mem pic) :
    (fb.raster h).Shows (fb.wipe y₀ color mem) fun p =>
      if y₀ ≤ p.2 ∧ p.2 < fb.height ∧ p.1 < fb.width then fb.colorBytes color else pic p := by
  refine @Raster.shows_paint _ _ pic _ _ _ (fun _ _ => True) (fun y x => (x, y)) _
    (fb.colorBytes color) _ ?_ ?_ ?_ ?_ hshows
  · intro y x m pic _ _ hm _
    exact shows_putpixel h hm x y color
  · intro y x m hfalse
    exact absurd trivial hfalse
  · intro y x hlo hhi hx _
    exact if_pos ⟨hlo, hhi, hx⟩
  · intro p hp
    apply if_neg
    rintro ⟨hlo, hhi, hx⟩
    exact hp p.2 p.1 hlo hhi hx trivial rfl

/-- A glyph in the cell of column `c` and row `r`. -/
def glyphPicture (fb : Framebuffer) (dots : Nat → Nat → Prop) [∀ x y, Decidable (dots x y)]
    (bg c r : Nat) (pic : Raster.Picture) : Raster.Picture := fun p =>
  if p.1 / 8 = c ∧ p.2 / 16 = r then
    if dots (p.1 % 8) (p.2 % 16) then fb.colorBytes 0xFFFFFFFF else fb.colorBytes bg
  else pic p

/-- A glyph replaces the picture of its cell and of no other. -/
theorem shows_drawGlyph {s : LinearFb} (hfb : s.fb = some fb) (hw : s.fontGlyphW = 8)
    (hh : s.fontGlyphH = 16) (data : Nat → UInt8) (ch : UInt8) {c r : Nat}
    (hc : c * 8 + 8 ≤ fb.width) (hr : r * 16 + 16 ≤ fb.height)
    (hshows : (fb.raster h).Shows s.mem pic) :
    (fb.raster h).Shows (s.drawGlyph data ch.toNat (c * 8) (r * 16))
      (fb.glyphPicture (Screen.dot data ch) s.consoleBg c r pic) := by
  have hwidth := fb.width_lt
  have hheight := fb.height_lt
  have hglyph : u32 (ch.toNat * 16) = ch.toNat * 16 := by
    have hlt := ch.toNat_lt
    exact Nat.mod_eq_of_lt (by omega)
  unfold LinearFb.drawGlyph
  rw [hfb, hw, hh, hglyph]
  -- the points of the cell are on the framebuffer
  have hx : ∀ col, col < 8 → u32 (c * 8 + col) = c * 8 + col :=
    fun col hcol => Nat.mod_eq_of_lt (by omega)
  have hy : ∀ row, row < 16 → u32 (r * 16 + row) = r * 16 + row :=
    fun row hrow => Nat.mod_eq_of_lt (by omega)
  refine @Raster.shows_paint _ _
    (fun p => if p.1 / 8 = c ∧ p.2 / 16 = r then fb.colorBytes s.consoleBg else pic p) _ _ _
    (fun row col => Screen.dot data ch col row) (fun row col => (c * 8 + col, r * 16 + row)) _
    (fb.colorBytes 0xFFFFFFFF) _ ?_ ?_ ?_ ?_ ?_
  · intro row col m pic hrow hcol hm hbit
    have hset : (data (ch.toNat * 16 + row)).toNat &&& (1 <<< (7 - col)) ≠ 0 := hbit
    rw [if_pos hset, hx col hcol, hy row hrow]
    exact shows_putpixel h hm _ _ _
  · intro row col m hbit
    have hclear : ¬ (data (ch.toNat * 16 + row)).toNat &&& (1 <<< (7 - col)) ≠ 0 := hbit
    rw [if_neg hclear]
  · intro row col _ hrow hcol hbit
    have hcell : (c * 8 + col) / 8 = c ∧ (r * 16 + row) / 16 = r := by omega
    have hmod : (c * 8 + col) % 8 = col ∧ (r * 16 + row) % 16 = row := by omega
    unfold glyphPicture
    dsimp only
    rw [if_pos hcell, hmod.1, hmod.2, if_pos hbit]
  · intro p hp
    unfold glyphPicture
    by_cases hcell : p.1 / 8 = c ∧ p.2 / 16 = r
    · have hpoint : p = (c * 8 + p.1 % 8, r * 16 + p.2 % 16) := by
        ext
        · dsimp only
          omega
        · dsimp only
          omega
      have hoff : ¬ Screen.dot data ch (p.1 % 8) (p.2 % 16) := fun hbit =>
        hp (p.2 % 16) (p.1 % 8) (Nat.zero_le _) (Nat.mod_lt _ (by decide))
          (Nat.mod_lt _ (by decide)) hbit hpoint
      rw [if_pos hcell, if_pos hcell, if_neg hoff]
    · rw [if_neg hcell, if_neg hcell]
  · -- the background comes first
    refine @Raster.shows_paint _ _ pic _ _ _ (fun _ _ => True)
      (fun row col => (c * 8 + col, r * 16 + row)) _ (fb.colorBytes s.consoleBg) _
      ?_ ?_ ?_ ?_ hshows
    · intro row col m pic hrow hcol hm _
      rw [hx col hcol, hy row hrow]
      exact shows_putpixel h hm _ _ _
    · intro row col m hfalse
      exact absurd trivial hfalse
    · intro row col _ hrow hcol _
      apply if_pos
      dsimp only
      omega
    · intro p hp
      apply if_neg
      rintro ⟨hcol, hrow⟩
      apply hp (p.2 % 16) (p.1 % 8) (Nat.zero_le _) (Nat.mod_lt _ (by decide))
        (Nat.mod_lt _ (by decide)) trivial
      ext
      · dsimp only
        omega
      · dsimp only
        omega

/-- The columns and rows of the console. -/
def cols (fb : Framebuffer) : Nat := fb.width / 8
/-- Text rows of 16 lines. -/
def rows (fb : Framebuffer) : Nat := fb.height / 16

end Framebuffer

/-! ## The refinement -/

/-- The framebuffer shows the screen in the font `data`. -/
structure Draws (fb : Framebuffer) (h : fb.Fits) (data : Nat → UInt8) (s : LinearFb) (t : Screen) :
    Prop where
  framebuffer : s.fb = some fb
  font : s.fbFont.data = some data
  glyphW : s.fontGlyphW = 8
  glyphH : s.fontGlyphH = 16
  glyphCount : s.fontGlyphCount = 256
  cols : s.consoleCols = fb.cols
  rows : s.consoleRows = fb.rows
  col : s.consoleCol = t.col
  row : s.consoleRow = t.row
  bg : s.consoleBg = t.bg
  mode : s.fbMode = t.mode
  col_lt : t.col < fb.cols
  row_lt : t.row < fb.rows
  shown : (fb.raster h).Shows s.mem fun p => fb.colorBytes (t.picture fb.cols fb.rows data p)

section
variable {fb : Framebuffer} {h : fb.Fits} {data : Nat → UInt8} {s : LinearFb} {t : Screen}

include h in
/-- There is a row, and the rows are on the screen. -/
theorem Framebuffer.rows_bounds : 0 < fb.rows ∧ fb.rows * 16 ≤ fb.height ∧ fb.rows < 2 ^ 32 := by
  have hrows := h.rows
  have hheight := fb.height_lt
  unfold Framebuffer.rows
  omega

include h in
theorem Framebuffer.cols_bounds : 0 < fb.cols ∧ fb.cols * 8 ≤ fb.width ∧ fb.cols < 2 ^ 32 := by
  have hcols := h.cols
  have hwidth := fb.width_lt
  unfold Framebuffer.cols
  omega

/-- The row that is wiped after scrolling is the last one. -/
theorem Draws.lastRow (hd : Draws fb h data s t) : u32Sub s.consoleRows 1 = fb.rows - 1 := by
  rcases Framebuffer.rows_bounds (h := h) with ⟨hpos, _, hlt⟩
  rw [hd.rows]
  unfold u32Sub u32
  omega

/-- Move all but the first row of cells up, and wipe what is below them. -/
theorem Draws.scroll_mem (hd : Draws fb h data s t) : s.consoleScroll.mem =
    fb.wipe ((fb.rows - 1) * 16) t.bg ((fb.raster h).shiftUp s.mem 16 (16 * (fb.rows - 1))) := by
  rcases Framebuffer.rows_bounds (h := h) with ⟨hpos, hfits, hlt⟩
  have hspan := h.span
  have hheight := fb.height_lt
  -- the counts of bytes are those of the lines
  have hlines : fb.pitch * (16 + 16 * (fb.rows - 1)) ≤ fb.pitch * fb.height :=
    Nat.mul_le_mul_left _ (by omega)
  rw [Nat.mul_add] at hlines
  have hrowBytes : u32 (fb.pitch * s.fontGlyphH) = fb.pitch * 16 := by
    rw [hd.glyphH]
    exact Nat.mod_eq_of_lt (by omega)
  have hcount : u32 (fb.pitch * 16 * (fb.rows - 1)) = fb.pitch * (16 * (fb.rows - 1)) := by
    rw [Nat.mul_assoc]
    exact Nat.mod_eq_of_lt (by omega)
  have hfirst : u32 ((fb.rows - 1) * s.fontGlyphH) = (fb.rows - 1) * 16 := by
    rw [hd.glyphH]
    exact Nat.mod_eq_of_lt (by omega)
  unfold LinearFb.consoleScroll
  simp only [hd.framebuffer, hd.font, hd.lastRow, hrowBytes, hcount, hfirst, hd.bg]
  rfl

/-- Scrolling moves every row up by one and leaves the last one blank. -/
theorem Draws.scroll (hd : Draws fb h data s t) :
    (fb.raster h).Shows s.consoleScroll.mem
        (fun p => fb.colorBytes ((t.scroll fb.rows).picture fb.cols fb.rows data p)) ∧
      s.consoleScroll = { s with mem := s.consoleScroll.mem, consoleRow := fb.rows - 1 } := by
  rcases Framebuffer.rows_bounds (h := h) with ⟨hpos, hfits, _⟩
  constructor
  · rw [hd.scroll_mem]
    have hmoved := Raster.shows_shiftUp hd.shown (k := 16) (n := 16 * (fb.rows - 1))
      (show 16 * (fb.rows - 1) + 16 ≤ fb.height by omega)
    apply (Framebuffer.shows_wipe h _ _ hmoved).congr
    intro x y hx hy
    have hx' : x < fb.width := hx
    have hy' : y < fb.height := hy
    dsimp only
    by_cases hwiped : (fb.rows - 1) * 16 ≤ y
    · -- the last row, or below it
      rw [if_pos ⟨hwiped, hy', hx'⟩]
      have hbg : (t.scroll fb.rows).picture fb.cols fb.rows data (x, y) = t.bg := by
        unfold Screen.picture
        by_cases hcell : x / 8 < fb.cols ∧ y / 16 < fb.rows
        · have hnone : (t.scroll fb.rows).cell (x / 8, y / 16) = none :=
            if_neg (show ¬ y / 16 + 1 < fb.rows by omega)
          simp only [hnone]
          exact ite_self _
        · exact if_neg hcell
      rw [hbg]
    · have hup : y < 16 * (fb.rows - 1) := by omega
      have hrow : (y + 16) / 16 = y / 16 + 1 := by omega
      have hdot : (y + 16) % 16 = y % 16 := by omega
      have hcell : (t.scroll fb.rows).cell (x / 8, y / 16) = t.cell (x / 8, y / 16 + 1) :=
        if_pos (show y / 16 + 1 < fb.rows by omega)
      have hin : (y / 16 + 1 < fb.rows) = (y / 16 < fb.rows) := by
        apply propext
        omega
      have hsame : t.picture fb.cols fb.rows data (x, y + 16) =
          (t.scroll fb.rows).picture fb.cols fb.rows data (x, y) := by
        unfold Screen.picture
        simp only [hrow, hdot, hcell, hin]
        rfl
      rw [if_neg (fun hall => hwiped hall.1), if_pos hup, hsame]
  · unfold LinearFb.consoleScroll
    simp only [hd.framebuffer, hd.font, hd.lastRow]

/-- The scroll does not read the cursor. -/
theorem Draws.scroll_cursor (hd : Draws fb h data s t) (col row row' : Nat) :
    ({ s with consoleCol := col, consoleRow := row } : LinearFb).consoleScroll =
      ({ s with consoleCol := col, consoleRow := row' } : LinearFb).consoleScroll := by
  unfold LinearFb.consoleScroll
  simp only [hd.framebuffer, hd.font]

/-- `nextRow` at the start of a row. -/
theorem draws_nextRow (hd : Draws fb h data s t) :
    Draws fb h data { s with consoleCol := 0 }.nextRow (t.newline fb.rows) := by
  rcases Framebuffer.rows_bounds (h := h) with ⟨hpos, hfits, hlt⟩
  have hrow := hd.row_lt
  have hnext : u32 (s.consoleRow + 1) = t.row + 1 := by
    rw [hd.row]
    exact Nat.mod_eq_of_lt (by omega)
  have hzero : 0 < fb.cols := Nat.zero_lt_of_lt hd.col_lt
  unfold LinearFb.nextRow Screen.newline
  dsimp only
  rw [hnext]
  have hrows := hd.rows
  by_cases hin : t.row + 1 < fb.rows
  · -- there is a row below
    rw [if_neg (show ¬ s.consoleRows ≤ t.row + 1 by omega), if_pos hin]
    exact { hd with col := rfl, row := rfl, col_lt := hzero, row_lt := hin }
  · rw [if_pos (show s.consoleRows ≤ t.row + 1 by omega), if_neg hin]
    -- the last row: the console scrolls, and stays in it
    have hlast : t.row = fb.rows - 1 := by omega
    have hd' : Draws fb h data { s with consoleCol := 0, consoleRow := t.row }
        { t with col := 0 } := { hd with col := rfl, row := rfl, col_lt := hzero }
    rcases hd'.scroll with ⟨hshown, hrest⟩
    rw [hd.scroll_cursor 0 (t.row + 1) t.row, hrest]
    exact { hd' with
      row := hlast.symm
      shown := hshown }

/-- `console_col` after a glyph. -/
theorem draws_advance (hd : Draws fb h data s t) :
    Draws fb h data
      (let s' := { s with consoleCol := s.consoleCol + 1 }
       if s'.consoleCols ≤ s'.consoleCol then { s' with consoleCol := 0 }.nextRow else s')
      (t.advance fb.cols fb.rows) := by
  have hcols := hd.cols
  have hat := hd.col
  unfold Screen.advance
  dsimp only
  by_cases hlast : t.col + 1 < fb.cols
  · rw [if_neg (show ¬ s.consoleCols ≤ s.consoleCol + 1 by omega), if_pos hlast]
    exact { hd with col := congrArg (· + 1) hat, col_lt := hlast }
  · rw [if_pos (show s.consoleCols ≤ s.consoleCol + 1 by omega), if_neg hlast]
    exact draws_nextRow hd

/-- A glyph at the cursor. -/
theorem draws_glyph (hd : Draws fb h data s t) (c : UInt8) :
    Draws fb h data { s with mem := s.drawGlyph data c.toNat (t.col * 8) (t.row * 16) }
      { t with cell := Function.update t.cell (t.col, t.row) (some c) } := by
  rcases Framebuffer.rows_bounds (h := h) with ⟨_, hrowsFit, _⟩
  rcases Framebuffer.cols_bounds (h := h) with ⟨_, hcolsFit, _⟩
  have hcol := hd.col_lt
  have hrow := hd.row_lt
  have hc : t.col * 8 + 8 ≤ fb.width := by omega
  have hr : t.row * 16 + 16 ≤ fb.height := by omega
  have hglyph := Framebuffer.shows_drawGlyph h hd.framebuffer hd.glyphW hd.glyphH data c hc hr
    hd.shown
  refine { hd with shown := hglyph.congr ?_ }
  intro x y _ _
  unfold Framebuffer.glyphPicture Screen.picture
  dsimp only
  by_cases hcell : x / 8 = t.col ∧ y / 16 = t.row
  · -- a dot of the cell that is written
    have hin : t.col < fb.cols ∧ t.row < fb.rows := ⟨hcol, hrow⟩
    rw [if_pos hcell, hcell.1, hcell.2, if_pos hin, Function.update_self, hd.bg]
    exact (apply_ite fb.colorBytes _ _ _).symm
  · -- a dot of another one
    have hne : (x / 8, y / 16) ≠ (t.col, t.row) := by
      intro heq
      exact hcell (Prod.mk.inj heq)
    rw [if_neg hcell, Function.update_of_ne hne]

/-- Every byte has a glyph. -/
theorem Draws.glyph (hd : Draws fb h data s t) (c : UInt8) :
    (if s.fontGlyphCount ≤ c.toNat then 63 else c.toNat) = c.toNat := by
  have hlt := c.toNat_lt
  rw [hd.glyphCount]
  exact if_neg (by omega)

/-- The products of the cursor are not cut off. -/
theorem Draws.cursor (hd : Draws fb h data s t) :
    u32 (s.consoleCol * s.fontGlyphW) = t.col * 8 ∧ u32 (s.consoleRow * s.fontGlyphH) = t.row * 16 ∧
      u32 (s.consoleCol + 1) = s.consoleCol + 1 := by
  rcases Framebuffer.rows_bounds (h := h) with ⟨_, hrowsFit, _⟩
  rcases Framebuffer.cols_bounds (h := h) with ⟨_, hcolsFit, _⟩
  have hwidth := fb.width_lt
  have hheight := fb.height_lt
  have hcol := hd.col_lt
  have hrow := hd.row_lt
  rw [hd.col, hd.glyphW, hd.row, hd.glyphH]
  exact ⟨Nat.mod_eq_of_lt (by omega), Nat.mod_eq_of_lt (by omega), Nat.mod_eq_of_lt (by omega)⟩

/-- One character, drawn or obeyed. -/
theorem draws_putc (hd : Draws fb h data s t) (c : UInt8) :
    Draws fb h data (s.consolePutc c) (t.putc fb.cols fb.rows c) := by
  have hcol := hd.col_lt
  by_cases hmode : t.mode = .graphics
  · -- nothing is drawn
    have hoff : s.consolePutc c = s := by
      unfold LinearFb.consolePutc
      rw [hd.mode, hmode]
    have hsame : t.putc fb.cols fb.rows c = t := if_pos hmode
    rw [hoff, hsame]
    exact hd
  have hon : s.consolePutc c = s.putcWith data c := by
    have hconsole : t.mode = .console := by
      cases hm : t.mode with
      | console => rfl
      | graphics => exact absurd hm hmode
    unfold LinearFb.consolePutc
    rw [hd.mode, hd.font, hconsole]
  unfold Screen.putc
  rw [hon, if_neg hmode]
  unfold LinearFb.putcWith
  by_cases hnl : c = 10
  · rw [if_pos hnl, if_pos hnl]
    exact draws_nextRow hd
  rw [if_neg hnl, if_neg hnl]
  by_cases hcr : c = 13
  · rw [if_pos hcr, if_pos hcr]
    exact { hd with col := rfl, col_lt := Nat.zero_lt_of_lt hcol }
  rw [if_neg hcr, if_neg hcr]
  by_cases hbs : c = 8
  · rw [if_pos hbs, if_pos hbs]
    have hback : t.col - 1 < fb.cols := by omega
    by_cases hpos : 0 < s.consoleCol
    · rw [if_pos hpos]
      exact { hd with col := congrArg (· - 1) hd.col, col_lt := hback }
    · have hzero : s.consoleCol = t.col - 1 := by
        have hat := hd.col
        omega
      rw [if_neg hpos]
      exact { hd with col := hzero, col_lt := hback }
  rw [if_neg hbs, if_neg hbs]
  rcases hd.cursor with ⟨hpx, hpy, hnext⟩
  rw [hd.glyph, hpx, hpy, hnext]
  have hadvance := draws_advance (draws_glyph hd c)
  unfold Screen.write
  exact hadvance

/-- A text, by induction on its characters. -/
theorem draws_puts (hd : Draws fb h data s t) (text : List UInt8) :
    Draws fb h data (s.consolePuts text) (t.puts fb.cols fb.rows text) := by
  induction text generalizing s t with
  | nil => exact hd
  | cons c cs ih =>
      unfold LinearFb.consolePuts Screen.puts
      by_cases hnul : c = 0
      · have hfalse : decide (c ≠ 0) = false := decide_eq_false (not_not_intro hnul)
        rw [if_pos hnul, List.takeWhile_cons_of_neg (by rw [hfalse]; decide)]
        exact hd
      · have htrue : decide (c ≠ 0) = true := decide_eq_true hnul
        simp only [if_neg hnul, List.takeWhile_cons, htrue, if_true, List.foldl_cons]
        exact ih (draws_putc hd c)

/-- Clearing paints all cells, and the lines below them. -/
theorem draws_clear (hd : Draws fb h data s t) (color : Nat) :
    Draws fb h data (s.consoleClear color) (t.step fb.cols fb.rows (.clear color)) := by
  have hrow := Nat.zero_lt_of_lt hd.row_lt
  have hcol := Nat.zero_lt_of_lt hd.col_lt
  -- the framebuffer is there
  have hclear : s.consoleClear color =
      { s with mem := fb.wipe 0 color s.mem, consoleCol := 0, consoleRow := 0,
               consoleBg := color } := by
    unfold LinearFb.consoleClear
    split
    · rename_i hnone
      rw [hd.framebuffer] at hnone
      cases hnone
    · rename_i fb' hsome
      rw [hd.framebuffer] at hsome
      cases hsome
      rfl
  rw [hclear]
  refine { hd with col := rfl, row := rfl, bg := rfl, col_lt := hcol, row_lt := hrow, shown := ?_ }
  have hshows := Framebuffer.shows_wipe h 0 color hd.shown
  apply hshows.congr
  intro x y hx hy
  have hin : 0 ≤ y ∧ y < fb.height ∧ x < fb.width := ⟨Nat.zero_le y, hy, hx⟩
  have hblank : ({ bg := color, mode := t.mode } : Screen).picture fb.cols fb.rows data (x, y) =
      color := ite_self _
  dsimp only
  rw [if_pos hin]
  exact congrArg fb.colorBytes hblank.symm

theorem draws_setCursor (hd : Draws fb h data s t) (col row : Nat) :
    Draws fb h data (s.consoleSetCursor col row) (t.step fb.cols fb.rows (.setCursor col row)) := by
  -- each coordinate is taken on its own, if it is on the screen
  have hset : s.consoleSetCursor col row =
      { s with consoleCol := if col < s.consoleCols then col else s.consoleCol,
               consoleRow := if row < s.consoleRows then row else s.consoleRow } := by
    unfold LinearFb.consoleSetCursor
    by_cases hcol : col < s.consoleCols
    · by_cases hrow : row < s.consoleRows
      · simp only [if_pos hcol, if_pos hrow]
      · simp only [if_pos hcol, if_neg hrow]
    · by_cases hrow : row < s.consoleRows
      · simp only [if_neg hcol, if_pos hrow]
      · simp only [if_neg hcol, if_neg hrow]
  rw [hset, hd.cols, hd.rows, hd.col, hd.row]
  refine { hd with cols := rfl, rows := rfl, col := rfl, row := rfl, col_lt := ?_, row_lt := ?_ }
  · show (if col < fb.cols then col else t.col) < fb.cols
    by_cases hcol : col < fb.cols
    · rwa [if_pos hcol]
    · rw [if_neg hcol]
      exact hd.col_lt
  · show (if row < fb.rows then row else t.row) < fb.rows
    by_cases hrow : row < fb.rows
    · rwa [if_pos hrow]
    · rw [if_neg hrow]
      exact hd.row_lt

/-- One call of the console is one step of the text screen. -/
theorem draws_step (hd : Draws fb h data s t) (call : LinearFb.Call) :
    Draws fb h data (s.step call) (t.step fb.cols fb.rows call) := by
  cases call with
  | putc c => exact draws_putc hd c
  | puts text => exact draws_puts hd text
  | clear color => exact draws_clear hd color
  | setCursor col row => exact draws_setCursor hd col row
  | setMode mode => exact { hd with mode := rfl }

/-- So is every run. -/
theorem draws_run (hd : Draws fb h data s t) (calls : List LinearFb.Call) :
    Draws fb h data (s.run calls) (t.run fb.cols fb.rows calls) :=
  foldl_related (R := Draws fb h data) (fun call _ _ _ hd => draws_step hd call) hd

/-- The initialization clears the framebuffer, whatever was there. -/
theorem draws_init (mem : ByteMem) (rest : List Framebuffer) :
    Draws fb h data (({ mem := mem } : LinearFb).consoleInit (some (fb :: rest)) data).2 {} := by
  rcases Framebuffer.rows_bounds (h := h) with ⟨hrows, _, hrowsLt⟩
  rcases Framebuffer.cols_bounds (h := h) with ⟨hcols, _, hcolsLt⟩
  have hdraws : Draws fb h data
      { mem := fb.wipe 0 0 mem, fbInitialized := true, fb := some fb,
        fbFont := { data := some data, width := 8, height := 16 }, fontGlyphCount := 256,
        fontGlyphW := 8, fontGlyphH := 16, consoleCols := u32 (fb.width / 8),
        consoleRows := u32 (fb.height / 16) } {} := by
    refine ⟨rfl, rfl, rfl, rfl, rfl, Nat.mod_eq_of_lt hcolsLt, Nat.mod_eq_of_lt hrowsLt, rfl, rfl,
      rfl, rfl, hcols, hrows, ?_⟩
    have hshows := Framebuffer.shows_wipe h 0 0 ((fb.raster h).shows_self mem)
    apply hshows.congr
    intro x y hx hy
    have hin : 0 ≤ y ∧ y < fb.height ∧ x < fb.width := ⟨Nat.zero_le y, hy, hx⟩
    have hblank : ({} : Screen).picture fb.cols fb.rows data (x, y) = 0 := ite_self _
    dsimp only
    rw [if_pos hin]
    exact congrArg fb.colorBytes hblank.symm
  -- the cursor is set to where it is
  have hcursor := draws_setCursor hdraws 0 0
  have hempty : ({} : Screen).step fb.cols fb.rows (.setCursor 0 0) = {} := by
    unfold Screen.step
    simp only [if_pos hcols, if_pos hrows]
  rw [hempty] at hcursor
  exact hcursor

end

/-- After any run of calls the framebuffer shows what the screen says. -/
theorem console_shows (fb : Framebuffer) (h : fb.Fits) (rest : List Framebuffer)
    (consoleFont : Nat → UInt8) (mem : ByteMem) (calls : List LinearFb.Call) :
    let s := (({ mem := mem } : LinearFb).consoleInit (some (fb :: rest)) consoleFont).2.run calls
    let t := ({} : Screen).run fb.cols fb.rows calls
    (fb.raster h).Shows s.mem (fun p => fb.colorBytes (t.picture fb.cols fb.rows consoleFont p)) ∧
      s.consoleGetCursor = (t.col, t.row) ∧ t.col < fb.cols ∧ t.row < fb.rows := by
  intro s t
  have hd : Draws fb h consoleFont s t := draws_run (draws_init mem rest) calls
  exact ⟨hd.shown, congrArg₂ Prod.mk hd.col hd.row, hd.col_lt, hd.row_lt⟩

/-- Sixteen by thirty-two pixels of four bytes, which is two cells by two. -/
def smallFb : Framebuffer where
  address := 0xFD000000
  width := 16
  height := 32
  pitch := 64
  bpp := 32
  width_lt := by decide
  height_lt := by decide

theorem smallFb_fits : smallFb.Fits := by
  refine ⟨?_, ?_, ?_, ?_, ?_⟩ <;> decide

/-- Three characters in two columns: the last one starts the second row. -/
theorem three_wrap :
    ((({ mem := fun _ => 0xFF } : LinearFb).consoleInit (some [smallFb]) fun _ => 0).2.run
      [.puts [72, 105, 33, 0]]).consoleGetCursor = (1, 1) := by
  have hshows := console_shows smallFb smallFb_fits [] (fun _ => 0) (fun _ => 0xFF)
    [.puts [72, 105, 33, 0]]
  exact hshows.2.1.trans rfl

end Ceryx.Dev
