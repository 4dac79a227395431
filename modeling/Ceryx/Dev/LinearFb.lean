import Ceryx.Lib.Raster

/-!
# Ceryx.Dev.LinearFb — the framebuffer console

`linearfb.cpp`: the state is its static variables and the memory. A `uint32_t` is a
natural number, reduced modulo 2^32 where the code computes with it.

* `putpixel` stores the low bytes of a colour.
* `consoleScroll`: the count of its `MemoryMove` is a `uint32_t`.
* `Call` is what the rest of the kernel does to the console, and `run` does it in order.
-/

namespace Ceryx.Dev

open Lib

/-- What does not fit a `uint32_t` is cut off. -/
def u32 (n : Nat) : Nat := n % 2 ^ 32

/-- `a - b` of `uint32_t`. -/
def u32Sub (a b : Nat) : Nat := u32 (a + (2 ^ 32 - u32 b))

/-- `struct limine_framebuffer`. The coordinates of the console are `uint32_t`, and its
loops over a larger framebuffer would not end. -/
structure Framebuffer where
  address : Word
  width : Nat
  height : Nat
  pitch : Nat
  bpp : Nat
  width_lt : width < 2 ^ 32
  height_lt : height < 2 ^ 32

/-- `linearfb_mode_t`. -/
inductive Mode where
  | console | graphics
deriving DecidableEq, Repr

/-- `linearfb_font_t`: `data` is the null pointer or the bytes from there on. -/
structure Font where
  data : Option (Nat → UInt8) := none
  width : Nat := 0
  height : Nat := 0

structure LinearFb where
  mem : ByteMem
  fbInitialized : Bool := false
  fb : Option Framebuffer := none
  fbMode : Mode := .console
  fbFont : Font := {}
  fontGlyphCount : Nat := 0
  fontGlyphW : Nat := 0
  fontGlyphH : Nat := 0
  consoleCol : Nat := 0
  consoleRow : Nat := 0
  consoleCols : Nat := 0
  consoleRows : Nat := 0
  consoleBg : Nat := 0

/-- `MemoryMove`. -/
def memoryMove (mem : ByteMem) (dst src : Word) (n : Nat) : ByteMem :=
  mem.store dst (mem.load src n)

/-! ## Drawing -/

/-- The bytes of `color` that a pixel takes. A pixel of more than four bytes would take
what is after the variable. -/
def Framebuffer.colorBytes (fb : Framebuffer) (color : Nat) : List UInt8 :=
  (toLE 4 color).take (fb.bpp / 8)

def putpixel (fb : Option Framebuffer) (x y color : Nat) (mem : ByteMem) : ByteMem :=
  match fb with
  | none => mem
  | some fb =>
      if fb.width ≤ x ∨ fb.height ≤ y then mem
      else
        let p := fb.address + BitVec.ofNat 64 (y * fb.pitch) +
          BitVec.ofNat 64 (u32 (x * (fb.bpp / 8)))
        mem.store p (fb.colorBytes color)

/-- Put `color` on the lines from `y₀` on. -/
def Framebuffer.wipe (fb : Framebuffer) (y₀ color : Nat) (mem : ByteMem) : ByteMem :=
  forRange y₀ fb.height (fun y => forRange 0 fb.width fun x => putpixel (some fb) x y color) mem

namespace LinearFb

/-- `linearfb_console_clear`. -/
def consoleClear (s : LinearFb) (color : Nat) : LinearFb :=
  match s.fb with
  | none => s
  | some fb =>
      { s with mem := fb.wipe 0 color s.mem, consoleCol := 0, consoleRow := 0, consoleBg := color }

/-- `console_scroll`. -/
def consoleScroll (s : LinearFb) : LinearFb :=
  match s.fb, s.fbFont.data with
  | some fb, some _ =>
      let rowBytes := u32 (fb.pitch * s.fontGlyphH)
      let dst := fb.address
      let src := dst + BitVec.ofNat 64 rowBytes
      let mem := memoryMove s.mem dst src (u32 (rowBytes * u32Sub s.consoleRows 1))
      -- clear the last row
      let mem := fb.wipe (u32 (u32Sub s.consoleRows 1 * s.fontGlyphH)) s.consoleBg mem
      { s with mem := mem, consoleRow := u32Sub s.consoleRows 1 }
  | _, _ => s

/-- `if (++console_row >= console_rows) console_scroll();` -/
def nextRow (s : LinearFb) : LinearFb :=
  let s := { s with consoleRow := u32 (s.consoleRow + 1) }
  if s.consoleRows ≤ s.consoleRow then s.consoleScroll else s

/-- The two passes of `linearfb_console_putc` over the cell at `px`, `py`. -/
def drawGlyph (s : LinearFb) (data : Nat → UInt8) (ch px py : Nat) : ByteMem :=
  let mem := forRange 0 s.fontGlyphH (fun row => forRange 0 s.fontGlyphW fun col =>
    putpixel s.fb (u32 (px + col)) (u32 (py + row)) s.consoleBg) s.mem
  forRange 0 s.fontGlyphH (fun row =>
    let bits := data (u32 (ch * s.fontGlyphH) + row)
    forRange 0 s.fontGlyphW fun col mem =>
      if bits.toNat &&& (1 <<< (7 - col)) ≠ 0 then
        putpixel s.fb (u32 (px + col)) (u32 (py + row)) 0xFFFFFFFF mem
      else mem) mem

/-- `linearfb_console_putc`, from the test for `'\n'` on. -/
def putcWith (s : LinearFb) (data : Nat → UInt8) (c : UInt8) : LinearFb :=
  if c = 10 then { s with consoleCol := 0 }.nextRow
  else if c = 13 then { s with consoleCol := 0 }
  else if c = 8 then
    if 0 < s.consoleCol then { s with consoleCol := s.consoleCol - 1 } else s
  else
    let ch := if s.fontGlyphCount ≤ c.toNat then 63 else c.toNat
    let px := u32 (s.consoleCol * s.fontGlyphW)
    let py := u32 (s.consoleRow * s.fontGlyphH)
    let s := { s with mem := s.drawGlyph data ch px py, consoleCol := u32 (s.consoleCol + 1) }
    if s.consoleCols ≤ s.consoleCol then { s with consoleCol := 0 }.nextRow else s

/-- `linearfb_console_putc`. -/
def consolePutc (s : LinearFb) (c : UInt8) : LinearFb :=
  match s.fbMode, s.fbFont.data with
  | .console, some data => s.putcWith data c
  | _, _ => s

/-- `linearfb_console_puts` of the bytes up to the first NUL. -/
def consolePuts (s : LinearFb) : List UInt8 → LinearFb
  | [] => s
  | c :: cs => if c = 0 then s else (s.consolePutc c).consolePuts cs

/-- `linearfb_console_set_cursor`. -/
def consoleSetCursor (s : LinearFb) (col row : Nat) : LinearFb :=
  let s := if col < s.consoleCols then { s with consoleCol := col } else s
  if row < s.consoleRows then { s with consoleRow := row } else s

/-- `linearfb_console_get_cursor`. -/
def consoleGetCursor (s : LinearFb) : Nat × Nat := (s.consoleCol, s.consoleRow)

/-- `linearfb_set_mode`. -/
def setMode (s : LinearFb) (mode : Mode) : LinearFb := { s with fbMode := mode }

/-! ## Initialization -/

/-- The columns and rows, when the framebuffer and the font are ready. -/
def updateConsole (s : LinearFb) : LinearFb :=
  match s.fb with
  | none => s
  | some fb =>
      if s.fontGlyphW ≠ 0 ∧ s.fontGlyphH ≠ 0 then
        { s with consoleCols := u32 (fb.width / s.fontGlyphW),
                 consoleRows := u32 (fb.height / s.fontGlyphH) }
      else s

/-- `linearfb_init` for the framebuffers of the response, when there is one. -/
def init (s : LinearFb) (response : Option (List Framebuffer)) : Int × LinearFb :=
  match response with
  | some (fb :: _) => (0, { { s with fb := some fb }.updateConsole with fbInitialized := true })
  | _ => (-1, s)

/-- `linearfb_load_font`. -/
def loadFont (s : LinearFb) (font : Option Font) (count : Nat) : Int × LinearFb :=
  match font with
  | none => (-1, s)
  | some font =>
      (0, { s with fbFont := font, fontGlyphW := font.width, fontGlyphH := font.height,
                   fontGlyphCount := count }.updateConsole)

/-- `linearfb_console_init`. -/
def consoleInit (s : LinearFb) (response : Option (List Framebuffer)) (consoleFont : Nat → UInt8) :
    Int × LinearFb :=
  let s := (s.init response).2
  let s := (s.loadFont (some { data := some consoleFont, width := 8, height := 16 }) 256).2
  let s := s.setMode .console
  let s := s.consoleClear 0x00000000
  let s := s.consoleSetCursor 0 0
  (if s.fb.isSome then 0 else -1, s)

/-! ## Runs -/

/-- What is done to a console that is initialized. -/
inductive Call where
  | putc (c : UInt8)
  | puts (text : List UInt8)
  | clear (color : Nat)
  | setCursor (col row : Nat)
  | setMode (mode : Mode)
deriving DecidableEq, Repr

def step (s : LinearFb) : Call → LinearFb
  | .putc c => s.consolePutc c
  | .puts text => s.consolePuts text
  | .clear color => s.consoleClear color
  | .setCursor col row => s.consoleSetCursor col row
  | .setMode mode => s.setMode mode

def run (s : LinearFb) (calls : List Call) : LinearFb := calls.foldl step s

end LinearFb

end Ceryx.Dev
