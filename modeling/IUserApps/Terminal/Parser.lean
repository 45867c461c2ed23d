import IUserApps.Terminal.Grid

/-!
# The terminal's parser

`parser_feed` of `terminal/src/main.cpp` takes one byte of what the shell writes: a printable byte
goes on the grid, a control byte moves the cursor, and `ESC [` starts a control sequence whose
parameters are read digit by digit and whose final byte `handle_csi` carries out. A parameter is
an `int`; the value it is given before it is stored is `digitValue`, which says nothing of the
width, and `int32` of it is what it holds.
-/

namespace IUserApps.Terminal

open Loops

/-- Select graphic rendition: one code. -/
def applySgrCode (t : Terminal) (code : ℤ) : Terminal :=
  if code = 0 then { t with curFg := kColorDefaultFg, curBg := kColorBackground }
  else if 30 ≤ code ∧ code ≤ 37 then { t with curFg := kAnsiColors.getD (code - 30).toNat 0 }
  else if 90 ≤ code ∧ code ≤ 97 then { t with curFg := kAnsiColors.getD (code - 90 + 8).toNat 0 }
  else if 40 ≤ code ∧ code ≤ 47 then { t with curBg := kAnsiColors.getD (code - 40).toNat 0 }
  else if 100 ≤ code ∧ code ≤ 107 then { t with curBg := kAnsiColors.getD (code - 100 + 8).toNat 0 }
  else if code = 39 then { t with curFg := kColorDefaultFg }
  else if code = 49 then { t with curBg := kColorBackground }
  else t

/-- Takes the parameters of an `m` sequence one after another. -/
def applySgr (t : Terminal) : Terminal :=
  if t.parser.paramCount = 0 then { t with curFg := kColorDefaultFg, curBg := kColorBackground }
  else upTo 0 t.parser.paramCount (fun i t => applySgrCode t (t.parser.params i)) t

/-- How far a cursor movement goes: its parameter, or one when that is absent or zero. -/
def moveBy (a : ℤ) : ℤ := if a ≠ 0 then a else 1

/-- A position moved back by `moveBy a`, stopping at zero (`A` and `D`). The comparison is between
`int`s and the subtraction is unsigned. -/
def moveBack (pos : ℕ) (a : ℤ) : ℕ :=
  u32 (pos - (if moveBy a ≤ int32 pos then u32 (moveBy a) else pos : ℕ))

/-- A position moved on by `moveBy a`, stopping at the last one (`B` and `C`). -/
def moveOn (pos count : ℕ) (a : ℤ) : ℕ :=
  if count ≤ u32 (pos + u32 (moveBy a)) then u32 (count - 1) else u32 (pos + u32 (moveBy a))

/-- A position given by a one-based parameter (`H` and `f`). -/
def moveTo (count : ℕ) (a : ℤ) : ℕ :=
  let pos := if 0 < a then u32 (a - 1) else 0
  if pos < count then pos else u32 (count - 1)

/-- Erase display (`J`). -/
def eraseDisplay (t : Terminal) (a : ℤ) : Terminal :=
  if a = 2 ∨ a = 3 then clearAll t
  else if a = 0 then
    let t := clearRow t t.cursorRow t.cursorCol
    upTo (u32 (t.cursorRow + 1)) t.rows (fun r t => clearRow t r 0) t
  else if a = 1 then
    let t := upTo 0 t.cursorRow (fun r t => clearRow t r 0) t
    clearRow t t.cursorRow 0
  else t

/-- Erase line (`K`). Mode 1 replaces the characters and leaves the colours. -/
def eraseLine (t : Terminal) (a : ℤ) : Terminal :=
  if a = 0 then clearRow t t.cursorRow t.cursorCol
  else if a = 1 then
    let t := upTo 0 (min (t.cursorCol + 1) t.cols) (fun c t =>
      t.setCell t.cursorRow c { t.grid t.cursorRow c with ch := space }) t
    touchRows t t.cursorRow (u32 (t.cursorRow + 1))
  else if a = 2 then clearRow t t.cursorRow 0
  else t

/-- Carries out a control sequence that ends in the byte `final`. -/
def handleCsi (t : Terminal) (final : Byte) : Terminal :=
  let a := if 0 < t.parser.paramCount then t.parser.params 0 else 0
  let b := if 1 < t.parser.paramCount then t.parser.params 1 else 0
  match Char.ofNat final.toNat with
  | 'A' => { t with cursorRow := moveBack t.cursorRow a }
  | 'B' => { t with cursorRow := moveOn t.cursorRow t.rows a }
  | 'C' => { t with cursorCol := moveOn t.cursorCol t.cols a }
  | 'D' => { t with cursorCol := moveBack t.cursorCol a }
  | 'H' | 'f' => { t with cursorRow := moveTo t.rows a, cursorCol := moveTo t.cols b }
  | 'J' => eraseDisplay t a
  | 'K' => eraseLine t a
  | 'm' => applySgr t
  | _ => t

/-- The loop of a tab: spaces up to the column `next`, at most eight of them. -/
def tabTo (next : ℕ) : ℕ → Terminal → Terminal
  | 0, t => t
  | fuel + 1, t =>
    if t.cursorCol < next ∧ t.cursorCol < t.cols then tabTo next fuel (putChar t space) else t

/-- `parser_feed` in the state `Ground`. -/
def feedGround (t : Terminal) (ch : Byte) : Terminal :=
  if ch = 0x1B then { t with parser.state := .escape }
  else if ch = 10 then newline t
  else if ch = 13 then { t with cursorCol := 0 }
  else if ch = 8 then if 0 < t.cursorCol then { t with cursorCol := t.cursorCol - 1 } else t
  else if ch = 9 then tabTo (u32 ((t.cursorCol + 8) / 8 * 8)) 8 t
  else if ch = 7 then t
  else if 32 ≤ ch.toNat then putChar t ch
  else t

/-- `parser_feed` in the state `Escape`. -/
def feedEscape (t : Terminal) (ch : Byte) : Terminal :=
  if ch.toNat = '['.toNat then
    { t with parser := ⟨.csi, fun _ => 0, 0, false⟩ }
  else { t with parser.state := .ground }

/-- The bytes `'0'` to `'9'`. -/
def isDigit (ch : Byte) : Bool := decide ('0'.toNat ≤ ch.toNat) && decide (ch.toNat ≤ '9'.toNat)

/-- The number of parameters once a digit has been read: the first digit starts the first one. -/
def VTParser.countAtDigit (p : VTParser) : ℕ := if p.paramCount = 0 then 1 else p.paramCount

/-- The value of the current parameter with one more digit, before it is stored in an `int`. -/
def VTParser.digitValue (p : VTParser) (ch : Byte) : ℤ :=
  p.params (p.countAtDigit - 1) * 10 + (ch.toNat - '0'.toNat)

/-- `parser_feed` in the state `CSI`. -/
def feedCsi (t : Terminal) (ch : Byte) : Terminal :=
  let p := t.parser
  if isDigit ch then
    { t with
      parser.paramCount := p.countAtDigit
      parser.params := Function.update p.params (p.countAtDigit - 1) (int32 (p.digitValue ch))
      parser.paramStarted := true }
  else if ch.toNat = ';'.toNat then
    let count := if p.paramCount < 8 then p.paramCount + 1 else p.paramCount
    { t with
      parser.paramCount := count
      parser.params :=
        if 0 < count ∧ count ≤ 8 then Function.update p.params (count - 1) 0 else p.params }
  else if ch.toNat = '?'.toNat then t
  else if 0x40 ≤ ch.toNat ∧ ch.toNat ≤ 0x7E then { handleCsi t ch with parser.state := .ground }
  else { t with parser.state := .ground }

/-- Takes one byte of the shell's output. -/
def parserFeed (t : Terminal) (ch : Byte) : Terminal :=
  match t.parser.state with
  | .ground => feedGround t ch
  | .escape => feedEscape t ch
  | .csi => feedCsi t ch

/-- Feeds bytes to the parser one after another. -/
def feedBytes (t : Terminal) (data : List Byte) : Terminal := data.foldl parserFeed t

end IUserApps.Terminal
