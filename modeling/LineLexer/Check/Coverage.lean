/-
# `Check.Coverage` — do tokens leave anything but white space?

The tokens of a scan without errors cover every character that is no white
space.  Each token marks as many cells of its line, from its column on, as
its source text has characters.
-/
import LineLexer.Check.Tokens
import LineLexer.Scan.Line

namespace LineLexer.Check

/-- What comes of the check. -/
inductive Coverage
  | complete
  | violated (v : Violation)
  /-- A token takes more cells than its line has from its column on. -/
  | overrun (line : Nat)
deriving DecidableEq, Repr

/-- A run of cells of a line, of which the first has the number zero. -/
structure Cells where
  first : Nat
  count : Nat
deriving DecidableEq, Repr

namespace Cells

/-- The cells that a token marks. -/
def ofToken (t : Token) : Cells := ⟨t.coord.column - 1, t.source.charCount⟩

/-- Whether a cell is among them. -/
def contains (r : Cells) (cell : Nat) : Bool := r.first ≤ cell && cell < r.first + r.count

/-- Whether they all lie inside a line with a number of cells. -/
def stayInside (r : Cells) (size : Nat) : Bool := r.count == 0 || r.first + r.count ≤ size

end Cells

/-- The first cell, from `cell` on, that is not marked and not white. -/
def gap? (marked : List Cells) (cell : Nat) : List Glyph → Option (Nat × Char)
  | [] => none
  | g :: gs =>
      if marked.any (·.contains cell) || isSpace g.char then gap? marked (cell + 1) gs
      else some (cell, g.char)

/-- The check of one line. -/
def lineCoverage (ts : List Token) (l : Line) : Coverage :=
  let marked := (ts.filter fun t => t.coord.line = l.num).map Cells.ofToken
  let gs := glyphs l.text
  let size := gs.length
  if !marked.all (·.stayInside size) then .overrun l.num
  else match gap? marked 0 gs with
    | some (cell, c) => .violated (.uncovered ⟨l.num, cell + 1⟩ c)
    | none => .complete

/-- The check of lines in order; the first one that fails decides. -/
def linesCoverage (ts : List Token) : List Line → Coverage
  | [] => .complete
  | l :: ls =>
      match lineCoverage ts l with
      | .complete => linesCoverage ts ls
      | c => c

/-- The check of a whole buffer; its tokens must fit it first. -/
def coverage (f? : Option File) (ts : List Token) : Coverage :=
  match violation? f? ts, f? with
  | some v, _ => .violated v
  | none, some f => linesCoverage ts f.lines
  | none, none => .complete

end LineLexer.Check
