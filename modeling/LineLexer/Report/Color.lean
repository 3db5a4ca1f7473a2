/-
# `Report.Color` — coloured text for a terminal

A style is a list of attributes.  Coloured text stands between an escape
sequence that turns them on and one that turns each of them off again.
-/
import LineLexer.Text.Bytes

namespace LineLexer.Report

/-- An attribute of text on a terminal. -/
inductive Attribute
  | bold
  | red | green | yellow | blue | magenta | cyan | white
deriving DecidableEq, Repr

namespace Attribute

/-- The number that turns an attribute on. -/
def on : Attribute → Nat
  | bold => 1
  | red => 31
  | green => 32
  | yellow => 33
  | blue => 34
  | magenta => 35
  | cyan => 36
  | white => 37

/-- The number that turns an attribute off. -/
def off : Attribute → Nat
  | bold => 22
  | _ => 0

end Attribute

/-- How a piece of text looks. -/
abbrev Style := List Attribute

/-- The escape sequence with the given numbers. -/
def escape (ns : List Nat) : Bytes :=
  utf8 "\x1b[" ++ Bytes.join (utf8 ";") (ns.map Bytes.decimal) ++ utf8 "m"

/-- A text in a style; without colour, the text alone. -/
def paint (color : Bool) (style : Style) (s : Bytes) : Bytes :=
  if color then escape (style.map Attribute.on) ++ s ++ escape (style.map Attribute.off) else s

end LineLexer.Report
