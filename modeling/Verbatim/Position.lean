import Verbatim.Text.Numeral

/-!
Places in a source. Lines count from one, columns from zero and in characters. Spans include both of
their ends, so a text that ends in a newline ends in column minus one of the line after it, and an
empty text ends one column before it starts. A place takes two 32-bit words.
-/

namespace Verbatim

structure Position where
  line : UInt32
  column : Int32
deriving DecidableEq

structure Span where
  first : Position
  last : Position
deriving DecidableEq

namespace Position

def start : Position := ⟨1, 0⟩

/-- The last column of text that runs on from `column` in the same line. -/
def columnAfter (column : Int32) (length : Nat) : Int32 := column + Int32.ofNat length - 1

/-- The number of characters behind the last newline. -/
def lastLineLength (text : List Char) : Nat := (text.reverse.takeWhile (· != '\n')).length

/-- Where a text that starts here ends. Without a newline that is in the same line; with `k` of them
it is `k` lines further down, on the last character behind the last newline. -/
def endOf (here : Position) (text : List Char) : Position :=
  let newlines := text.count '\n'
  if newlines = 0 then ⟨here.line, columnAfter here.column text.length⟩
  else ⟨here.line + UInt32.ofNat newlines, columnAfter 0 (lastLineLength text)⟩

/-- The place right behind a text that starts here. -/
def advance (here : Position) (text : List Char) : Position :=
  let last := here.endOf text
  ⟨last.line, last.column + 1⟩

def render (here : Position) : String :=
  Numeral.decimal here.line.toNat ++ ":" ++ Numeral.signed here.column.toInt

end Position

namespace Span

def of (first : Position) (text : String) : Span := ⟨first, first.endOf text.toList⟩

def render (span : Span) : String := span.first.render ++ "-" ++ span.last.render

end Span

end Verbatim
