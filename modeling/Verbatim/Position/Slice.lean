import Verbatim.Position
import Verbatim.Text.Utf8

/-!
From places back to text. A place is found by counting the newlines before its line and then the
characters of its column. Columns are counted over the rest of the source, newlines included, so a
column may lie beyond the end of its line.
-/

namespace Verbatim.Position

def lineOffset? : (line : Nat) → List Char → Option Nat
  | 0, _ => none
  | 1, _ => some 0
  | _ + 2, [] => none
  | line + 2, c :: source => (lineOffset? (if c = '\n' then line + 1 else line + 2) source).map (· + 1)

def reaches : (count : Nat) → List Char → Bool
  | 0, _ => true
  | _ + 1, [] => false
  | count + 1, _ :: source => reaches count source

/-- The number of characters before a place. The place right behind the last character counts. -/
def offset? (source : List Char) (here : Position) : Option Nat :=
  if here.column < 0 then none
  else
    match lineOffset? here.line.toNat source with
    | none => none
    | some start =>
      let place := start + here.column.toInt.toNat
      if reaches place source then some place else none

def byteOffset? (source : List Char) (here : Position) : Option Nat :=
  (offset? source here).map fun count => Utf8.size (source.take count)

end Verbatim.Position

namespace Verbatim.Span

/-- The text that a span covers, if both ends lie in the source and in this order. -/
def slice? (source : List Char) (span : Span) : Option (List Char) :=
  match span.first.offset? source, Position.offset? source ⟨span.last.line, span.last.column + 1⟩ with
  | some first, some behind => if first ≤ behind then some ((source.drop first).take (behind - first)) else none
  | _, _ => none

end Verbatim.Span
