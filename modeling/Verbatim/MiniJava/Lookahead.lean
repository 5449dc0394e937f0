import Verbatim.MiniJava.Cursor

/-!
Looking ahead by offsets. Where a type ends is counted in visible tokens from the cursor on, and no token is
taken to find that out. The tests of the rules, which are given the tokens ahead as a list, have the same answers.
-/

namespace Verbatim.MiniJava.Routine

section

variable (lexemes : List Lexeme) (position : Nat)

/-- The kind of the visible token at an offset from a place; behind the last one it is as if the source ended. -/
def nth (offset : Nat) : Kind :=
  (((lexemes.drop position).map Lexeme.kind).filter fun kind => !kind.channel.isHidden)[offset]?.getD .eof

/-- The offset behind pairs of tokens of two kinds. Each pair takes more of the tokens than of the fuel. -/
def pairsEnd (first second : Kind) : (fuel offset : Nat) → Nat
  | 0, offset => offset
  | fuel + 1, offset =>
    if nth lexemes position offset == first && nth lexemes position (offset + 1) == second then
      pairsEnd first second fuel (offset + 2)
    else offset

/-- The offset just behind the type at an offset, if one starts there. -/
def typeEnd? (offset : Nat) : Option Nat :=
  let kind := nth lexemes position offset
  let parts := pairsEnd lexemes position .dot .identifier lexemes.length
  let brackets := pairsEnd lexemes position .leftBracket .rightBracket lexemes.length
  if kind == .identifier then some (brackets (parts (offset + 1)))
  else if kind.isPrimitive then some (brackets (offset + 1))
  else none

def isMethodAhead : Bool :=
  (typeEnd? lexemes position 0).any fun last =>
    nth lexemes position last == .identifier && nth lexemes position (last + 1) == .leftParen

def isLocalVariableAhead : Bool :=
  let offset := if kindAt lexemes position == .finalWord then 1 else 0
  (typeEnd? lexemes position offset).any fun last => nth lexemes position last == .identifier

end

end Verbatim.MiniJava.Routine
