import Verbatim.Tool.Number
import Verbatim.Tool.Translate

/-!
Patterns for texts. A star stands for any bytes, a question mark for one byte and brackets for one byte of
a set; what is quoted stands for itself.
-/

namespace Verbatim.Tool.Shell

inductive Glob where
  | anything
  | one
  | byte (c : Char)
  | set (inverted : Bool) (members : List Char)

/-- A byte of a pattern and whether it is quoted. -/
abbrev Marked := Char × Bool

namespace Glob

/-- The members of a set up to its bracket, and what follows. A bracket directly at the start is a member. -/
def membersFrom : (fuel : Nat) → (isStart : Bool) → List Marked → Option (List Char × List Marked)
  | 0, _, _ | _ + 1, _, [] => none
  | fuel + 1, isStart, (c, quoted) :: rest =>
    let along (members : List Char) (rest : List Marked) : Option (List Char × List Marked) :=
      (membersFrom fuel false rest).map fun (more, rest) => (members ++ more, rest)
    if c == ']' && !quoted && !isStart then some ([], rest)
    else
      let name := (rest.drop 1).takeWhile fun (d, _) => d != ':'
      let behind := rest.drop (name.length + 1)
      match rest, behind with
      | (':', _) :: _, (':', _) :: (']', _) :: after =>
        if c == '[' && !quoted then
          along ((Translate.Item.group (String.ofList (name.map (·.1)))).members) after
        else along [c] rest
      | ('-', false) :: (high, highQuoted) :: after, _ =>
        if high == ']' && !highQuoted then along [c] rest
        else along ((Translate.Item.range c high).members) after
      | _, _ => along [c] rest

/-- Reads a pattern. A bracket without an end stands for itself. -/
def read : (fuel : Nat) → List Marked → List Glob
  | 0, _ | _ + 1, [] => []
  | fuel + 1, (c, quoted) :: rest =>
    if quoted then .byte c :: read fuel rest
    else if c == '*' then .anything :: read fuel rest
    else if c == '?' then .one :: read fuel rest
    else if c == '\\' then
      match rest with
      | (next, _) :: rest => .byte next :: read fuel rest
      | [] => [.byte c]
    else if c == '[' then
      let (inverted, inside) : Bool × List Marked :=
        match rest with
        | ('!', false) :: inside | ('^', false) :: inside => (true, inside)
        | inside => (false, inside)
      match membersFrom (rest.length + 1) true inside with
      | some (members, rest) => .set inverted members :: read fuel rest
      | none => .byte c :: read fuel rest
    else .byte c :: read fuel rest

def standsFor : List Glob → Bytes → Bool
  | [], text => text.isEmpty
  | .anything :: rest, text => (List.range (text.length + 1)).any fun size => standsFor rest (text.drop size)
  | .one :: rest, text =>
    match text with
    | [] => false
    | _ :: text => standsFor rest text
  | .byte c :: rest, text =>
    match text with
    | [] => false
    | d :: text => c == d && standsFor rest text
  | .set inverted members :: rest, text =>
    match text with
    | [] => false
    | d :: text => (members.contains d != inverted) && standsFor rest text

end Glob

def covers (pattern : List Marked) (text : Bytes) : Bool :=
  Glob.standsFor (Glob.read (pattern.length + 1) pattern) text

/-- Leaves out the shortest or longest start or end of a text that a pattern stands for. -/
def trimmedBy (atEnd longest : Bool) (pattern : List Marked) (text : Bytes) : Bytes :=
  let globs := Glob.read (pattern.length + 1) pattern
  let sizes := List.range (text.length + 1)
  let sizes := if longest then sizes.reverse else sizes
  let cut (size : Nat) : Bytes := if atEnd then text.drop (text.length - size) else text.take size
  match sizes.find? fun size => Glob.standsFor globs (cut size) with
  | some size => if atEnd then text.take (text.length - size) else text.drop size
  | none => text

end Verbatim.Tool.Shell
