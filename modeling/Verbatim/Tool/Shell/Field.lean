import Verbatim.Tool.Shell.Pattern

/-!
Fields. The expansion of a word is a sequence of bytes that are quoted or not and that may separate
fields or not. Blank separators count together, each other separator ends a field of its own.
-/

namespace Verbatim.Tool.Shell

/-- A part of an expanded word. -/
inductive Piece where
  | byte (c : Char) (quoted splits : Bool)
  /-- Quotes stand here: there is a field, even an empty one. -/
  | mark
  /-- A new field starts here. -/
  | cut

def piecesOf (quoted : Bool) (value : Bytes) : List Piece :=
  let bytes := value.map fun c => Piece.byte c quoted (!quoted)
  if quoted then .mark :: bytes else bytes

def markedOf (pieces : List Piece) : List Marked :=
  pieces.filterMap fun piece =>
    match piece with
    | .byte c quoted _ => some (c, quoted)
    | .mark => none
    | .cut => some (' ', true)

def textOf (pieces : List Piece) : Bytes := (markedOf pieces).map (·.1)

/-- Where splitting stands: the fields so far with the last one first, the field that has been started
with its last byte first, and whether a blank has just ended a field. -/
structure Splitting where
  done : List (List Marked) := []
  started : Option (List Marked) := none
  blank : Bool := false

namespace Splitting

def finish (state : Splitting) : Splitting :=
  match state.started with
  | some field => { done := field.reverse :: state.done }
  | none => state

def step (separators : Bytes) (state : Splitting) : Piece → Splitting
  | .mark => { state with started := some (state.started.getD []), blank := false }
  | .cut => state.finish
  | .byte c quoted splits =>
    if splits && separators.contains c then
      if isSpace c then
        if state.started.isSome then { state.finish with blank := true } else state
      else if state.started.isSome then state.finish
      else if state.blank then { state with blank := false }
      else { state with done := [] :: state.done }
    else { state with started := some ((c, quoted) :: state.started.getD []), blank := false }

end Splitting

def fieldsOf (separators : Bytes) (pieces : List Piece) : List (List Marked) :=
  (pieces.foldl (Splitting.step separators) {}).finish.done.reverse

/-- Reads values for names from a line, of which each byte is marked if a backslash stood before it. The
last name gets all that is left. -/
def distribute (separators : Bytes) : (names : List Bytes) → (line : List Marked) → List (Bytes × Bytes)
  | [], _ => []
  | name :: names, line =>
    let isBlank (marked : Marked) : Bool := !marked.2 && isSpace marked.1 && separators.contains marked.1
    let isSeparator (marked : Marked) : Bool := !marked.2 && separators.contains marked.1
    let line := line.dropWhile isBlank
    let field := line.takeWhile (!isSeparator ·)
    let behind := (line.drop field.length).dropWhile isBlank
    let after := match behind with
      | marked :: rest => if isSeparator marked then rest else behind
      | [] => []
    if names.isEmpty then
      let whole := if (after.dropWhile isBlank).isEmpty then field else (line.reverse.dropWhile isBlank).reverse
      [(name, whole.map (·.1))]
    else (name, field.map (·.1)) :: distribute separators names after

end Verbatim.Tool.Shell
