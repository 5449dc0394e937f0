import Verbatim.Xml.Cause

/-!
References in text. Writing uses one for every character that a document cannot hold as itself, the
carriage return included, since readers take it for a line end. Reading resolves references to any
character, also to those that no document may hold.
-/

namespace Verbatim.Xml

def needsReference (c : Char) : Bool :=
  c == '&' || c == '<' || c == '>' ||
    (c.toNat < 0x20 && c != '\t' && c != '\n') || c.toNat == 0xFFFE || c.toNat == 0xFFFF

def escapeChar (c : Char) : List Char :=
  if c == '&' then "&amp;".toList
  else if c == '<' then "&lt;".toList
  else if c == '>' then "&gt;".toList
  else if needsReference c then "&#x".toList ++ (Numeral.hexUpper c.toNat).toList ++ [';']
  else [c]

def escape (text : List Char) : List Char := text.flatMap escapeChar

def scalar? (code : UInt32) : Option Char := if code.toNat.isValidChar then some (Char.ofNat code.toNat) else none

/-- The character that a reference stands for, given what is between ampersand and semicolon. -/
def resolve (reference : List Char) : Except ReferenceFault Char :=
  if reference = "amp".toList then .ok '&'
  else if reference = "lt".toList then .ok '<'
  else if reference = "gt".toList then .ok '>'
  else if reference = "quot".toList then .ok (Char.ofNat 34)
  else if reference = "apos".toList then .ok (Char.ofNat 39)
  else
    let code :=
      match reference with
      | '#' :: 'x' :: digits => some (Numeral.word? 16 digits)
      | '#' :: digits => some (Numeral.word? 10 digits)
      | _ => none
    match code with
    | none => .error (.unknownEntity (String.ofList reference))
    | some code =>
      match code.bind scalar? with
      | some c => .ok c
      | none => .error (.invalidCharacter (String.ofList reference))

/-- Resolves references from left to right. Inside of one, `reference` holds its characters so far, last
first. -/
def unescapeFrom (whole : List Char) :
    (reference : Option (List Char)) → List Char → Except ReferenceFault (List Char)
  | none, [] => .ok []
  | some _, [] => .error (.unterminated (String.ofList whole))
  | none, c :: rest =>
    if c == '&' then unescapeFrom whole (some []) rest
    else (unescapeFrom whole none rest).map (c :: ·)
  | some reference, c :: rest =>
    if c == ';' then
      match resolve reference.reverse with
      | .ok found => (unescapeFrom whole none rest).map (found :: ·)
      | .error fault => .error fault
    else unescapeFrom whole (some (c :: reference)) rest

def unescape (text : List Char) : Except ReferenceFault (List Char) := unescapeFrom text none text

end Verbatim.Xml
