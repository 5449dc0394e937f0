import Verbatim.Text.Utf8
import Verbatim.Xml.Cause

/-!
From a document to its pieces. Scanning alternates between text and markup and checks that end tags
match the open start tags; comments, declarations and document types are left out. Offsets count bytes:
that of a piece of markup is the byte behind it, that of a text the byte where markup follows.
-/

namespace Verbatim.Xml

def isSpace (c : Char) : Bool := c == ' ' || c == '\t' || c == '\r' || c == '\n'

/-- The inside of a start tag: the name, and the rest of it. -/
structure TagText where
  name : List Char
  attributes : List Char
deriving DecidableEq

inductive Event where
  | text (raw : List Char)
  | cdata (content : List Char)
  | start (tag : TagText)
  | empty (tag : TagText)
  | finish
deriving DecidableEq

/-- The pieces of a document with their offsets, up to its end or to the first fault. -/
inductive Stream where
  | done (offset : Nat)
  | fault (cause : Cause) (offset : Nat)
  | next (event : Event) (offset : Nat) (rest : Stream)
deriving DecidableEq

/-- One piece of markup: what it is, the offset behind it, the names that are open then, innermost
first, and the rest of the document. Pieces without meaning for a tree have no event. -/
inductive Markup where
  | done (offset : Nat)
  | fault (cause : Cause) (offset : Nat)
  | piece (event : Option Event) (offset : Nat) (names : List (List Char)) (rest : List Char)

inductive Bang where
  | comment
  | cdata
  | doctype
deriving DecidableEq

namespace Bang

def ofChar? (c : Char) : Option Bang :=
  if c == '[' then some .cdata
  else if c == '-' then some .comment
  else if c == 'D' || c == 'd' then some .doctype
  else none

def construct : Bang → Construct
  | .comment => .comment
  | .cdata => .cdata
  | .doctype => .doctype

/-- How such a piece must start, from the exclamation mark on. -/
def opening : Bang → List Char
  | .comment => "!--".toList
  | .cdata => "![CDATA[".toList
  | .doctype => "!DOCTYPE".toList

/-- Whether a bracket closes the piece whose characters so far are `seen`, last first. -/
def closes (seen : List Char) : Bang → Bool
  | .comment => seen.take 2 == ['-', '-'] && 4 < Utf8.size (seen.take 5)
  | .cdata => seen.take 2 == [']', ']']
  | .doctype => seen.count '<' == seen.count '>'

/-- Splits the rest of the document at the bracket that closes the piece. -/
def split? (bang : Bang) : (seen : List Char) → List Char → Option (List Char × List Char)
  | _, [] => none
  | seen, c :: rest =>
    if c == '>' && bang.closes seen then some (seen.reverse, rest) else bang.split? (c :: seen) rest

/-- Whether the piece starts as it must; only comments have no letters whose case could vary. -/
def opensWith (bang : Bang) (body : List Char) : Bool :=
  (body.take bang.opening.length).map Char.toUpper == bang.opening

end Bang

/-- The first byte of a character, taken for a character itself. -/
def leadSymbol (c : Char) : Char :=
  let code := c.toNat
  if code < 0x80 then c
  else if code < 0x800 then Char.ofNat (0xC0 + code / 0x40)
  else if code < 0x10000 then Char.ofNat (0xE0 + code / 0x1000)
  else Char.ofNat (0xF0 + code / 0x40000)

def scanBang (offset : Nat) (names : List (List Char)) (rest : List Char) : Markup :=
  match rest with
  | [] => .fault (.unexpectedEnd .bang) offset
  | c :: _ =>
    match Bang.ofChar? c with
    | none => .fault (.unknownBang (leadSymbol c)) offset
    | some bang =>
      match bang.split? ['!'] rest with
      | none => .fault (.unexpectedEnd bang.construct) offset
      | some (body, rest) =>
        let behind := offset + Utf8.size body + 1
        let inner := body.drop bang.opening.length
        if !bang.opensWith body then .fault (.unexpectedEnd bang.construct) behind
        else
          match bang with
          | .comment => .piece none behind names rest
          | .cdata => .piece (some (.cdata (inner.take (inner.length - 2)))) behind names rest
          | .doctype => if inner.all isSpace then .fault .emptyDoctype behind else .piece none behind names rest

def splitLoose (text : List Char) : List Char × Nat × List Char :=
  let body := text.takeWhile (· != '>')
  match text.dropWhile (· != '>') with
  | [] => (body, 0, [])
  | _ :: rest => (body, 1, rest)

/-- A declaration or instruction, from its question mark on. -/
def scanDeclaration (offset : Nat) (names : List (List Char)) (text : List Char) : Markup :=
  let (body, bracket, rest) := splitLoose text
  if 2 < Utf8.size body && body.getLast? == some '?' then .piece none (offset + Utf8.size body + bracket) names rest
  else .fault (.unexpectedEnd .declaration) (offset + bracket)

def trimName (text : List Char) : List Char :=
  let trimmed := (text.reverse.dropWhile isSpace).reverse
  if trimmed.isEmpty then text else trimmed

def scanEnd (offset : Nat) (names : List (List Char)) (text : List Char) : Markup :=
  let (body, bracket, rest) := splitLoose text
  let name := body.drop 1
  match names with
  | [] => .fault (.mismatchedEnd "" (String.ofList name)) (offset + bracket)
  | expected :: outer =>
    let name := trimName name
    if name = expected then .piece (some .finish) (offset + Utf8.size body + bracket) outer rest
    else .fault (.mismatchedEnd (String.ofList expected) (String.ofList name)) (offset + bracket)

/-- Splits a tag at its closing bracket, which stands outside of quotes. -/
def splitTag? : (quote : Option Char) → (seen : List Char) → List Char → Option (List Char × List Char)
  | _, _, [] => none
  | some mark, seen, c :: rest => splitTag? (if c = mark then none else some mark) (c :: seen) rest
  | none, seen, c :: rest =>
    if c == '>' then some (seen.reverse, rest)
    else splitTag? (if c.toNat = 34 || c.toNat = 39 then some c else none) (c :: seen) rest

def TagText.ofBody (body : List Char) : TagText :=
  ⟨body.takeWhile fun c => !isSpace c, body.dropWhile fun c => !isSpace c⟩

def scanTag (offset : Nat) (names : List (List Char)) (text : List Char) : Markup :=
  match splitTag? none [] text with
  | none => .fault (.unexpectedEnd .element) offset
  | some (body, rest) =>
    let behind := offset + Utf8.size body + 1
    if body.getLast? == some '/' then .piece (some (.empty (.ofBody body.dropLast))) behind names rest
    else
      let tag := TagText.ofBody body
      .piece (some (.start tag)) behind (tag.name :: names) rest

def scanMarkup (offset : Nat) (names : List (List Char)) : List Char → Markup
  | [] => .done offset
  | c :: rest =>
    if c == '!' then scanBang offset names rest
    else if c == '?' then scanDeclaration offset names (c :: rest)
    else if c == '/' then scanEnd offset names (c :: rest)
    else scanTag offset names (c :: rest)

def scanFrom : (fuel offset : Nat) → (names : List (List Char)) → List Char → Stream
  | 0, offset, _, _ | _ + 1, offset, _, [] => .done offset
  | fuel + 1, offset, names, c :: rest =>
    if c == '<' then
      match scanMarkup (offset + 1) names rest with
      | .done offset => .done offset
      | .fault cause offset => .fault cause offset
      | .piece none offset names rest => scanFrom fuel offset names rest
      | .piece (some event) offset names rest => .next event offset (scanFrom fuel offset names rest)
    else
      let raw := (c :: rest).takeWhile (· != '<')
      let behind := (c :: rest).dropWhile (· != '<')
      let place := offset + Utf8.size raw
      if behind.isEmpty then .next (.text raw) (place - 1) (.done place)
      else .next (.text raw) place (scanFrom fuel place names behind)

/-- The pieces of a document. A byte order mark in front is not part of it. -/
def scan (document : String) : Stream :=
  match document.toList with
  | [] => .done 0
  | c :: rest =>
    if c.toNat = 0xFEFF then scanFrom rest.length 0 [] rest else scanFrom (rest.length + 1) 0 [] (c :: rest)

end Verbatim.Xml
