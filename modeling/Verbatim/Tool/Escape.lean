import Verbatim.Tool.Program

/-!
Backslash sequences in arguments. Programs agree on the letters for control characters and on octal codes
and differ in the details, which a record of rules holds.
-/

namespace Verbatim.Tool

/-- How a program reads what stands behind a backslash. -/
structure EscapeRules where
  letters : List Char
  /-- Whether a zero in front of three octal digits is not counted among them. -/
  longOctal : Bool
  /-- Whether a `c` ends the text. -/
  stops : Bool
  /-- Whether an `x` starts a hexadecimal code. -/
  hex : Bool := false
  /-- Whether a hexadecimal code has to have digits, and codes of characters are read. -/
  codes : Bool := false
  /-- Whether a backslash that starts no sequence keeps the byte behind it from being read again. -/
  covers : Bool := true

/-- What a sequence comes to: bytes and what follows, the end of the text, or a complaint. -/
inductive Escaped where
  | bytes (text rest : Bytes)
  | stop
  | flaw (message : Bytes)

def letterValue (letter : Char) : Char :=
  match letter with
  | 'a' => Char.ofNat 7
  | 'b' => Char.ofNat 8
  | 'e' => Char.ofNat 27
  | 'f' => Char.ofNat 12
  | 'n' => '\n'
  | 'r' => '\r'
  | 't' => '\t'
  | 'v' => Char.ofNat 11
  | other => other

def leadingDigits (base count : Nat) (text : Bytes) : Bytes :=
  (text.take count).takeWhile fun c => (Numeral.digit? base c).isSome

def byteOfDigits (base : Nat) (digits : Bytes) : Char :=
  Char.ofNat ((Numeral.digits? base 0 digits).getD 0 % 256)

/-- A character given by `count` hexadecimal digits, written as plain ASCII allows. -/
def characterCode (letter : Char) (count : Nat) (rest : Bytes) : Escaped :=
  let digits := leadingDigits 16 count rest
  let code := (Numeral.digits? 16 0 digits).getD 0
  let wide (size : Nat) : Bytes :=
    let shown := (Numeral.hexUpper code).toList
    List.replicate (size - shown.length) '0' ++ shown
  if digits.length < count then .flaw (bytesOf "missing hexadecimal number in escape")
  else if code = 0x24 || code = 0x40 || code = 0x60 then .bytes [Char.ofNat code] (rest.drop count)
  else if code ≤ 0x9F || 0xD800 ≤ code && code ≤ 0xDFFF then
    .flaw (bytesOf "invalid universal character name \\" ++ letter :: digits.map Char.toLower)
  else if code < 0x10000 then .bytes ('\\' :: 'u' :: wide 4) (rest.drop count)
  else .bytes ('\\' :: 'U' :: wide 8) (rest.drop count)

def EscapeRules.read (rules : EscapeRules) (behind : Bytes) : Escaped :=
  match behind with
  | [] => .bytes ['\\'] []
  | letter :: rest =>
    if letter == 'c' && rules.stops then .stop
    else if (Numeral.digit? 8 letter).isSome then
      let start := if letter == '0' && rules.longOctal then rest else behind
      let digits := leadingDigits 8 3 start
      .bytes [byteOfDigits 8 digits] (start.drop digits.length)
    else if letter == 'x' && rules.hex then
      let digits := leadingDigits 16 2 rest
      if !digits.isEmpty then .bytes [byteOfDigits 16 digits] (rest.drop digits.length)
      else if rules.codes then .flaw (bytesOf "missing hexadecimal number in escape")
      else .bytes ['\\', 'x'] rest
    else if letter == 'u' && rules.codes then characterCode letter 4 rest
    else if letter == 'U' && rules.codes then characterCode letter 8 rest
    else if rules.letters.contains letter then .bytes [letterValue letter] rest
    else if rules.covers then .bytes ['\\', letter] rest
    else .bytes ['\\'] behind

/-- A text with its sequences replaced, and how it ended: at its end, at a stop, or with a complaint. -/
structure Unescaped where
  text : Bytes
  stopped : Bool := false
  flaw : Option Bytes := none

def EscapeRules.unescapeFrom (rules : EscapeRules) : (fuel : Nat) → Bytes → Unescaped
  | 0, _ | _ + 1, [] => ⟨[], false, none⟩
  | fuel + 1, c :: rest =>
    let behind (text rest : Bytes) : Unescaped :=
      let last := unescapeFrom rules fuel rest
      { last with text := text ++ last.text }
    if c == '\\' then
      match rules.read rest with
      | .bytes text rest => behind text rest
      | .stop => ⟨[], true, none⟩
      | .flaw message => ⟨[], true, some message⟩
    else behind [c] rest

def EscapeRules.unescape (rules : EscapeRules) (text : Bytes) : Unescaped := rules.unescapeFrom (text.length + 1) text

end Verbatim.Tool
