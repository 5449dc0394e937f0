/-!
Text as bytes. Offsets into a text count the bytes of its UTF-8 form. A slice between two offsets
exists only where both stand between characters.
-/

namespace Verbatim.Utf8

def size (text : List Char) : Nat := text.foldr (fun c bytes => c.utf8Size + bytes) 0

/-- The text between two byte offsets. There is none where the offsets cross, leave the text or
stand inside a character. -/
def slice? (text : String) (first last : Nat) : Option String :=
  if first ≤ last && last ≤ text.utf8ByteSize then String.fromUTF8? (text.toUTF8.extract first last) else none

/-- How bytes fail to be text: the first `valid` bytes are, and then `length` bytes belong to no
character; without a length the bytes end inside one. -/
structure Flaw where
  valid : Nat
  length : Option Nat
deriving DecidableEq

def Flaw.message (flaw : Flaw) : String :=
  match flaw.length with
  | some length => s!"invalid utf-8 sequence of {length} bytes from index {flaw.valid}"
  | none => s!"incomplete utf-8 byte sequence from index {flaw.valid}"

/-- What stands at the front of a byte sequence. -/
inductive Front where
  | character (c : Char) (rest : List UInt8)
  | invalid (length : Nat)
  | incomplete
deriving DecidableEq

/-- The bytes that may follow a leading byte: their number, the range of the first of them and the
bits that the leading byte contributes. The range keeps out codes that a shorter form has,
surrogates and codes beyond the last one. -/
def lead? (byte : UInt8) : Option (Nat × UInt8 × UInt8 × Nat) :=
  let code := byte.toNat
  if 0xC2 ≤ code && code ≤ 0xDF then some (1, 0x80, 0xBF, code - 0xC0)
  else if code = 0xE0 then some (2, 0xA0, 0xBF, 0)
  else if code = 0xED then some (2, 0x80, 0x9F, code - 0xE0)
  else if 0xE1 ≤ code && code ≤ 0xEF then some (2, 0x80, 0xBF, code - 0xE0)
  else if code = 0xF0 then some (3, 0x90, 0xBF, 0)
  else if 0xF1 ≤ code && code ≤ 0xF3 then some (3, 0x80, 0xBF, code - 0xF0)
  else if code = 0xF4 then some (3, 0x80, 0x8F, 4)
  else none

/-- Reads `missing` more bytes of a character of which `taken` bytes have been read. The next byte
lies between `low` and `high`, the ones after it in the common range. -/
def continued : (missing taken : Nat) → (low high : UInt8) → (code : Nat) → List UInt8 → Front
  | 0, _, _, _, code, rest => .character (Char.ofNat code) rest
  | _ + 1, _, _, _, _, [] => .incomplete
  | missing + 1, taken, low, high, code, byte :: rest =>
    if low ≤ byte && byte ≤ high then
      continued missing (taken + 1) 0x80 0xBF (code * 64 + (byte.toNat - 0x80)) rest
    else .invalid taken

/-- The first character of a nonempty byte sequence, or how it fails. -/
def front (byte : UInt8) (rest : List UInt8) : Front :=
  if byte < 0x80 then .character (Char.ofNat byte.toNat) rest
  else
    match lead? byte with
    | some (missing, low, high, code) => continued missing 1 low high code rest
    | none => .invalid 1

/-- Walks over at most `fuel` characters that start at offset `index`. -/
def flawFrom? : (fuel index : Nat) → List UInt8 → Option Flaw
  | 0, _, _ | _ + 1, _, [] => none
  | fuel + 1, index, byte :: rest =>
    match front byte rest with
    | .character c rest => flawFrom? fuel (index + c.utf8Size) rest
    | .invalid length => some ⟨index, some length⟩
    | .incomplete => some ⟨index, none⟩

def flaw? (bytes : ByteArray) : Option Flaw := flawFrom? bytes.size 0 bytes.toList

/-- The mark that stands for bytes of no character. -/
def replacement : Char := Char.ofNat 0xFFFD

/-- Decodes at most `fuel` characters and writes the mark for each invalid sequence. -/
def lossyFrom : (fuel : Nat) → List UInt8 → List Char
  | 0, _ | _ + 1, [] => []
  | fuel + 1, byte :: rest =>
    match front byte rest with
    | .character c rest => c :: lossyFrom fuel rest
    | .invalid length => replacement :: lossyFrom fuel (rest.drop (length - 1))
    | .incomplete => [replacement]

/-- Bytes as text, whatever they are. -/
def lossy (bytes : ByteArray) : String := String.ofList (lossyFrom bytes.size bytes.toList)

def decode (bytes : ByteArray) : Except Flaw String :=
  match String.fromUTF8? bytes with
  | some text => .ok text
  | none => .error ((flaw? bytes).getD ⟨0, none⟩)

end Verbatim.Utf8
