import Verbatim.Tool.Program

/-!
Names and arguments in the messages of programs. An argument is shown in quotes, with escapes for what
would not be seen; a name of a file is shown as a shell would read it, in quotes only where it needs them.
-/

namespace Verbatim.Tool

def escapeLetter? (c : Char) : Option Char :=
  match c.toNat with
  | 7 => some 'a'
  | 8 => some 'b'
  | 9 => some 't'
  | 10 => some 'n'
  | 11 => some 'v'
  | 12 => some 'f'
  | 13 => some 'r'
  | _ => none

def octalCode (c : Char) : Bytes :=
  let digit (value : Nat) := Char.ofNat (48 + value % 8)
  [digit (c.toNat / 64), digit (c.toNat / 8), digit c.toNat]

def isPrinting (c : Char) : Bool := 32 ≤ c.toNat && c.toNat < 127

def unseenEscape (c : Char) : Bytes :=
  '\\' :: match escapeLetter? c with
    | some letter => [letter]
    | none => octalCode c

def quotedArgument (argument : Bytes) : Bytes :=
  let shown := argument.flatMap fun c =>
    if c == '\x27' || c == '\\' then ['\\', c] else if isPrinting c then [c] else unseenEscape c
  '\x27' :: shown ++ ['\x27']

/-- Whether a shell would not read a name as itself, one byte at a time. -/
def isSpecial (alone : Bool) (first : Bool) (c : Char) : Bool :=
  !isPrinting c || " !\x22$&'()*;<=>?[\\^\x60|".toList.contains c || first && "#~".toList.contains c ||
    alone && "\x7b\x7d".toList.contains c

/-- Whether a byte stands for itself between double quotes too. -/
def isPlain (c : Char) : Bool := c.isAlphanum || " '%+,-./:]_#~\x7b\x7d".toList.contains c

/-- A name between single quotes. `escaping` tells that the end of what is written is inside of the
quotes for escapes. -/
def singleQuoted : (escaping : Bool) → Bytes → Bytes
  | _, [] => []
  | escaping, c :: rest =>
    if isPrinting c then
      (if escaping then bytesOf "''" else []) ++ (if c == '\x27' then bytesOf "'\\''" else [c]) ++
        singleQuoted false rest
    else (if escaping then [] else bytesOf "'$'") ++ unseenEscape c ++ singleQuoted true rest

def shownName (name : Bytes) : Bytes :=
  let special := name.isEmpty || (name.head?.any (isSpecial (name.length = 1) true)) ||
    (name.drop 1).any (isSpecial false false)
  if !special then name
  else if name.contains '\x27' && name.all isPlain then '\x22' :: name ++ ['\x22']
  else '\x27' :: singleQuoted false name ++ ['\x27']

end Verbatim.Tool
