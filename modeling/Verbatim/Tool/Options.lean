import Verbatim.Tool.Program

/-!
Options of programs. An option is a letter behind a hyphen, with more of them in the same argument, or a
word behind two hyphens, which may be shortened as long as it stays clear. Two hyphens end the options.
-/

namespace Verbatim.Tool

/-- The options that a program knows. Words stand for letters. -/
structure Options where
  letters : List Char := []
  words : List (String × Char) := []
  /-- Whether options may follow operands. -/
  anywhere : Bool := true

structure Given where
  options : List Char := []
  operands : List Bytes := []

namespace Options

def unknownLetter? (known : Options) (letters : List Char) : Option Bytes :=
  (letters.find? fun letter => !known.letters.contains letter).map fun letter =>
    bytesOf "invalid option -- '" ++ [letter] ++ bytesOf "'"

/-- The letter that a word stands for, or what is wrong with the word. -/
def word (known : Options) (text : Bytes) : Except Bytes Char :=
  let name := text.takeWhile (· != '=')
  let hits := known.words.filter fun (full, _) => name.isPrefixOf full.toList
  match hits.find? (fun (full, _) => full.toList == name) <|> (if hits.length = 1 then hits.head? else none) with
  | some (full, letter) =>
    if name.length = text.length then .ok letter
    else .error (bytesOf ("option '--" ++ full ++ "' doesn't allow an argument"))
  | none =>
    if hits.isEmpty then .error (bytesOf "unrecognized option '--" ++ text ++ bytesOf "'")
    else
      .error (bytesOf "option '--" ++ text ++ bytesOf "' is ambiguous; possibilities:" ++
        hits.flatMap fun (full, _) => bytesOf (" '--" ++ full ++ "'"))

/-- Sorts arguments into options and operands, or says what is wrong with the first bad one. -/
def scan (known : Options) : List Bytes → Except Bytes Given
  | [] => .ok {}
  | ['-', '-'] :: rest => .ok { operands := rest }
  | ('-' :: '-' :: text) :: rest => do
    let letter ← known.word text
    let given ← known.scan rest
    return { given with options := letter :: given.options }
  | ('-' :: letter :: letters) :: rest =>
    match known.unknownLetter? (letter :: letters) with
    | some message => .error message
    | none => do
      let given ← known.scan rest
      return { given with options := letter :: letters ++ given.options }
  | operand :: rest =>
    if known.anywhere then do
      let given ← known.scan rest
      return { given with operands := operand :: given.operands }
    else .ok { operands := operand :: rest }

end Options

end Verbatim.Tool
