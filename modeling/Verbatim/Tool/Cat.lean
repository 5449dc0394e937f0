import Verbatim.Tool.Options
import Verbatim.Tool.Quoting

/-!
Joining files. Each operand is a file or the input, in order; lines can be numbered, blank lines squeezed
and bytes that are not seen made visible on the way.
-/

namespace Verbatim.Tool.Cat

def options : Options where
  letters := "AbeEnstTuv".toList
  words := [("number-nonblank", 'b'), ("number", 'n'), ("squeeze-blank", 's'), ("show-nonprinting", 'v'),
    ("show-ends", 'E'), ("show-tabs", 'T'), ("show-all", 'A')]

/-- What happens to the bytes on the way. -/
structure Style where
  numberAll : Bool
  numberFilled : Bool
  squeeze : Bool
  ends : Bool
  tabs : Bool
  unseen : Bool

def Style.ofOptions (given : List Char) : Style where
  numberFilled := given.contains 'b'
  numberAll := given.contains 'n' && !given.contains 'b'
  squeeze := given.contains 's'
  ends := given.any ("eEA".toList.contains ·)
  tabs := given.any ("tTA".toList.contains ·)
  unseen := given.any ("vetA".toList.contains ·)

/-- A byte with caret and meta notation for what is not seen. -/
def visible (c : Char) : Bytes :=
  let low (code : Nat) : Bytes :=
    if code < 32 then ['^', Char.ofNat (code + 64)] else if code = 127 then ['^', '?'] else [Char.ofNat code]
  if c.toNat < 128 then low c.toNat else 'M' :: '-' :: low (c.toNat - 128)

/-- Where the copy stands: the lines numbered so far, and how many line ends stand directly before it, if
it is at the start of a line. -/
structure Place where
  lines : Nat := 0
  ends : Option Nat := some 0

def lineNumber (number : Nat) : Bytes :=
  let digits := (Numeral.decimal number).toList
  List.replicate (6 - digits.length) ' ' ++ digits ++ ['\t']

/-- Copies bytes in a style behind what has been copied, which is held last byte first. -/
def copy (style : Style) : (place : Place) → (copied : Bytes) → Bytes → Bytes × Place
  | place, copied, [] => (copied.reverse, place)
  | place, copied, c :: rest =>
    let ends := (place.ends.map (· + 1)).getD 0
    if c == '\n' && style.squeeze && 2 ≤ ends then copy style { place with ends := some 2 } copied rest
    else
      let numbered := place.ends.isSome && (style.numberAll || style.numberFilled && c != '\n')
      let lines := if numbered then place.lines + 1 else place.lines
      let copied := if numbered then (lineNumber lines).reverse ++ copied else copied
      if c == '\n' then
        copy style ⟨lines, some (min ends 2)⟩ ('\n' :: if style.ends then '$' :: copied else copied) rest
      else
        let shown :=
          if c == '\t' then (if style.tabs then ['^', 'I'] else [c])
          else if style.unseen || c == '\r' && style.ends && rest.head? == some '\n' then visible c
          else [c]
        copy style ⟨lines, none⟩ (shown.reverse ++ copied) rest

def join (call : Call) (style : Style) :
    (place : Place) → (input : Bytes) → (failed : Bool) → List Bytes → Completion
  | _, input, failed, [] => { status := .code (if failed then 1 else 0), unread := input }
  | place, input, failed, name :: rest =>
    let found : Found := if name == ['-'] || name == bytesOf "/dev/stdin" then .file input else call.files.look name
    let input := if name == ['-'] || name == bytesOf "/dev/stdin" then [] else input
    let report (text : String) : Completion :=
      let done := join call style place input true rest
      { done with written := call.complaint (shownName name ++ bytesOf text) :: done.written }
    match found with
    | .nothing => report ": No such file or directory"
    | .directory => report ": Is a directory"
    | .throughFile => report ": Not a directory"
    | .tooLong => report ": File name too long"
    | .host _ => join call style place input failed rest
    | .endless => { duration := none }
    | .file content =>
      let (text, place) := copy style place [] content
      let done := join call style place input failed rest
      { done with written := (.output, text) :: done.written }

/-- Without operands, copies the input. Plain copies of the input are passed on as they are. -/
def cat : Program := fun call =>
  match options.scan call.arguments with
  | .error message => call.misused message
  | .ok given =>
    if given.options.isEmpty && given.operands.isEmpty then { written := [(.output, call.input)] }
    else
      join call (Style.ofOptions given.options) {} call.input false
        (if given.operands.isEmpty then [['-']] else given.operands)

end Verbatim.Tool.Cat
