import Verbatim.Tool.Escape
import Verbatim.Tool.Format
import Verbatim.Tool.Quoting

/-!
Printing arguments by a format. The format is used again until no arguments are left; what is missing
counts as empty or zero. Two dialects of formats differ in details, which a record holds.
-/

namespace Verbatim.Tool

/-- What has been printed, last part first, and what is left to print. -/
structure Printing where
  arguments : List Bytes
  written : List (Outlet × Bytes) := []
  failed : Bool := false
  /-- Whether something could not be printed. -/
  lost : Bool := false
  /-- The status with which printing has ended before its time. -/
  ended : Option Nat := none

structure FormatDialect where
  formatEscapes : EscapeRules
  argumentEscapes : EscapeRules
  flags : List Char
  /-- Letters that may stand in front of the last one without a meaning. -/
  sizes : List Char := []
  /-- Whether a directive is one of the dialect. -/
  allows : Template → Char → Bool
  refusal : Template → Bytes
  refusalStatus : Nat
  /-- The binary digits with which numbers that are not whole are held. -/
  bits : Nat
  /-- Such numbers are less than this power of two. -/
  range : Nat
  /-- Whether sizes that arguments give are cut to 32 bits, or have to fit in them. -/
  cutsSizes : Bool
  /-- How printing goes on behind a directive that is too wide to be printed. -/
  tooWide : Printing → Printing
  shown : Bytes → Bytes
  notNumber : String
  partNumber : String
  /-- Whether a complaint counts no more once printing is told to stop. -/
  stopForgives : Bool
  /-- Whether more than one character behind an apostrophe is worth a warning. -/
  warns : Bool

namespace Printing

def say (state : Printing) (text : Bytes) : Printing := { state with written := (.output, text) :: state.written }

def warn (state : Printing) (text : Bytes) : Printing := { state with written := (.errors, text) :: state.written }

def complain (state : Printing) (text : Bytes) : Printing := { state.warn text with failed := true }

def next (state : Printing) : Option Bytes × Printing :=
  (state.arguments.head?, { state with arguments := state.arguments.drop 1 })

/-- Ends where the format or an argument says so. -/
def stop (dialect : FormatDialect) (state : Printing) : Printing :=
  { state with ended := some 0, failed := state.failed && !dialect.stopForgives }

def characterConstant? (dialect : FormatDialect) (state : Printing) (argument : Bytes) : Option (Nat × Printing) :=
  let isMark (c : Char) : Bool := c == '\x27' || c == '\x22'
  match argument with
  | [mark] => if isMark mark && !dialect.warns then some (0, state) else none
  | mark :: c :: more =>
    if !isMark mark then none
    else if dialect.warns && !more.isEmpty then
      some (c.toNat, state.warn (bytesOf "warning: " ++ more ++
        bytesOf ": character(s) following character constant have been ignored"))
    else some (c.toNat, state)
  | [] => none

/-- Complains about a number that does not fill its argument or leaves the range. -/
def check (dialect : FormatDialect) (state : Printing) (argument : Bytes) (rest : Option Bytes) (fits : Bool) :
    Printing :=
  let about (text : String) := state.complain (dialect.shown argument ++ bytesOf (": " ++ text))
  match rest with
  | none => if argument.isEmpty then state else about dialect.notNumber
  | some rest =>
    if !fits && (dialect.warns || rest.isEmpty) then about "Numerical result out of range"
    else if rest.isEmpty then state
    else about dialect.partNumber

/-- The whole number that an argument gives, within 64 bits; without a sign, negative ones count from above. -/
def integer (dialect : FormatDialect) (signed : Bool) (state : Printing) (argument : Bytes) : Int × Printing :=
  match characterConstant? dialect state argument with
  | some (code, state) => ((code : Int), state)
  | none =>
    match integerAhead? argument with
    | none => (0, state.check dialect argument none true)
    | some (value, rest) =>
      let top : Int := if signed then 9223372036854775807 else 18446744073709551615
      let low : Int := if signed then -9223372036854775808 else -18446744073709551615
      let fits := low ≤ value && value ≤ top
      let value := if fits then value else if value < 0 && signed then low else top
      let value := if value < 0 && !signed then value + 18446744073709551616 else value
      (value, state.check dialect argument (some rest) fits)

def quantity (dialect : FormatDialect) (state : Printing) (argument : Bytes) : Quantity × Printing :=
  match characterConstant? dialect state argument with
  | some (code, state) => (.finite false code 1, state)
  | none =>
    match quantityAhead? argument with
    | none => (.finite false 0 1, state.check dialect argument none true)
    | some (value, rest) =>
      let (value, fits) := value.within dialect.range
      (value, state.check dialect argument (some rest) fits)

def extent (dialect : FormatDialect) (state : Printing) (what : String) (least : Int) :
    Option Extent → Option Int × Printing
  | none => (none, state)
  | some (.fixed size) => (some size, state)
  | some .argument =>
    let (argument, state) := state.next
    let argument := argument.getD []
    let (size, state) := integer dialect true state argument
    if dialect.cutsSizes then (some (Int32.ofInt size).toInt, state)
    else if least ≤ size && size ≤ Int32.maxValue.toInt then (some size, state)
    else
      let message := bytesOf ("invalid " ++ what ++ ": ") ++ dialect.shown argument
      (none, { state.complain message with ended := some dialect.refusalStatus })

def print (dialect : FormatDialect) (state : Printing) (directive : Directive) : Printing :=
  let (given, state) := state.next
  let argument := given.getD []
  match directive.letter with
  | 's' => state.say (directive.text argument)
  | 'q' => state.say ((given.map shownName).getD [])
  | 'b' =>
    let shown := dialect.argumentEscapes.unescape argument
    let state := state.say (directive.text shown.text)
    match shown.flaw with
    | some message => { state.complain message with ended := some dialect.refusalStatus }
    | none => if shown.stopped then state.stop dialect else state
  | 'c' => state.say (directive.pad [argument.headD (Char.ofNat 0)])
  | 'd' | 'i' | 'o' | 'u' | 'x' | 'X' =>
    let (value, state) := state.integer dialect (directive.letter == 'd' || directive.letter == 'i') argument
    state.say (directive.integer value)
  | _ =>
    let (value, state) := state.quantity dialect argument
    state.say (directive.quantity dialect.bits value)

def directive (dialect : FormatDialect) (state : Printing) (template : Template) (letter : Char) : Printing :=
  let (width, state) := state.extent dialect "field width" Int32.minValue.toInt template.width
  let (precision, state) :=
    if state.ended.isSome then (none, state)
    else state.extent dialect "precision" Int64.minValue.toInt template.precision
  let isTooWide := Int32.maxValue.toInt < (width.getD 0).natAbs || Int32.maxValue.toInt < precision.getD 0
  let flags := if width.any (· < 0) then '-' :: template.flags else template.flags
  let precision := precision.bind fun size => if size < 0 then none else some size.toNat
  if state.ended.isSome then state
  else if isTooWide then dialect.tooWide state.next.2
  else state.print dialect ⟨flags, (width.getD 0).natAbs, precision, letter⟩

def once (dialect : FormatDialect) : (fuel : Nat) → (format : Bytes) → Printing → Printing
  | 0, _, state | _ + 1, [], state => state
  | fuel + 1, c :: rest, state =>
    if state.ended.isSome then state
    else if c == '\\' then
      match dialect.formatEscapes.read rest with
      | .bytes text rest => once dialect fuel rest (state.say text)
      | .stop => state.stop dialect
      | .flaw message => { state.complain message with ended := some dialect.refusalStatus }
    else if c != '%' then once dialect fuel rest (state.say [c])
    else if rest.head? == some '%' then once dialect fuel (rest.drop 1) (state.say [c])
    else
      let template := Template.read dialect.flags dialect.sizes rest
      match template.letter.filter (dialect.allows template) with
      | some letter => once dialect fuel template.rest (state.directive dialect template letter)
      | none => { state.complain (dialect.refusal template) with ended := some dialect.refusalStatus }

/-- Prints a format until no arguments are left or it asks for none. -/
def all (dialect : FormatDialect) (format : Bytes) : (fuel : Nat) → Printing → Printing
  | 0, state => state
  | fuel + 1, state =>
    let count := state.arguments.length
    let state := once dialect (format.length + 1) format state
    if state.ended.isSome || state.arguments.isEmpty || state.arguments.length = count then state
    else all dialect format fuel state

def run (dialect : FormatDialect) (format : Bytes) (arguments : List Bytes) : Printing :=
  all dialect format (arguments.length + 1) { arguments := arguments }

def status (state : Printing) : Nat := if state.failed then max 1 (state.ended.getD 1) else 0

end Printing

namespace Printf

def escapes : EscapeRules where
  letters := "\x22\\abefnrtv".toList
  longOctal := false
  stops := true
  hex := true
  codes := true

/-- Flags and sizes go with some letters only. -/
def allows (template : Template) (letter : Char) : Bool :=
  let without (flags letters : String) : Bool :=
    !(flags.toList.any (template.flags.contains ·) && letters.toList.contains letter)
  if letter == 'b' || letter == 'q' then template.spelling.length = 2
  else
    "diouxXfFeEgGcs".toList.contains letter && without "'I" "aAceEosxX" && without "#" "cdisu" && without "0" "cs" &&
      !(template.precision.isSome && letter == 'c')

def dialect : FormatDialect where
  formatEscapes := escapes
  argumentEscapes := { escapes with longOctal := true }
  flags := "I'-+ #0".toList
  sizes := "lLhjtz".toList
  allows := allows
  refusal := fun template => template.spelling ++ bytesOf ": invalid conversion specification"
  refusalStatus := 1
  bits := 64
  range := 16384
  cutsSizes := false
  tooWide := fun state => { state with lost := true, failed := true }
  shown := quotedArgument
  notNumber := "expected a numeric value"
  partNumber := "value not completely converted"
  stopForgives := true
  warns := true

/-- Arguments that a format does not ask for are worth a warning. -/
def printf : Program := fun call =>
  match (if call.arguments.head? == some ['-', '-'] then call.arguments.drop 1 else call.arguments) with
  | [] => call.misused (bytesOf "missing operand")
  | format :: arguments =>
    let done := Printing.run dialect format arguments
    let done :=
      match done.ended, done.arguments with
      | none, argument :: _ =>
        done.warn (bytesOf "warning: ignoring excess arguments, starting with " ++ quotedArgument argument)
      | _, _ => done
    let done := if done.lost then done.warn (bytesOf "write error") else done
    let written := done.written.reverse.map fun (outlet, text) =>
      if outlet = .errors then call.complaint text else (outlet, text)
    { status := .code done.status, written := written, unread := call.input }

end Printf

end Verbatim.Tool
