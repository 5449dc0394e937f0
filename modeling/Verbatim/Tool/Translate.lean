import Verbatim.Tool.Escape
import Verbatim.Tool.Options
import Verbatim.Tool.Quoting

/-!
Replacing, deleting and squeezing bytes. The bytes are given by sets: single bytes, ranges, classes, and
repetitions that make a second set as long as the first.
-/

namespace Verbatim.Tool.Translate

inductive Item where
  | single (c : Char)
  | range (low high : Char)
  | group (name : String)
  | equivalent (c : Char)
  /-- A byte a number of times, or as often as it takes. -/
  | repeated (c : Char) (count : Nat)
deriving DecidableEq

def classes : List (String × (Char → Bool)) :=
  let isGraph (c : Char) : Bool := 33 ≤ c.toNat && c.toNat ≤ 126
  [("alnum", Char.isAlphanum), ("alpha", Char.isAlpha), ("blank", fun c => c == ' ' || c == '\t'),
   ("cntrl", fun c => c.toNat < 32 || c.toNat = 127), ("digit", Char.isDigit), ("graph", isGraph),
   ("lower", Char.isLower), ("print", fun c => c == ' ' || isGraph c),
   ("punct", fun c => isGraph c && !c.isAlphanum),
   ("space", fun c => c == ' ' || 9 ≤ c.toNat && c.toNat ≤ 13), ("upper", Char.isUpper),
   ("xdigit", fun c => (Numeral.digit? 16 c).isSome)]

def allBytes : Bytes := (List.range 256).map Char.ofNat

def Item.members : Item → Bytes
  | .single c | .equivalent c => [c]
  | .range low high => (List.range (high.toNat + 1 - low.toNat)).map fun step => Char.ofNat (low.toNat + step)
  | .group name => allBytes.filter ((classes.lookup name).getD fun _ => false)
  | .repeated c count => List.replicate count c

/-- A set as it is read: its bytes, each with whether a backslash stood before it, and warnings. -/
structure Spelled where
  bytes : List (Char × Bool) := []
  warnings : List Bytes := []

/-- Reads the backslash sequences of at most `fuel` bytes of a set. -/
def spell : (fuel : Nat) → Bytes → Spelled
  | 0, _ | _ + 1, [] => {}
  | fuel + 1, c :: rest =>
    let behind (c : Char) (escaped : Bool) (rest : Bytes) (warnings : List Bytes) : Spelled :=
      let last := spell fuel rest
      ⟨(c, escaped) :: last.bytes, warnings ++ last.warnings⟩
    if c != '\\' then behind c false rest []
    else
      let digits := leadingDigits 8 3 rest
      let value := (Numeral.digits? 8 0 digits).getD 0
      match rest with
      | [] => behind c false [] [bytesOf "warning: an unescaped backslash at end of string is not portable"]
      | letter :: after =>
        if digits.isEmpty then
          behind (if "abfnrtv".toList.contains letter then letterValue letter else letter) true after []
        else if value < 256 then behind (Char.ofNat value) true (rest.drop digits.length) []
        else
          let warning := bytesOf "warning: the ambiguous octal escape \\" ++ digits ++
            bytesOf " is being\n\tinterpreted as the 2-byte sequence \\0" ++ digits.take 2 ++ bytesOf ", " ++ digits.drop 2
          behind (byteOfDigits 8 (digits.take 2)) true (rest.drop 2) [warning]

def shownByte (c : Char) : Bytes :=
  if c == '\\' then ['\\', c] else if isPrinting c then [c] else unseenEscape c

/-- What stands between an opening and the closing delimiter with a bracket, and what follows. -/
def delimited? (delimiter : Char) : List (Char × Bool) → Option (Bytes × List (Char × Bool))
  | (c, false) :: (']', false) :: rest =>
    if c == delimiter then some ([], rest)
    else (delimited? delimiter ((']', false) :: rest)).map fun (inside, rest) => (c :: inside, rest)
  | (c, _) :: rest => (delimited? delimiter rest).map fun (inside, rest) => (c :: inside, rest)
  | [] => none

/-- The count of a repetition, up to its closing bracket, and what follows. -/
def repetition? (bytes : List (Char × Bool)) : Option (Bytes × List (Char × Bool)) :=
  let digits := bytes.takeWhile fun (c, escaped) => !escaped && c != ']'
  match bytes.drop digits.length with
  | (']', false) :: rest => some (digits.map (·.1), rest)
  | _ => none

/-- The item in front and what follows it, or what is wrong with it. -/
def itemAhead (first : Char × Bool) (rest : List (Char × Bool)) : Except Bytes (Item × List (Char × Bool)) :=
  let plain : Except Bytes (Item × List (Char × Bool)) :=
    match rest with
    | ('-', false) :: (high, _) :: after =>
      if first.1 ≤ high then .ok (.range first.1 high, after)
      else
        .error (bytesOf "range-endpoints of '" ++ shownByte first.1 ++ '-' :: shownByte high ++
          bytesOf "' are in reverse collating sequence order")
    | _ => .ok (.single first.1, rest)
  let repeated : Except Bytes (Item × List (Char × Bool)) :=
    match rest with
    | (c, _) :: ('*', false) :: after =>
      match repetition? after with
      | some (digits, after) =>
        match Numeral.digits? (if digits.head? == some '0' then 8 else 10) 0 digits with
        | some count => .ok (.repeated c count, after)
        | none =>
          .error (bytesOf "invalid repeat count " ++ quotedArgument digits ++ bytesOf " in [c*n] construct")
      | none => plain
    | _ => plain
  if first != ('[', false) then plain
  else
    match rest with
    | (':', false) :: after =>
      match delimited? ':' after with
      | some (name, after) =>
        if name.isEmpty then .error (bytesOf "missing character class name '[::]'")
        else if (classes.lookup (String.ofList name)).isSome then .ok (.group (String.ofList name), after)
        else .error (bytesOf "invalid character class " ++ quotedArgument name)
      | none => repeated
    | ('=', false) :: after =>
      match delimited? '=' after with
      | some (name, after) =>
        match name with
        | [] => .error (bytesOf "missing equivalence class character '[==]'")
        | [c] => .ok (.equivalent c, after)
        | name => .error (name ++ bytesOf ": equivalence class operand must be a single character")
      | none => repeated
    | _ => repeated

/-- The items of at most `fuel` parts of a set. The last two bytes stand for themselves. -/
def itemsFrom : (fuel : Nat) → List (Char × Bool) → Except Bytes (List Item)
  | 0, _ => .ok []
  | fuel + 1, bytes =>
    match bytes with
    | first :: second :: third :: rest => do
      let (item, rest) ← itemAhead first (second :: third :: rest)
      let items ← itemsFrom fuel rest
      return item :: items
    | bytes => .ok (bytes.map fun (c, _) => .single c)

structure Plan where
  complement : Bool
  delete : Bool
  squeeze : Bool
  truncate : Bool

def isCase (item : Item) : Bool := item = .group "upper" || item = .group "lower"

/-- The offsets at which classes of letters of one case start. -/
def caseOffsets : (offset : Nat) → List Item → List Nat
  | _, [] => []
  | offset, item :: rest =>
    let later := caseOffsets (offset + item.members.length) rest
    if isCase item then offset :: later else later

def membersOf (items : List Item) : Bytes := items.flatMap Item.members

def firstSet (plan : Plan) (items : List Item) : Bytes :=
  if plan.complement then
    let members := membersOf items
    allBytes.filter fun c => !members.contains c
  else membersOf items

/-- Replaces the repetition without a count by one that fills up to a length. -/
def filled (length : Nat) (items : List Item) : List Item :=
  let missing := length - (membersOf items).length
  items.map fun item =>
    match item with
    | .repeated c 0 => .repeated c missing
    | item => item

def isFill (item : Item) : Bool :=
  match item with
  | .repeated _ 0 => true
  | _ => false

def replacementFault? (plan : Plan) (first second : List Item) (source : Bytes) : Option String :=
  let target := membersOf second
  let isOther (item : Item) : Bool :=
    match item with
    | .group _ => !isCase item
    | _ => false
  let hasClass := first.any fun item => isCase item || isOther item
  if second.any fun item => match item with | .equivalent _ => true | _ => false then
    some "[=c=] expressions may not appear in string2 when translating"
  else if second.any isOther then
    some "when translating, the only character classes that may appear in\nstring2 are 'upper' and 'lower'"
  else if !plan.complement && (caseOffsets 0 second).any (fun offset =>
      offset ≤ source.length && !(caseOffsets 0 first).contains offset) then
    some "misaligned [:upper:] and/or [:lower:] construct"
  else if target.length < source.length && !plan.truncate && target.isEmpty then
    some "when not truncating set1, string2 must be non-empty"
  else if target.length < source.length && !plan.truncate && second.getLast?.any isCase then
    some "when translating with string1 longer than string2,\nthe latter string must not end with a character class"
  else if plan.complement && hasClass && !(target.all (some · == target.head?)) then
    some "when translating with complemented character classes,\nstring2 must map all characters in the domain to one"
  else none

/-- Leaves one of several equal bytes of a set in a row. `last` is the byte before, if it is in the set;
what has been kept is held last byte first. -/
def squeezed (members : Array Bool) : (last : Option Char) → (kept : Bytes) → Bytes → Bytes
  | _, kept, [] => kept.reverse
  | last, kept, c :: rest =>
    if last == some c then squeezed members last kept rest
    else squeezed members (if members.getD c.toNat false then some c else none) (c :: kept) rest

def tableOf (members : Bytes) : Array Bool :=
  members.foldl (fun table c => table.setIfInBounds c.toNat true) (Array.replicate 256 false)

/-- The table of replacements; of two for one byte the later one counts, and the last target is used
again as needed. -/
def replacements (plan : Plan) (source target : Bytes) : Array Char :=
  let last := target.getLastD ' '
  let source := if plan.truncate then source.take target.length else source
  let target := target ++ List.replicate (source.length - target.length) last
  (source.zip target).foldl (fun table (c, d) => table.setIfInBounds c.toNat d) (allBytes.toArray)

def apply (plan : Plan) (first : List Item) (second : Option (List Item)) (input : Bytes) :
    Except String Bytes :=
  let source := firstSet plan first
  let sourceTable := tableOf source
  let deleted := if plan.delete then input.filter (fun c => !sourceTable.getD c.toNat false) else input
  if first.any isFill then .error "the [c*] repeat construct may not appear in string1"
  else
    match second with
    | none => .ok (if plan.squeeze then squeezed sourceTable none [] deleted else deleted)
    | some second =>
      if 1 < (second.filter isFill).length then .error "only one [c*] repeat construct may appear in string2"
      else if plan.delete then
        if second.any isFill then .error "the [c*] construct may appear in string2 only when translating"
        else .ok (squeezed (tableOf (membersOf second)) none [] deleted)
      else
        let second := filled source.length second
        let target := membersOf second
        match replacementFault? plan first second source with
        | some message => .error message
        | none =>
          let table := replacements plan source target
          let replaced := input.map fun c => table.getD c.toNat c
          .ok (if plan.squeeze then squeezed (tableOf target) none [] replaced else replaced)

def options : Options where
  letters := "cCdst".toList
  words := [("complement", 'c'), ("delete", 'd'), ("squeeze-repeats", 's'), ("truncate-set1", 't')]
  anywhere := false

def operandFault? (plan : Plan) (operands : List Bytes) : Option (List Bytes) :=
  let least := if plan.delete = plan.squeeze then 2 else 1
  let most := if plan.delete && !plan.squeeze then 1 else 2
  if operands.isEmpty then some [bytesOf "missing operand"]
  else if operands.length < least then
    some [bytesOf "missing operand after " ++ quotedArgument (operands.getLastD []),
      bytesOf (if plan.squeeze then "Two strings must be given when both deleting and squeezing repeats."
        else "Two strings must be given when translating.")]
  else if most < operands.length then
    let only := bytesOf "Only one string may be given when deleting without squeezing repeats."
    some ((bytesOf "extra operand " ++ quotedArgument (operands.getD most [])) ::
      if operands.length = 2 then [only] else [])
  else none

/-- Reads sets up to the first that is faulty. Warnings come first. -/
def readSets : List Bytes → List Bytes × Except Bytes (List (List Item))
  | [] => ([], .ok [])
  | operand :: rest =>
    let spelled := spell (operand.length + 1) operand
    match itemsFrom (spelled.bytes.length + 1) spelled.bytes with
    | .error message => (spelled.warnings, .error message)
    | .ok items =>
      let (warnings, sets) := readSets rest
      (spelled.warnings ++ warnings, sets.map (items :: ·))

/-- Replaces, deletes and squeezes bytes of the input. -/
def tr : Program := fun call =>
  match options.scan call.arguments with
  | .error message => call.misused message
  | .ok given =>
    let has (letters : String) := given.options.any (letters.toList.contains ·)
    let plan : Plan := ⟨has "cC", has "d", has "s", has "t"⟩
    match operandFault? plan given.operands with
    | some lines =>
      call.fails (call.complaint (lines.headD []) ::
        ((lines.drop 1).map fun line => (Outlet.errors, line ++ ['\n'])) ++ [call.hint])
    | none =>
      let (warnings, read) := readSets given.operands
      let warnings := warnings.map call.complaint
      match read with
      | .error message => call.fails (warnings ++ [call.complaint message])
      | .ok sets =>
        match apply plan (sets.headD []) (sets.drop 1).head? call.input with
        | .error message => call.fails (warnings ++ [call.complaint (bytesOf message)])
        | .ok output => { written := warnings ++ [(.output, output)] }

end Verbatim.Tool.Translate
