import Verbatim.Tool.Number

/-!
Directives of formats: how wide an argument is printed, with how many digits, and in which notation. A
directive is a percent sign, flags, a width, a precision behind a point, and a letter.
-/

namespace Verbatim.Tool

/-- A width or precision is written down or taken from the arguments. -/
inductive Extent where
  | fixed (size : Nat)
  | argument

/-- A directive as it is written. -/
structure Template where
  flags : List Char
  width : Option Extent
  precision : Option Extent
  /-- The letter, unless the format ends before it. -/
  letter : Option Char
  spelling : Bytes
  rest : Bytes

def extentAhead (text : Bytes) : Option Extent × Bytes :=
  match text with
  | '*' :: rest => (some .argument, rest)
  | text =>
    let digits := text.takeWhile Char.isDigit
    (if digits.isEmpty then none else some (.fixed ((Numeral.digits? 10 0 digits).getD 0)), text.drop digits.length)

/-- Reads a directive behind its percent sign. `sizes` are letters without a meaning in front of the last one. -/
def Template.read (flags sizes : List Char) (text : Bytes) : Template :=
  let front := text.takeWhile (flags.contains ·)
  let (width, behind) := extentAhead (text.drop front.length)
  let (precision, behind) : Option Extent × Bytes :=
    match behind with
    | '.' :: behind =>
      let (precision, behind) := extentAhead behind
      (some (precision.getD (.fixed 0)), behind)
    | _ => (none, behind)
  let behind := behind.dropWhile (sizes.contains ·)
  let taken := text.length - behind.length + 1
  ⟨front, width, precision, behind.head?, '%' :: text.take taken, behind.drop 1⟩

/-- A directive with its sizes known. -/
structure Directive where
  flags : List Char
  width : Nat
  precision : Option Nat
  letter : Char

namespace Directive

def has (directive : Directive) (flag : Char) : Bool := directive.flags.contains flag

def pad (directive : Directive) (text : Bytes) : Bytes :=
  let blanks := List.replicate (directive.width - text.length) ' '
  if directive.has '-' then text ++ blanks else blanks ++ text

/-- Fills up to the width, with zeros between the sign and the digits if they are wanted. -/
def padNumber (directive : Directive) (zeros : Bool) (sign digits : Bytes) : Bytes :=
  if zeros && directive.has '0' && !directive.has '-' then
    sign ++ List.replicate (directive.width - sign.length - digits.length) '0' ++ digits
  else directive.pad (sign ++ digits)

def sign (directive : Directive) (negative : Bool) : Bytes :=
  if negative then ['-'] else if directive.has '+' then ['+'] else if directive.has ' ' then [' '] else []

def text (directive : Directive) (argument : Bytes) : Bytes :=
  directive.pad (match directive.precision with
    | some size => argument.take size
    | none => argument)

def integer (directive : Directive) (value : Int) : Bytes :=
  let size := value.natAbs
  let digits : Bytes :=
    if size = 0 && directive.precision = some 0 then []
    else
      match directive.letter with
      | 'o' => Nat.toDigits 8 size
      | 'x' => (Numeral.hexLower size).toList
      | 'X' => (Numeral.hexUpper size).toList
      | _ => (Numeral.decimal size).toList
  let digits := List.replicate (directive.precision.getD 0 - digits.length) '0' ++ digits
  let digits := if directive.letter == 'o' && directive.has '#' && digits.head? != some '0' then '0' :: digits else digits
  let lead : Bytes :=
    if directive.letter == 'd' || directive.letter == 'i' then directive.sign (value < 0)
    else if directive.has '#' && size != 0 && directive.letter.toLower == 'x' then ['0', directive.letter]
    else []
  directive.padNumber directive.precision.isNone lead digits

/-- Puts the point into digits of which `places` stand behind it. -/
def pointed (places : Nat) (keepPoint : Bool) (value : Nat) : Bytes :=
  let digits := (Numeral.decimal value).toList
  let digits := List.replicate (places + 1 - digits.length) '0' ++ digits
  let whole := digits.take (digits.length - places)
  if places = 0 then (if keepPoint then whole ++ ['.'] else whole)
  else whole ++ '.' :: digits.drop (digits.length - places)

/-- The exponent of the leading decimal digit of a quotient. -/
def leadExponent (numerator denominator : Nat) : Int :=
  if numerator = 0 then 0
  else if denominator ≤ numerator then ((Numeral.decimal (numerator / denominator)).length - 1 : Nat)
  else -(((Numeral.decimal ((denominator + numerator - 1) / numerator - 1)).length : Nat) : Int)

/-- The leading decimal digits of a quotient as a number with `places` digits behind the first, and the
exponent of the first. -/
def significant (places numerator denominator : Nat) : Nat × Int :=
  let exponent := leadExponent numerator denominator
  let power := (places : Int) - exponent
  let value :=
    if power < 0 then nearest numerator (denominator * Nat.pow 10 power.natAbs)
    else nearest (numerator * Nat.pow 10 power.natAbs) denominator
  if value = Nat.pow 10 (places + 1) then (Nat.pow 10 places, exponent + 1) else (value, exponent)

/-- The exponent behind its letter, with at least two digits. -/
def exponentText (letter : Char) (exponent : Int) : Bytes :=
  let digits := (Numeral.decimal exponent.natAbs).toList
  letter :: (if exponent < 0 then '-' else '+') :: (if digits.length < 2 then '0' :: digits else digits)

/-- Leaves out zeros at the end of a fraction, and a point that nothing follows. -/
def trimmed (text : Bytes) : Bytes :=
  if !text.contains '.' then text
  else
    let kept := (text.reverse.dropWhile (· == '0'))
    (if kept.head? == some '.' then kept.drop 1 else kept).reverse

/-- A quotient with a point, with an exponent, or in the shorter of the two forms. -/
def quotient (directive : Directive) (numerator denominator : Nat) : Bytes :=
  let places := directive.precision.getD 6
  let keepPoint := directive.has '#'
  let mark : Char := if directive.letter.isUpper then 'E' else 'e'
  match directive.letter.toLower with
  | 'f' => pointed places keepPoint (nearest (numerator * Nat.pow 10 places) denominator)
  | 'e' =>
    let (value, exponent) := significant places numerator denominator
    pointed places keepPoint value ++ exponentText mark exponent
  | _ =>
    let count := max places 1
    let (value, exponent) := significant (count - 1) numerator denominator
    let trim (text : Bytes) := if keepPoint then text else trimmed text
    if exponent < -4 || (count : Int) ≤ exponent then
      trim (pointed (count - 1) keepPoint value) ++ exponentText mark exponent
    else
      let places := (count - 1 - exponent : Int).natAbs
      trim (pointed places keepPoint (nearest (numerator * Nat.pow 10 places) denominator))

/-- A number that need not be whole, held with so many binary digits. -/
def quantity (directive : Directive) (bits : Nat) (value : Quantity) : Bytes :=
  let word (text : String) : Bytes := if directive.letter.isUpper then text.toList.map Char.toUpper else text.toList
  match value with
  | .finite negative numerator denominator =>
    let (numerator, denominator) := rounded bits numerator denominator
    directive.padNumber true (directive.sign negative) (directive.quotient numerator denominator)
  | .infinite negative => directive.pad (directive.sign negative ++ word "inf")
  | .undefined negative => directive.pad (directive.sign negative ++ word "nan")

end Directive

end Verbatim.Tool
