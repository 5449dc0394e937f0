import Verbatim.Tool.Program

/-!
Numbers in arguments. Whole numbers may be decimal, octal behind a zero or hexadecimal behind `0x`; other
numbers may have a fraction and an exponent, and are held as exact quotients.
-/

namespace Verbatim.Tool

def isSpace (c : Char) : Bool := c == ' ' || 9 ≤ c.toNat && c.toNat ≤ 13

/-- Leading blanks and a sign. Answers whether the sign is a minus, and what follows. -/
def signAhead (text : Bytes) : Bool × Bytes :=
  match text.dropWhile isSpace with
  | '-' :: rest => (true, rest)
  | '+' :: rest => (false, rest)
  | rest => (false, rest)

def integerAhead? (text : Bytes) : Option (Int × Bytes) :=
  let (negative, rest) := signAhead text
  let read (base : Nat) (digits : Bytes) : Option (Int × Bytes) :=
    let front := digits.takeWhile fun c => (Numeral.digit? base c).isSome
    if front.isEmpty then none
    else
      let size : Int := ((Numeral.digits? base 0 front).getD 0 : Nat)
      some (if negative then -size else size, digits.drop front.length)
  match rest with
  | '0' :: 'x' :: digits | '0' :: 'X' :: digits => read 16 digits <|> read 8 rest
  | '0' :: _ => read 8 rest
  | _ => read 10 rest

inductive Quantity where
  | finite (negative : Bool) (numerator denominator : Nat)
  | infinite (negative : Bool)
  | undefined (negative : Bool)

def exponentAhead? (letter : Char) (text : Bytes) : Option (Int × Bytes) :=
  match text with
  | c :: rest =>
    if c.toLower != letter then none
    else
      let (negative, digits) : Bool × Bytes :=
        match rest with
        | '-' :: digits => (true, digits)
        | '+' :: digits => (false, digits)
        | digits => (false, digits)
      let front := digits.takeWhile Char.isDigit
      if front.isEmpty then none
      else
        let size : Int := ((Numeral.digits? 10 0 front).getD 0 : Nat)
        some (if negative then -size else size, digits.drop front.length)
  | [] => none

/-- Exponents beyond this size count as if they had it, which is beyond what can be printed. -/
def exponentLimit : Nat := 20000

/-- The value of digits of a base with `places` of them behind the point, times a power of `radix`. -/
def scaled (negative : Bool) (base : Nat) (digits : Bytes) (places radix : Nat) (exponent : Int) : Quantity :=
  let size := (Numeral.digits? base 0 digits).getD 0
  if size = 0 then .finite negative 0 1
  else
    let shift := Nat.pow radix (min exponent.natAbs exponentLimit)
    if exponent < 0 then .finite negative size (Nat.pow base places * shift)
    else .finite negative (size * shift) (Nat.pow base places)

/-- A number in a range of powers of two. Answers whether it fits; one that is too large becomes infinite. -/
def Quantity.within (range : Nat) (value : Quantity) : Quantity × Bool :=
  match value with
  | .finite negative numerator denominator =>
    if denominator * Nat.pow 2 range ≤ numerator then (.infinite negative, false)
    else (value, numerator = 0 || denominator ≤ numerator * Nat.pow 2 (range - 2))
  | value => (value, true)

def pointedAhead? (negative : Bool) (base radix : Nat) (letter : Char) (text : Bytes) : Option (Quantity × Bytes) :=
  let isDigit (c : Char) := (Numeral.digit? base c).isSome
  let whole := text.takeWhile isDigit
  let behind := text.drop whole.length
  let fraction := if behind.head? == some '.' then (behind.drop 1).takeWhile isDigit else []
  if whole.isEmpty && fraction.isEmpty then none
  else
    let rest := if behind.head? == some '.' then behind.drop (fraction.length + 1) else behind
    let (exponent, rest) := (exponentAhead? letter rest).getD (0, rest)
    some (scaled negative base (whole ++ fraction) fraction.length radix exponent, rest)

def quantityAhead? (text : Bytes) : Option (Quantity × Bytes) :=
  let (negative, rest) := signAhead text
  let startsWith (word : String) := word.toList.isPrefixOf (rest.map Char.toLower)
  if startsWith "infinity" then some (.infinite negative, rest.drop 8)
  else if startsWith "inf" then some (.infinite negative, rest.drop 3)
  else if startsWith "nan" then some (.undefined negative, rest.drop 3)
  else if startsWith "0x" then
    pointedAhead? negative 16 2 'p' (rest.drop 2) <|> pointedAhead? negative 10 10 'e' rest
  else pointedAhead? negative 10 10 'e' rest

/-- A quotient as the nearest whole number; a half goes to the even one. -/
def nearest (numerator denominator : Nat) : Nat :=
  let floor := numerator / denominator
  let rest := numerator % denominator
  if denominator < 2 * rest || denominator = 2 * rest && floor % 2 = 1 then floor + 1 else floor

/-- The nearest quotient of a whole number of so many binary digits and a power of two. -/
def rounded (bits numerator denominator : Nat) : Nat × Nat :=
  if numerator = 0 then (0, 1)
  else
    let power : Int := bits - ((Nat.log2 numerator : Int) - Nat.log2 denominator)
    let shift := Nat.pow 2 power.natAbs
    let (top, bottom) := if power < 0 then (numerator, denominator * shift) else (numerator * shift, denominator)
    let unit := Nat.pow 2 (Nat.log2 (top / bottom) + 1 - bits)
    let value := nearest top (bottom * unit) * unit
    if power < 0 then (value * shift, 1) else (value, shift)

end Verbatim.Tool
