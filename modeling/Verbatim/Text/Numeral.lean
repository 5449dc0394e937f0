/-!
Numbers as text. A numeral is an optional sign and at least one digit; reading is bounded by the
32-bit word that stores the value, writing gives the shortest decimal form.
-/

namespace Verbatim.Numeral

/-- The value of a digit; letters stand for ten to fifteen in either case. -/
def digit? (base : Nat) (c : Char) : Option Nat :=
  let code := c.toNat
  let value : Option Nat :=
    if 48 ≤ code && code ≤ 57 then some (code - 48)
    else if 65 ≤ code && code ≤ 70 then some (code - 55)
    else if 97 ≤ code && code ≤ 102 then some (code - 87)
    else none
  value.filter (· < base)

/-- Continues a number whose leading digits are worth `high`. -/
def digits? (base : Nat) : (high : Nat) → List Char → Option Nat
  | high, [] => some high
  | high, c :: rest =>
    match digit? base c with
    | some value => digits? base (high * base + value) rest
    | none => none

/-- At least one digit and nothing else. -/
def magnitude? (base : Nat) (text : List Char) : Option Nat :=
  if text.isEmpty then none else digits? base 0 text

/-- A number without a minus sign; a plus sign is allowed. -/
def unsigned? (base : Nat) : List Char → Option Nat
  | '+' :: rest => magnitude? base rest
  | text => magnitude? base text

def signed? : List Char → Option Int
  | '-' :: rest => (magnitude? 10 rest).map fun size => -(size : Int)
  | text => (unsigned? 10 text).map fun size => (size : Int)

def word? (base : Nat) (text : List Char) : Option UInt32 :=
  (unsigned? base text).bind fun value => if value < UInt32.size then some (UInt32.ofNat value) else none

def signedWord? (text : List Char) : Option Int32 :=
  (signed? text).bind fun value =>
    if Int32.minValue.toInt ≤ value ∧ value ≤ Int32.maxValue.toInt then some (Int32.ofInt value) else none

def decimal (value : Nat) : String := String.ofList (Nat.toDigits 10 value)

def signed : Int → String
  | .ofNat size => decimal size
  | .negSucc size => "-" ++ decimal (size + 1)

def hexLower (value : Nat) : String := String.ofList (Nat.toDigits 16 value)

def hexUpper (value : Nat) : String := String.ofList ((Nat.toDigits 16 value).map Char.toUpper)

end Verbatim.Numeral
