import Verbatim.Tool.Shell.Arithmetic

/-!
Conditions on texts, numbers and files, as arguments of a command. Conditions can be joined, inverted and
put in parentheses.
-/

namespace Verbatim.Tool.Shell.Test

def unaryOperators : List String :=
  ["-r", "-w", "-x", "-e", "-f", "-d", "-c", "-b", "-p", "-u", "-g", "-k", "-s", "-t", "-z", "-n", "-h", "-O", "-G",
   "-L", "-S"]

def binaryOperators : List String :=
  ["=", "==", "!=", "<", ">", "-eq", "-ne", "-ge", "-gt", "-le", "-lt", "-nt", "-ot", "-ef"]

def isOneOf (operators : List String) (text : Bytes) : Bool := operators.any fun operator => operator.toList == text

/-- What an argument is, given those behind it. -/
inductive Role where
  | nothing
  | opening
  | closing
  | conjunction
  | disjunction
  | negation
  | unary
  | binary
  | operand
deriving DecidableEq

/-- A unary operator without an operand, or in front of a binary one with both of its operands, is an operand. -/
def role : List Bytes → Role
  | [] => .nothing
  | text :: rest =>
    if isOneOf binaryOperators text then .binary
    else if text == bytesOf "-a" then .conjunction
    else if text == bytesOf "-o" then .disjunction
    else if text == ['!'] then .negation
    else if text == [')'] then .closing
    else if text == ['('] then (if rest.isEmpty then .operand else .opening)
    else if isOneOf unaryOperators text then
      match rest with
      | [] => .operand
      | [_] => .unary
      | next :: _ => if isOneOf binaryOperators next then .operand else .unary
    else .operand

def unexpected (operator : Bytes) (message : String) : Bytes :=
  if operator.isEmpty then bytesOf message else operator ++ bytesOf (": " ++ message)

def number (text : Bytes) : Except Bytes Int :=
  match text.dropWhile isSpace with
  | [] => .error (bytesOf "Illegal number: " ++ text)
  | shown =>
    let (digits, blanks) := shown.span fun c => !isSpace c
    match Numeral.signed? digits, blanks.all isSpace with
    | some value, true => .ok value
    | _, _ => .error (bytesOf "Illegal number: " ++ text)

def file (files : Files) (operator : String) (name : Bytes) : Bool :=
  let path := files.locate name
  let isDevice := path == bytesOf "/dev/null" || Files.endlessDevices.contains path
  match operator, files.look name with
  | _, .nothing | _, .throughFile | _, .tooLong => false
  | "-e", _ | "-r", _ | "-w", _ => true
  | "-d", found => found = .directory
  | "-f", found => found != .directory && !isDevice
  | "-c", _ => isDevice
  | "-s", found => found != .file [] && !isDevice
  | "-x", found => found = .directory || Files.isProgram path
  | _, _ => false

/-- Nothing here is a terminal. -/
def unary (files : Files) (operator operand : Bytes) : Except Bytes Bool :=
  match String.ofList operator with
  | "-z" => .ok operand.isEmpty
  | "-n" => .ok !operand.isEmpty
  | "-t" => (number operand).map fun _ => false
  | operator => .ok (file files operator operand)

def before : Bytes → Bytes → Bool
  | _, [] => false
  | [], _ :: _ => true
  | c :: left, d :: right => c.toNat < d.toNat || c == d && before left right

/-- Of two faulty numbers the left one is reported. -/
def binary (left operator right : Bytes) : Except Bytes Bool :=
  let compare (holds : Int → Int → Bool) : Except Bytes Bool := do
    let first ← number left
    let second ← number right
    return holds first second
  match String.ofList operator with
  | "=" | "==" => .ok (left == right)
  | "!=" => .ok (left != right)
  | "<" => .ok (before left right)
  | ">" => .ok (before right left)
  | "-eq" => compare (· == ·)
  | "-ne" => compare (· != ·)
  | "-ge" => compare (· ≥ ·)
  | "-gt" => compare (· > ·)
  | "-le" => compare (· ≤ ·)
  | "-lt" => compare (· < ·)
  | _ => .ok false

/-- The value of a condition, and the arguments from the last one that it used. -/
abbrev Step := Except Bytes (Bool × List Bytes)

mutual

def disjunction (files : Files) : (fuel : Nat) → Role → List Bytes → Step
  | 0, _, arguments => .ok (false, arguments)
  | fuel + 1, first, arguments => do
    let (value, rest) ← conjunction files fuel first arguments
    if role (rest.drop 1) = .disjunction then
      let (other, rest) ← disjunction files fuel (role (rest.drop 2)) (rest.drop 2)
      return (value || other, rest)
    else return (value, rest)

def conjunction (files : Files) : (fuel : Nat) → Role → List Bytes → Step
  | 0, _, arguments => .ok (false, arguments)
  | fuel + 1, first, arguments => do
    let (value, rest) ← negation files fuel first arguments
    if role (rest.drop 1) = .conjunction then
      let (other, rest) ← conjunction files fuel (role (rest.drop 2)) (rest.drop 2)
      return (value && other, rest)
    else return (value, rest)

def negation (files : Files) : (fuel : Nat) → Role → List Bytes → Step
  | 0, _, arguments => .ok (false, arguments)
  | fuel + 1, first, arguments =>
    if first = .negation then do
      let next := role (arguments.drop 1)
      let (value, rest) ← negation files fuel next (if next = .nothing then arguments else arguments.drop 1)
      return (!value, rest)
    else primary files fuel first arguments

def primary (files : Files) : (fuel : Nat) → Role → List Bytes → Step
  | 0, _, arguments => .ok (false, arguments)
  | fuel + 1, first, arguments =>
    match first, arguments with
    | .nothing, arguments => .ok (false, arguments)
    | .opening, _ :: inside =>
      if role inside = .closing then .ok (false, inside)
      else do
        let (value, rest) ← disjunction files fuel (role inside) inside
        if role (rest.drop 1) = .closing then return (value, rest.drop 1)
        else .error (bytesOf "closing paren expected")
    | .unary, operator :: rest =>
      match rest with
      | [] => .error (unexpected operator "argument expected")
      | operand :: _ => (unary files operator operand).map fun value => (value, rest)
    | _, left :: operator :: rest =>
      if role (operator :: rest) = .binary then
        match rest with
        | [] => .error (unexpected operator "argument expected")
        | right :: _ => (binary left operator right).map fun value => (value, rest)
      else .ok (!left.isEmpty, arguments)
    | _, arguments => .ok (arguments.any fun text => !text.isEmpty, arguments)

end

def whole (files : Files) (first : Role) (arguments : List Bytes) : Except Bytes Bool := do
  let (value, rest) ← disjunction files (4 * arguments.length + 8) first arguments
  match rest with
  | operator :: _ :: _ => .error (unexpected operator "unexpected operator")
  | _ => return value

/-- Evaluates a condition. Few arguments are read by their number first. -/
def evaluate (files : Files) : List Bytes → Except Bytes Bool
  | [] => .ok false
  | arguments@(first :: rest) =>
    if arguments.length = 3 && (rest.head?.any (isOneOf binaryOperators)) then whole files .operand arguments
    else if (arguments.length = 3 || arguments.length = 4) && first == ['('] && arguments.getLast? == some [')'] then
      whole files (role rest.dropLast) rest.dropLast
    else if (arguments.length = 3 || arguments.length = 4) && first == ['!'] then
      (evaluate files rest).map (!·)
    else whole files (role arguments) arguments

end Verbatim.Tool.Shell.Test
