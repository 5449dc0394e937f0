import Verbatim.Tool.Number
import Verbatim.Tool.Shell.Script

/-!
Arithmetic on 64-bit words. Expressions have the usual operators, conditions and assignments; variables
without a value count as zero.
-/

namespace Verbatim.Tool.Shell.Arithmetic

inductive Expression where
  | number (value : Int64)
  | named (name : Bytes)
  | unary (operator : Char) (operand : Expression)
  | binary (operator : String) (left right : Expression)
  | choice (condition yes no : Expression)
  /-- The operator is what stands before the equals sign, if anything. -/
  | assignment (name : Bytes) (operator : String) (value : Expression)
  /-- What could be read before a fault, and what is said about the fault. -/
  | broken (start : Expression) (message : Bytes)

inductive Token where
  | number (value : Int64)
  | name (text : Bytes)
  | sign (text : String)
deriving DecidableEq

/-- Signs, longer ones first. -/
def signs : List String :=
  ["<<=", ">>=", "<<", ">>", "<=", ">=", "==", "!=", "&&", "||", "+=", "-=", "*=", "/=", "%=", "&=", "^=", "|=",
   "+", "-", "*", "/", "%", "<", ">", "&", "^", "|", "!", "~", "(", ")", "?", ":", "="]

/-- A whole number as a word; what is too large becomes the largest. -/
def wordOf (value : Int) : Int64 :=
  if value > Int64.maxValue.toInt then Int64.maxValue
  else if value < Int64.minValue.toInt then Int64.minValue
  else Int64.ofInt value

/-- Cuts an expression into at most `fuel` tokens. What is no token stands as a sign of its own. -/
def tokens : (fuel : Nat) → Bytes → List Token
  | 0, _ | _ + 1, [] => []
  | fuel + 1, c :: rest =>
    if c == ' ' || c == '\t' || c == '\n' then tokens fuel rest
    else if c.isDigit then
      match integerAhead? (c :: rest) with
      | some (value, rest) => .number (wordOf value) :: tokens fuel rest
      | none => [.sign "?"]
    else if isNameStart c then
      let name := c :: rest.takeWhile isNameByte
      .name name :: tokens fuel ((c :: rest).drop name.length)
    else
      match signs.find? fun sign => sign.toList.isPrefixOf (c :: rest) with
      | some sign => .sign sign :: tokens fuel ((c :: rest).drop sign.length)
      | none => [.sign "unknown"]

/-- The operators of each level, from those that bind least. -/
def levels : List (List String) :=
  [["||"], ["&&"], ["|"], ["^"], ["&"], ["==", "!="], ["<", "<=", ">", ">="], ["<<", ">>"], ["+", "-"], ["*", "/", "%"]]

def assignmentSigns : List String := ["=", "+=", "-=", "*=", "/=", "%=", "<<=", ">>=", "&=", "^=", "|="]

/-- What has been read and the tokens behind it. -/
abbrev Step := Expression × List Token

def missing : Step := (.broken (.number 0) (bytesOf "expecting primary"), [])

mutual

def assigned : (fuel : Nat) → List Token → Step
  | 0, _ => missing
  | fuel + 1, .name name :: .sign sign :: rest =>
    if assignmentSigns.contains sign then
      let (value, rest) := assigned fuel rest
      (.assignment name (String.ofList sign.toList.dropLast) value, rest)
    else conditional fuel (.name name :: .sign sign :: rest)
  | fuel + 1, tokens => conditional fuel tokens

def conditional : (fuel : Nat) → List Token → Step
  | 0, _ => missing
  | fuel + 1, tokens =>
    let (condition, rest) := leveled fuel levels tokens
    match rest with
    | .sign "?" :: rest =>
      let (yes, rest) := assigned fuel rest
      match rest with
      | .sign ":" :: rest =>
        let (no, rest) := conditional fuel rest
        (.choice condition yes no, rest)
      | _ => (.choice condition (.broken yes (bytesOf "expecting ':'")) (.number 0), [])
    | rest => (condition, rest)

/-- Reads operands with the operators of a level between them. -/
def leveled : (fuel : Nat) → List (List String) → List Token → Step
  | 0, _, _ => missing
  | fuel + 1, [], tokens => primary fuel tokens
  | fuel + 1, level :: higher, tokens =>
    let (left, rest) := leveled fuel higher tokens
    continued fuel level higher left rest

def continued : (fuel : Nat) → List String → List (List String) → Expression → List Token → Step
  | 0, _, _, _, _ => missing
  | fuel + 1, level, higher, left, tokens =>
    match tokens with
    | .sign sign :: rest =>
      if level.contains sign then
        let (right, rest) := leveled fuel higher rest
        continued fuel level higher (.binary sign left right) rest
      else (left, tokens)
    | tokens => (left, tokens)

def primary : (fuel : Nat) → List Token → Step
  | 0, _ => missing
  | _ + 1, .number value :: rest => (.number value, rest)
  | _ + 1, .name name :: rest => (.named name, rest)
  | fuel + 1, .sign sign :: rest =>
    let signed (operator : Char) : Step :=
      let (operand, rest) := primary fuel rest
      (.unary operator operand, rest)
    match sign with
    | "(" =>
      let (inside, rest) := assigned fuel rest
      match rest with
      | .sign ")" :: rest => (inside, rest)
      | _ => (.broken inside (bytesOf "expecting ')'"), [])
    | "+" => primary fuel rest
    | "-" => signed '-'
    | "!" => signed '!'
    | "~" => signed '~'
    | _ => missing
  | _ + 1, [] => missing

end

def read (text : Bytes) : Expression :=
  let all := tokens (text.length + 1) text
  let (expression, rest) := assigned (16 * text.length + 64) all
  if rest.isEmpty then expression else .broken expression (bytesOf "expecting EOF")

def truth (value : Bool) : Int64 := if value then 1 else 0

def operation (operator : String) (left right : Int64) : Except Bytes Int64 :=
  match operator with
  | "+" => .ok (left + right)
  | "-" => .ok (left - right)
  | "*" => .ok (left * right)
  | "/" => if right == 0 then .error (bytesOf "division by zero") else .ok (left / right)
  | "%" => if right == 0 then .error (bytesOf "division by zero") else .ok (left % right)
  | "<<" => .ok (left <<< right)
  | ">>" => .ok (left >>> right)
  | "<" => .ok (truth (left < right))
  | "<=" => .ok (truth (left ≤ right))
  | ">" => .ok (truth (right < left))
  | ">=" => .ok (truth (right ≤ left))
  | "==" => .ok (truth (left == right))
  | "!=" => .ok (truth (left != right))
  | "&" => .ok (left &&& right)
  | "^" => .ok (left ^^^ right)
  | _ => .ok (left ||| right)

/-- Why an expression has no value: a fault of its own, or a variable that holds no number. -/
inductive Fault where
  | expression (message : Bytes)
  | number (text : Bytes)

/-- The whole number that all of a text gives; blanks may follow it. -/
def wholeNumber? (text : Bytes) : Option Int64 :=
  match integerAhead? text with
  | some (value, rest) => if (rest.dropWhile isSpace).isEmpty then some (wordOf value) else none
  | none => if (text.dropWhile isSpace).isEmpty then some 0 else none

/-- Variables as they are assigned, over the values from before. -/
abbrev Evaluate := StateT (List (Bytes × Bytes)) (Except Fault)

def textOf (value : Int64) : Bytes := (Numeral.signed value.toInt).toList

def valueOf (before : Bytes → Bytes) (name : Bytes) : Evaluate Int64 := do
  let text := ((← get).lookup name).getD (before name)
  match wholeNumber? text with
  | some value => return value
  | none => throw (.number text)

def operate (operator : String) (left right : Int64) : Evaluate Int64 :=
  match operation operator left right with
  | .ok value => return value
  | .error message => throw (.expression message)

/-- The value of an expression. Operands that do not matter are only searched for faults. -/
def Expression.evaluate (before : Bytes → Bytes) : (matters : Bool) → Expression → Evaluate Int64
  | _, .number value => return value
  | matters, .named name => if matters then valueOf before name else return 0
  | matters, .unary operator operand => do
    let value ← operand.evaluate before matters
    return match operator with
      | '-' => -value
      | '!' => truth (value == 0)
      | _ => ~~~value
  | matters, .binary operator left right => do
    let first ← left.evaluate before matters
    match operator with
    | "&&" =>
      let second ← right.evaluate before (matters && first != 0)
      return truth (first != 0 && second != 0)
    | "||" =>
      let second ← right.evaluate before (matters && first == 0)
      return truth (first != 0 || second != 0)
    | operator =>
      let second ← right.evaluate before matters
      if matters then operate operator first second else return 0
  | matters, .choice condition yes no => do
    let chosen ← condition.evaluate before matters
    let first ← yes.evaluate before (matters && chosen != 0)
    let second ← no.evaluate before (matters && chosen == 0)
    return if chosen != 0 then first else second
  | matters, .assignment name operator value => do
    let value ← value.evaluate before matters
    if matters then
      let value ← if operator.isEmpty then pure value else operate operator (← valueOf before name) value
      modify fun assigned => (name, textOf value) :: assigned
      return value
    else return 0
  | matters, .broken start message => do
    discard (start.evaluate before matters)
    throw (.expression message)

def evaluate (before : Bytes → Bytes) (text : Bytes) : Except Fault (Bytes × List (Bytes × Bytes)) := do
  let (value, assigned) ← ((read text).evaluate before true).run []
  return (textOf value, assigned)

end Verbatim.Tool.Shell.Arithmetic
