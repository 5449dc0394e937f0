import Verbatim.MiniJava.Lexeme
import Verbatim.MiniJava.Rule

/-!
Parsing MiniJava. The parser sees nothing but the kinds of the visible tokens and takes them in order,
so its answer is a list of marks in which a taken token needs no name. Rules may be nested up to a
limit; loops and operators are bounded by the number of tokens, since each round takes one.
-/

namespace Verbatim.MiniJava

inductive Mark where
  | enter (name : String) (rule : RuleId)
  | take
  | exit
deriving DecidableEq

/-- What a parser did: its marks, the tokens that it left, and what it wanted instead of the first of
them if it failed. -/
structure Outcome where
  marks : List Mark
  rest : List Kind
  failure : Option String := none
deriving DecidableEq

abbrev Parser := List Kind → Outcome

namespace Parser

def done : Parser := fun ahead => ⟨[], ahead, none⟩

def fail (wanted : String) : Parser := fun ahead => ⟨[], ahead, some wanted⟩

def bump : Parser
  | [] => ⟨[], [], none⟩
  | _ :: rest => ⟨[.take], rest, none⟩

def expect (kind : Kind) : Parser := fun ahead =>
  if current ahead == kind then bump ahead else fail ("expected " ++ kind.name) ahead

def next (first second : Parser) : Parser := fun ahead =>
  match first ahead with
  | ⟨marks, rest, none⟩ =>
    match second rest with
    | ⟨more, rest, failure⟩ => ⟨marks ++ more, rest, failure⟩
  | failed => failed

def enclosed (name : String) (rule : RuleId) (body : Parser) : Parser := fun ahead =>
  match body ahead with
  | ⟨marks, rest, none⟩ => ⟨.enter name rule :: (marks ++ [.exit]), rest, none⟩
  | ⟨marks, rest, failure⟩ => ⟨.enter name rule :: marks, rest, failure⟩

def loop (test : Look) (body : Parser) : (fuel : Nat) → Parser
  | 0 => done
  | fuel + 1 => fun ahead => if test ahead then next body (loop test body fuel) ahead else done ahead

end Parser

open Verbatim.MiniJava.Parser

def depthLimit : Nat := 256

def tooDeep (name : String) : Parser :=
  fail ("`" ++ name ++ "` nested more than " ++ Numeral.decimal depthLimit ++ " rules deep")

/-- The parsers for rules and for expressions of some binding power at one depth. -/
structure Level where
  rule : Rule → RuleId → Parser
  expression : (power : Nat) → Parser

/-- Runs the steps of a body, whose rules and expressions are those of the level. -/
def Step.run (limit : Nat) (level : Level) : Step → Parser
  | .done => Parser.done
  | .bump => Parser.bump
  | .expect kind => Parser.expect kind
  | .call rule id => level.rule rule id
  | .expression => level.expression 0
  | .fail wanted => Parser.fail wanted
  | .next first second => Parser.next (first.run limit level) (second.run limit level)
  | .choose test yes no => fun ahead => if test ahead then yes.run limit level ahead else no.run limit level ahead
  | .loop test body => Parser.loop test (body.run limit level) limit

/-- The first operand of an expression: a prefix operator and its operand, or a primary. -/
def operand (inner : Level) : Parser := fun ahead =>
  if (current ahead).isUnary then
    enclosed expressionName 60 (next bump (inner.expression unaryPower)) ahead
  else enclosed expressionName 61 (inner.rule .primary 62) ahead

/-- What may go on behind a left operand: the rule of the node around both, and the parser of what
follows. Binary operators that bind the operand less tightly than what stands before it do not. -/
def continuation? (rule : Rule → RuleId → Parser) (expression : Nat → Parser) (power : Nat) :
    Kind → Option (RuleId × Parser)
  | .dot =>
    some (63, next bump (next (expect .identifier) fun ahead =>
      if current ahead == .leftParen then rule .arguments 64 ahead else done ahead))
  | .leftBracket => some (65, next bump (next (expression 0) (expect .rightBracket)))
  | .leftParen => some (66, rule .arguments 67)
  | .increment | .decrement => some (68, bump)
  | kind =>
    match binding? kind with
    | none => none
    | some (left, right, id) =>
      if left < power then none
      else if kind == .question then
        some (id, next bump (next (expression 0) (next (expect .colon) (expression right))))
      else some (id, next bump (expression right))

mutual

/-- An expression whose operators bind at least as tightly as the power. -/
def expressionFrom (rule : Rule → RuleId → Parser) (first : Parser) : (fuel power : Nat) → Parser
  | 0, _ => done
  | fuel + 1, power => fun ahead =>
    match first ahead with
    | ⟨marks, rest, none⟩ => operatorsFrom rule first fuel power marks rest
    | failed => failed

/-- Goes on behind a left operand. The node around an operator is entered in front of the marks of its
left operand, also where the right one fails. -/
def operatorsFrom (rule : Rule → RuleId → Parser) (first : Parser) :
    (fuel power : Nat) → (left : List Mark) → Parser
  | 0, _, left => fun ahead => ⟨left, ahead, none⟩
  | fuel + 1, power, left => fun ahead =>
    match continuation? rule (expressionFrom rule first fuel) power (current ahead) with
    | none => ⟨left, ahead, none⟩
    | some (id, behind) =>
      match behind ahead with
      | ⟨marks, rest, none⟩ =>
        operatorsFrom rule first fuel power (.enter expressionName id :: (left ++ (marks ++ [.exit]))) rest
      | ⟨marks, rest, failure⟩ => ⟨.enter expressionName id :: (left ++ marks), rest, failure⟩

end

/-- The parsers where `room` more rules may be opened. -/
def level (limit : Nat) : (room : Nat) → Level
  | 0 => ⟨fun rule _ => tooDeep rule.name, fun _ => tooDeep expressionName⟩
  | room + 1 =>
    let inner := level limit room
    let rule := fun (rule : Rule) id => enclosed rule.name id (rule.body.run limit inner)
    ⟨rule, expressionFrom rule (operand inner) limit⟩

/-- Parses a whole source, given the kinds of its visible tokens. -/
def parseKinds (kinds : List Kind) : Outcome :=
  (level (kinds.length + 1) depthLimit).rule .compilationUnit 1 kinds

/-- The events of a trace: each mark that takes a token is given the next index. -/
def number : (indexes : List Nat) → List Mark → List RuleEvent
  | _, [] => []
  | indexes, .enter name rule :: marks => .enter name rule :: number indexes marks
  | indexes, .exit :: marks => .exit :: number indexes marks
  | index :: indexes, .take :: marks => .token index :: number indexes marks
  | [], .take :: marks => number [] marks

def visible (lexemes : List Lexeme) : List (Lexeme × Nat) :=
  lexemes.zipIdx.filter fun (lexeme, _) => !lexeme.kind.channel.isHidden

def diagnose (wanted : String) (found : Option Lexeme) (last : Position) : Diagnostic :=
  match found with
  | none => ⟨wanted ++ ", found end of input", last⟩
  | some lexeme =>
    let text := if lexeme.kind == .eof then "end of input" else "`" ++ lexeme.text ++ "`"
    ⟨wanted ++ ", found " ++ text, lexeme.start⟩

/-- The events of parsing a list of tokens. -/
def events (lexemes : List Lexeme) : List RuleEvent :=
  let seen := visible lexemes
  let outcome := parseKinds (seen.map fun (lexeme, _) => lexeme.kind)
  let course := number (seen.map Prod.snd) outcome.marks
  match outcome.failure with
  | none => course
  | some wanted =>
    let found := (seen.drop (seen.length - outcome.rest.length)).head?.map Prod.fst
    let last := (lexemes.getLast?.map Lexeme.start).getD .start
    course ++ [.error (diagnose wanted found last)]

def parse (source : String) : ParseOutput :=
  let lexemes := lex source
  ⟨lexemes.map Lexeme.raw, events lexemes⟩

def grammar : Grammar := ⟨"mini-java", parse⟩

end Verbatim.MiniJava
