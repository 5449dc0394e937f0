import Verbatim.MiniJava.Parser

/-!
Parsing with a cursor over all tokens, hidden ones included. The cursor steps over hidden tokens after each
token that is taken, open rules are counted, and events are noted as the parser comes to them, those around
an operator in front of the events of its left operand. The events are those of the parser that sees
nothing but the visible tokens.
-/

namespace Verbatim.MiniJava

/-- Where a parse stands among all tokens, how many called rules are open, and the events so far. -/
structure Cursor where
  position : Nat
  depth : Nat
  events : List RuleEvent

namespace Cursor

def note (cursor : Cursor) (event : RuleEvent) : Cursor := { cursor with events := cursor.events ++ [event] }

/-- Enters the node around an operator in front of the events from `start` on. -/
def precede (cursor : Cursor) (start : Nat) (id : RuleId) : Cursor :=
  { cursor with events := cursor.events.take start ++ .enter expressionName id :: cursor.events.drop start }

end Cursor

/-- The place from which the tokens are listed, or else that of the first of them that is visible. -/
def skipHidden : List Lexeme → (position : Nat) → Nat
  | [], position => position
  | lexeme :: rest, position =>
    if lexeme.kind.channel.isHidden then skipHidden rest (position + 1) else position

abbrev Routine := Cursor → Cursor × Option Diagnostic

/-- The routines for rules and for expressions of some binding power, as far as calls may be nested. -/
structure Calls where
  rule : Rule → RuleId → Routine
  expression : (power : Nat) → Routine

namespace Routine

section

variable (lexemes : List Lexeme)

def kindAt (position : Nat) : Kind := (lexemes[position]?.map Lexeme.kind).getD .eof

/-- What a look at the tokens ahead gets to see: the token at a place and the visible ones behind it. -/
def ahead (position : Nat) : List Kind :=
  match lexemes.drop position with
  | [] => []
  | lexeme :: rest => lexeme.kind :: (rest.map Lexeme.kind).filter fun kind => !kind.channel.isHidden

def visibleFrom (position : Nat) : Nat := skipHidden (lexemes.drop position) position

def complaint (wanted : String) (position : Nat) : Diagnostic :=
  diagnose wanted lexemes[position]? ((lexemes.getLast?.map Lexeme.start).getD .start)

def fail (wanted : String) : Routine := fun cursor => (cursor, some (complaint lexemes wanted cursor.position))

def bump : Routine := fun cursor =>
  if cursor.position < lexemes.length then
    ({ cursor.note (.token cursor.position) with position := visibleFrom lexemes (cursor.position + 1) }, none)
  else (cursor, none)

def expect (kind : Kind) : Routine := fun cursor =>
  if kindAt lexemes cursor.position == kind then bump lexemes cursor
  else fail lexemes ("expected " ++ kind.name) cursor

def next (first second : Routine) : Routine := fun cursor =>
  match first cursor with
  | (cursor, none) => second cursor
  | failed => failed

def enclosed (name : String) (id : RuleId) (body : Routine) : Routine := fun cursor =>
  if cursor.depth = depthLimit then
    fail lexemes ("`" ++ name ++ "` nested more than " ++ Numeral.decimal depthLimit ++ " rules deep") cursor
  else
    match body { cursor.note (.enter name id) with depth := cursor.depth + 1 } with
    | (inner, none) => ({ inner.note .exit with depth := inner.depth - 1 }, none)
    | (inner, failure) => ({ inner with depth := inner.depth - 1 }, failure)

def loop (test : Look) (body : Routine) : (fuel : Nat) → Routine
  | 0 => fun cursor => (cursor, none)
  | fuel + 1 => fun cursor =>
    if test (ahead lexemes cursor.position) then next body (loop test body fuel) cursor else (cursor, none)

def perform (limit : Nat) (calls : Calls) : Step → Routine
  | .done => fun cursor => (cursor, none)
  | .bump => bump lexemes
  | .expect kind => expect lexemes kind
  | .call rule id => calls.rule rule id
  | .expression => calls.expression 0
  | .fail wanted => fail lexemes wanted
  | .next first second => next (perform limit calls first) (perform limit calls second)
  | .choose test yes no => fun cursor =>
    if test (ahead lexemes cursor.position) then perform limit calls yes cursor else perform limit calls no cursor
  | .loop test body => loop lexemes test (perform limit calls body) limit

def operand (inner : Calls) : Routine := fun cursor =>
  if (kindAt lexemes cursor.position).isUnary then
    enclosed lexemes expressionName 60 (next (bump lexemes) (inner.expression unaryPower)) cursor
  else enclosed lexemes expressionName 61 (inner.rule .primary 62) cursor

/-- What may go on behind a left operand, with the rule of the node around both. -/
def continuation? (rule : Rule → RuleId → Routine) (expression : Nat → Routine) (power : Nat) :
    Kind → Option (RuleId × Routine)
  | .dot =>
    some (63, next (bump lexemes) (next (expect lexemes .identifier) fun cursor =>
      if kindAt lexemes cursor.position == .leftParen then rule .arguments 64 cursor else (cursor, none)))
  | .leftBracket => some (65, next (bump lexemes) (next (expression 0) (expect lexemes .rightBracket)))
  | .leftParen => some (66, rule .arguments 67)
  | .increment | .decrement => some (68, bump lexemes)
  | kind =>
    match binding? kind with
    | none => none
    | some (left, right, id) =>
      if left < power then none
      else if kind == .question then
        some (id, next (bump lexemes) (next (expression 0) (next (expect lexemes .colon) (expression right))))
      else some (id, next (bump lexemes) (expression right))

mutual

def expressionFrom (rule : Rule → RuleId → Routine) (first : Routine) : (fuel power : Nat) → Routine
  | 0, _ => fun cursor => (cursor, none)
  | fuel + 1, power => fun cursor =>
    match first cursor with
    | (behind, none) => operatorsFrom rule first fuel power cursor.events.length behind
    | failed => failed

/-- Goes on behind a left operand whose events begin at `start`. -/
def operatorsFrom (rule : Rule → RuleId → Routine) (first : Routine) : (fuel power start : Nat) → Routine
  | 0, _, _ => fun cursor => (cursor, none)
  | fuel + 1, power, start => fun cursor =>
    match continuation? lexemes rule (expressionFrom rule first fuel) power (kindAt lexemes cursor.position) with
    | none => (cursor, none)
    | some (id, more) =>
      match more (cursor.precede start id) with
      | (behind, none) => operatorsFrom rule first fuel power start (behind.note .exit)
      | failed => failed

end

def calls (limit : Nat) : (fuel : Nat) → Calls
  | 0 => ⟨fun _ _ cursor => (cursor, none), fun _ cursor => (cursor, none)⟩
  | fuel + 1 =>
    let inner := calls limit fuel
    let rule := fun (rule : Rule) id => enclosed lexemes rule.name id (perform lexemes limit inner rule.body)
    ⟨rule, expressionFrom lexemes rule (operand lexemes inner) limit⟩

end

/-- The events of parsing a list of tokens. More calls than there may be open rules are not nested. -/
def events (lexemes : List Lexeme) : List RuleEvent :=
  let unit := (calls lexemes ((visible lexemes).length + 1) (depthLimit + 1)).rule .compilationUnit 1
  let (last, failure) := unit ⟨visibleFrom lexemes 0, 0, []⟩
  last.events ++ failure.toList.map .error

end Routine

end Verbatim.MiniJava
