import Verbatim.MiniJava.Cursor

/-!
Runs of the parser that nothing bounds but the tokens. A loop goes on while its test holds, and operators go on
behind their operand while there is one in front, so there is a run only where all of this comes to an end.
Routines stop where their fuel does; a run has none.
-/

namespace Verbatim.MiniJava

/-- What a parser is to do: steps of a body, an expression, or what goes on behind a left operand whose events
begin at `start`; one task behind the other, or one inside of a rule. -/
inductive Task where
  | step (step : Step)
  | expression (power : Nat)
  | operators (power start : Nat)
  | next (first second : Task)
  | enclosed (name : String) (id : RuleId) (body : Task)

namespace Task

def call (rule : Rule) (id : RuleId) : Task := .enclosed rule.name id (.step rule.body)

def operand (kind : Kind) : Task :=
  if kind.isUnary then .enclosed expressionName 60 (.next (.step .bump) (.expression unaryPower))
  else .enclosed expressionName 61 (.step (.call .primary 62))

open Step in
/-- What may go on behind a left operand, with the rule of the node around both. -/
def continuation? (power : Nat) : Kind → Option (RuleId × Task)
  | .dot => some (63, .step (all [.bump, .expect .identifier, perhaps (.on .leftParen) (.call .arguments 64)]))
  | .leftBracket => some (65, .step (all [.bump, .expression, .expect .rightBracket]))
  | .leftParen => some (66, .step (.call .arguments 67))
  | .increment | .decrement => some (68, .step .bump)
  | kind =>
    match binding? kind with
    | none => none
    | some (left, right, id) =>
      if left < power then none
      else if kind == .question then
        some (id, .next (.step .bump) (.next (.expression 0) (.next (.step (.expect .colon)) (.expression right))))
      else some (id, .next (.step .bump) (.expression right))

end Task

/-- Leaves a rule. Its node is closed only where the body succeeded. -/
def Cursor.leave (cursor : Cursor) : (failure : Option Diagnostic) → Cursor
  | none => { cursor.note .exit with depth := cursor.depth - 1 }
  | some _ => { cursor with depth := cursor.depth - 1 }

/-- A task moves the cursor, and it may fail there. -/
inductive Runs (lexemes : List Lexeme) : Task → Cursor → Cursor × Option Diagnostic → Prop
  | done {cursor : Cursor} : Runs lexemes (.step .done) cursor (cursor, none)
  | bump {cursor : Cursor} : Runs lexemes (.step .bump) cursor (Routine.bump lexemes cursor)
  | expect {kind : Kind} {cursor : Cursor} :
    Runs lexemes (.step (.expect kind)) cursor (Routine.expect lexemes kind cursor)
  | fail {wanted : String} {cursor : Cursor} :
    Runs lexemes (.step (.fail wanted)) cursor (Routine.fail lexemes wanted cursor)
  | call {rule : Rule} {id : RuleId} {cursor : Cursor} {result : Cursor × Option Diagnostic}
    (called : Runs lexemes (.call rule id) cursor result) : Runs lexemes (.step (.call rule id)) cursor result
  | whole {cursor : Cursor} {result : Cursor × Option Diagnostic}
    (inner : Runs lexemes (.expression 0) cursor result) : Runs lexemes (.step .expression) cursor result
  | steps {first second : Step} {cursor : Cursor} {result : Cursor × Option Diagnostic}
    (both : Runs lexemes (.next (.step first) (.step second)) cursor result) :
    Runs lexemes (.step (.next first second)) cursor result
  | choose {test : Look} {yes no : Step} {cursor : Cursor} {result : Cursor × Option Diagnostic}
    (chosen : Runs lexemes (.step (if test (Routine.ahead lexemes cursor.position) then yes else no)) cursor result) :
    Runs lexemes (.step (.choose test yes no)) cursor result
  | loop {test : Look} {body : Step} {cursor : Cursor} {result : Cursor × Option Diagnostic}
    (round : Runs lexemes
      (.step (if test (Routine.ahead lexemes cursor.position) then .next body (.loop test body) else .done))
      cursor result) :
    Runs lexemes (.step (.loop test body)) cursor result
  | next {first second : Task} {cursor middle : Cursor} {result : Cursor × Option Diagnostic}
    (front : Runs lexemes first cursor (middle, none)) (back : Runs lexemes second middle result) :
    Runs lexemes (.next first second) cursor result
  | broken {first second : Task} {cursor last : Cursor} {diagnostic : Diagnostic}
    (front : Runs lexemes first cursor (last, some diagnostic)) :
    Runs lexemes (.next first second) cursor (last, some diagnostic)
  | full {name : String} {id : RuleId} {body : Task} {cursor : Cursor} (reached : cursor.depth = depthLimit) :
    Runs lexemes (.enclosed name id body) cursor (Routine.fail lexemes
      ("`" ++ name ++ "` nested more than " ++ Numeral.decimal depthLimit ++ " rules deep") cursor)
  | enclosed {name : String} {id : RuleId} {body : Task} {cursor last : Cursor} {failure : Option Diagnostic}
    (room : cursor.depth ≠ depthLimit)
    (inner : Runs lexemes body { cursor.note (.enter name id) with depth := cursor.depth + 1 } (last, failure)) :
    Runs lexemes (.enclosed name id body) cursor (last.leave failure, failure)
  | expression {power : Nat} {cursor : Cursor} {result : Cursor × Option Diagnostic}
    (both : Runs lexemes (.next (.operand (Routine.kindAt lexemes cursor.position))
      (.operators power cursor.events.length)) cursor result) :
    Runs lexemes (.expression power) cursor result
  | ended {power start : Nat} {cursor : Cursor}
    (stops : Task.continuation? power (Routine.kindAt lexemes cursor.position) = none) :
    Runs lexemes (.operators power start) cursor (cursor, none)
  | operator {power start : Nat} {id : RuleId} {more : Task} {cursor behind : Cursor}
    {result : Cursor × Option Diagnostic}
    (found : Task.continuation? power (Routine.kindAt lexemes cursor.position) = some (id, more))
    (inner : Runs lexemes more (cursor.precede start id) (behind, none))
    (later : Runs lexemes (.operators power start) (behind.note .exit) result) :
    Runs lexemes (.operators power start) cursor result
  | unfinished {power start : Nat} {id : RuleId} {more : Task} {cursor last : Cursor} {diagnostic : Diagnostic}
    (found : Task.continuation? power (Routine.kindAt lexemes cursor.position) = some (id, more))
    (inner : Runs lexemes more (cursor.precede start id) (last, some diagnostic)) :
    Runs lexemes (.operators power start) cursor (last, some diagnostic)

end Verbatim.MiniJava
