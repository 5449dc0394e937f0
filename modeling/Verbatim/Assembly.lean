import Verbatim.Error
import Verbatim.Tree.Builder

/-!
Putting a tree together from tokens and the events of a parse. Every token gets a place: tokens that no
event attaches go into a group in front of the next token that one does, or at the end of the root.
Events that contradict the tokens or each other are refused.
-/

namespace Verbatim

/-- A tree that is being assembled. All tokens before `next` have their place; the root stays open
after its exit so that the tokens behind it can still be added. -/
structure Assembly where
  tokens : Array RawToken
  builder : Builder := {}
  next : Nat := 0
  rootExited : Bool := false

namespace Assembly

def addTokens (builder : Builder) : List RawToken → Except Violation Builder
  | [] => .ok builder
  | raw :: rest => (builder.token raw.placed).bind fun builder => addTokens builder rest

def addNode (builder : Builder) (tokens : List RawToken) : Except Violation Builder := do
  let builder ← builder.start groupName groupRule
  let builder ← addTokens builder tokens
  builder.finishNode

/-- No group stands for no tokens. -/
def addGroup (builder : Builder) (tokens : List RawToken) : Except Violation Builder :=
  if tokens.isEmpty then .ok builder else addNode builder tokens

/-- Whether a rule is open that has not been left. -/
def inRule (state : Assembly) : Bool := 0 < state.builder.nesting && !state.rootExited

def enter (state : Assembly) (name : String) (rule : RuleId) : Except Violation Assembly :=
  if state.rootExited then .error (.ruleAfterRoot name)
  else (state.builder.start name rule).map fun builder => { state with builder := builder }

/-- Attaches a token behind a group of the tokens before it that have no place yet. -/
def attach (state : Assembly) (index : Nat) : Except Violation Assembly :=
  match state.tokens[index]? with
  | none => .error (.tokenIndexOutOfRange index state.tokens.size)
  | some raw =>
    if !state.inRule then .error (.tokenOutsideRule index)
    else if index < state.next then .error (.tokenOutOfOrder index state.next)
    else do
      let builder ← addGroup state.builder (state.tokens.extract state.next index).toList
      let builder ← builder.token raw.placed
      return { state with builder := builder, next := index + 1 }

def exit (state : Assembly) : Except Violation Assembly :=
  if !state.inRule then .error .noRuleToExit
  else if state.builder.nesting = 1 then .ok { state with rootExited := true }
  else state.builder.finishNode.map fun builder => { state with builder := builder }

/-- Follows one event. A syntax error ends a strict parse and is passed over by a lenient one. -/
def step (mode : ParseMode) (state : Assembly) : RuleEvent → Except Fault Assembly
  | .enter name rule => Fault.ofViolation (state.enter name rule)
  | .token index => Fault.ofViolation (state.attach index)
  | .exit => Fault.ofViolation state.exit
  | .error diagnostic =>
    match mode with
    | .strict => .error (.error (.parse diagnostic))
    | .lenient => .ok state

def run (mode : ParseMode) (state : Assembly) : List RuleEvent → Except Fault Assembly
  | [] => .ok state
  | event :: events => (state.step mode event).bind fun next => next.run mode events

def closeInner : (inner : Nat) → Builder → Except Violation Builder
  | 0, builder => .ok builder
  | inner + 1, builder => builder.finishNode.bind (closeInner inner)

/-- Closes the open rules and places the remaining tokens at the end of the root. Without any rule a
group of all tokens is the root. -/
def finish (state : Assembly) : Except Violation SyntaxTree := do
  let trailing := (state.tokens.extract state.next state.tokens.size).toList
  if state.builder.hasRoot then
    let builder ← closeInner (state.builder.nesting - 1) state.builder
    let builder ← addGroup builder trailing
    let builder ← builder.finishNode
    builder.finish
  else
    let builder ← addNode state.builder trailing
    builder.finish

def build (tokens : List RawToken) (events : List RuleEvent) (mode : ParseMode) : Except Fault SyntaxTree := do
  let state ← run mode { tokens := tokens.toArray } events
  Fault.ofViolation state.finish

end Assembly

end Verbatim
