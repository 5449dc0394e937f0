import Verbatim.Token

/-!
What a grammar makes of a source: all of its tokens, hidden ones included, and the course of the parse
as a list of events that refer to them. A grammar that meets a syntax error reports it and stops.
-/

namespace Verbatim

structure RawToken where
  kind : String
  text : String
  channel : Channel
  start : Position
deriving DecidableEq

def RawToken.placed (raw : RawToken) : Token := ⟨raw.kind, raw.text, raw.channel, Span.of raw.start raw.text⟩

/-- A syntax error and where the offending token starts. -/
structure Diagnostic where
  message : String
  position : Position
deriving DecidableEq

def Diagnostic.render (diagnostic : Diagnostic) : String := diagnostic.position.render ++ ": " ++ diagnostic.message

/-- One event of a parse, in source order. Tokens are named by their place among all tokens. -/
inductive RuleEvent where
  | enter (name : String) (rule : RuleId)
  | token (index : Nat)
  | exit
  | error (diagnostic : Diagnostic)
deriving DecidableEq

structure ParseOutput where
  tokens : List RawToken
  events : List RuleEvent

structure Grammar where
  name : String
  parse : String → ParseOutput

/-- Lays texts out one behind the other from a place on. -/
def RawToken.layout (start : Position) : List (String × String × Channel) → List RawToken
  | [] => []
  | (kind, text, channel) :: rest => ⟨kind, text, channel, start⟩ :: layout (start.advance text.toList) rest

/-- How syntax errors are treated: a strict parse fails at the first one, a lenient parse keeps every
token and builds the tree as far as it got. -/
inductive ParseMode where
  | lenient
  | strict
deriving DecidableEq

end Verbatim
