import Verbatim.Position

/-!
What a tree is made of: tokens on two channels, and nodes that name the grammar rule they stand for.
-/

namespace Verbatim

/-- Grammars see visible tokens only; white space and comments are hidden. -/
inductive Channel where
  | visible
  | hidden
deriving DecidableEq

def Channel.isHidden : Channel → Bool
  | .visible => false
  | .hidden => true

/-- The alternative of a grammar that produced a node. -/
abbrev RuleId := UInt32

structure Token where
  kind : String
  text : String
  channel : Channel
  span : Span
deriving DecidableEq

/-- The name of the nodes that hold tokens which no rule attached. -/
def groupName : String := "TOKENS"

def groupRule : RuleId := 0

end Verbatim
