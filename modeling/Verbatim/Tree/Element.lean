import Verbatim.Tree.Builder

/-!
Trees as plain data. An element is a token or a node with its children; writing it down depth first
gives the calls that build it. This is what a buffer stands for.
-/

namespace Verbatim

inductive Element where
  | token (token : Token)
  | node (name : String) (rule : RuleId) (children : List Element)

namespace Element

mutual

def calls : Element → List Call
  | .token content => [.token content]
  | .node name rule children => .start name rule :: (callsOf children ++ [.finish])

def callsOf : List Element → List Call
  | [] => []
  | element :: rest => element.calls ++ callsOf rest

end

mutual

def tokens : Element → List Token
  | .token content => [content]
  | .node _ _ children => tokensOf children

def tokensOf : List Element → List Token
  | [] => []
  | element :: rest => element.tokens ++ tokensOf rest

end

/-- The text of an element is that of its tokens. -/
def text (element : Element) : String := String.join (element.tokens.map Token.text)

end Element

end Verbatim
