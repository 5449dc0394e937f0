import Verbatim.Text.Quoted
import Verbatim.Tree.Query

/-!
Trees for reading by people: one line for each node and token, indented by depth, or the raw buffer.
-/

namespace Verbatim

def renderRange (range : Nat × Nat) : String := Numeral.decimal range.1 ++ ".." ++ Numeral.decimal range.2

namespace Node

def line (node : Node) : String := node.label ++ "@" ++ renderRange (node.first, node.last)

end Node

namespace Leaf

def line (leaf : Leaf) : String :=
  leaf.token.kind ++ "@" ++ renderRange (leaf.first, leaf.last) ++ " " ++ Quoted.quote leaf.token.text ++
    (if leaf.token.channel.isHidden then " (hidden)" else "")

end Leaf

namespace SyntaxTree

def indentation (depth : Nat) : String := String.ofList (List.replicate (2 * depth) ' ')

def dumpLines : (depth : Nat) → List Visit → List String
  | _, [] => []
  | depth, .enter node :: rest => (indentation depth ++ node.line ++ "\n") :: dumpLines (depth + 1) rest
  | depth, .leaf leaf :: rest => (indentation depth ++ leaf.line ++ "\n") :: dumpLines depth rest
  | depth, .leave _ :: rest => dumpLines (depth - 1) rest

def dump (tree : SyntaxTree) : String := String.join (dumpLines 0 tree.walk)

def raw (tree : SyntaxTree) : String :=
  "SyntaxTree \x7b text: " ++ Quoted.quote tree.text ++ ", data: [" ++
    ", ".intercalate (tree.data.toList.map fun byte => Numeral.decimal byte.toNat) ++ "] \x7d"

end SyntaxTree

end Verbatim
