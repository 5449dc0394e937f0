import Verbatim.Tree.Walk

/-!
Questions to a tree. All of them are answered by the walk over a node or by its children. A handle
names an element of one tree; another tree refuses to read it.
-/

namespace Verbatim

namespace Node

/-- Name and rule together identify a place of the grammar. -/
def label (node : Node) : String := node.name ++ "#" ++ Numeral.decimal node.rule.toNat

/-- Whether the node holds tokens that no rule attached. -/
def isGroup (node : Node) : Bool := node.rule == groupRule && node.name == groupName

end Node

namespace Item

def node? : Item → Option Node
  | .node found => some found
  | .leaf _ => none

def leaf? : Item → Option Leaf
  | .node _ => none
  | .leaf found => some found

def expectNode : Item → Except Violation Node
  | .node found => .ok found
  | .leaf _ => .error .notNode

def expectLeaf : Item → Except Violation Leaf
  | .node _ => .error .notToken
  | .leaf found => .ok found

def range : Item → Nat × Nat
  | .node found => (found.first, found.last)
  | .leaf found => (found.first, found.last)

end Item

/-- The element that a step of a walk reaches for the first time. -/
def Visit.item? : Visit → Option Item
  | .enter node => some (.node node)
  | .leaf found => some (.leaf found)
  | .leave _ => none

namespace SyntaxTree

def childNodes (tree : SyntaxTree) (node : Node) : List Node := (tree.children node).filterMap Item.node?

def childLeaves (tree : SyntaxTree) (node : Node) : List Leaf := (tree.children node).filterMap Item.leaf?

def descendants (tree : SyntaxTree) (node : Node) : List Item :=
  ((tree.visits node).drop 1).filterMap Visit.item?

def descendantNodes (tree : SyntaxTree) (node : Node) : List Node := (tree.descendants node).filterMap Item.node?

def leaves (tree : SyntaxTree) (node : Node) : List Leaf := (tree.descendants node).filterMap Item.leaf?

def visibleLeaves (tree : SyntaxTree) (node : Node) : List Leaf :=
  (tree.leaves node).filter fun leaf => !leaf.token.channel.isHidden

def hiddenLeaves (tree : SyntaxTree) (node : Node) : List Leaf :=
  (tree.leaves node).filter fun leaf => leaf.token.channel.isHidden

def descendantsNamed (tree : SyntaxTree) (node : Node) (name : String) : List Node :=
  (tree.descendantNodes node).filter fun below => below.name == name

/-- The text that an element covers, cut out of the tree's text. -/
def textOf (tree : SyntaxTree) (item : Item) : String :=
  (Utf8.slice? tree.text item.range.1 item.range.2).getD ""

/-- From the start of the first token below a node to the end of the last. -/
def span? (tree : SyntaxTree) (node : Node) : Option Span :=
  match tree.leaves node with
  | [] => none
  | first :: rest => some ⟨first.token.span.first, (rest.getLastD first).token.span.last⟩

/-- The source that a node was read from, put together from its tokens. -/
def generateNode (tree : SyntaxTree) (node : Node) : String :=
  String.join ((tree.leaves node).map fun leaf => leaf.token.text)

def generate (tree : SyntaxTree) : String :=
  match tree.root? with
  | some root => tree.generateNode root
  | none => ""

end SyntaxTree

/-- A reference to an element, together with the tree that it belongs to. -/
structure Handle where
  stamp : Nat
  item : Item

namespace SyntaxTree

def handle (tree : SyntaxTree) (item : Item) : Handle := ⟨tree.stamp, item⟩

/-- Reads the text of an element through a tree, which must be the handle's own. -/
def readText (tree : SyntaxTree) (handle : Handle) : Except Violation String :=
  if handle.stamp = tree.stamp then .ok (tree.textOf handle.item)
  else
    match handle.item with
    | .node _ => .error .foreignNode
    | .leaf _ => .error .foreignToken

end SyntaxTree

end Verbatim
