import Verbatim.Text.Utf8
import Verbatim.Tree.Builder

/-!
Reading a tree back from its buffer. A walk goes through the records in order; the children of a node
are found by stepping over whole nodes. Both stop at anything that is not a record of this tree.
-/

namespace Verbatim

structure Node where
  index : Nat
  name : String
  rule : RuleId
  finish : Nat
  first : Nat
  last : Nat
deriving DecidableEq

structure Leaf where
  index : Nat
  token : Token
  first : Nat
  last : Nat
deriving DecidableEq

inductive Item where
  | node (node : Node)
  | leaf (leaf : Leaf)
deriving DecidableEq

/-- A step of the walk over a subtree. -/
inductive Visit where
  | enter (node : Node)
  | leaf (leaf : Leaf)
  | leave (node : Node)
deriving DecidableEq

namespace SyntaxTree

def node? (tree : SyntaxTree) (index : Nat) (record : StartRecord) : Option Node :=
  tree.names[record.name]?.map fun name =>
    ⟨index, name, record.rule, record.finish, record.first, record.last⟩

def leaf? (tree : SyntaxTree) (index : Nat) (record : TokenRecord) : Option Leaf := do
  let kind ← tree.names[record.kind]?
  let text ← Utf8.slice? tree.text record.first record.last
  return ⟨index, ⟨kind, text, record.channel, record.span⟩, record.first, record.last⟩

/-- The node or token whose record stands at an index. -/
def item? (tree : SyntaxTree) (index : Nat) : Option Item :=
  match Record.read? tree.data index with
  | some (.start record) => (tree.node? index record).map .node
  | some (.token record) => (tree.leaf? index record).map .leaf
  | _ => none

/-- The walk over the records from `index` up to `stop`, inside the open nodes. -/
def visitsFrom (tree : SyntaxTree) (stop : Nat) : (fuel index : Nat) → (pending : List Node) → List Visit
  | 0, _, _ => []
  | fuel + 1, index, pending =>
    if stop ≤ index then []
    else
      match Record.read? tree.data index with
      | none => []
      | some record =>
        let next := index + record.size
        match record, pending with
        | .start record, _ =>
          match tree.node? index record with
          | some node => .enter node :: tree.visitsFrom stop fuel next (node :: pending)
          | none => []
        | .token record, _ =>
          match tree.leaf? index record with
          | some leaf => .leaf leaf :: tree.visitsFrom stop fuel next pending
          | none => []
        | .finish, node :: outer => .leave node :: tree.visitsFrom stop fuel next outer
        | .finish, [] => []

def visits (tree : SyntaxTree) (node : Node) : List Visit :=
  tree.visitsFrom (node.finish + Record.finish.size) tree.data.size node.index []

/-- The elements from `index` up to `stop`, stepping over what lies inside of nodes. -/
def childrenFrom (tree : SyntaxTree) (stop : Nat) : (fuel index : Nat) → List Item
  | 0, _ => []
  | fuel + 1, index =>
    if stop ≤ index then []
    else
      match Record.read? tree.data index with
      | some (.start record) =>
        match tree.node? index record with
        | some node => .node node :: tree.childrenFrom stop fuel (node.finish + Record.finish.size)
        | none => []
      | some (.token record) =>
        match tree.leaf? index record with
        | some leaf => .leaf leaf :: tree.childrenFrom stop fuel (index + (Record.token record).size)
        | none => []
      | _ => []

def children (tree : SyntaxTree) (node : Node) : List Item :=
  match Record.read? tree.data node.index with
  | some record => tree.childrenFrom node.finish tree.data.size (node.index + record.size)
  | none => []

/-- The node whose record opens the buffer. -/
def root? (tree : SyntaxTree) : Option Node :=
  match tree.item? 0 with
  | some (.node node) => some node
  | _ => none

def walk (tree : SyntaxTree) : List Visit :=
  match tree.root? with
  | some root => tree.visits root
  | none => []

end SyntaxTree

/-- The call that a step of a walk stands for. -/
def Visit.call : Visit → Call
  | .enter node => .start node.name node.rule
  | .leaf found => .token found.token
  | .leave _ => .finish

namespace SyntaxTree

def calls (tree : SyntaxTree) : List Call := tree.walk.map Visit.call

/-- Trees are equal when they have the same shape, names, rules and tokens, spans included. -/
instance : BEq SyntaxTree := ⟨fun a b => a.calls == b.calls⟩

end SyntaxTree

end Verbatim
