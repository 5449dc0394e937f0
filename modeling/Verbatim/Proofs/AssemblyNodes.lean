import Verbatim.Proofs.AssemblyBare

/-! The nodes of an assembled tree, one by one. A node that is no group is a rule of the outline that the events
describe; its children are those of the rule, with groups between them but never in front of a rule. So what
holds of every rule of the outline is found again at every node of the tree. -/

namespace Verbatim

namespace Outline

mutual

def Every (holds : String → RuleId → List Outline → Prop) : Outline → Prop
  | .token _ => True
  | .rule name id children => holds name id children ∧ EveryOf holds children

def EveryOf (holds : String → RuleId → List Outline → Prop) : List Outline → Prop
  | [] => True
  | outline :: rest => outline.Every holds ∧ EveryOf holds rest

end

variable {holds : String → RuleId → List Outline → Prop}

theorem everyOf_append (front back : List Outline) :
    EveryOf holds (front ++ back) ↔ EveryOf holds front ∧ EveryOf holds back := by
  induction front with
  | nil => simp [EveryOf]
  | cons outline rest ih => rw [List.cons_append, EveryOf, ih, EveryOf, and_assoc]

mutual

theorem every_of_renamed {place : Nat → Nat} {outline : Outline}
    (steady : ∀ name id children, holds name id (renamedOf place children) → holds name id children)
    (every : (outline.renamed place).Every holds) : outline.Every holds := by
  match outline with
  | .token index => trivial
  | .rule name id children =>
    obtain ⟨here, below⟩ := every
    exact ⟨steady name id children here, everyOf_of_renamedOf steady below⟩

private theorem everyOf_of_renamedOf {place : Nat → Nat} {outlines : List Outline}
    (steady : ∀ name id children, holds name id (renamedOf place children) → holds name id children)
    (every : EveryOf holds (renamedOf place outlines)) : EveryOf holds outlines := by
  match outlines with
  | [] => trivial
  | outline :: rest =>
    obtain ⟨first, others⟩ := every
    exact ⟨every_of_renamed steady first, everyOf_of_renamedOf steady others⟩

end

private theorem exists_course (outline : Outline) : ∃ event rest, outline.events = event :: rest ∧ event ≠ .exit := by
  cases outline with
  | token index => exact ⟨_, _, rfl, nofun⟩
  | rule name id children => exact ⟨_, _, rfl, nofun⟩

private theorem DescribedBy.filter_ne_nil {outline : Outline} {events : List RuleEvent}
    (described : outline.DescribedBy events) :
    events.filter isCourse ≠ [] := by
  intro none
  obtain ⟨unclosed, same⟩ := described
  obtain ⟨event, rest, shape, entered⟩ := outline.exists_course
  rw [none, List.nil_append, shape] at same
  have member : event ∈ List.replicate unclosed .exit := same ▸ List.mem_cons_self
  exact entered (List.eq_of_mem_replicate member)

end Outline

namespace Element

private theorem nodesOf_append (front back : List Element) :
    nodesOf (front ++ back) = nodesOf front ++ nodesOf back := by
  induction front with
  | nil => rfl
  | cons element rest ih => rw [List.cons_append, nodesOf, ih, nodesOf, List.append_assoc]

private theorem nodesOf_leaves (tokens : List RawToken) : nodesOf (Assembly.leaves tokens) = [] := by
  induction tokens with
  | nil => rfl
  | cons raw rest ih =>
    rw [Assembly.leaves, List.map_cons, nodesOf]
    exact ih

end Element

namespace Piece

open Assembly (leaves)

variable {events : List RuleEvent} {tokens : List RawToken} {next count : Nat} {row : List Piece}
  {holds : String → RuleId → List Outline → Prop}

/-- The first rule of a row of pieces stands first if nothing but groups is before it. -/
def Leads (row : List Piece) : Prop :=
  ∀ name id below rest, outlinesOf row = .rule name id below :: rest →
    ∃ inner more, row = .rule name id inner :: more ∧ outlinesOf inner = below

theorem Anchored.leads (anchored : Anchored events next count row) (first behind : Nat) :
    Leads (row ++ gap first behind) := by
  intro name id below rest same
  rw [outlinesOf_append, outlinesOf_gap, List.append_nil] at same
  cases anchored with
  | nil | token | group => cases same
  | rule =>
    cases same
    exact ⟨_, _, rfl, rfl⟩

/-- A node among pieces is a group of tokens that no event attaches, or a rule with what holds of it. -/
inductive Known (holds : String → RuleId → List Outline → Prop) (tokens : List RawToken) (events : List RuleEvent) :
    Element → Prop
  | group {first behind : Nat} (free : ∀ index, first ≤ index → index < behind → .token index ∉ events) :
    Known holds tokens events (.node groupName groupRule (leaves ((tokens.take behind).drop first)))
  | rule {name : String} {id : RuleId} {row : List Piece} (leads : Leads row) (here : holds name id (outlinesOf row)) :
    Known holds tokens events (.node name id (elementsOf tokens row))

private theorem nodesOf_group (first behind : Nat) :
    Element.nodesOf (elementsOf tokens [.group first behind]) =
      [.node groupName groupRule (leaves ((tokens.take behind).drop first))] := by
  rw [elementsOf, elements, elementsOf, List.append_nil, Element.nodesOf, Element.nodes, Element.nodesOf_leaves]
  rfl

theorem Anchored.known (anchored : Anchored events next count row) (every : Outline.EveryOf holds (outlinesOf row)) :
    ∀ node ∈ Element.nodesOf (elementsOf tokens row), Known holds tokens events node := by
  induction anchored with
  | nil => intro node member; cases member
  | token later ih =>
    intro node member
    rw [elementsOf, elements, Element.nodesOf_append, Element.nodesOf_leaves] at member
    exact ih every.2 node member
  | group run attached later ih =>
    intro node member
    rw [elementsOf, elementsOf, elements, elements, Element.nodesOf_append, Element.nodesOf_append,
      Element.nodesOf_leaves, Element.nodesOf, Element.nodes, Element.nodesOf_leaves] at member
    rcases List.mem_cons.mp member with rfl | rest
    · exact .group run.free
    · exact ih every.2 node rest
  | rule below later inner ih =>
    obtain ⟨⟨here, inside⟩, others⟩ := every
    intro node member
    rw [elementsOf, elements, Element.nodesOf_append, Element.nodesOf, Element.nodes, Element.nodesOf,
      List.append_nil, List.cons_append, List.mem_cons, List.mem_append] at member
    rcases member with rfl | deeper | rest
    · have leads := below.leads 0 0
      rw [gap, if_neg (Nat.lt_irrefl 0), List.append_nil] at leads
      exact .rule leads here
    · exact inner inside node deeper
    · exact ih others node rest

end Piece

namespace Assembly

open Piece

variable {tokens : List RawToken} {events : List RuleEvent} {tree : SyntaxTree} {calls : List Call} {root : Piece}
  {holds : String → RuleId → List Outline → Prop}

theorem exists_outline {mode : ParseMode} (consistent : Consistent mode tokens.length 0 0 false events)
    (entered : ∃ name rule, .enter name rule ∈ events) : ∃ outline : Outline, outline.DescribedBy events := by
  obtain ⟨settled, -⟩ | ⟨name, rule, row, last, -, described, -, -⟩ := exists_root consistent
  · exact absurd settled (Outline.filter_ne_nil_of_enter entered)
  · exact ⟨_, described⟩

theorem Arranges.known (arranged : Arranges tokens events tree root) (every : Outline.EveryOf holds root.outlines) :
    ∀ node ∈ Element.nodesOf (root.elements tokens), Known holds tokens events node := by
  obtain ⟨name, id, row, trailing, rfl, anchored, ending⟩ := arranged.groups
  have bare : outlinesOf (row ++ trailing) = outlinesOf row := by
    rw [outlinesOf_append]
    rcases ending with rfl | ⟨first, rfl, -⟩ <;> exact List.append_nil _
  rw [outlines, bare, Outline.EveryOf, Outline.Every] at every
  obtain ⟨⟨here, below⟩, -⟩ := every
  intro node member
  rw [elements, Element.nodesOf, Element.nodes, Element.nodesOf, List.append_nil, List.mem_cons, elementsOf_append,
    Element.nodesOf_append, List.mem_append, ← elementsOf_append] at member
  rcases member with rfl | inner | behind
  · refine .rule ?_ (bare.symm ▸ here)
    rcases ending with rfl | ⟨first, rfl, run⟩
    · simpa [gap] using anchored.leads 0 0
    · simpa [gap, run.filled] using anchored.leads first tokens.length
  · exact anchored.known below node inner
  · rcases ending with rfl | ⟨first, rfl, run⟩
    · cases behind
    · rw [nodesOf_group, List.mem_singleton] at behind
      exact behind ▸ .group run.free

private theorem Arranges.stands_cases (arranged : Arranges tokens events tree root)
    (made : Builder.build calls = .ok tree)
    (every : Outline.EveryOf holds root.outlines) {node : Node} (inside : .enter node ∈ tree.walk) :
    ∃ index offset name id children, node = Element.nodeAt index offset name id children ∧
      (Element.node name id children).StandsAt tree index offset ∧
        Known holds tokens events (.node name id children) := by
  obtain ⟨frame, same, stands, -⟩ := SyntaxTree.stands_of_build made
  obtain ⟨name, id, row, trailing, shape, -, -⟩ := arranged.groups
  have whole : root.elements tokens = [frame.node] := by
    have calls : frame.node.calls = (Frame.mk name id (elementsOf tokens (row ++ trailing))).node.calls := by
      rw [same, ← (SyntaxTree.readsBack_of_build made).made, arranged.calls, shape, elements, Element.callsOf,
        Element.callsOf, List.append_nil]
      rfl
    rw [Draft.calls_injective _ _ calls, shape]
    rfl
  have known := arranged.known every
  rw [whole, Element.nodesOf, Element.nodesOf, List.append_nil] at known
  obtain ⟨front, back, split⟩ := List.append_of_mem inside
  rw [SyntaxTree.walk_of_stands stands] at split
  obtain ⟨place, begin, title, rule, children, behind, member, found, -, rfl, -⟩ := stands.entered split
  exact ⟨place, begin, title, rule, children, rfl, found, known _ member⟩

theorem Arranges.node_cases (arranged : Arranges tokens events tree root) (made : Builder.build calls = .ok tree)
    (every : Outline.EveryOf holds root.outlines) {node : Node} (inside : .enter node ∈ tree.walk) :
    ∃ index offset children, tree.children node = Element.itemsAt index offset children ∧
      Known holds tokens events (.node node.name node.rule children) := by
  obtain ⟨index, offset, name, id, children, rfl, stands, known⟩ := arranged.stands_cases made every inside
  exact ⟨_, _, children, stands.children_eq.1, known⟩

/-- The nodes of a tree whose events describe an outline, and what holds of every rule of the outline. -/
theorem stands_of_described {mode : ParseMode} (built : build tokens events mode = .ok tree) {outline : Outline}
    (described : outline.DescribedBy events) (every : outline.Every holds) {node : Node}
    (inside : .enter node ∈ tree.walk) :
    ∃ index offset name id children, node = Element.nodeAt index offset name id children ∧
      (Element.node name id children).StandsAt tree index offset ∧
        Known holds tokens events (.node name id children) := by
  obtain ⟨consistent, made⟩ := build_eq_ok_iff.mp built
  obtain ⟨root, arranged⟩ := exists_arranges consistent made described.filter_ne_nil
  have sketched : Outline.EveryOf holds root.outlines := by
    rw [(arranged.outline outline).mp described]
    exact ⟨every, trivial⟩
  exact arranged.stands_cases made sketched inside

/-- The children of a node that is no group are those of a rule of the outline, with groups between them. -/
theorem children_of_enter {mode : ParseMode} (built : build tokens events mode = .ok tree) {outline : Outline}
    (described : outline.DescribedBy events) (every : outline.Every holds) {node : Node}
    (inside : .enter node ∈ tree.walk) (named : node.name ≠ groupName) :
    ∃ row index offset, tree.children node = Element.itemsAt index offset (elementsOf tokens row) ∧ Leads row ∧
      holds node.name node.rule (outlinesOf row) := by
  obtain ⟨index, offset, name, id, children, rfl, stands, known⟩ := stands_of_described built described every inside
  cases known with
  | group free => exact absurd rfl named
  | rule leads here => exact ⟨_, _, _, stands.children_eq.1, leads, here⟩

end Assembly

end Verbatim
