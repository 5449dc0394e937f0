import Verbatim.Proofs.AssemblyNodes
import Verbatim.Proofs.TreeTokens

/-! Groups in assembled trees. A node of a tree is told to be a group by its name and rule alone. As long as no
event enters a rule that has both, this is right: exactly those nodes are groups that the assembly added. Then
every token below a group is one that no event attaches, and every token right below a rule is attached. -/

namespace Verbatim

def looksGrouped (name : String) (rule : RuleId) : Bool := rule == groupRule && name == groupName

def SyntaxTree.nodes (tree : SyntaxTree) : List Node := (tree.walk.filterMap Visit.item?).filterMap Item.node?

namespace Call

def grouped? : Call → Option Bool
  | .start name rule => some (looksGrouped name rule)
  | _ => none

private theorem groupedOf_leaves (tokens : List RawToken) :
    (Element.callsOf (Assembly.leaves tokens)).filterMap grouped? = [] := by
  rw [Assembly.callsOf_leaves]
  simp [grouped?]

end Call

private theorem SyntaxTree.mem_nodes_iff {tree : SyntaxTree} {node : Node} :
    node ∈ tree.nodes ↔ .enter node ∈ tree.walk := by
  simp only [nodes, List.mem_filterMap]
  constructor
  · rintro ⟨item, ⟨visit, inside, reached⟩, same⟩
    cases visit <;> cases reached <;> cases same
    exact inside
  · intro inside
    exact ⟨_, ⟨_, inside, rfl⟩, rfl⟩

theorem Node.isGroup_iff {node : Node} : node.isGroup = true ↔ node.rule = groupRule ∧ node.name = groupName := by
  simp [isGroup]

theorem SyntaxTree.isGroup_nodes (tree : SyntaxTree) :
    tree.nodes.map Node.isGroup = tree.calls.filterMap Call.grouped? := by
  rw [nodes, calls, List.map_filterMap, List.filterMap_filterMap, List.filterMap_map]
  congr
  funext visit
  cases visit <;> rfl

namespace Outline

/-- The rule is entered by an event, and each token right below it is attached by one. -/
def Stated (events : List RuleEvent) (name : String) (id : RuleId) (children : List Outline) : Prop :=
  .enter name id ∈ events ∧ ∀ index, .token index ∈ children → .token index ∈ events

private theorem mem_eventsOf_of_token {index : Nat} {outlines : List Outline} (member : .token index ∈ outlines) :
    .token index ∈ eventsOf outlines := by
  induction outlines with
  | nil => cases member
  | cons outline rest ih =>
    rw [eventsOf, List.mem_append]
    rcases List.mem_cons.mp member with rfl | later
    · exact .inl List.mem_cons_self
    · exact .inr (ih later)

mutual

private theorem every_stated {events : List RuleEvent} {outline : Outline}
    (listed : ∀ event ∈ outline.events, event ≠ .exit → event ∈ events) : outline.Every (Stated events) := by
  match outline with
  | .token index => trivial
  | .rule name id children =>
    have below : ∀ event ∈ eventsOf children, event ≠ .exit → event ∈ events := fun event member =>
      listed event (List.mem_cons_of_mem _ (List.mem_append_left _ member))
    refine ⟨⟨listed _ List.mem_cons_self nofun, fun index member => ?_⟩, everyOf_stated below⟩
    exact below _ (mem_eventsOf_of_token member) nofun

private theorem everyOf_stated {events : List RuleEvent} {outlines : List Outline}
    (listed : ∀ event ∈ eventsOf outlines, event ≠ .exit → event ∈ events) : EveryOf (Stated events) outlines := by
  match outlines with
  | [] => trivial
  | outline :: rest =>
    exact ⟨every_stated fun event member => listed event (List.mem_append_left _ member),
      everyOf_stated fun event member => listed event (List.mem_append_right _ member)⟩

end

end Outline

private theorem Element.exists_of_mem_itemsAt {elements : List Element} {item : Item} {index offset : Nat}
    (member : item ∈ itemsAt index offset elements) :
    ∃ element ∈ elements, ∃ place begin, item = element.itemAt place begin := by
  induction elements generalizing index offset with
  | nil => cases member
  | cons element rest ih =>
    rcases List.mem_cons.mp member with rfl | later
    · exact ⟨element, List.mem_cons_self, index, offset, rfl⟩
    · obtain ⟨element, inside, at_⟩ := ih later
      exact ⟨element, List.mem_cons_of_mem _ inside, at_⟩

namespace Piece

mutual

/-- For every node of a piece in turn, whether the assembly has added it. -/
def added : Piece → List Bool
  | .token _ => []
  | .group _ _ => [true]
  | .rule _ _ children => false :: addedOf children

def addedOf : List Piece → List Bool
  | [] => []
  | piece :: rest => piece.added ++ addedOf rest

end

mutual

private theorem groupedOf_elements (tokens : List RawToken) {piece : Piece}
    (ruled : ∀ name id, .enter name id ∈ Outline.eventsOf piece.outlines → looksGrouped name id = false) :
    (Element.callsOf (piece.elements tokens)).filterMap Call.grouped? = piece.added := by
  match piece with
  | .token index => exact Call.groupedOf_leaves _
  | .group first behind =>
    rw [elements, Element.callsOf, Element.calls, Element.callsOf, List.append_nil, List.filterMap_cons,
      List.filterMap_append, Call.groupedOf_leaves]
    rfl
  | .rule name id children =>
    have named : looksGrouped name id = false := ruled name id List.mem_cons_self
    have below := @groupedOf_elementsOf tokens children fun other place member => ruled other place
      (List.mem_append_left _ (List.mem_cons_of_mem _ (List.mem_append_left _ member)))
    rw [elements, Element.callsOf, Element.calls, Element.callsOf, List.append_nil, List.filterMap_cons,
      List.filterMap_append, below, Call.grouped?, named, added]
    simp [Call.grouped?]

private theorem groupedOf_elementsOf (tokens : List RawToken) {pieces : List Piece}
    (ruled : ∀ name id, .enter name id ∈ Outline.eventsOf (outlinesOf pieces) → looksGrouped name id = false) :
    (Element.callsOf (elementsOf tokens pieces)).filterMap Call.grouped? = addedOf pieces := by
  match pieces with
  | [] => rfl
  | piece :: rest =>
    rw [outlinesOf, Outline.eventsOf_append] at ruled
    rw [elementsOf, Element.callsOf_append, List.filterMap_append, addedOf,
      groupedOf_elements tokens fun name id member => ruled name id (List.mem_append_left _ member),
      groupedOf_elementsOf tokens fun name id member => ruled name id (List.mem_append_right _ member)]

end

private theorem exists_of_token_mem {tokens : List RawToken} {row : List Piece} {content : Token}
    (member : .token content ∈ elementsOf tokens row) :
    ∃ index raw, .token index ∈ outlinesOf row ∧ tokens[index]? = some raw ∧ content = raw.placed := by
  induction row with
  | nil => cases member
  | cons piece rest ih =>
    rw [elementsOf, List.mem_append] at member
    rw [outlinesOf]
    rcases member with here | later
    · cases piece with
      | token index =>
        obtain ⟨raw, found, same⟩ := List.mem_map.mp here
        exact ⟨index, raw, List.mem_cons_self, Option.mem_toList.mp found, (Element.token.inj same).symm⟩
      | group first behind | rule name id children => cases List.mem_singleton.mp here
    · obtain ⟨index, raw, inside, found⟩ := ih later
      exact ⟨index, raw, List.mem_append_right _ inside, found⟩

mutual

private theorem placed_mem_elements {tokens : List RawToken} {index : Nat} {raw : RawToken}
    (found : tokens[index]? = some raw) {piece : Piece} (member : .token index ∈ Outline.eventsOf piece.outlines) :
    raw.placed ∈ Call.tokensOf (Element.callsOf (piece.elements tokens)) := by
  match piece with
  | .token other =>
    cases List.mem_singleton.mp member
    rw [elements, found]
    exact List.mem_cons_self
  | .group first behind => cases member
  | .rule name id children =>
    rw [outlines, Outline.eventsOf, Outline.eventsOf, List.append_nil, Outline.events] at member
    have below : .token index ∈ Outline.eventsOf (outlinesOf children) := by simpa using member
    rw [elements, Element.callsOf, Element.callsOf, List.append_nil, Element.calls]
    simpa using placed_mem_elementsOf found below

private theorem placed_mem_elementsOf {tokens : List RawToken} {index : Nat} {raw : RawToken}
    (found : tokens[index]? = some raw) {pieces : List Piece}
    (member : .token index ∈ Outline.eventsOf (outlinesOf pieces)) :
    raw.placed ∈ Call.tokensOf (Element.callsOf (elementsOf tokens pieces)) := by
  match pieces with
  | [] => cases member
  | piece :: rest =>
    rw [outlinesOf, Outline.eventsOf_append, List.mem_append] at member
    rw [elementsOf, Element.callsOf_append, Call.tokensOf_append, List.mem_append]
    rcases member with first | later
    · exact .inl (placed_mem_elements found first)
    · exact .inr (placed_mem_elementsOf found later)

end

end Piece

namespace Assembly

open Piece

variable {tokens : List RawToken} {events : List RuleEvent} {tree : SyntaxTree} {calls : List Call} {root : Piece}

/-- A token of a tree with the place from which it comes. -/
def Comes (tokens : List RawToken) (leaf : Leaf) (index : Nat) : Prop :=
  ∃ raw, tokens[index]? = some raw ∧ leaf.token = raw.placed

/-- The events that describe an arranged tree enter its rules and attach the tokens below them. -/
theorem Arranges.stated (arranged : Arranges tokens events tree root) :
    Outline.EveryOf (Outline.Stated events) root.outlines ∧
      ∀ event ∈ Outline.eventsOf root.outlines, event ≠ .exit → event ∈ events := by
  obtain ⟨name, id, row, trailing, shape, -, -⟩ := arranged.groups
  have outline : root.outlines = [.rule name id (outlinesOf (row ++ trailing))] := by rw [shape, outlines]
  have described := (arranged.outline _).mpr outline
  have listed : ∀ event ∈ Outline.eventsOf root.outlines, event ≠ .exit → event ∈ events := by
    intro event member left
    rw [outline, Outline.eventsOf, Outline.eventsOf, List.append_nil] at member
    exact described.mem member left
  exact ⟨Outline.everyOf_stated listed, listed⟩

theorem Arranges.isGroup_nodes (arranged : Arranges tokens events tree root)
    (ruled : ∀ name rule, .enter name rule ∈ events → looksGrouped name rule = false) :
    tree.nodes.map Node.isGroup = root.added := by
  rw [tree.isGroup_nodes, arranged.calls]
  exact groupedOf_elements tokens fun name id member => ruled name id (arranged.stated.2 _ member nofun)

/-- If no rule that is entered looks like a group, a node of an arranged tree either looks like one and has tokens
that no event attaches, or it is a rule that is entered, and then the tokens right below it are attached. -/
theorem Arranges.divided (arranged : Arranges tokens events tree root) (made : Builder.build calls = .ok tree)
    (ruled : ∀ name rule, .enter name rule ∈ events → looksGrouped name rule = false) {node : Node}
    (inside : node ∈ tree.nodes) :
    (node.isGroup = true ∧
      ∀ item ∈ tree.children node, ∃ leaf index, item = .leaf leaf ∧ Comes tokens leaf index ∧ .token index ∉ events) ∨
    (node.isGroup = false ∧ .enter node.name node.rule ∈ events ∧
      ∀ leaf, .leaf leaf ∈ tree.children node → ∃ index, Comes tokens leaf index ∧ .token index ∈ events) := by
  obtain ⟨index, offset, children, items, known⟩ :=
    arranged.node_cases made arranged.stated.1 (SyntaxTree.mem_nodes_iff.mp inside)
  have single : node.isGroup = looksGrouped node.name node.rule := rfl
  rw [items, single]
  generalize node.name = name, node.rule = rule at known ⊢
  cases known with
  | @group first behind free =>
    refine .inl ⟨rfl, fun item member => ?_⟩
    obtain ⟨element, below, place, begin, rfl⟩ := Element.exists_of_mem_itemsAt member
    obtain ⟨raw, listed, rfl⟩ := List.mem_map.mp below
    obtain ⟨distance, found⟩ := List.getElem?_of_mem listed
    rw [List.getElem?_drop, List.getElem?_take] at found
    split at found
    next before => exact ⟨_, first + distance, rfl, ⟨raw, found, rfl⟩, free _ (Nat.le_add_right _ _) before⟩
    next => cases found
  | rule leads here =>
    refine .inr ⟨ruled _ _ here.1, here.1, fun leaf member => ?_⟩
    obtain ⟨element, below, place, begin, same⟩ := Element.exists_of_mem_itemsAt member
    cases element with
    | token content =>
      cases same
      obtain ⟨index, raw, listed, found, rfl⟩ := exists_of_token_mem below
      exact ⟨index, ⟨raw, found, rfl⟩, here.2 index listed⟩
    | node name rule children => cases same

theorem leaves_of_node {mode : ParseMode} (built : build tokens events mode = .ok tree) {outline : Outline}
    (described : outline.DescribedBy events) {holds : String → RuleId → List Outline → Prop}
    (every : outline.Every holds) {node : Node} (inside : node ∈ tree.nodes) (rule : node.isGroup = false) :
    ∃ row, holds node.name node.rule (outlinesOf row) ∧ ∀ index raw, tokens[index]? = some raw →
      .token index ∈ Outline.eventsOf (outlinesOf row) → ∃ leaf ∈ tree.leaves node, leaf.token = raw.placed := by
  obtain ⟨index, offset, name, id, children, rfl, stands, known⟩ :=
    stands_of_described built described every (SyntaxTree.mem_nodes_iff.mp inside)
  have leaves := SyntaxTree.leaves_of_stands stands
  cases known with
  | group free => cases rule
  | @rule name id row leads here =>
    refine ⟨row, here, fun index raw found member => ?_⟩
    have listed := placed_mem_elementsOf found member
    have below : Call.tokensOf (Element.node name id (elementsOf tokens row)).calls =
        Call.tokensOf (Element.callsOf (elementsOf tokens row)) := by simp [Element.calls]
    rw [← below, ← leaves] at listed
    exact List.mem_map.mp listed

end Assembly

end Verbatim
