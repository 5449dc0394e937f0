import Verbatim.Proofs.TreeReading

/-! A built tree is the tree that its calls write down. Every handle that a walk gives out leads back to
the same record, the walk over a node is the part of the whole walk between entering and leaving it, and
the children of a node are the outermost elements of that part. -/

namespace Verbatim

private theorem Record.read?_inside {data : Array UInt8} {index : Nat} {record : Record}
    (reads : read? data index = some record) :
    index + 2 ≤ data.size := by
  by_contra outside
  have missing : Word.read? data 2 index = none := if_neg outside
  simp [read?, missing] at reads

private theorem append_eq_split {first second front back : List α} {here : α}
    (split : first ++ second = front ++ here :: back) :
    (∃ rest, first = front ++ here :: rest ∧ back = rest ++ second) ∨
      ∃ rest, front = first ++ rest ∧ second = rest ++ here :: back := by
  rcases List.append_eq_append_iff.mp split with ⟨rest, before, behind⟩ | ⟨rest, before, behind⟩
  · exact .inr ⟨rest, before, behind⟩
  · obtain _ | ⟨head, rest⟩ := rest
    · exact .inr ⟨[], by simpa using before.symm, by simpa using behind.symm⟩
    · obtain ⟨rfl, rfl⟩ := List.cons.inj behind
      exact .inl ⟨rest, before, rfl⟩

namespace Visit

/-- The elements of a walk that lie inside of no other element of it, from `depth` open nodes on. -/
def outermost : (depth : Nat) → List Visit → List Item
  | _, [] => []
  | 0, .enter node :: rest => .node node :: outermost 1 rest
  | depth + 1, .enter _ :: rest => outermost (depth + 2) rest
  | 0, .leaf found :: rest => .leaf found :: outermost 0 rest
  | depth + 1, .leaf _ :: rest => outermost (depth + 1) rest
  | depth, .leave _ :: rest => outermost (depth - 1) rest

end Visit

namespace Element

def isNode : Element → Bool
  | .token _ => false
  | .node _ _ _ => true

mutual

private theorem outermost_inside (element : Element) (depth index offset : Nat) (rest : List Visit) :
    Visit.outermost (depth + 1) (element.visits index offset ++ rest) = Visit.outermost (depth + 1) rest := by
  match element with
  | .token content => rfl
  | .node name rule children =>
    rw [visits, List.cons_append, Visit.outermost, List.append_assoc, outermost_insideOf children]
    rfl

private theorem outermost_insideOf (elements : List Element) (depth index offset : Nat) (rest : List Visit) :
    Visit.outermost (depth + 1) (visitsOf index offset elements ++ rest) = Visit.outermost (depth + 1) rest := by
  match elements with
  | [] => rfl
  | element :: later => rw [visitsOf, List.append_assoc, outermost_inside element, outermost_insideOf later]

end

private theorem outermost_visitsOf (elements : List Element) (index offset : Nat) :
    Visit.outermost 0 (visitsOf index offset elements) = itemsAt index offset elements := by
  induction elements generalizing index offset with
  | nil => rfl
  | cons element rest ih =>
    rw [visitsOf, itemsAt, ← ih]
    match element with
    | .token content => rfl
    | .node name rule children =>
      rw [visits, List.cons_append, Visit.outermost, List.append_assoc, outermost_insideOf children]
      rfl

mutual

def nodes : Element → List Element
  | .token _ => []
  | .node name rule children => .node name rule children :: nodesOf children

def nodesOf : List Element → List Element
  | [] => []
  | element :: rest => element.nodes ++ nodesOf rest

end

variable {tree : SyntaxTree}

mutual

/-- Where a walk enters a node, that node of the element stands behind the text so far, and the rest of the walk
goes through its children and leaves it. -/
theorem StandsAt.entered {element : Element} {index offset : Nat} (stands : element.StandsAt tree index offset)
    {front back : List Visit} {node : Node} (split : element.visits index offset = front ++ .enter node :: back) :
    ∃ place begin name rule children behind, .node name rule children ∈ element.nodes ∧
      (Element.node name rule children).StandsAt tree place begin ∧
      begin = offset + (Call.textOf (front.map Visit.call)).utf8ByteSize ∧
      node = nodeAt place begin name rule children ∧
      back = visitsOf (place + 18) begin children ++ .leave node :: behind := by
  match element with
  | .token content => simp [visits, List.singleton_eq_append_iff] at split
  | .node name rule children =>
    rw [visits] at split
    rcases List.cons_eq_append_iff.mp split with ⟨rfl, same⟩ | ⟨front, rfl, inner⟩
    · cases same
      exact ⟨index, offset, name, rule, children, [], List.mem_cons_self, stands, by simp, rfl, rfl⟩
    · rcases append_eq_split inner with ⟨rest, below, rfl⟩ | ⟨rest, rfl, last⟩
      · obtain ⟨-, -, stand, -⟩ := stands
        obtain ⟨place, begin, name, rule, children, behind, member, found, start, same, rfl⟩ := stand.entered below
        refine ⟨place, begin, name, rule, children, _, List.mem_cons_of_mem _ member, found, ?_, same,
          List.append_assoc _ _ _⟩
        simpa [Visit.call, Call.text] using start
      · obtain _ | ⟨head, rest⟩ := rest <;> simp at last

theorem StandAt.entered {elements : List Element} {index offset : Nat} (stand : StandAt tree index offset elements)
    {front back : List Visit} {node : Node} (split : visitsOf index offset elements = front ++ .enter node :: back) :
    ∃ place begin name rule children behind, .node name rule children ∈ nodesOf elements ∧
      (Element.node name rule children).StandsAt tree place begin ∧
      begin = offset + (Call.textOf (front.map Visit.call)).utf8ByteSize ∧
      node = nodeAt place begin name rule children ∧
      back = visitsOf (place + 18) begin children ++ .leave node :: behind := by
  match elements with
  | [] => simp [visitsOf] at split
  | element :: rest =>
    obtain ⟨first, others⟩ := stand
    rw [visitsOf] at split
    rcases append_eq_split split with ⟨more, inner, rfl⟩ | ⟨more, rfl, later⟩
    · obtain ⟨place, begin, name, rule, children, behind, member, found, start, same, rfl⟩ := first.entered inner
      exact ⟨place, begin, name, rule, children, _, List.mem_append_left _ member, found, start, same,
        List.append_assoc _ _ _⟩
    · obtain ⟨place, begin, name, rule, children, behind, member, found, start, same, rfl⟩ := others.entered later
      refine ⟨place, begin, name, rule, children, _, List.mem_append_right _ member, found, ?_, same, rfl⟩
      rw [start, List.map_append, map_visits, Call.textOf_append, String.utf8ByteSize_append, Nat.add_assoc]

end

/-- The walk over a node that stands in a tree, and the way along its children. -/
theorem StandsAt.visits_eq {index offset : Nat} {name : String} {rule : RuleId} {children : List Element}
    (stands : (Element.node name rule children).StandsAt tree index offset) :
    let node := nodeAt index offset name rule children
    tree.visits node = (Element.node name rule children).visits index offset ∧
      tree.Walks (node.finish + Record.finish.size) index [] (tree.visits node) := by
  have stop : index + Call.sizeOf (Element.node name rule children).calls =
      index + 18 + Call.sizeOf (callsOf children) + 2 := by
    simp [calls, Call.size, Nat.add_assoc]
  have walks := stands.walks (Nat.le_of_eq stop) (by rw [stop]; exact .done)
  rw [List.append_nil] at walks
  have covered := Record.read?_inside stands.2.2.2
  have bound := walks.length_le
  have same : tree.visits (nodeAt index offset name rule children) =
      (Element.node name rule children).visits index offset :=
    walks.visitsFrom_eq (by omega)
  exact ⟨same, by rw [same]; exact walks⟩

theorem StandsAt.children_eq {index offset : Nat} {name : String} {rule : RuleId} {children : List Element}
    (stands : (Element.node name rule children).StandsAt tree index offset) :
    let node := nodeAt index offset name rule children
    tree.children node = itemsAt (index + 18) offset children ∧
      tree.Steps node.finish (index + 18) (tree.children node) := by
  obtain ⟨⟨record, reads, -⟩, -, stand, finishes⟩ := stands
  have steps := stand.steps
  have covered := Record.read?_inside finishes
  have bound := length_itemsAt_le children (index + 18) offset
  have same : tree.children (nodeAt index offset name rule children) = itemsAt (index + 18) offset children := by
    simp only [SyntaxTree.children, nodeAt, reads, Record.size]
    exact steps.childrenFrom_eq (by omega)
  exact ⟨same, by rw [same]; exact steps⟩

mutual

private theorem StandsAt.leaf_read {element : Element} {index offset : Nat}
    (stands : element.StandsAt tree index offset)
    {leaf : Leaf} (member : .leaf leaf ∈ element.visits index offset) : tree.item? leaf.index = some (.leaf leaf) := by
  match element with
  | .token content =>
    obtain ⟨record, reads, shows⟩ := stands
    rw [visits, List.mem_singleton] at member
    cases member
    simp [SyntaxTree.item?, leafAt, reads, shows]
  | .node name rule children =>
    obtain ⟨-, -, stand, -⟩ := stands
    exact stand.leaf_read (by simpa [visits] using member)

private theorem StandAt.leaf_read {elements : List Element} {index offset : Nat}
    (stand : StandAt tree index offset elements)
    {leaf : Leaf} (member : .leaf leaf ∈ visitsOf index offset elements) :
    tree.item? leaf.index = some (.leaf leaf) := by
  match elements with
  | [] => simp [visitsOf] at member
  | element :: rest =>
    obtain ⟨first, others⟩ := stand
    rcases List.mem_append.mp member with member | member
    · exact first.leaf_read member
    · exact others.leaf_read member

end

private theorem StandsAt.node_read {index offset : Nat} {name : String} {rule : RuleId} {children : List Element}
    (stands : (Element.node name rule children).StandsAt tree index offset) :
    tree.item? index = some (.node (nodeAt index offset name rule children)) := by
  obtain ⟨⟨record, reads, shows⟩, -⟩ := stands
  simp [SyntaxTree.item?, reads, shows]

end Element

namespace SyntaxTree

/-- A node of a tree as it is read back, with the walk below it. -/
structure NodeReads (tree : SyntaxTree) (node : Node) (below : List Visit) : Prop where
  /-- The handle leads to the record that it came from. -/
  handle : tree.item? node.index = some (.node node)
  /-- The walk below a node is that over some elements, and both ways read records only. -/
  balanced : ∃ children, below.map Visit.call = Element.callsOf children
  visits : tree.visits node = .enter node :: (below ++ [.leave node])
  walks : tree.Walks (node.finish + Record.finish.size) node.index [] (tree.visits node)
  children : tree.children node = Visit.outermost 0 below
  steps : tree.Steps node.finish (node.index + 18) (tree.children node)
  /-- The text of a node is cut out between characters. -/
  text : Utf8.slice? tree.text node.first node.last = some (Call.textOf (below.map Visit.call))

/-- A tree that is read back as the calls that built it. -/
structure ReadsBack (tree : SyntaxTree) (calls : List Call) : Prop where
  root : ∃ root, tree.root? = some root ∧ root.index = 0 ∧ tree.walk = tree.visits root
  made : tree.calls = calls
  text : tree.text = Call.textOf calls
  nodes : ∀ front node back, tree.walk = front ++ .enter node :: back →
    ∃ below behind, back = below ++ .leave node :: behind ∧ tree.NodeReads node below
  leaves : ∀ leaf, .leaf leaf ∈ tree.walk → tree.item? leaf.index = some (.leaf leaf)

variable {tree : SyntaxTree} {calls : List Call}

/-- The records of a built tree stand in its buffer from the start. -/
theorem stands_of_build (built : Builder.build calls = .ok tree) :
    ∃ root : Frame, root.node.calls = calls ∧ root.node.StandsAt tree 0 0 ∧ tree.text = Call.textOf calls := by
  obtain ⟨root, same, shown⟩ := Builder.build_eq_ok built
  have text : tree.text = Call.textOf root.node.calls := shown.text
  have small := shown.small
  have size : tree.data.size = Call.sizeOf root.node.calls := shown.size
  have legible : Element.Legible tree :=
    ⟨shown.few, by rw [size]; exact Nat.lt_of_succ_lt small, by rw [text]; exact shown.short⟩
  refine ⟨root, same, ?_, by rw [text, same]⟩
  refine Element.standsAt_of_holds legible root.node "" "" (fun name member => (shown.known name).mpr member)
    (by rw [text, String.empty_append, String.append_empty]) ⟨[], ?_⟩
  rw [List.append_nil, List.drop_zero]
  exact shown.data.symm

theorem root_of_stands {root : Frame} (stands : root.node.StandsAt tree 0 0) :
    tree.root? = some (Element.nodeAt 0 0 root.name root.rule root.below) := by
  simp [SyntaxTree.root?, stands.node_read]

theorem walk_of_stands {root : Frame} (stands : root.node.StandsAt tree 0 0) : tree.walk = root.node.visits 0 0 := by
  simp only [SyntaxTree.walk, root_of_stands stands]
  exact stands.visits_eq.1

theorem readsBack_of_build (built : Builder.build calls = .ok tree) : tree.ReadsBack calls := by
  obtain ⟨root, same, stands, text⟩ := stands_of_build built
  have found := root_of_stands stands
  have walk : tree.walk = tree.visits (Element.nodeAt 0 0 root.name root.rule root.below) := by
    simp [SyntaxTree.walk, found]
  have visits := walk_of_stands stands
  refine ⟨⟨_, found, rfl, walk⟩, ?_, text, ?_, ?_⟩
  · rw [SyntaxTree.calls, visits, Element.map_visits, same]
  · intro front node back split
    obtain ⟨place, begin, name, rule, children, behind, -, inner, -, rfl, rfl⟩ :=
      stands.entered (visits.symm.trans split)
    refine ⟨_, behind, rfl, inner.node_read, ⟨children, Element.map_visitsOf children _ _⟩, inner.visits_eq.1,
      inner.visits_eq.2, ?_, inner.children_eq.2, ?_⟩
    · rw [inner.children_eq.1, Element.outermost_visitsOf]
    · rw [Element.map_visitsOf]
      exact inner.2.1
  · intro leaf member
    rw [visits] at member
    exact stands.leaf_read member

end SyntaxTree

/-- Within the limits of a tree exactly the sequences that write one tree down can be built, and what is
built is read back as that tree: by the walk, by the children of every node, and by every handle. -/
theorem build_iff_and_reads_back (calls : List Call) (fits : Builder.Fits calls) :
    ((∃ tree, Builder.build calls = .ok tree) ↔ ∃! root : Element, root.isNode = true ∧ root.calls = calls) ∧
      ∀ tree, Builder.build calls = .ok tree → tree.ReadsBack calls := by
  refine ⟨⟨?_, ?_⟩, fun tree built => SyntaxTree.readsBack_of_build built⟩
  · rintro ⟨tree, built⟩
    obtain ⟨root, rfl, -⟩ := SyntaxTree.stands_of_build built
    refine ⟨root.node, ⟨rfl, rfl⟩, ?_⟩
    rintro (content | ⟨name, rule, children⟩) ⟨node, same⟩
    · cases node
    · rw [← Draft.calls_injective ⟨name, rule, children⟩ root same]
      rfl
  · rintro ⟨content | ⟨name, rule, children⟩, ⟨node, rfl⟩, -⟩
    · cases node
    · exact Builder.exists_build ⟨name, rule, children⟩ fits

theorem nested_nodes_read_back :
    let root : Element := .node "root" 1
      [.node "x" 0 [.token ⟨"WS", "é\n", .hidden, ⟨⟨1, 0⟩, ⟨2, -1⟩⟩⟩], .token ⟨"EOF", "", .visible, ⟨⟨2, 0⟩, ⟨2, -1⟩⟩⟩,
        .node "x" 7 []]
    Builder.Fits root.calls ∧ ∃ tree, Builder.build root.calls = .ok tree ∧ tree.ReadsBack root.calls := by
  intro root
  have fits : Builder.Fits root.calls :=
    .ofLength (by decide) (by decide) (by decide)
  obtain ⟨tree, built⟩ := Builder.exists_build ⟨_, _, _⟩ fits
  exact ⟨fits, tree, built, (build_iff_and_reads_back root.calls fits).2 tree built⟩

end Verbatim
