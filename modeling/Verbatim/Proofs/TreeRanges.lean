import Verbatim.Proofs.TreeTokens

/-! Where the texts of a tree lie. The children of a node follow each other from its start to its end, every
bound stands between two characters, and what is cut out for a node is what its tokens say together. -/

namespace Verbatim

/-- Ranges that follow each other without a gap, from `first` up to `last`. -/
def Tiles (last : Nat) : (first : Nat) → List (Nat × Nat) → Prop
  | first, [] => first = last
  | first, range :: rest => range.1 = first ∧ range.1 ≤ range.2 ∧ Tiles last range.2 rest

namespace Utf8

/-- Both bounds of a range stand at the start of a character or at the end of the text. -/
def Cuts (text : String) (range : Nat × Nat) : Prop :=
  String.Pos.Raw.IsValid text ⟨range.1⟩ ∧ String.Pos.Raw.IsValid text ⟨range.2⟩

private theorem isValid_size (before behind : String) :
    String.Pos.Raw.IsValid (before ++ behind) ⟨before.utf8ByteSize⟩ :=
  String.Pos.Raw.isValid_iff_exists_append.mpr ⟨before, behind, rfl, rfl⟩

private theorem cuts_middle (before content behind : String) :
    Cuts (before ++ content ++ behind) (before.utf8ByteSize, before.utf8ByteSize + content.utf8ByteSize) := by
  constructor
  · rw [String.append_assoc]
    exact isValid_size before (content ++ behind)
  · rw [← String.utf8ByteSize_append]
    exact isValid_size (before ++ content) behind

end Utf8

namespace Element

private theorem range_itemAt (element : Element) (index offset : Nat) :
    (element.itemAt index offset).range = (offset, offset + (Call.textOf element.calls).utf8ByteSize) := by
  cases element with
  | token content => simp [itemAt, leafAt, Item.range, calls, Call.text]
  | node name rule children => simp [itemAt, nodeAt, Item.range, calls, Call.text]

private theorem itemsAt_tile (elements : List Element) (index offset : Nat) :
    Tiles (offset + (Call.textOf (callsOf elements)).utf8ByteSize) offset
      ((itemsAt index offset elements).map Item.range) := by
  induction elements generalizing index offset with
  | nil => simp [itemsAt, callsOf, Tiles]
  | cons element rest ih =>
    rw [itemsAt, List.map_cons, range_itemAt, callsOf, Call.textOf_append, String.utf8ByteSize_append, ← Nat.add_assoc]
    exact ⟨rfl, Nat.le_add_right _ _, ih _ _⟩

private theorem cuts_itemsAt (elements : List Element) (index : Nat) (before behind : String) :
    ∀ item ∈ itemsAt index before.utf8ByteSize elements,
      Utf8.Cuts (before ++ Call.textOf (callsOf elements) ++ behind) item.range := by
  induction elements generalizing index before with
  | nil => intro item listed; cases listed
  | cons element rest ih =>
    intro item listed
    rw [itemsAt, ← String.utf8ByteSize_append, List.mem_cons] at listed
    rw [callsOf, Call.textOf_append, ← String.append_assoc]
    rcases listed with rfl | later
    · rw [range_itemAt, String.append_assoc]
      exact Utf8.cuts_middle before _ _
    · exact ih _ _ item later

end Element

namespace SyntaxTree

/-- How the range of a node lies in the text of its tree, and those of its children in it. -/
structure Ranged (tree : SyntaxTree) (node : Node) : Prop where
  tiled : Tiles node.last node.first ((tree.children node).map Item.range)
  cuts : Utf8.Cuts tree.text (Item.node node).range
  inner : ∀ item ∈ tree.children node, Utf8.Cuts tree.text item.range
  sliced : Utf8.slice? tree.text node.first node.last = some (tree.generateNode node)

variable {tree : SyntaxTree} {calls : List Call}

private theorem generateNode_eq_textOf (built : Builder.build calls = .ok tree) {node : Node}
    (inside : .enter node ∈ tree.walk) : tree.generateNode node = tree.textOf (.node node) := by
  obtain ⟨before, below, behind, -, leaves, text⟩ := leaves_of_enter built inside
  rw [text, ← leaves, List.map_map]
  rfl

/-- A node of a built tree stands behind the text of all that the walk has come to before it. -/
private theorem stands_of_enter (built : Builder.build calls = .ok tree) {node : Node}
    (inside : .enter node ∈ tree.walk) :
    ∃ place name rule children before behind, (Element.node name rule children).StandsAt tree place before.utf8ByteSize ∧
      node = Element.nodeAt place before.utf8ByteSize name rule children ∧
      tree.text = before ++ Call.textOf (Element.callsOf children) ++ behind := by
  obtain ⟨root, same, stands, text⟩ := stands_of_build built
  obtain ⟨front, back, split⟩ := List.append_of_mem inside
  have walk := walk_of_stands stands
  obtain ⟨place, begin, name, rule, children, later, -, found, start, rfl, rfl⟩ :=
    stands.entered (walk.symm.trans split)
  rw [Nat.zero_add] at start
  subst start
  refine ⟨place, name, rule, children, _, Call.textOf (later.map Visit.call), found, rfl, ?_⟩
  rw [text, ← same, ← Element.map_visits root.node 0 0, ← walk, split]
  simp [Visit.call, Call.text, Element.map_visitsOf, String.append_assoc]

private theorem ranged_of_enter (built : Builder.build calls = .ok tree) {node : Node}
    (inside : .enter node ∈ tree.walk) :
    tree.Ranged node := by
  have made := generateNode_eq_textOf built inside
  obtain ⟨place, name, rule, children, before, behind, stands, rfl, text⟩ := stands_of_enter built inside
  have children_eq := stands.children_eq.1
  obtain ⟨-, sliced, -⟩ := stands
  refine ⟨?_, ?_, ?_, ?_⟩
  · rw [children_eq]
    exact Element.itemsAt_tile children _ _
  · rw [text]
    exact Utf8.cuts_middle before _ behind
  · rw [children_eq, text]
    exact Element.cuts_itemsAt children _ before behind
  · rw [made, textOf]
    simp [Item.range, Element.nodeAt, sliced]

/-- In a built tree the ranges of the children of each node tile that of the node, all bounds stand between
characters, and the text cut out for a node is that of its tokens; the root has the whole text. -/
theorem ranges_tile (calls : List Call) (tree : SyntaxTree) (built : Builder.build calls = .ok tree) :
    (∀ node, .enter node ∈ tree.walk →
      tree.Ranged node ∧ tree.textOf (.node node) = tree.generateNode node) ∧
    tree.generate = tree.text ∧
    ∃ root, tree.root? = some root ∧ .enter root ∈ tree.walk ∧ (Item.node root).range = (0, tree.text.utf8ByteSize) := by
  refine ⟨?_, generate_of_build built, ?_⟩
  · intro node inside
    exact ⟨ranged_of_enter built inside, (generateNode_eq_textOf built inside).symm⟩
  · obtain ⟨root, same, stands, text⟩ := stands_of_build built
    refine ⟨_, root_of_stands stands, ?_, ?_⟩
    · rw [walk_of_stands stands]
      exact List.mem_cons_self
    · rw [text, ← same]
      exact Element.range_itemAt root.node 0 0 |>.trans (by rw [Nat.zero_add])

theorem nested_ranges_tile :
    let root : Element := .node "root" 1
      [.node "x" 0 [.token ⟨"WS", "é\n", .hidden, ⟨⟨1, 0⟩, ⟨2, -1⟩⟩⟩, .token ⟨"GAP", "", .visible, ⟨⟨2, 0⟩, ⟨2, -1⟩⟩⟩],
        .node "x" 7 [], .token ⟨"ID", "b", .visible, ⟨⟨2, 0⟩, ⟨2, 0⟩⟩⟩]
    ∃ tree, Builder.build root.calls = .ok tree ∧ ∀ node, .enter node ∈ tree.walk → tree.Ranged node := by
  intro root
  have fits : Builder.Fits root.calls :=
    .ofLength (by decide) (by decide) (by decide)
  obtain ⟨tree, built⟩ := Builder.exists_build ⟨_, _, _⟩ fits
  exact ⟨tree, built, fun node inside => ((ranges_tile root.calls tree built).1 node inside).1⟩

end SyntaxTree

end Verbatim
