import Verbatim.Proofs.MiniJavaHidden
import Verbatim.Proofs.MiniJavaOperatorOrder

/-! Operators in trees. Every expression of a tree that was parsed without an error has its operands in order: what
binds more tightly stands further inside, operators of one level lean to one side, and nothing that goes on with
an operand is applied to an operator. -/

namespace Verbatim

namespace MiniJava

open RuleEvent (relabel)
open Outline (renamedOf isCourse)

attribute [local irreducible] events

def isBinaryRule (id : RuleId) : Bool := 70 ≤ id && id ≤ 80

/-- Powers grow with the number of the rule, by two from one level to the next. -/
private theorem powers?_cases {id : RuleId} {left right : Nat} (powers : powers? id = some (left, right)) :
    (id.toNat < 72 ∧ left + 138 = 2 * id.toNat ∧ right + 1 = left ∨
      72 ≤ id.toNat ∧ left + 139 = 2 * id.toNat ∧ right = left + 1) ∧ isBinaryRule id = true := by
  obtain ⟨kind, bound⟩ := exists_binding? powers
  have known : ∀ kind, ∀ entry ∈ binding? kind,
      (entry.2.2.toNat < 72 ∧ entry.1 + 138 = 2 * entry.2.2.toNat ∧ entry.2.1 + 1 = entry.1 ∨
        72 ≤ entry.2.2.toNat ∧ entry.1 + 139 = 2 * entry.2.2.toNat ∧ entry.2.1 = entry.1 + 1) ∧
      isBinaryRule entry.2.2 = true := by
    decide
  exact known kind _ bound

private theorem exists_powers {id : RuleId} (binary : isBinaryRule id = true) :
    ∃ left right, powers? id = some (left, right) := by
  have listed : id ∈ ([70, 71, 72, 73, 74, 75, 76, 77, 78, 79, 80] : List RuleId) := by
    simp only [isBinaryRule, Bool.and_eq_true, decide_eq_true_eq, UInt32.le_iff_toNat_le] at binary
    simp only [List.mem_cons, List.not_mem_nil, or_false, ← UInt32.toNat_inj]
    simp at binary ⊢
    omega
  have known : ([70, 71, 72, 73, 74, 75, 76, 77, 78, 79, 80] : List RuleId).all
      (fun id => (powers? id).isSome) = true := by decide +kernel
  obtain ⟨⟨left, right⟩, powers⟩ := Option.isSome_iff_exists.mp (List.all_eq_true.mp known id listed)
  exact ⟨left, right, powers⟩

private theorem isBinaryRule_eq_false {id : RuleId} (free : powers? id = none) : isBinaryRule id = false := by
  cases binary : isBinaryRule id with
  | false => rfl
  | true =>
    obtain ⟨left, right, powers⟩ := exists_powers binary
    rw [free] at powers
    cases powers

/-- How the rules of a node and of its first and last operands go together. -/
structure Nests (rule first last : RuleId) : Prop where
  powers : ∃ left right, powers? rule = some (left, right) ∧
    (isBinaryRule first = true → ∃ outer inner, powers? first = some (outer, inner) ∧ left < inner) ∧
    (isBinaryRule last = true → ∃ outer inner, powers? last = some (outer, inner) ∧ right ≤ outer)
  /-- Assignments and conditionals lean to the right. -/
  rightward : rule < 72 → (isBinaryRule first = true → rule < first) ∧ (isBinaryRule last = true → rule ≤ last)
  leftward : 72 ≤ rule → (isBinaryRule first = true → rule ≤ first) ∧ (isBinaryRule last = true → rule < last)

private theorem nests_of_powers {rule first last : RuleId} {left right : Nat}
    (powers : powers? rule = some (left, right))
    (loose : ∀ outer inner, powers? first = some (outer, inner) → left < inner)
    (tight : ∀ outer inner, powers? last = some (outer, inner) → right ≤ outer) : Nests rule first last := by
  have here := (powers?_cases powers).1
  have before (binary : isBinaryRule first = true) :
      (rule.toNat < 72 → rule.toNat < first.toNat) ∧ (72 ≤ rule.toNat → rule.toNat ≤ first.toNat) := by
    obtain ⟨outer, inner, found⟩ := exists_powers binary
    have level := (powers?_cases found).1
    have := loose outer inner found
    omega
  have behind (binary : isBinaryRule last = true) :
      (rule.toNat < 72 → rule.toNat ≤ last.toNat) ∧ (72 ≤ rule.toNat → rule.toNat < last.toNat) := by
    obtain ⟨outer, inner, found⟩ := exists_powers binary
    have level := (powers?_cases found).1
    have := tight outer inner found
    omega
  refine ⟨⟨left, right, powers, ?_, ?_⟩, ?_, ?_⟩
  · intro binary
    obtain ⟨outer, inner, found⟩ := exists_powers binary
    exact ⟨outer, inner, found, loose outer inner found⟩
  · intro binary
    obtain ⟨outer, inner, found⟩ := exists_powers binary
    exact ⟨outer, inner, found, tight outer inner found⟩
  · intro low
    have low : rule.toNat < 72 := UInt32.lt_iff_toNat_lt.mp low
    exact ⟨fun binary => UInt32.lt_iff_toNat_lt.mpr ((before binary).1 low),
      fun binary => UInt32.le_iff_toNat_le.mpr ((behind binary).1 low)⟩
  · intro high
    have high : 72 ≤ rule.toNat := UInt32.le_iff_toNat_le.mp high
    exact ⟨fun binary => UInt32.le_iff_toNat_le.mpr ((before binary).2 high),
      fun binary => UInt32.lt_iff_toNat_lt.mpr ((behind binary).2 high)⟩

private theorem operands_renamedOf (place : Nat → Nat) (children : List Outline) :
    operands (renamedOf place children) = operands children := by
  induction children with
  | nil => rfl
  | cons outline rest ih =>
    cases outline with
    | token index => exact ih
    | rule name id below =>
      simp only [operands, Outline.renamedOf, Outline.renamed, List.filterMap_cons, operand?] at ih ⊢
      rw [ih]

private theorem inOrder_renamedOf (place : Nat → Nat) (name : String) (id : RuleId) (children : List Outline)
    (ordered : InOrder name id (renamedOf place children)) : InOrder name id children := by
  intro named
  obtain ⟨binary, signed, trailed⟩ := ordered named
  rw [operands_renamedOf] at binary signed
  refine ⟨binary, signed, ?_⟩
  intro trailer
  obtain ⟨first, below, rest, same, operand, free⟩ := trailed trailer
  cases children with
  | nil => cases same
  | cons outline later =>
    cases outline with
    | token index => cases same
    | rule name id inner =>
      cases same
      exact ⟨first, inner, later, rfl, operand, free⟩

private theorem number_unnamed {indexes : List Nat} {marks : List Mark} (enough : marks.count .take ≤ indexes.length) :
    (number indexes marks).map (relabel fun _ => 0) = marks.map Mark.event := by
  fun_induction number indexes marks with
  | case1 => rfl
  | case2 indexes name rule marks ih => exact congrArg _ (ih (by simpa using enough))
  | case3 indexes marks ih => exact congrArg _ (ih (by simpa using enough))
  | case4 index indexes marks ih => exact congrArg _ (ih (by simpa using enough))
  | case5 marks ih => simp at enough

private theorem isCourse_event (mark : Mark) : isCourse mark.event = true := by
  cases mark <;> rfl

private theorem exists_outline_of_accepted {source : String}
    (accepted : ∀ diagnostic, .error diagnostic ∉ events (lex source)) :
    ∃ outline : Outline, outline.DescribedBy ((events (lex source)).map (relabel fun _ => 0)) ∧ outline.Every InOrder := by
  obtain ⟨taken, split, counted, -, -⟩ := visibleKinds_takes source
  have shaped : Shaped (around Rule.compilationUnit.name 1 anyShape) _ (parseKinds (visibleKinds (lex source))) :=
    (shapely_level _ depthLimit).rule .compilationUnit 1 _ (Nat.lt_succ_self _)
  rcases outcome : parseKinds (visibleKinds (lex source)) with ⟨marks, rest, failure⟩
  cases failure with
  | some wanted =>
    obtain ⟨last, same⟩ := events_of_failure outcome
    exact absurd (same ▸ List.mem_append_right _ List.mem_cons_self) (accepted _)
  | none =>
    rw [outcome] at split counted shaped
    obtain ⟨-, _, sketches, children, rfl, -⟩ := shaped rfl
    have enough : marks.count .take ≤ ((visible (lex source)).map Prod.snd).length := by
      have size := congrArg List.length split
      rw [List.length_append, visibleKinds, List.length_map] at size
      rw [List.length_map]
      dsimp only at counted size
      omega
    refine ⟨_, ⟨0, ?_⟩, sketches.ordered.1⟩
    have described := sketches.described
    rw [Outline.eventsOf, Outline.eventsOf, List.append_nil] at described
    rw [events_of_success outcome, number_unnamed enough, List.replicate_zero, List.append_nil, ← described,
      List.filter_eq_self.mpr]
    intro event member
    obtain ⟨mark, -, rfl⟩ := List.mem_map.mp member
    exact isCourse_event mark

def operandNodes (tree : SyntaxTree) (node : Verbatim.Node) : List Verbatim.Node :=
  (tree.childNodes node).filter fun child => child.name == expressionName

/-- How the operands of an expression are nested in it. -/
structure NestsByPower (tree : SyntaxTree) (node : Verbatim.Node) : Prop where
  binary : isBinaryRule node.rule = true → ∃ first between last,
    operandNodes tree node = first :: (between ++ [last]) ∧ Nests node.rule first.rule last.rule
  signed : node.rule = 60 → ∃ operand, operandNodes tree node = [operand] ∧ isBinaryRule operand.rule = false
  trailed : node.rule ∈ [63, 65, 66, 68] → ∃ first rest, tree.children node = .node first :: rest ∧
    first.name = expressionName ∧ first.rule ≠ 60 ∧ isBinaryRule first.rule = false

private theorem operands_itemsAt (tokens : List RawToken) (row : List Piece) (index offset : Nat) :
    (((Element.itemsAt index offset (Piece.elementsOf tokens row)).filterMap Item.node?).filter fun child =>
      child.name == expressionName).map Verbatim.Node.rule = operands (Piece.outlinesOf row) := by
  induction row generalizing index offset with
  | nil => rfl
  | cons piece rest ih =>
    cases piece with
    | token place =>
      rw [Piece.elementsOf, Piece.elements, Piece.outlinesOf, Piece.outlines, List.singleton_append, operands_token,
        Assembly.leaves]
      cases tokens[place]? with
      | none => exact ih index offset
      | some raw => exact ih _ _
    | group first behind => exact ih _ _
    | rule name id below =>
      rw [Piece.elementsOf, Piece.elements, Piece.outlinesOf, Piece.outlines, List.singleton_append,
        List.singleton_append, Element.itemsAt, List.filterMap_cons]
      by_cases named : name = expressionName
      · subst named
        simp only [operands_expression, Element.itemAt, Item.node?, Element.nodeAt, List.filter_cons, beq_self_eq_true,
          if_true, List.map_cons]
        exact congrArg _ (ih _ _)
      · have other : operands (.rule name id (Piece.outlinesOf below) :: Piece.outlinesOf rest) =
            operands (Piece.outlinesOf rest) := by simp [operands, operand?, named]
        simp only [other, Element.itemAt, Item.node?, Element.nodeAt, List.filter_cons, beq_iff_eq, named, if_false]
        exact ih _ _

private theorem nestsByPower_of_ordered {tree : SyntaxTree} {node : Verbatim.Node} {tokens : List RawToken}
    {row : List Piece}
    {index offset : Nat} (children : tree.children node = Element.itemsAt index offset (Piece.elementsOf tokens row))
    (leads : Piece.Leads row) (ordered : Ordered node.rule (Piece.outlinesOf row)) : NestsByPower tree node := by
  have rules : (operandNodes tree node).map Verbatim.Node.rule = operands (Piece.outlinesOf row) := by
    rw [operandNodes, SyntaxTree.childNodes, children]
    exact operands_itemsAt tokens row index offset
  constructor
  · intro binary
    obtain ⟨left, right, powers⟩ := exists_powers binary
    obtain ⟨start, middle, stop, same, loose, tight⟩ := ordered.binary left right powers
    obtain ⟨first, others, shape, rfl, later⟩ := List.map_eq_cons_iff.mp (rules.trans same)
    obtain ⟨between, back, rfl, rfl, final⟩ := List.map_eq_append_iff.mp later
    obtain ⟨last, rfl, rfl⟩ := List.map_eq_singleton_iff.mp final
    exact ⟨first, between, last, shape, nests_of_powers powers loose tight⟩
  · intro signed
    obtain ⟨rule, same, free⟩ := ordered.signed signed
    obtain ⟨operand, shape, rfl⟩ := List.map_eq_singleton_iff.mp (rules.trans same)
    exact ⟨operand, shape, isBinaryRule_eq_false free⟩
  · intro trailer
    obtain ⟨first, below, rest, same, operand, free⟩ := ordered.trailed trailer
    obtain ⟨inner, more, rfl, -⟩ := leads _ _ _ _ same
    rw [children, Piece.elementsOf, Piece.elements, List.singleton_append, Element.itemsAt]
    exact ⟨_, _, rfl, rfl, operand, isBinaryRule_eq_false free⟩

/-- In the tree of a source that is parsed without an error every expression has its operands nested by the powers
of the operators. -/
theorem operators_nest_by_power (source : String) (mode : ParseMode) (tree : SyntaxTree)
    (built : grammar.tree source mode = .ok tree) (accepted : ∀ diagnostic, .error diagnostic ∉ (parse source).events)
    (node : Verbatim.Node) (inside : .enter node ∈ tree.walk) (named : node.name = expressionName) :
    NestsByPower tree node := by
  rw [tree_eq_build] at built
  rw [events_parse] at built accepted
  have consistent := (Assembly.build_eq_ok_iff.mp built).1
  obtain ⟨depth, marks, tail, -, shape, -⟩ := events_cases (lex source)
  obtain ⟨outline, described⟩ := Assembly.exists_outline consistent ⟨_, _, shape ▸ List.mem_cons_self⟩
  obtain ⟨sketch, same, every⟩ := exists_outline_of_accepted accepted
  obtain rfl := same.unique (described.renamed fun _ => 0)
  have ordered : outline.Every InOrder := Outline.every_of_renamed (inOrder_renamedOf _) every
  have ungrouped : node.name ≠ groupName := by
    rw [named]
    decide
  obtain ⟨row, index, offset, children, leads, holds⟩ :=
    Assembly.children_of_enter built described ordered inside ungrouped
  exact nestsByPower_of_ordered children leads (holds named)

/-- An assignment behind a sum of a product whose first operand has a sign. -/
theorem assigned_sum_nests :
    let source := "class A {int a = -b * c + d = e.f ? g : h;}"
    (∀ diagnostic, .error diagnostic ∉ (parse source).events) ∧ ∃ tree, grammar.tree source .lenient = .ok tree ∧
      ∃ node, .enter node ∈ tree.walk ∧ node.name = expressionName ∧ node.rule = 70 ∧ NestsByPower tree node := by
  intro source
  obtain ⟨course, small, assigned⟩ : (∀ event ∈ events (lex source), isCourse event = true) ∧
      Call.sizeOf (calls source) + 1 < Builder.wordLimit ∧ .start expressionName 70 ∈ calls source := by decide +kernel
  have accepted : ∀ diagnostic, .error diagnostic ∉ (parse source).events := by
    intro diagnostic member
    rw [events_parse] at member
    cases course _ member
  obtain ⟨tree, built⟩ := (exists_tree_iff source).mpr ⟨by decide, small⟩
  have made := (SyntaxTree.readsBack_of_build ((tree_eq_ok_iff source tree).mp built)).made
  rw [← made] at assigned
  obtain ⟨visit, inside, same⟩ := List.mem_map.mp assigned
  cases visit with
  | leaf leaf | leave node => cases same
  | enter node =>
    obtain ⟨named, rule⟩ := Call.start.inj same
    exact ⟨accepted, tree, built, node, inside, named, rule,
      operators_nest_by_power source .lenient tree built accepted node inside named⟩

end MiniJava

end Verbatim
