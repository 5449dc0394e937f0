import Verbatim.Proofs.AssemblyOutline

/-! Trees without groups and spans. What is left of a tree when both are taken away follows from the rules
that its events describe and from the tokens they attach, so that it stays the same when tokens are named
by other places, as long as they are the same tokens. -/

namespace Verbatim

/-- An event with its token named otherwise, or its error taken from its place. -/
def RuleEvent.relabel (place : Nat → Nat) : RuleEvent → RuleEvent
  | .enter name rule => .enter name rule
  | .token index => .token (place index)
  | .exit => .exit
  | .error diagnostic => .error ⟨diagnostic.message, .start⟩

namespace Element

def unplaced (token : Token) : Element := .token { token with span := ⟨.start, .start⟩ }

mutual

/-- What is left of an element without groups and spans. -/
def bare : Element → List Element
  | .token content => [unplaced content]
  | .node name rule children => if name = groupName then [] else [.node name rule (bareOf children)]

def bareOf : List Element → List Element
  | [] => []
  | element :: rest => element.bare ++ bareOf rest

end

private theorem bareOf_append (front back : List Element) : bareOf (front ++ back) = bareOf front ++ bareOf back := by
  induction front with
  | nil => rfl
  | cons element rest ih => simp only [List.cons_append, bareOf, ih, List.append_assoc]

end Element

/-- Two trees that differ in nothing but groups and spans. -/
def SyntaxTree.SameBare (one other : SyntaxTree) : Prop :=
  ∃ first second : Element, one.calls = first.calls ∧ other.calls = second.calls ∧ first.bare = second.bare

namespace Outline

open RuleEvent (relabel)

mutual

def renamed (place : Nat → Nat) : Outline → Outline
  | .token index => .token (place index)
  | .rule name id children => .rule name id (renamedOf place children)

def renamedOf (place : Nat → Nat) : List Outline → List Outline
  | [] => []
  | outline :: rest => outline.renamed place :: renamedOf place rest

end

mutual

def filled (content : Nat → List Element) : Outline → List Element
  | .token index => content index
  | .rule name id children => [.node name id (filledOf content children)]

def filledOf (content : Nat → List Element) : List Outline → List Element
  | [] => []
  | outline :: rest => outline.filled content ++ filledOf content rest

end

mutual

private theorem events_renamed (place : Nat → Nat) (outline : Outline) :
    (outline.renamed place).events = outline.events.map (relabel place) := by
  match outline with
  | .token index => rfl
  | .rule name id children =>
    rw [renamed, events, eventsOf_renamedOf place children, events, List.map_cons, List.map_append]
    rfl

private theorem eventsOf_renamedOf (place : Nat → Nat) (outlines : List Outline) :
    eventsOf (renamedOf place outlines) = (eventsOf outlines).map (relabel place) := by
  match outlines with
  | [] => rfl
  | outline :: rest =>
    rw [renamedOf, eventsOf, events_renamed place outline, eventsOf_renamedOf place rest, eventsOf, List.map_append]

end

theorem eventsOf_append (front back : List Outline) : eventsOf (front ++ back) = eventsOf front ++ eventsOf back := by
  induction front with
  | nil => rfl
  | cons outline rest ih => simp only [List.cons_append, eventsOf, ih, List.append_assoc]

private theorem filledOf_append (content : Nat → List Element) (front back : List Outline) :
    filledOf content (front ++ back) = filledOf content front ++ filledOf content back := by
  induction front with
  | nil => rfl
  | cons outline rest ih => simp only [List.cons_append, filledOf, ih, List.append_assoc]

private theorem isCourse_relabel (place : Nat → Nat) (event : RuleEvent) :
    isCourse (event.relabel place) = isCourse event := by
  cases event <;> rfl

theorem DescribedBy.renamed {outline : Outline} {events : List RuleEvent} (described : outline.DescribedBy events)
    (place : Nat → Nat) : (outline.renamed place).DescribedBy (events.map (relabel place)) := by
  obtain ⟨unclosed, same⟩ := described
  refine ⟨unclosed, ?_⟩
  have course : isCourse ∘ relabel place = isCourse := funext (isCourse_relabel place)
  rw [events_renamed, same, List.map_append, List.map_replicate, List.filter_map, course]
  rfl

mutual

theorem filled_renamed {place : Nat → Nat} {content other : Nat → List Element} {outline : Outline}
    (agree : ∀ index, .token index ∈ outline.events → other (place index) = content index) :
    (outline.renamed place).filled other = outline.filled content := by
  match outline with
  | .token index => exact agree index List.mem_cons_self
  | .rule name id children =>
    have below := @filledOf_renamedOf place content other children fun index member =>
      agree index (List.mem_cons_of_mem _ (List.mem_append_left _ member))
    rw [renamed, filled, below, filled]

private theorem filledOf_renamedOf {place : Nat → Nat} {content other : Nat → List Element} {outlines : List Outline}
    (agree : ∀ index, .token index ∈ eventsOf outlines → other (place index) = content index) :
    filledOf other (renamedOf place outlines) = filledOf content outlines := by
  match outlines with
  | [] => rfl
  | outline :: rest =>
    rw [renamedOf, filledOf, filledOf,
      filled_renamed fun index member => agree index (List.mem_append_left _ member),
      filledOf_renamedOf fun index member => agree index (List.mem_append_right _ member)]

end

end Outline

def contentOf (tokens : List RawToken) (index : Nat) : List Element :=
  tokens[index]?.toList.map fun raw => Element.unplaced raw.placed

namespace Piece

mutual

private theorem bareOf_elements (tokens : List RawToken) {piece : Piece}
    (ruled : ∀ name id, .enter name id ∈ Outline.eventsOf piece.outlines → name ≠ groupName) :
    Element.bareOf (piece.elements tokens) = Outline.filledOf (contentOf tokens) piece.outlines := by
  match piece with
  | .token index =>
    rw [elements, outlines, Outline.filledOf, Outline.filled, Outline.filledOf, contentOf, List.append_nil,
      Assembly.leaves]
    cases tokens[index]? <;> rfl
  | .group first behind => rfl
  | .rule name id children =>
    have named : name ≠ groupName := ruled name id List.mem_cons_self
    have below := @bareOf_elementsOf tokens children fun other place member => ruled other place
      (List.mem_append_left _ (List.mem_cons_of_mem _ (List.mem_append_left _ member)))
    rw [elements, Element.bareOf, Element.bare, if_neg named, below, outlines]
    rfl

private theorem bareOf_elementsOf (tokens : List RawToken) {pieces : List Piece}
    (ruled : ∀ name id, .enter name id ∈ Outline.eventsOf (outlinesOf pieces) → name ≠ groupName) :
    Element.bareOf (elementsOf tokens pieces) = Outline.filledOf (contentOf tokens) (outlinesOf pieces) := by
  match pieces with
  | [] => rfl
  | piece :: rest =>
    rw [outlinesOf, Outline.eventsOf_append] at ruled
    rw [elementsOf, Element.bareOf_append, outlinesOf, Outline.filledOf_append,
      bareOf_elements tokens fun name id member => ruled name id (List.mem_append_left _ member),
      bareOf_elementsOf tokens fun name id member => ruled name id (List.mem_append_right _ member)]

end

end Piece

namespace Assembly

/-- Without groups and spans, a tree is what its events describe, where no rule is called like a group. -/
theorem bare_of_build {tokens : List RawToken} {events : List RuleEvent} {tree : SyntaxTree}
    (consistent : Consistent .lenient tokens.length 0 0 false events)
    (made : Builder.build (plan tokens 0 0 events) = .ok tree) (entered : ∃ name rule, .enter name rule ∈ events)
    (ruled : ∀ name rule, .enter name rule ∈ events → name ≠ groupName) :
    ∃ (element : Element) (outline : Outline), tree.calls = element.calls ∧ outline.DescribedBy events ∧
      element.bare = outline.filled (contentOf tokens) := by
  have calls := (SyntaxTree.readsBack_of_build made).made
  obtain ⟨settled, planned⟩ | ⟨name, rule, row, last, planned, described, -, -⟩ := exists_root consistent
  · exact absurd settled (Outline.filter_ne_nil_of_enter entered)
  · let root : Piece := .rule name rule (row ++ Piece.gap last tokens.length)
    have outline : root.outlines = [.rule name rule (Piece.outlinesOf row)] := by
      rw [Piece.outlines, Piece.outlinesOf_append, Piece.outlinesOf_gap, List.append_nil]
    have named : ∀ other id, .enter other id ∈ Outline.eventsOf root.outlines → other ≠ groupName := by
      intro other id member
      rw [outline, Outline.eventsOf, Outline.eventsOf, List.append_nil] at member
      exact ruled other id (described.mem member (by simp))
    have bare := Piece.bareOf_elements tokens named
    rw [outline] at bare
    refine ⟨.node name rule (Piece.elementsOf tokens (row ++ Piece.gap last tokens.length)), _, ?_, described, ?_⟩
    · rw [calls, planned]
      simp [Piece.callsClosing, Element.calls]
    · simpa [root, Piece.elements, Element.bareOf, Outline.filledOf] using bare

end Assembly

end Verbatim
