import Verbatim.Proofs.TreeRefinement
import Verbatim.Tree.Query

/-! The tokens of a tree. They are those of the calls that built it, from left to right, and their texts
together are the text of the tree; putting them together again restores it. -/

namespace Verbatim

namespace Call

def token? : Call → Option Token
  | .token content => some content
  | _ => none

def tokensOf (calls : List Call) : List Token := calls.filterMap token?

@[simp] theorem tokensOf_append (first second : List Call) :
    tokensOf (first ++ second) = tokensOf first ++ tokensOf second := by
  simp [tokensOf]

@[simp] theorem tokensOf_nil : tokensOf [] = [] := rfl

@[simp] theorem tokensOf_start (name : String) (rule : RuleId) (calls : List Call) :
    tokensOf (.start name rule :: calls) = tokensOf calls := rfl

@[simp] theorem tokensOf_token (content : Token) (calls : List Call) :
    tokensOf (.token content :: calls) = content :: tokensOf calls := rfl

@[simp] theorem tokensOf_finish (calls : List Call) : tokensOf (.finish :: calls) = tokensOf calls := rfl

theorem textOf_eq_join (calls : List Call) : textOf calls = String.join ((tokensOf calls).map Token.text) := by
  induction calls with
  | nil => rfl
  | cons call rest ih =>
    rw [textOf_cons, ih]
    cases call with
    | start name rule | finish => exact String.empty_append
    | token content => exact String.join_cons.symm

end Call

namespace SyntaxTree

variable {tree : SyntaxTree} {calls : List Call}

private theorem tokens_of_visits (visits : List Visit) :
    ((visits.filterMap Visit.item?).filterMap Item.leaf?).map Leaf.token = Call.tokensOf (visits.map Visit.call) := by
  induction visits with
  | nil => rfl
  | cons visit rest ih =>
    cases visit with
    | enter node | leave node => exact ih
    | leaf leaf => exact congrArg (leaf.token :: ·) ih

theorem leaves_of_stands {index offset : Nat} {name : String} {rule : RuleId} {children : List Element}
    (stands : (Element.node name rule children).StandsAt tree index offset) :
    (tree.leaves (Element.nodeAt index offset name rule children)).map Leaf.token =
      Call.tokensOf (Element.node name rule children).calls := by
  have visits : tree.visits (Element.nodeAt index offset name rule children) =
      .enter (Element.nodeAt index offset name rule children) :: _ := stands.visits_eq.1
  have walked : (tree.visits (Element.nodeAt index offset name rule children)).map Visit.call =
      (Element.node name rule children).calls := by
    rw [stands.visits_eq.1]
    exact Element.map_visits _ index offset
  rw [visits] at walked
  rw [leaves, descendants, visits, ← walked]
  exact tokens_of_visits _

/-- The tokens below the root are those that were added, each of them once and in order. -/
theorem leaves_of_build (built : Builder.build calls = .ok tree) :
    ∃ root, tree.root? = some root ∧ (tree.leaves root).map Leaf.token = Call.tokensOf calls := by
  obtain ⟨root, same, stands, -⟩ := stands_of_build built
  exact ⟨_, root_of_stands stands, by rw [leaves_of_stands stands, ← same]; rfl⟩

theorem leaves_of_enter (built : Builder.build calls = .ok tree) {node : Node} (inside : .enter node ∈ tree.walk) :
    ∃ before below behind, Call.tokensOf calls = before ++ below ++ behind ∧
      (tree.leaves node).map Leaf.token = below ∧ tree.textOf (.node node) = String.join (below.map Token.text) := by
  have reads := readsBack_of_build built
  obtain ⟨front, back, split⟩ := List.append_of_mem inside
  obtain ⟨below, behind, rfl, found⟩ := reads.nodes front node back split
  refine ⟨Call.tokensOf (front.map Visit.call), Call.tokensOf (below.map Visit.call),
    Call.tokensOf (behind.map Visit.call), ?_, ?_, ?_⟩
  · rw [← reads.made, SyntaxTree.calls, split]
    simp [Visit.call]
  · rw [leaves, descendants, found.visits, List.drop_succ_cons, List.drop_zero, tokens_of_visits]
    simp [Visit.call]
  · rw [← Call.textOf_eq_join, textOf, Item.range, found.text, Option.getD_some]

theorem text_of_build (built : Builder.build calls = .ok tree) :
    tree.text = String.join ((Call.tokensOf calls).map Token.text) := by
  rw [(readsBack_of_build built).text, Call.textOf_eq_join]

/-- Source that is put together from the tokens of a tree is the text of the tree. -/
theorem generate_of_build (built : Builder.build calls = .ok tree) : tree.generate = tree.text := by
  obtain ⟨root, found, leaves⟩ := leaves_of_build built
  have texts : (tree.leaves root).map (fun leaf => leaf.token.text) = (Call.tokensOf calls).map Token.text := by
    rw [← leaves, List.map_map]
    rfl
  rw [generate, found, text_of_build built]
  simp only [generateNode, texts]

end SyntaxTree

end Verbatim
