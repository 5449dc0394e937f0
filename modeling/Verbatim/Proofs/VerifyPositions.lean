import Verbatim.Proofs.PositionPlaces
import Verbatim.Proofs.TreeTokens
import Verbatim.Proofs.VerifyOutcomes

/-! What the check of positions says about a tree. Its tokens stand where their spans say if the check passes and
no column is beyond the end of its line; without the latter the check may take a place in one line for another. -/

namespace Verbatim.Verify

open Position (LeadsTo)

variable {tree : SyntaxTree} {root : Node}

private theorem positions_eq_ok_iff (found : tree.root? = some root) {source : String} :
    positions tree source = .ok () ↔
      ∀ leaf ∈ tree.leaves root, leaf.token.span.slice? source.toList = some leaf.token.text.toList := by
  simp only [positions, found]
  exact leafPositions_eq_ok_iff

private theorem leaves_record_iff (found : tree.root? = some root) (source : String) :
    (∀ leaf ∈ tree.leaves root, leaf.token.span.Records source.toList leaf.token.text.toList) ↔
      positions tree source = .ok () ∧ ∀ leaf ∈ tree.leaves root, leaf.token.span.OnLines source.toList := by
  rw [positions_eq_ok_iff found, ← forall₂_and]
  exact forall₂_congr fun _ _ => Span.records_iff

/-- What is cut out stands between the two ways to the ends of the span, which may run through line ends. A span
records where a text really stands exactly if it cuts out the text and stays on its lines, and the tokens of a
tree are recorded so exactly if the tree passes the check of positions and all of their spans stay on their lines. -/
theorem sliced_on_lines_iff_recorded (source : String) (span : Span) (text : List Char) :
    (span.slice? source.toList = some text ↔ ∃ front rest, source.toList = front ++ text ++ rest ∧
      LeadsTo front span.first ∧ LeadsTo (front ++ text) span.next) ∧
    (span.Records source.toList text ↔ span.slice? source.toList = some text ∧ span.OnLines source.toList) ∧
    ∀ (tree : SyntaxTree) (root : Node), tree.root? = some root →
      ((∀ leaf ∈ tree.leaves root, leaf.token.span.Records source.toList leaf.token.text.toList) ↔
        positions tree source = .ok () ∧ ∀ leaf ∈ tree.leaves root, leaf.token.span.OnLines source.toList) :=
  ⟨Span.slice?_eq_some_iff, Span.records_iff, fun _ _ found => leaves_record_iff found source⟩

/-- Tokens of a built tree have what all added tokens have. -/
private theorem forall_leaves_iff {calls : List Call} (built : Builder.build calls = .ok tree) (holds : Token → Prop) :
    ∃ root, tree.root? = some root ∧
      ((∀ leaf ∈ tree.leaves root, holds leaf.token) ↔ ∀ token ∈ Call.tokensOf calls, holds token) := by
  obtain ⟨root, found, leaves⟩ := SyntaxTree.leaves_of_build built
  exact ⟨root, found, by rw [← leaves, List.forall_mem_map]⟩

/-- An empty token at the end of a line and one that runs over line ends. -/
theorem tokens_across_lines_recorded :
    let root : Element := .node "root" 1
      [.token ⟨"ID", "é", .visible, ⟨⟨1, 0⟩, ⟨1, 0⟩⟩⟩, .token ⟨"GAP", "", .hidden, ⟨⟨1, 1⟩, ⟨1, 0⟩⟩⟩,
        .token ⟨"WS", "\n\n ", .hidden, ⟨⟨1, 1⟩, ⟨3, 0⟩⟩⟩]
    ∃ tree node, Builder.build root.calls = .ok tree ∧ tree.root? = some node ∧
      ((∀ leaf ∈ tree.leaves node, leaf.token.span.Records "é\n\n b".toList leaf.token.text.toList) ↔
        positions tree "é\n\n b" = .ok () ∧ ∀ leaf ∈ tree.leaves node, leaf.token.span.OnLines "é\n\n b".toList) := by
  intro root
  have fits : Builder.Fits root.calls := .ofLength (by decide) (by decide) (by decide)
  obtain ⟨tree, built⟩ := Builder.exists_build ⟨_, _, _⟩ fits
  obtain ⟨node, found, -⟩ := SyntaxTree.leaves_of_build built
  have recorded := sliced_on_lines_iff_recorded "é\n\n b" ⟨⟨1, 1⟩, ⟨3, 0⟩⟩ ['\n', '\n', ' ']
  exact ⟨tree, node, built, found, recorded.2.2 tree node found⟩

/-- The column of the second token is counted on from the first line into the next one. -/
theorem column_beyond_line_sliced :
    let source := "a\nb"
    let span : Span := ⟨⟨1, 2⟩, ⟨1, 2⟩⟩
    let root : Element := .node "root" 1
      [.token ⟨"ID", "a\n", .visible, ⟨⟨1, 0⟩, ⟨2, -1⟩⟩⟩, .token ⟨"ID", "b", .visible, span⟩]
    span.slice? source.toList = some ['b'] ∧
      (∀ front rest, source.toList = front ++ ['b'] ++ rest → span.first ≠ Position.start.advance front) ∧
      ∃ tree, Builder.build root.calls = .ok tree ∧ tree.text = source ∧ positions tree source = .ok () := by
  intro source span root
  refine ⟨by decide, ?_, ?_⟩
  · intro front rest split
    have letters : source.toList = ['a', '\n', 'b'] := by decide
    rw [letters] at split
    match front with
    | [] | [c] => cases split
    | c :: d :: more =>
      obtain ⟨rfl, rfl, later⟩ : 'a' = c ∧ '\n' = d ∧ ['b'] = more ++ ['b'] ++ rest := by simpa using split
      have none : more = [] := by
        have size := congrArg List.length later
        simp only [List.length_append, List.length_singleton] at size
        exact List.length_eq_zero_iff.mp (by omega)
      rw [none]
      decide
  · have fits : Builder.Fits root.calls := .ofLength (by decide) (by decide) (by decide)
    obtain ⟨tree, built⟩ := Builder.exists_build ⟨_, _, _⟩ fits
    obtain ⟨node, found, leaves⟩ := forall_leaves_iff built fun token =>
      token.span.slice? source.toList = some token.text.toList
    refine ⟨tree, built, SyntaxTree.text_of_build built, (positions_eq_ok_iff found).mpr (leaves.mpr ?_)⟩
    decide

end Verbatim.Verify
