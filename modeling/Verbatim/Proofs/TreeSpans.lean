import Verbatim.Proofs.AssemblyTokens
import Verbatim.Proofs.PositionSlices
import Verbatim.Proofs.VerifyOutcomes

/-! Spans lead from a tree back to its source. Where the tokens of a parse stand one behind the other, the span of
each of them covers its text, and so does that of a node, whose tokens are a run of them. -/

namespace Verbatim

namespace RawToken

/-- Tokens that stand one behind the other from a place on. -/
def Consecutive (here : Position) : List RawToken → Prop
  | [] => True
  | raw :: rest => raw.start = here ∧ Consecutive (here.advance raw.text.toList) rest

def sourceOf (tokens : List RawToken) : List Char := tokens.flatMap fun raw => raw.text.toList

@[simp] theorem sourceOf_append (first second : List RawToken) :
    sourceOf (first ++ second) = sourceOf first ++ sourceOf second := by
  simp [sourceOf]

@[simp] theorem sourceOf_singleton (raw : RawToken) : sourceOf [raw] = raw.text.toList := by
  simp [sourceOf]

private theorem toList_source (tokens : List RawToken) : (String.join (tokens.map text)).toList = sourceOf tokens := by
  rw [String.toList_join, List.flatMap_map, sourceOf]

private theorem toList_texts (tokens : List RawToken) :
    (String.join ((tokens.map placed).map Token.text)).toList = sourceOf tokens := by
  rw [← toList_source, List.map_map]
  rfl

theorem Consecutive.drop {front : List Char} {first second : List RawToken}
    (consecutive : Consecutive (.behind front) (first ++ second)) :
    Consecutive (.behind (front ++ sourceOf first)) second := by
  induction first generalizing front with
  | nil => simpa [sourceOf] using consecutive
  | cons raw rest ih =>
    obtain ⟨-, later⟩ := consecutive
    rw [Position.advance_behind] at later
    simpa [sourceOf] using ih later

theorem start_eq_behind {before after : List RawToken} {raw : RawToken}
    (consecutive : Consecutive .start (before ++ raw :: after)) : raw.start = .behind (sourceOf before) :=
  (@Consecutive.drop [] before _ consecutive).1

section Run

variable {before middle after : List RawToken} {span : Span}

/-- The column of an end is that of the last character, so the place behind it is one column further. -/
private theorem end_eq_behind {most : List RawToken} {raw : RawToken}
    (consecutive : Consecutive .start (before ++ (most ++ [raw]) ++ after)) :
    (⟨raw.placed.span.last.line, raw.placed.span.last.column + 1⟩ : Position) =
      .behind (sourceOf before ++ sourceOf (most ++ [raw])) := by
  have split : before ++ (most ++ [raw]) ++ after = (before ++ most) ++ raw :: after := by simp
  rw [split] at consecutive
  have ended : raw.start.advance raw.text.toList = .behind (sourceOf before ++ sourceOf (most ++ [raw])) := by
    rw [start_eq_behind consecutive, Position.advance_behind]
    simp
  exact ended

/-- A span from the start of the first token of a run to the end of the last covers the whole run. -/
private theorem slice?_run (consecutive : Consecutive .start (before ++ middle ++ after))
    (fits : ∀ front, front <+: before ++ middle ++ after → Position.Fits (sourceOf front))
    (starts : ∃ raw rest, middle = raw :: rest ∧ span.first = raw.start)
    (ends : ∃ most raw, middle = most ++ [raw] ∧ span.last = raw.placed.span.last) :
    span.slice? (sourceOf (before ++ middle ++ after)) = some (sourceOf middle) := by
  have start : span.first = .behind (sourceOf before) := by
    obtain ⟨raw, rest, rfl, same⟩ := starts
    rw [List.append_assoc] at consecutive
    exact same.trans (start_eq_behind consecutive)
  have stop : (⟨span.last.line, span.last.column + 1⟩ : Position) = .behind (sourceOf before ++ sourceOf middle) := by
    obtain ⟨most, raw, rfl, same⟩ := ends
    rw [same]
    exact end_eq_behind consecutive
  have fitsFirst := fits before (List.append_assoc before middle after ▸ List.prefix_append before _)
  have fitsLast := fits (before ++ middle) (List.prefix_append _ after)
  rw [sourceOf_append] at fitsLast
  rw [sourceOf_append, sourceOf_append]
  exact Span.slice?_between start stop fitsFirst fitsLast _

end Run

end RawToken

private theorem SyntaxTree.span?_of_leaves {tree : SyntaxTree} {node : Node} {tokens : List RawToken}
    (filled : tree.leaves node ≠ []) (below : (tree.leaves node).map Leaf.token = tokens.map RawToken.placed) :
    ∃ span, tree.span? node = some span ∧ (∃ raw rest, tokens = raw :: rest ∧ span.first = raw.start) ∧
      ∃ most raw, tokens = most ++ [raw] ∧ span.last = raw.placed.span.last := by
  rw [span?]
  cases listed : tree.leaves node with
  | nil => exact absurd listed filled
  | cons leaf leaves =>
    rw [listed, List.map_cons] at below
    obtain ⟨raw, rest, rfl, first, more⟩ := List.map_eq_cons_iff.mp below.symm
    refine ⟨_, rfl, ⟨raw, rest, rfl, by rw [← first]; rfl⟩, ?_⟩
    rcases leaves.eq_nil_or_concat with rfl | ⟨most, final, rfl⟩
    · obtain rfl := List.map_eq_nil_iff.mp more
      exact ⟨[], raw, rfl, by rw [first]; rfl⟩
    · rw [List.concat_eq_append, List.map_append] at more
      obtain ⟨front, back, rfl, -, single⟩ := List.map_eq_append_iff.mp more
      obtain ⟨last, none, rfl, same, empty⟩ := List.map_eq_cons_iff.mp single
      obtain rfl := List.map_eq_nil_iff.mp empty
      refine ⟨raw :: front, last, rfl, ?_⟩
      rw [List.concat_eq_append, List.getLastD_concat, same]

namespace Assembly

/-- In the tree of a parse whose tokens stand one behind the other each span covers the text that it belongs to:
that of a token, and that of a node which has tokens. -/
theorem spans_cover_texts (tokens : List RawToken) (events : List RuleEvent) (mode : ParseMode) (tree : SyntaxTree)
    (built : build tokens events mode = .ok tree) (consecutive : RawToken.Consecutive .start tokens)
    (fits : ∀ front, front <+: tokens → Position.Fits (RawToken.sourceOf front)) :
    let source := String.join (tokens.map RawToken.text)
    (∀ leaf, .leaf leaf ∈ tree.walk → leaf.token.span.slice? source.toList = some leaf.token.text.toList) ∧
      Verify.positions tree source = .ok () ∧
      ∀ node, .enter node ∈ tree.walk → tree.leaves node ≠ [] →
        ∃ span, tree.span? node = some span ∧ span.slice? source.toList = some (tree.textOf (.node node)).toList := by
  intro source
  obtain ⟨agree, made⟩ := build_eq_ok_iff.mp built
  have placed : Call.tokensOf (plan tokens 0 0 events) = tokens.map RawToken.placed := tokensOf_plan tokens events agree
  have covered : ∀ token ∈ tokens.map RawToken.placed, token.span.slice? source.toList = some token.text.toList := by
    intro token inside
    obtain ⟨raw, member, rfl⟩ := List.mem_map.mp inside
    obtain ⟨before, after, rfl⟩ := List.append_of_mem member
    have run := @RawToken.slice?_run before [raw] after raw.placed.span
    rw [List.append_assoc, List.singleton_append, RawToken.sourceOf_singleton] at run
    rw [RawToken.toList_source]
    exact run consecutive fits ⟨raw, [], rfl, rfl⟩ ⟨[], raw, rfl, rfl⟩
  refine ⟨?_, ?_, ?_⟩
  · intro leaf inside
    apply covered
    rw [← placed, ← (SyntaxTree.readsBack_of_build made).made]
    exact List.mem_filterMap.mpr ⟨_, List.mem_map_of_mem inside, rfl⟩
  · obtain ⟨root, found, leaves⟩ := SyntaxTree.leaves_of_build made
    simp only [Verify.positions, found]
    refine Verify.leafPositions_eq_ok_iff.mpr fun leaf member => covered _ ?_
    rw [← placed, ← leaves]
    exact List.mem_map_of_mem member
  · intro node inside filled
    obtain ⟨front, below, behind, split, leaves, text⟩ := SyntaxTree.leaves_of_enter made inside
    rw [placed] at split
    obtain ⟨shown, after, rfl, first, rfl⟩ := List.map_eq_append_iff.mp split
    obtain ⟨before, middle, rfl, rfl, rfl⟩ := List.map_eq_append_iff.mp first
    obtain ⟨span, spans, starts, ends⟩ := SyntaxTree.span?_of_leaves filled leaves
    refine ⟨span, spans, ?_⟩
    rw [text, RawToken.toList_texts, RawToken.toList_source]
    exact RawToken.slice?_run consecutive fits starts ends

theorem empty_and_broken_texts_covered :
    let tokens : List RawToken :=
      [⟨"WS", "ä\n", .hidden, ⟨1, 0⟩⟩, ⟨"ID", "b", .visible, ⟨2, 0⟩⟩, ⟨"GAP", "", .visible, ⟨2, 1⟩⟩,
        ⟨"WS", "\n", .hidden, ⟨2, 1⟩⟩, ⟨"EOF", "", .visible, ⟨3, 0⟩⟩]
    let events : List RuleEvent := [.enter "unit" 1, .enter "name" 2, .token 1, .token 2, .exit, .token 4, .exit]
    RawToken.Consecutive .start tokens ∧ (∀ front, front <+: tokens → Position.Fits (RawToken.sourceOf front)) ∧
      ∃ tree, build tokens events .strict = .ok tree ∧
        let source := String.join (tokens.map RawToken.text)
        (∀ leaf, .leaf leaf ∈ tree.walk → leaf.token.span.slice? source.toList = some leaf.token.text.toList) ∧
          Verify.positions tree source = .ok () ∧
          ∀ node, .enter node ∈ tree.walk → tree.leaves node ≠ [] →
            ∃ span, tree.span? node = some span ∧
              span.slice? source.toList = some (tree.textOf (.node node)).toList := by
  intro tokens events
  have room : Builder.Fits (plan tokens 0 0 events) :=
    .ofLength (by decide) (by decide) (by decide)
  have agree : Consistent .strict tokens.length 0 0 false events := by simp [Consistent, tokens, events]
  obtain ⟨tree, built⟩ := exists_build agree room
  have consecutive : RawToken.Consecutive .start tokens := by
    simp only [RawToken.Consecutive, tokens]
    decide
  have fits : ∀ front, front <+: tokens → Position.Fits (RawToken.sourceOf front) := by
    rintro front ⟨rest, same⟩
    have short : (RawToken.sourceOf front ++ RawToken.sourceOf rest).length < 2 ^ 31 := by
      rw [← RawToken.sourceOf_append, same]
      decide
    exact .of_short short
  exact ⟨consecutive, fits, tree, built, spans_cover_texts tokens events .strict tree built consecutive fits⟩

end Assembly

end Verbatim
