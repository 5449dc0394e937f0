import Verbatim.Proofs.AssemblyPlan
import Verbatim.Proofs.TreeTokens

/-! Every token of a parse has exactly one place in its tree. The tokens before the next one without a
place are always those that the calls so far have added; a group takes the ones that an event passes
over, and the end takes the rest. -/

namespace Verbatim.Assembly

@[simp] theorem tokensOf_tokenCalls (tokens : List RawToken) :
    Call.tokensOf (tokens.map fun raw => .token raw.placed) = tokens.map RawToken.placed := by
  induction tokens with
  | nil => rfl
  | cons raw rest ih => rw [List.map_cons, List.map_cons, Call.tokensOf_token, ih]

@[simp] theorem tokensOf_nodeCalls (tokens : List RawToken) :
    Call.tokensOf (nodeCalls tokens) = tokens.map RawToken.placed := by
  simp [nodeCalls]

@[simp] theorem tokensOf_groupCalls (tokens : List RawToken) :
    Call.tokensOf (groupCalls tokens) = tokens.map RawToken.placed := by
  unfold groupCalls
  split
  next empty => rw [List.isEmpty_iff.mp empty]; rfl
  next => exact tokensOf_nodeCalls tokens

private theorem tokensOf_lastCalls (tokens : List RawToken) (next depth : Nat) :
    Call.tokensOf (lastCalls tokens next depth) = (tokens.drop next).map RawToken.placed := by
  have closing : ∀ count, Call.tokensOf (List.replicate count .finish) = [] := by
    intro count
    induction count with
    | zero => rfl
    | succ count ih => rw [List.replicate_succ, Call.tokensOf_finish, ih]
  unfold lastCalls
  split
  · exact tokensOf_nodeCalls _
  · simp only [Call.tokensOf_append, closing, tokensOf_groupCalls, Call.tokensOf_finish, Call.tokensOf_nil,
      List.nil_append, List.append_nil]

/-- The calls of a plan add all tokens that have no place yet, in order. -/
theorem tokensOf_plan {mode : ParseMode} (tokens : List RawToken) (events : List RuleEvent)
    {next depth : Nat} {exited : Bool}
    (consistent : Consistent mode tokens.length next depth exited events) :
    Call.tokensOf (plan tokens next depth events) = (tokens.drop next).map RawToken.placed := by
  induction events generalizing next depth exited with
  | nil => exact tokensOf_lastCalls tokens next depth
  | cons event events ih =>
    cases event with
    | enter name rule => exact ih consistent.2
    | token index =>
      obtain ⟨-, order, inside, rest⟩ := consistent
      have parts : tokens.drop next = (tokens.take index).drop next ++ tokens[index] :: tokens.drop (index + 1) := by
        rw [← List.drop_eq_getElem_cons inside, ← List.drop_append_of_le_length, List.take_append_drop]
        rw [List.length_take]
        omega
      simp only [plan, Call.tokensOf_append, tokensOf_groupCalls, Call.tokensOf_token, ih rest, parts,
        List.getElem?_eq_getElem inside, Option.toList_some, List.map_append, List.map_cons, List.map_nil,
        List.append_assoc, List.singleton_append]
    | exit =>
      obtain ⟨-, rest⟩ := consistent
      rw [plan]
      split at rest
      next last => rw [if_pos last]; exact ih rest
      next last => rw [if_neg last]; exact ih rest
    | error diagnostic => exact ih consistent.2

private theorem mem_namesOf_nodeCalls {tokens : List RawToken} {name : String}
    (inside : name ∈ Call.namesOf (nodeCalls tokens)) :
    name = groupName ∨ ∃ raw ∈ tokens, name = raw.kind := by
  simpa [nodeCalls, Call.namesOf, Call.names, RawToken.placed, eq_comm] using inside

private theorem mem_namesOf_groupCalls {tokens : List RawToken} {name : String}
    (inside : name ∈ Call.namesOf (groupCalls tokens)) :
    name = groupName ∨ ∃ raw ∈ tokens, name = raw.kind := by
  unfold groupCalls at inside
  split at inside
  · cases inside
  · exact mem_namesOf_nodeCalls inside

theorem mem_namesOf_plan {tokens : List RawToken} {events : List RuleEvent} {next depth : Nat} {name : String}
    (inside : name ∈ Call.namesOf (plan tokens next depth events)) :
    (name = groupName ∨ ∃ raw ∈ tokens, name = raw.kind) ∨ ∃ rule, .enter name rule ∈ events := by
  have narrow {some : List RawToken} (part : some ⊆ tokens) (found : name = groupName ∨ ∃ raw ∈ some, name = raw.kind) :
      name = groupName ∨ ∃ raw ∈ tokens, name = raw.kind := by
    rcases found with found | ⟨raw, member, same⟩
    · exact .inl found
    · exact .inr ⟨raw, part member, same⟩
  induction events generalizing next depth with
  | nil =>
    rw [plan, lastCalls] at inside
    split at inside
    · exact .inl (narrow (List.drop_subset _ _) (mem_namesOf_nodeCalls inside))
    · have closing : Call.namesOf (List.replicate (depth - 1) .finish) = [] := by
        rw [Call.namesOf, List.flatMap_replicate]
        simp [Call.names]
      simp only [Call.namesOf_append, Call.namesOf_cons, Call.namesOf_nil, Call.names, closing, List.append_nil,
        List.nil_append] at inside
      exact .inl (narrow (List.drop_subset _ _) (mem_namesOf_groupCalls inside))
  | cons event events ih =>
    have later {next depth : Nat} (found : name ∈ Call.namesOf (plan tokens next depth events)) :
        (name = groupName ∨ ∃ raw ∈ tokens, name = raw.kind) ∨ ∃ rule, .enter name rule ∈ event :: events := by
      rcases ih found with found | ⟨rule, member⟩
      · exact .inl found
      · exact .inr ⟨rule, List.mem_cons_of_mem event member⟩
    cases event with
    | enter other rule =>
      rw [plan, Call.namesOf_cons, Call.names, List.singleton_append] at inside
      cases inside with
      | head => exact .inr ⟨rule, List.mem_cons_self⟩
      | tail _ inside => exact later inside
    | token index =>
      simp only [plan, Call.namesOf_append, List.mem_append] at inside
      rcases inside with (inside | inside) | inside
      · have part : (tokens.take index).drop next ⊆ tokens :=
          fun raw member => List.mem_of_mem_take (List.mem_of_mem_drop member)
        exact .inl (narrow part (mem_namesOf_groupCalls inside))
      · simp only [Call.namesOf, List.flatMap_map, Call.names, List.mem_flatMap, Option.mem_toList,
          List.mem_singleton] at inside
        obtain ⟨raw, found, same⟩ := inside
        exact .inl (.inr ⟨raw, List.mem_of_getElem? found, same⟩)
      · exact later inside
    | exit =>
      rw [plan] at inside
      split at inside
      · exact later inside
      · exact later inside
    | error diagnostic => exact later inside

/-- Whatever events an assembly follows, the tokens of its tree are those of the parse: none is lost,
added or moved, and the text of the tree is theirs. -/
theorem tree_holds_every_token (tokens : List RawToken) (events : List RuleEvent) (mode : ParseMode) (tree : SyntaxTree)
    (built : build tokens events mode = .ok tree) :
    ∃ root, tree.root? = some root ∧
      (tree.leaves root).map Leaf.token = tokens.map (fun raw =>
        ⟨raw.kind, raw.text, raw.channel, Span.of raw.start raw.text⟩) ∧
      tree.text = String.join (tokens.map RawToken.text) := by
  obtain ⟨consistent, made⟩ := build_eq_ok_iff.mp built
  obtain ⟨root, found, leaves⟩ := SyntaxTree.leaves_of_build made
  have placed : Call.tokensOf (plan tokens 0 0 events) = tokens.map RawToken.placed :=
    tokensOf_plan tokens events consistent
  have texts : (tokens.map RawToken.placed).map Token.text = tokens.map RawToken.text := by
    rw [List.map_map]
    rfl
  exact ⟨root, found, leaves.trans placed, by rw [SyntaxTree.text_of_build made, placed, texts]⟩

theorem open_rules_hold_every_token :
    let tokens : List RawToken :=
      [⟨"WS", " ", .hidden, ⟨1, 0⟩⟩, ⟨"ID", "ä", .visible, ⟨1, 1⟩⟩, ⟨"WS", "\n", .hidden, ⟨1, 2⟩⟩,
        ⟨"STRAY", "!", .visible, ⟨2, 0⟩⟩]
    let events : List RuleEvent := [.enter "unit" 1, .enter "name" 2, .token 1, .error ⟨"stopped", ⟨2, 0⟩⟩]
    ∃ tree, build tokens events .lenient = .ok tree ∧ ∃ root, tree.root? = some root ∧
      (tree.leaves root).map Leaf.token = tokens.map (fun raw =>
        ⟨raw.kind, raw.text, raw.channel, Span.of raw.start raw.text⟩) ∧
      tree.text = String.join (tokens.map RawToken.text) := by
  intro tokens events
  have fits : Builder.Fits (plan tokens 0 0 events) :=
    .ofLength (by decide) (by decide) (by decide)
  have consistent : Consistent .lenient tokens.length 0 0 false events := by simp [Consistent, tokens, events]
  obtain ⟨tree, built⟩ := exists_build consistent fits
  exact ⟨tree, built, tree_holds_every_token tokens events .lenient tree built⟩

end Verbatim.Assembly
