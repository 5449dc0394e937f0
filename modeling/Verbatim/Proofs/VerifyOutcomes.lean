import Verbatim.Verify

/-! What the checks of a processor come to, from what its conversions give. -/

namespace Verbatim

private theorem SyntaxTree.bne_self (tree : SyntaxTree) : (tree != tree) = false := by
  have same : (tree == tree) = true := beq_self_eq_true tree.calls
  rw [bne, same]
  rfl

namespace Verify

/-- The lines of a text. All end in a newline, except that the last one may lack it. -/
inductive Lines : List Char → List (List Char) → Prop where
  | none : Lines [] []
  | last {line : List Char} (filled : line ≠ []) (single : '\n' ∉ line) : Lines line [line]
  | newline {line text : List Char} {lines : List (List Char)} (single : '\n' ∉ line) (more : Lines text lines) :
    Lines (line ++ '\n' :: text) ((line ++ ['\n']) :: lines)

theorem lines_linesOf (text : List Char) : Lines text (linesOf text) := by
  induction text with
  | nil => exact .none
  | cons c rest ih =>
    by_cases newline : c = '\n'
    · subst newline
      have split : Lines ([] ++ '\n' :: rest) (([] ++ ['\n']) :: linesOf rest) := .newline (by simp) ih
      exact split
    · rw [linesOf, if_neg (by simpa using newline)]
      have other : '\n' ≠ c := Ne.symm newline
      generalize linesOf rest = lines at ih ⊢
      cases ih with
      | none => exact .last (by simp) (by simpa using other)
      | last filled single => exact .last (by simp) (by simp [other, single])
      | @newline line text lines single more =>
        have longer : '\n' ∉ c :: line := by simp [other, single]
        exact .newline longer more

theorem Lines.flatten {text : List Char} {lines : List (List Char)} (split : Lines text lines) :
    lines.flatten = text := by
  induction split with
  | none => rfl
  | last filled single => simp
  | newline single more ih => simp [ih]

def leading (lines : List (List Char)) (count : Nat) : String := String.ofList (lines.take count).flatten

theorem length_leading_le {text : List Char} {lines : List (List Char)} (split : Lines text lines) (count : Nat) :
    (leading lines count).length ≤ text.length := by
  have cut : (lines.take count).flatten ++ (lines.drop count).flatten = lines.flatten := by
    rw [← List.flatten_append, List.take_append_drop]
  rw [leading, String.length_ofList, ← split.flatten, ← cut, List.length_append]
  exact Nat.le_add_right _ _

theorem leafPositions_eq_ok_iff {source : List Char} {leaves : List Leaf} :
    leafPositions source leaves = .ok () ↔
      ∀ leaf ∈ leaves, leaf.token.span.slice? source = some leaf.token.text.toList := by
  induction leaves with
  | nil => simp [leafPositions]
  | cons leaf rest ih =>
    rw [List.forall_mem_cons, ← ih, leafPositions]
    split
    next found => exact (and_iff_right found).symm
    next other => exact ⟨nofun, fun placed => absurd placed.1 other⟩

section Conversions

variable {m : Type → Type} [Monad m] [LawfulMonad m] {processor : Processor m} {source : String} {tree : SyntaxTree}

private theorem convert_ok {α β : Type} (value : α) (next : α → ExceptT VerifyError m β) :
    (convert (settle (.ok value)) >>= next) = next value := by
  have converted : (convert (settle (.ok value)) : ExceptT VerifyError m α) = pure value :=
    map_pure (Except.mapError VerifyError.processor) (.ok value)
  rw [converted, pure_bind]

private theorem convert_error {α β : Type} (fault : Fault) (next : α → ExceptT VerifyError m β) :
    (convert (settle (.error fault)) >>= next).run = pure (.error (.processor fault)) := by
  have converted : (convert (settle (.error fault)) : ExceptT VerifyError m α) = throw (.processor fault) :=
    map_pure (Except.mapError VerifyError.processor) (.error fault)
  rw [converted]
  exact pure_bind _ _

theorem restoring_eq_ok {document : String}
    (parsed : processor.treeFromSource source .strict = settle (.ok tree))
    (restored : processor.sourceFromTree tree = settle (.ok source))
    (written : processor.xmlFromTree tree = settle (.ok document))
    (read : processor.treeFromXml document = settle (.ok tree)) (placed : positions tree source = .ok ()) :
    (restoring processor source).run = pure (.ok tree) := by
  rw [restoring]
  simp [parsed, restored, written, read, placed, convert_ok, SyntaxTree.bne_self]

theorem restoring_eq_error {fault : Fault} (stopped : processor.treeFromSource source .strict = settle (.error fault)) :
    (restoring processor source).run = pure (.error (.processor fault)) := by
  rw [restoring, stopped, convert_error]

theorem interConverting_eq_ok (parsed : processor.treeFromSource source .strict = settle (.ok tree))
    (restored : processor.sourceFromTree tree = settle (.ok source)) :
    (interConverting processor source).run = pure (.ok ()) := by
  rw [interConverting]
  simp [parsed, restored, convert_ok, SyntaxTree.bne_self]

theorem interConverting_eq_error {fault : Fault}
    (stopped : processor.treeFromSource source .strict = settle (.error fault)) :
    (interConverting processor source).run = pure (.error (.processor fault)) := by
  rw [interConverting, stopped, convert_error]

end Conversions

/-- The greatest number of leading lines that are parsed, or zero, or the contract that a parse of more lines broke. -/
def Longest (parsed : Nat → Except Fault SyntaxTree) (limit : Nat) : Except Violation Nat → Prop
  | .ok count =>
    count ≤ limit ∧ (0 < count → ∃ tree, parsed count = .ok tree) ∧
      ∀ more, count < more → more ≤ limit → ∃ problem, parsed more = .error (.error problem)
  | .error violation => ∃ count, (0 < count ∧ count ≤ limit) ∧ parsed count = .error (.violation violation)

theorem Longest.succ {parsed : Nat → Except Fault SyntaxTree} {limit : Nat} {problem : Error}
    (refused : parsed (limit + 1) = .error (.error problem)) {result : Except Violation Nat}
    (longest : Longest parsed limit result) : Longest parsed (limit + 1) result := by
  cases result with
  | ok count =>
    obtain ⟨below, reached, beyond⟩ := longest
    refine ⟨Nat.le_succ_of_le below, reached, fun more above within => ?_⟩
    rcases Nat.le_succ_iff.mp within with earlier | rfl
    · exact beyond more above earlier
    · exact ⟨problem, refused⟩
  | error violation =>
    obtain ⟨count, ⟨positive, below⟩, broken⟩ := longest
    exact ⟨count, ⟨positive, Nat.le_succ_of_le below⟩, broken⟩

/-- The search ends with the longest leading lines, where all of them are restored that are parsed. -/
theorem exists_maxLineFrom {m : Type → Type} [Monad m] [LawfulMonad m] {processor : Processor m}
    {lines : List (List Char)} {limit : Nat} {parsed : Nat → Except Fault SyntaxTree}
    (settled : ∀ count ≤ limit,
      (restoring processor (leading lines count)).run = pure ((parsed count).mapError .processor)) :
    ∃ result, (maxLineFrom processor lines limit).run = pure result ∧ Longest parsed limit result := by
  induction limit with
  | zero => exact ⟨.ok 0, rfl, Nat.le_refl 0, nofun, fun more above below => absurd above (Nat.not_lt.mpr below)⟩
  | succ limit ih =>
    have last := settled (limit + 1) (Nat.le_refl _)
    rw [leading] at last
    rw [maxLineFrom]
    simp only [last, liftM_pure, pure_bind]
    cases outcome : parsed (limit + 1) with
    | ok tree =>
      refine ⟨.ok (limit + 1), rfl, Nat.le_refl _, fun _ => ⟨tree, outcome⟩, ?_⟩
      exact fun more above below => absurd above (Nat.not_lt.mpr below)
    | error fault =>
      cases fault with
      | error problem =>
        obtain ⟨result, found, longest⟩ := ih fun count below => settled count (Nat.le_succ_of_le below)
        exact ⟨result, found, longest.succ outcome⟩
      | violation violation =>
        exact ⟨.error violation, rfl, limit + 1, ⟨Nat.succ_pos limit, Nat.le_refl _⟩, outcome⟩

end Verify

end Verbatim
