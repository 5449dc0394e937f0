import Verbatim.Proofs.MiniJavaCompleteness
import Verbatim.Proofs.MiniJavaStream

/-! Which sources are parsed without an error: those whose visible tokens the grammar derives, as long as the
rules of the parse are not nested too deeply. -/

namespace Verbatim.MiniJava

open RuleEvent

def TooDeep (events : List RuleEvent) : Prop :=
  ∃ front diagnostic name found, events = front ++ [.error diagnostic] ∧
    diagnostic.message = deepMessage name ++ ", found " ++ found ∧ exits front + depthLimit ≤ enters front

/-- Every word of the grammar is taken to its end, unless there is no room for its rules. -/
private theorem parseKinds_accepts {kinds : List Kind} (derives : Derives (.rule .compilationUnit) kinds) :
    Leaves depthLimit (parseKinds kinds) [] := by
  have complete := complete_level (kinds.length + 1) 255
  have body : Accepts (kinds.length + 1) 255
      (Rule.compilationUnit.body.run (kinds.length + 1) (level (kinds.length + 1) 255)) Rule.compilationUnit.form
      (before fun _ => true) := .next (.loopShort complete.call) .bump
  have inside := body.leaves kinds [] (derives_rule_iff.mp derives) rfl (by simp)
  rw [List.append_nil] at inside
  exact .enclosed (.inr ⟨.compilationUnit, rfl⟩) inside

theorem diagnose_message (wanted : String) (found : Option Lexeme) (last : Position) :
    ∃ text, (diagnose wanted found last).message = wanted ++ ", found " ++ text := by
  cases found with
  | none => exact ⟨"end of input", by simp [diagnose, ← String.toList_inj]⟩
  | some lexeme => exact ⟨_, rfl⟩

private theorem tooDeep_events {lexemes : List Lexeme}
    (buried : Buried depthLimit (parseKinds (visibleKinds lexemes))) :
    TooDeep (events lexemes) := by
  obtain ⟨⟨name, failed⟩, depth, deep, course⟩ := buried
  rcases outcome : parseKinds (visibleKinds lexemes) with ⟨marks, rest, failure⟩
  rw [outcome] at failed course
  obtain rfl : failure = some (deepMessage name) := failed
  obtain ⟨last, same⟩ := events_of_failure outcome
  obtain ⟨text, told⟩ := diagnose_message (deepMessage name)
    ((visible lexemes)[(visible lexemes).length - rest.length]?.map Prod.fst) last
  have balance : _ + (0 + depth) = 0 + _ := exits_number (course.climbs 0) ((visible lexemes).map Prod.snd)
  exact ⟨_, _, name, text, same, told, by dsimp only at balance; omega⟩

theorem accepted_iff_succeeds (lexemes : List Lexeme) :
    (∀ diagnostic, .error diagnostic ∉ events lexemes) ↔ (parseKinds (visibleKinds lexemes)).failure = none := by
  rcases outcome : parseKinds (visibleKinds lexemes) with ⟨marks, rest, failure⟩
  cases failure with
  | none =>
    rw [events_of_success outcome]
    exact iff_of_true (error_notMem_number _ _) rfl
  | some wanted =>
    obtain ⟨last, same⟩ := events_of_failure outcome
    rw [same]
    exact iff_of_false (fun absent => absent _ List.mem_concat_self) (by simp)

private theorem derives_of_succeeds {source : String}
    (succeeded : (parseKinds (visibleKinds (lex source))).failure = none) :
    Derives (.rule .compilationUnit) (visibleKinds (lex source)) := by
  obtain ⟨taken, -, -, success, -⟩ := visibleKinds_takes source
  exact (success succeeded).2

/-- A source is parsed without an error exactly if the grammar derives its visible tokens and the parse
does not run out of room for rules. -/
theorem accepted_iff (source : String) :
    (∀ diagnostic, .error diagnostic ∉ (parse source).events) ↔
      Derives (.rule .compilationUnit) (visibleKinds (lex source)) ∧ ¬TooDeep (parse source).events := by
  have parsed : (parse source).events = events (lex source) := by rw [parse]
  rw [parsed]
  constructor
  · intro accepted
    refine ⟨derives_of_succeeds ((accepted_iff_succeeds _).mp accepted), ?_⟩
    rintro ⟨front, diagnostic, name, text, same, -⟩
    exact accepted diagnostic (same ▸ List.mem_concat_self)
  · rintro ⟨derives, shallow⟩
    rw [accepted_iff_succeeds]
    rcases parseKinds_accepts derives with ⟨succeeded, -⟩ | buried
    · exact succeeded
    · exact absurd (tooDeep_events buried) shallow

def negatedField (count : Nat) : String :=
  String.ofList ("class A\x7bint a=".toList ++ (List.replicate count '!' ++ "!a;\x7d".toList))

def negatedKinds (count : Nat) : List Kind :=
  .classWord :: .identifier :: .leftBrace :: .intWord :: .identifier :: .assign ::
    (List.replicate count .bang ++ [.identifier] ++ [.semicolon, .rightBrace, .eof])

private theorem frontToken_negation (rest : List Char) : frontToken ('!' :: '!' :: rest) = (.bang, 1) := by
  with_unfolding_all rfl

private theorem lexFrom_negations (count fuel : Nat) (start : Position) (rest : List Char) :
    ∃ later, (lexFrom (fuel + count) start (List.replicate count '!' ++ '!' :: rest)).map Lexeme.kind =
      List.replicate count .bang ++ (lexFrom fuel later ('!' :: rest)).map Lexeme.kind := by
  induction count generalizing start with
  | zero => exact ⟨start, rfl⟩
  | succ count ih =>
    obtain ⟨more, same⟩ : ∃ more, List.replicate count '!' ++ '!' :: rest = '!' :: more := by
      cases count with
      | zero => exact ⟨rest, rfl⟩
      | succ count => exact ⟨_, rfl⟩
    obtain ⟨later, kinds⟩ := ih (start.advance ['!'])
    refine ⟨later, ?_⟩
    rw [List.replicate_succ, List.cons_append, List.replicate_succ, List.cons_append, ← kinds, same, ← Nat.add_assoc,
      lexFrom, frontToken_negation]
    rfl

theorem visibleKinds_eq (lexemes : List Lexeme) :
    visibleKinds lexemes = (lexemes.map Lexeme.kind).filter fun kind => !kind.channel.isHidden := by
  have first : lexemes.zipIdx.map Prod.fst = lexemes := List.zipIdx_map_fst 0 lexemes
  have kinds : visibleKinds lexemes = ((lexemes.zipIdx.map Prod.fst).map Lexeme.kind).filter
      fun kind => !kind.channel.isHidden := by
    simp only [visibleKinds, visible, List.filter_map, List.map_map]
    rfl
  rw [kinds, first]

private theorem length_negatedField (count : Nat) : (negatedField count).length = 10 + count + 8 := by
  have size (first last : List Char) : (String.ofList (first ++ (List.replicate count '!' ++ last))).length =
      first.length + (count + last.length) := by
    rw [String.length_ofList, List.length_append, List.length_append, List.length_replicate]
  have ends : "class A\x7bint a=".toList.length = 14 ∧ "!a;\x7d".toList.length = 4 := by decide
  have total : (negatedField count).length = _ := size _ _
  omega

private theorem kinds_negatedField (count : Nat) :
    visibleKinds (lex (negatedField count)) = negatedKinds (count + 1) := by
  have text : (negatedField count).toList =
      "class A\x7bint a=".toList ++ (List.replicate count '!' ++ '!' :: "a;\x7d".toList) := String.toList_ofList
  obtain ⟨more, opened⟩ : ∃ more, List.replicate count '!' ++ '!' :: "a;\x7d".toList = '!' :: more := by
    cases count with
    | zero => exact ⟨_, rfl⟩
    | succ count => exact ⟨_, rfl⟩
  obtain ⟨start, front⟩ : ∃ start,
      (lexFrom (10 + count + 8) .start ("class A\x7bint a=".toList ++ '!' :: more)).map Lexeme.kind =
        [Kind.classWord, .whitespace, .identifier, .leftBrace, .intWord, .whitespace, .identifier, .assign] ++
          (lexFrom (10 + count) start ('!' :: more)).map Lexeme.kind := ⟨_, by with_unfolding_all rfl⟩
  obtain ⟨later, middle⟩ := lexFrom_negations count 10 start "a;\x7d".toList
  have back : (lexFrom 10 later ('!' :: "a;\x7d".toList)).map Lexeme.kind =
      [.bang, .identifier, .semicolon, .rightBrace, .eof] := by with_unfolding_all rfl
  have signs : (List.replicate count Kind.bang).filter (fun kind => !kind.channel.isHidden) =
      List.replicate count .bang := List.filter_replicate_of_pos rfl
  rw [visibleKinds_eq, lex, length_negatedField, text, opened, front, ← opened, middle, back, List.filter_append,
    List.filter_append, signs, negatedKinds, List.replicate_succ', List.append_assoc, List.append_assoc]
  rfl

private theorem derives_negations (count : Nat) :
    Derives .expression (List.replicate count .bang ++ [.identifier]) := by
  induction count with
  | zero => exact .expression (.left (.rule (.right (.right (.left (.token .identifier))))))
  | succ count ih =>
    have signed : Derives expressionForm ([Kind.bang] ++ (List.replicate count .bang ++ [.identifier])) :=
      .right (.left (.cat (.among rfl) ih))
    exact .expression signed

private theorem derives_negatedKinds (count : Nat) : Derives (.rule .compilationUnit) (negatedKinds count) := by
  have type : Derives (.rule .type) ([Kind.intWord] ++ []) := .rule (.cat (.left (.among rfl)) .none)
  have declarator : Derives (.rule .variableDeclarator) ([Kind.identifier] ++ ([Kind.assign] ++ _)) :=
    .rule (.cat (.token .identifier) (.left (.cat (.token .assign) (derives_negations count))))
  have field : Derives (.rule .fieldDeclaration) _ :=
    .rule (.cat type (.cat declarator (.cat .none (.token .semicolon))))
  have member : Derives (.rule .classBodyDeclaration) ([] ++ _) :=
    .rule (.right (.cat .none (.right (.right (.right field)))))
  have body : Derives (.rule .classBody) _ := .rule (.cat (.token .leftBrace) (.cat member.once (.token .rightBrace)))
  have declared : Derives (.rule .classDeclaration) _ :=
    .rule (.cat (.token .classWord) (.cat (.token .identifier) (.cat (.right .empty) body)))
  have unit : Derives (.rule .compilationUnit) _ :=
    .rule (.cat (Derives.once (.rule (.right (.cat .none declared)))) (.token .eof))
  simpa [negatedKinds] using unit

/-- Nesting that is too deep for the parser is not too deep for the grammar. -/
theorem deep_negation_rejected :
    ¬((∀ diagnostic, .error diagnostic ∉ (parse (negatedField 247)).events) ↔
      Derives (.rule .compilationUnit) (visibleKinds (lex (negatedField 247)))) := by
  have parsed : (parse (negatedField 247)).events = events (lex (negatedField 247)) := by rw [parse]
  rw [parsed, accepted_iff_succeeds, kinds_negatedField]
  intro same
  exact absurd (same.mpr (derives_negatedKinds 248)) (by decide +kernel)

end Verbatim.MiniJava
