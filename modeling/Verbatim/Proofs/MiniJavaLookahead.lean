import Verbatim.Proofs.MiniJavaOperands

/-! What the parser sees when it looks ahead over a type. Behind the type of a declaration stands a name; no
expression goes on with a name, however long the part of it is that looks like a type. -/

namespace Verbatim.MiniJava

variable {word rest ahead : List Kind}

/-- A function that skips pairs of two kinds as long as they stand in front. -/
structure Skips (first second : Kind) (skip : List Kind → List Kind) : Prop where
  pair : ∀ rest, skip (first :: second :: rest) = skip rest
  other : ∀ ahead, (∀ rest, ahead ≠ first :: second :: rest) → skip ahead = ahead

theorem skips_parts : Skips .dot .identifier skipParts := ⟨fun _ => rfl, skipParts.eq_2⟩

theorem skips_brackets : Skips .leftBracket .rightBracket skipBrackets := ⟨fun _ => rfl, skipBrackets.eq_2⟩

section Skips

variable {first second : Kind} {skip : List Kind → List Kind}

private theorem Skips.of_ne (skips : Skips first second skip) (other : current ahead ≠ first) : skip ahead = ahead := by
  refine skips.other ahead fun rest same => other ?_
  rw [same]
  rfl

theorem Skips.append (skips : Skips first second skip)
    (pairs : Derives (.many (.cat (.token first) (.token second))) word) (other : current rest ≠ first) :
    skip (word ++ rest) = rest := by
  induction pairs using Derives.manyInduction with
  | none => exact skips.of_ne other
  | more front back pair _ ih =>
    simp only [derives_cat_iff, derives_token_iff] at pair
    obtain ⟨_, rfl, _, rfl, rfl⟩ := pair
    exact (skips.pair _).trans ih

end Skips

private theorem type_cases (type : Derives (.rule .type) word) :
    ∃ brackets, Derives (.many (.cat (.token .leftBracket) (.token .rightBracket))) brackets ∧
      ((∃ kind, kind.isPrimitive = true ∧ kind ≠ .identifier ∧ word = kind :: brackets) ∨
        ∃ parts, Derives (.many (.cat (.token .dot) (.token .identifier))) parts ∧
          word = .identifier :: (parts ++ brackets)) := by
  simp only [derives_rule_iff, Rule.form, Form.all, Form.typeName, Form.qualifiedName, derives_cat_iff,
    derives_alt_iff, derives_token_iff, derives_among_iff] at type
  obtain ⟨_, ⟨kind, primitive, rfl⟩ | ⟨_, rfl, parts, named, rfl⟩, brackets, pairs, rfl⟩ := type
  · have different : kind ≠ .identifier := by
      rintro rfl
      cases primitive
    exact ⟨brackets, pairs, .inl ⟨kind, primitive, different, rfl⟩⟩
  · exact ⟨brackets, pairs, .inr ⟨parts, named, rfl⟩⟩

private theorem afterType?_append (type : Derives (.rule .type) word) (dotless : current rest ≠ .dot)
    (flat : current rest ≠ .leftBracket) : afterType? (word ++ rest) = some rest := by
  obtain ⟨brackets, pairs, ⟨kind, primitive, different, rfl⟩ | ⟨parts, named, rfl⟩⟩ := type_cases type
  · simp [afterType?, different, primitive, skips_brackets.append pairs flat]
  · -- the parts of the name end at a bracket or at what follows the type
    have undotted : current (brackets ++ rest) ≠ .dot := by
      rcases pairs.starts with ⟨rfl, -⟩ | ⟨kind, more, rfl, start⟩
      · exact dotless
      · rintro rfl
        cases start
    simp [afterType?, skips_parts.append named undotted, skips_brackets.append pairs flat]

/-- Behind an operand there is no name. -/
private theorem current_skip_trailers (trailers : Derives (.many trailerForm) word) (dotless : current rest ≠ .dot)
    (flat : current rest ≠ .leftBracket) (nameless : current rest ≠ .identifier) :
    current (skipBrackets (skipParts (word ++ rest))) ≠ .identifier := by
  have still {ahead : List Kind} (dotless : current ahead ≠ .dot) (flat : current ahead ≠ .leftBracket)
      (nameless : current ahead ≠ .identifier) : current (skipBrackets (skipParts ahead)) ≠ .identifier := by
    rw [skips_parts.of_ne dotless, skips_brackets.of_ne flat]
    exact nameless
  have called {word : List Kind} (arguments : Derives (.rule .arguments) word) (ahead : List Kind) :
      current (skipBrackets (skipParts (word ++ ahead))) ≠ .identifier := by
    have opened : current (word ++ ahead) = .leftParen := beq_iff_eq.mp (arguments.front rfl ahead)
    exact still (by simp [opened]) (by simp [opened]) (by simp [opened])
  induction trailers using Derives.manyInduction with
  | none => exact still dotless flat nameless
  | more front back trailer _ ih =>
    rw [List.append_assoc]
    rcases trailer_cases trailer with ⟨more, rfl | arguments, rfl⟩ | ⟨index, inner, rfl⟩ | arguments | ⟨kind, step, rfl⟩
    · exact ih
    · exact called arguments (back ++ rest)
    · -- an index is not empty, so its brackets are not those of a type
      obtain ⟨first, more, rfl⟩ := List.exists_cons_of_ne_nil (inner.ne_nil rfl)
      have start : first.startsExpression = true := inner.front rfl rest
      have unpaired : first ≠ .rightBracket := by
        rintro rfl
        cases start
      simp [skipParts, skipBrackets, unpaired, current]
    · exact called arguments (back ++ rest)
    · exact still (by rintro rfl; cases step) (by rintro rfl; cases step) (by rintro rfl; cases step)

private theorem afterType?_of_ne {kind : Kind} (other : kind.startsType = false) :
    afterType? (kind :: rest) = none := by
  simp only [Kind.startsType, Bool.or_eq_false_iff] at other
  simp [afterType?, other]

private theorem primary_cases (primary : Derives (.rule .primary) word) :
    word = [.identifier] ∨ ∃ kind more, word = kind :: more ∧ kind.startsType = false := by
  simp only [derives_rule_iff, Rule.form, Form.any, Form.all, derives_alt_iff, derives_cat_iff, derives_token_iff,
    derives_among_iff] at primary
  rcases primary with ⟨_, rfl, inner, -, rfl⟩ | rfl | rfl | ⟨_, rfl, creator, -, rfl⟩ | ⟨kind, literal, rfl⟩
  · exact .inr ⟨_, _, rfl, rfl⟩
  · exact .inr ⟨_, _, rfl, rfl⟩
  · exact .inl rfl
  · exact .inr ⟨_, _, rfl, rfl⟩
  · exact .inr ⟨_, _, rfl, by revert kind; decide⟩

theorem not_localVariable (typeless : (current ahead).startsType = false) (mutable : current ahead ≠ .finalWord) :
    Look.localVariable ahead = false := by
  unfold Look.localVariable
  rw [if_neg (by simpa using mutable)]
  cases ahead with
  | nil => rfl
  | cons kind rest =>
    have absent : afterType? (kind :: rest) = none := afterType?_of_ne typeless
    rw [absent]

theorem not_localVariable_expression (derives : Derives .expression word) (stop : (current rest).continues = false)
    (nameless : current rest ≠ .identifier) : Look.localVariable (word ++ rest) = false := by
  have expressive : ∀ kind : Kind, kind.startsExpression = true → kind ≠ .finalWord := by decide
  have mutable := expressive _ (derives.front rfl rest)
  obtain ⟨operand, segments, first, derived, rfl⟩ := derives.chain
  cases first with
  | signed unary =>
    have typeless : ∀ kind : Kind, kind.isUnary = true → kind.startsType = false := by decide
    exact not_localVariable (typeless _ unary) mutable
  | bare primary trailers =>
    rcases primary_cases primary with rfl | ⟨kind, more, rfl, other⟩
    · -- the name may have parts, but behind them the expression ends or goes on otherwise
      have ended : current rest ≠ .dot ∧ current rest ≠ .leftBracket ∧ current rest ≠ .identifier :=
        ⟨fun same => by simp [same, Kind.continues] at stop, fun same => by simp [same, Kind.continues] at stop,
          nameless⟩
      obtain ⟨dotless, flat, plain⟩ := Segment.current_words
        (fun kind => kind ≠ .dot ∧ kind ≠ .leftBracket ∧ kind ≠ .identifier) derived (by decide) ended
      simpa [Look.localVariable, current, afterType?] using current_skip_trailers trailers dotless flat plain
    · exact not_localVariable other mutable

/-- The name behind a type is not the first token, so no constructor is seen. -/
private theorem not_pair_type (type : Derives (.rule .type) word) :
    Look.pair .identifier .leftParen (word ++ .identifier :: rest) = false := by
  have closed : ∀ kind : Kind, (Form.cat (.many (.cat (.token .dot) (.token .identifier)))
      (.many (.cat (.token .leftBracket) (.token .rightBracket)))).leads (· == .identifier) kind = true →
      kind ≠ .leftParen := by decide
  obtain ⟨brackets, pairs, ⟨kind, -, different, rfl⟩ | ⟨parts, named, rfl⟩⟩ := type_cases type
  · simp [Look.pair, current, different]
  · have behind : current (parts ++ brackets ++ .identifier :: rest) ≠ .leftParen :=
      closed _ ((Derives.cat named pairs).leads rfl)
    simpa [Look.pair, current] using behind

theorem constructor_cases (derives : Derives (.rule .constructorDeclaration) word) :
    ∃ more, word = .identifier :: .leftParen :: more := by
  simp only [derives_rule_iff, Rule.form, Form.all, derives_cat_iff, derives_token_iff] at derives
  obtain ⟨_, rfl, _, ⟨_, ⟨_, rfl, parameters, -, rfl⟩, block, -, rfl⟩, rfl⟩ := derives
  exact ⟨_, rfl⟩

theorem method_cases (derives : Derives (.rule .methodDeclaration) word) :
    (∃ more, word = .voidWord :: more) ∨
      ∃ type more : List Kind, Derives (.rule .type) type ∧ word = type ++ .identifier :: .leftParen :: more := by
  rw [derives_rule_iff] at derives
  simp only [Rule.form, Form.all, Form.any, derives_cat_iff, derives_alt_iff, derives_token_iff] at derives
  obtain ⟨type, rfl | derived, _, ⟨_, rfl, _, ⟨parameters, opened, body, -, rfl⟩, rfl⟩, rfl⟩ := derives
  · exact .inl ⟨_, rfl⟩
  · refine .inr ⟨type, ?_⟩
    simp only [derives_rule_iff, Rule.form, Form.all, derives_cat_iff, derives_token_iff] at opened
    obtain ⟨_, rfl, inner, -, rfl⟩ := opened
    exact ⟨_, derived, rfl⟩

theorem field_cases (derives : Derives (.rule .fieldDeclaration) word) :
    ∃ type more : List Kind, Derives (.rule .type) type ∧ word = type ++ .identifier :: more ∧
      ∀ rest, current (more ++ rest) ≠ .leftParen := by
  rw [derives_rule_iff] at derives
  obtain ⟨type, derived, _, others, rfl⟩ := derives_cat_iff.mp derives
  obtain ⟨declarator, named, more, ended, rfl⟩ := derives_cat_iff.mp others
  obtain ⟨_, name, value, given, rfl⟩ := derives_cat_iff.mp (derives_rule_iff.mp named)
  rw [derives_token_iff.mp name]
  refine ⟨type, value ++ more, derived, by simp, fun rest => ?_⟩
  have closed : ∀ kind : Kind, (Form.cat (.optional (.cat (.token .assign) .expression)) (.cat
      (.commaMore (.rule .variableDeclarator)) (.token .semicolon))).starts kind = true → kind ≠ .leftParen := by
    decide
  exact closed _ ((Derives.cat given ended).front rfl rest)

theorem method_type {type : List Kind} (derived : Derives (.rule .type) type) :
    Look.method (type ++ .identifier :: rest) = (current rest == .leftParen) := by
  have behind : afterType? (type ++ .identifier :: rest) = some (.identifier :: rest) :=
    afterType?_append derived (by simp [current]) (by simp [current])
  simp [Look.method, behind, Look.pair, current]

/-- Neither a method nor a field looks like a constructor. -/
theorem not_pair_member (derives : Derives (.alt (.rule .methodDeclaration) (.rule .fieldDeclaration)) word) :
    Look.pair .identifier .leftParen (word ++ rest) = false := by
  rcases derives_alt_iff.mp derives with method | field
  · rcases method_cases method with ⟨more, rfl⟩ | ⟨type, more, derived, rfl⟩
    · rfl
    · rw [List.append_assoc]
      exact not_pair_type derived
  · obtain ⟨type, more, derived, rfl, -⟩ := field_cases field
    rw [List.append_assoc]
    exact not_pair_type derived

private theorem localVariable_eq {ahead behind : List Kind}
    (typed : afterType? (if current ahead == .finalWord then ahead.drop 1 else ahead) = some behind) :
    Look.localVariable ahead = (current behind == .identifier) := by
  rw [Look.localVariable, typed]

theorem localVariable_declaration (derives : Derives (.rule .localVariableDeclaration) word) :
    Look.localVariable (word ++ rest) = true := by
  rw [derives_rule_iff] at derives
  obtain ⟨modifier, marked, _, others, rfl⟩ := derives_cat_iff.mp derives
  obtain ⟨type, derived, more, named, rfl⟩ := derives_cat_iff.mp others
  have names : ∀ kind : Kind,
      (Form.cat (.rule .variableDeclarator) (.commaMore (.rule .variableDeclarator))).starts kind = true →
        kind = .identifier := by
    decide
  have mutable : ∀ kind : Kind, (Form.rule .type).starts kind = true → kind ≠ .finalWord := by decide
  have name := names _ (named.front rfl rest)
  have behind : afterType? (type ++ (more ++ rest)) = some (more ++ rest) :=
    afterType?_append derived (by simp [name]) (by simp [name])
  simp only [Form.optional, derives_alt_iff, derives_token_iff, derives_empty_iff] at marked
  rcases marked with rfl | rfl
  · have marked : Look.localVariable (.finalWord :: (type ++ (more ++ rest))) =
        (current (more ++ rest) == .identifier) := localVariable_eq behind
    simp [marked, name]
  · simp [Look.localVariable, behind, name, mutable _ (derived.front rfl (more ++ rest))]

theorem not_localVariable_statement (derives : Derives (.rule .statement) word) :
    Look.localVariable (word ++ rest) = false := by
  have keyword {form : Form} (derives : Derives form word) (solid : form.nullable = false)
      (other : ∀ kind, form.starts kind = true → kind.startsType = false ∧ kind ≠ .finalWord) :
      Look.localVariable (word ++ rest) = false := by
    obtain ⟨typeless, mutable⟩ := other _ (derives.front solid rest)
    exact not_localVariable typeless mutable
  rw [derives_rule_iff] at derives
  simp only [Rule.form, Form.any, derives_alt_iff] at derives
  rcases derives with block | branch | loop | loop | loop | jump | jump | jump | blank | expression
  case inr.inr.inr.inr.inr.inr.inr.inr.inr =>
    obtain ⟨expression, derived, _, ended, rfl⟩ := derives_cat_iff.mp expression
    rw [derives_token_iff.mp ended, List.append_assoc]
    exact not_localVariable_expression derived rfl (by simp [current])
  all_goals exact keyword ‹_› rfl (by decide)

end Verbatim.MiniJava
