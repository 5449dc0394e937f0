import Verbatim.Proofs.MiniJavaLookahead
import Verbatim.Proofs.MiniJavaPrecedence

/-! The parser takes every word of the grammar, as far as it has room for its rules. What may follow a word
is known for each rule. Two rules have words that may also go on where they could have ended: a branch
without its alternative and an array without one more of its indexes. There the parser always goes on,
and what it takes then is a word of the same rule. -/

namespace Verbatim.MiniJava

def Rule.follows : Rule → Kind → Bool
  | .type, kind => !(kind == .dot || kind == .leftBracket)
  | .variableDeclarator, kind => !kind.continues
  | .localVariableDeclaration, kind | .expressionList, kind => !(kind.continues || kind == .comma)
  | .blockStatement, kind | .statement, kind => kind != .elseWord
  | .forControl, kind => kind == .rightParen
  | .primary, kind | .creator, kind => kind != .leftBracket
  | _, _ => true

open Form in
/-- How words of a rule may go on. -/
def Rule.extension : Rule → Form
  | .statement => all [token .elseWord, rule .statement]
  | .primary | .creator => all [token .leftBracket, expression, token .rightBracket]
  | _ => empty

def Rule.Absorbs (rule : Rule) (word : List Kind) : Prop :=
  ∀ more, Derives rule.extension more → Derives (.rule rule) (word ++ more)

/-- A word of a rule ends where the rule ends, and everywhere if it cannot go on. -/
def Rule.Fits (rule : Rule) (word rest : List Kind) : Prop :=
  rule.follows (current rest) = true ∨ ¬rule.Absorbs word

/-- At a level with so much room every rule but that of the whole source takes its words. -/
structure Level.Complete (limit room : Nat) (level : Level) : Prop where
  sound : level.IsSound
  rule : ∀ rule id, rule ≠ .compilationUnit → Accepts limit room (level.rule rule id) (.rule rule) rule.Fits
  expression : TakesRows limit room level.expression

section

variable {limit room : Nat} {level : Level}

theorem Level.Complete.call (complete : level.Complete limit room) {rule : Rule} {id : RuleId} {follow : Kind → Bool}
    (inner : rule ≠ .compilationUnit := by decide)
    (ends : ∀ kind, follow kind = true → rule.follows kind = true := by decide) :
    Accepts limit room ((Step.call rule id).run limit level) (.rule rule) (before follow) :=
  (complete.rule rule id inner).weaken fun _ _ _ fit => .inl (ends _ fit)

theorem Level.Complete.whole (complete : level.Complete limit room) {follow : Kind → Bool}
    (ends : ∀ kind, follow kind = true → kind.continues = false := by decide) :
    Accepts limit room (Step.expression.run limit level) .expression (before follow) :=
  (complete.expression.accepts (complete.sound.expression 0)).weaken fun _ _ _ fit => by simp [before, ends _ fit]

private theorem accepts_qualifiedName {follow : Kind → Bool} (undotted : follow .dot = false) :
    Accepts limit room (Step.qualifiedName.run limit level) .qualifiedName (before follow) := by
  refine .next .expect (.loop (.next .bump .bump) rfl ?_ ?_ limit (Nat.le_refl limit))
  · intro word rest derives
    obtain ⟨_, dotted, _, named, rfl⟩ := derives_cat_iff.mp derives
    rw [derives_token_iff.mp dotted, derives_token_iff.mp named]
    rfl
  · intro rest fit
    have other : current rest ≠ .dot := by
      rintro same
      simp [same, undotted] at fit
    simp [Look.pair, other]

private theorem accepts_typeName {follow : Kind → Bool} (undotted : follow .dot = false) :
    Accepts limit room (Step.typeName.run limit level) .typeName (before follow) :=
  .chooseFirst .bump (accepts_qualifiedName undotted)

theorem Level.Complete.modifiers (complete : level.Complete limit room) {id : RuleId} {follow : Kind → Bool}
    (ends : ∀ kind, follow kind = true → kind.isModifier = false := by decide) :
    Accepts limit room ((Step.loop (.among Kind.isModifier) (.call .modifier id)).run limit level)
      (.many (.rule .modifier)) (before follow) :=
  .loopShort (complete.call (by decide) fun _ _ => rfl) rfl (by decide) ends

theorem Level.Complete.final (complete : level.Complete limit room) {id : RuleId} {follow : Kind → Bool}
    (ends : ∀ kind, follow kind = true → Look.on .finalWord [kind] = false := by decide) :
    Accepts limit room ((Step.perhaps (.on .finalWord) (.call .modifier id)).run limit level)
      (.optional (.token .finalWord)) (before follow) := by
  have modifier : Accepts limit room ((Step.call .modifier id).run limit level) (.token .finalWord)
      (before follow) := by
    refine .mono ?_ (complete.call (by decide) fun _ _ => rfl)
    intro word derives
    rw [derives_token_iff.mp derives]
    exact .rule (.among rfl)
  refine .choose modifier .done ?_ ?_
  · intro word rest derives _
    rw [derives_token_iff.mp derives]
    rfl
  · intro word rest derives fit
    rw [derives_empty_iff.mp derives]
    exact ends _ fit

/-- Methods and fields are told apart by what stands behind their types and names. -/
theorem Level.Complete.members (complete : level.Complete limit room) {otherwise : Step} :
    Accepts limit room ((Step.select
      [(.on .voidWord, .call .methodDeclaration 11), (.method, .call .methodDeclaration 11),
        (.on .identifier, .call .fieldDeclaration 12), (.among Kind.isPrimitive, .call .fieldDeclaration 12)]
      otherwise).run limit level) (.alt (.rule .methodDeclaration) (.rule .fieldDeclaration))
      (before fun _ => true) := by
  have types : ∀ kind : Kind, (Form.rule .type).starts kind = true →
      kind ≠ .voidWord ∧ (kind = .identifier ∨ kind.isPrimitive = true) := by decide
  refine ⟨sound_run limit complete.sound _, fun word rest derives _ short => ?_⟩
  rcases derives_alt_iff.mp derives with method | field
  · have taken := (complete.rule .methodDeclaration 11 (by decide)).leaves word rest method (.inl rfl) short
    rcases method_cases method with ⟨more, rfl⟩ | ⟨type, more, derived, rfl⟩
    · exact .choose_yes rfl taken
    · have typed := types _ (derived.front rfl (.identifier :: .leftParen :: more ++ rest))
      rw [← List.append_assoc] at typed
      exact .choose_no (by simpa [Look.on] using typed.1)
        (.choose_yes (by rw [List.append_assoc]; exact method_type derived) taken)
  · have taken := (complete.rule .fieldDeclaration 12 (by decide)).leaves word rest field (.inl rfl) short
    obtain ⟨type, more, derived, rfl, closed⟩ := field_cases field
    have typed := types _ (derived.front rfl (.identifier :: more ++ rest))
    rw [← List.append_assoc] at typed
    refine .choose_no (by simpa [Look.on] using typed.1) (.choose_no ?_ ?_)
    · rw [List.append_assoc]
      exact (method_type derived).trans (by simpa using closed rest)
    · rcases typed.2 with named | primitive
      · exact .choose_yes (beq_iff_eq.mpr named) taken
      · by_cases named : Look.on .identifier (type ++ .identifier :: more ++ rest) = true
        · exact .choose_yes named taken
        · exact .choose_no (eq_false_of_ne_true named) (.choose_yes primitive taken)

theorem Level.Complete.initial (complete : level.Complete limit room) :
    Accepts limit room ((Step.select
      [(.localVariable, .call .localVariableDeclaration 47), (.on .semicolon, .done)] (.call .expressionList 48)).run
        limit level)
      (.optional (.alt (.rule .localVariableDeclaration) (.rule .expressionList))) (before (· == .semicolon)) := by
  have reordered : ∀ word, Derives (.optional (.alt (.rule .localVariableDeclaration) (.rule .expressionList))) word →
      Derives (.alt (.rule .localVariableDeclaration) (.alt .empty (.rule .expressionList))) word := by
    intro word derives
    rcases derives_alt_iff.mp derives with given | absent
    · rcases derives_alt_iff.mp given with declared | listed
      · exact .left declared
      · exact .right (.right listed)
    · exact .right (.left absent)
  refine .mono reordered (.choose complete.call (.chooseShort .done complete.call) ?_ ?_)
  · exact fun word rest declared _ => localVariable_declaration declared
  · intro word rest derives fit
    have ended : current rest = .semicolon := beq_iff_eq.mp fit
    rcases derives_alt_iff.mp derives with absent | listed
    · rw [derives_empty_iff.mp absent]
      exact not_localVariable (by rw [List.nil_append, ended]; rfl) (by simp [ended])
    · obtain ⟨expression, derived, more, others, rfl⟩ := derives_cat_iff.mp (derives_rule_iff.mp listed)
      have between : ∀ kind : Kind, (Form.commaMore .expression).leads (· == .semicolon) kind = true →
          kind.continues = false ∧ kind ≠ .identifier := by decide
      obtain ⟨stop, nameless⟩ := between _ (others.leads fit)
      rw [List.append_assoc]
      exact not_localVariable_expression derived stop nameless

section

variable {front word parenthesized statement alternative rest : List Kind}

/-- What ends a word of a rule ends the last part of it, if that part may go on like the word. -/
theorem Rule.Fits.last {rule inner : Rule} (fits : rule.Fits (front ++ word) rest)
    (alike : inner.follows = rule.follows ∧ inner.extension = rule.extension)
    (grows : ∀ word, Derives (.rule inner) word → Derives (.rule rule) (front ++ word)) : inner.Fits word rest := by
  obtain ⟨follows, extended⟩ := alike
  unfold Rule.Fits at *
  rw [follows]
  refine fits.imp_right fun whole absorbs => whole fun more extension => ?_
  rw [List.append_assoc]
  exact grows _ (absorbs more (extended ▸ extension))

theorem Derives.branch (condition : Derives (.rule .parExpression) parenthesized)
    (derives : Derives (.rule .statement) statement) :
    Derives (.rule .statement) (.ifWord :: (parenthesized ++ statement)) := by
  have branch : Derives Rule.statement.form ([Kind.ifWord] ++ (parenthesized ++ (statement ++ []))) :=
    .right (.left (.cat (.token .ifWord) (.cat condition (.cat derives (.right .empty)))))
  simpa using Derives.rule branch

theorem Derives.branches (condition : Derives (.rule .parExpression) parenthesized)
    (derives : Derives (.rule .statement) statement) (otherwise : Derives (.rule .statement) alternative) :
    Derives (.rule .statement) (.ifWord :: (parenthesized ++ (statement ++ .elseWord :: alternative))) :=
  .rule (.right (.left (.cat (.token .ifWord)
    (.cat condition (.cat derives (.left (.cat (.token .elseWord) otherwise)))))))

/-- A branch without an alternative may get one. -/
private theorem absorbs_branch (condition : Derives (.rule .parExpression) parenthesized)
    (derives : Derives (.rule .statement) statement) :
    Rule.statement.Absorbs (.ifWord :: (parenthesized ++ statement)) := by
  intro more extension
  obtain ⟨_, word, alternative, otherwise, rfl⟩ := derives_cat_iff.mp extension
  rw [derives_token_iff.mp word]
  simpa using condition.branches derives otherwise

end

/-- An alternative belongs to the last branch that may have it. -/
theorem Level.Complete.branches (complete : level.Complete limit room) :
    Accepts limit room ((Step.all [.bump, .call .parExpression 35, .call .statement 36,
      .perhaps (.on .elseWord) (.next .bump (.call .statement 37))]).run limit level)
      (.all [.token .ifWord, .rule .parExpression, .rule .statement,
        .optional (.all [.token .elseWord, .rule .statement])]) Rule.statement.Fits := by
  refine ⟨sound_run limit complete.sound _, fun word rest derives fit short => ?_⟩
  simp only [Form.all, Form.optional, derives_cat_iff, derives_alt_iff, derives_token_iff, derives_empty_iff] at derives
  obtain ⟨_, rfl, _, ⟨parenthesized, condition, _, ⟨statement, derived, tail, ended, rfl⟩, rfl⟩, rfl⟩ := derives
  have opened {ahead : List Kind} (short : (.ifWord :: (parenthesized ++ ahead)).length < limit) :
      Leaves room (level.rule .parExpression 35 (parenthesized ++ ahead)) ahead :=
    (complete.rule .parExpression 35 (by decide)).leaves parenthesized ahead condition (.inl rfl)
      (Nat.lt_of_succ_lt short)
  have alone {statement : List Kind} (derived : Derives (.rule .statement) statement)
      (fit : Rule.statement.Fits (.ifWord :: (parenthesized ++ statement)) rest)
      (short : (.ifWord :: (parenthesized ++ (statement ++ rest))).length < limit) :
      Leaves room ((Step.all [.bump, .call .parExpression 35, .call .statement 36,
        .perhaps (.on .elseWord) (.next .bump (.call .statement 37))]).run limit level
          (.ifWord :: (parenthesized ++ (statement ++ rest)))) rest := by
    have ended : Rule.statement.follows (current rest) = true :=
      fit.resolve_right fun whole => whole (absorbs_branch condition derived)
    have inside := (complete.rule .statement 36 (by decide)).leaves statement rest derived (.inl ended)
      (by simp at short ⊢; omega)
    refine .next .bump .bump (.next (complete.sound.rule _ _) (opened short)
      (.next (complete.sound.rule _ _) inside (.choose_no ?_ .done)))
    simpa [Look.on, Rule.follows] using ended
  rcases ended with ⟨_, rfl, alternative, otherwise, rfl⟩ | rfl
  · by_cases absorbs : Rule.statement.Absorbs statement
    · have longer := absorbs _ (.cat (.token .elseWord) otherwise)
      have whole := alone longer (by simpa using fit) (by simpa using short)
      simpa using whole
    · have fits : Rule.statement.Fits
          (Kind.ifWord :: (parenthesized ++ (statement ++ [Kind.elseWord])) ++ alternative) rest := by simpa using fit
      have last : Rule.statement.Fits alternative rest :=
        fits.last ⟨rfl, rfl⟩ fun word derives => by simpa using condition.branches derived derives
      have inside := (complete.rule .statement 36 (by decide)).leaves statement (.elseWord :: (alternative ++ rest))
        derived (.inr absorbs) (by simp at short ⊢; omega)
      have behind := (complete.rule .statement 37 (by decide)).leaves alternative rest otherwise last
        (by simp at short ⊢; omega)
      have same : [Kind.ifWord] ++ (parenthesized ++ (statement ++ ([Kind.elseWord] ++ alternative))) ++ rest =
          .ifWord :: (parenthesized ++ (statement ++ .elseWord :: (alternative ++ rest))) := by simp
      rw [same] at short ⊢
      exact .next .bump .bump (.next (complete.sound.rule _ _) (opened short)
        (.next (complete.sound.rule _ _) inside (.choose_yes rfl (.next .bump .bump behind))))
  · have whole := alone derived (by simpa using fit) (by simpa using short)
    simpa using whole

private theorem Level.Complete.whileLoop (complete : level.Complete limit room) :
    Accepts limit room ((Step.all [.bump, .call .parExpression 38, .call .statement 39]).run limit level)
      (.all [.token .whileWord, .rule .parExpression, .rule .statement]) Rule.statement.Fits := by
  refine ⟨sound_run limit complete.sound _, fun word rest derives fit short => ?_⟩
  simp only [Form.all, derives_cat_iff, derives_token_iff] at derives
  obtain ⟨_, rfl, _, ⟨parenthesized, condition, statement, derived, rfl⟩, rfl⟩ := derives
  have fits : Rule.statement.Fits (Kind.whileWord :: parenthesized ++ statement) rest := fit
  have last : Rule.statement.Fits statement rest := by
    refine fits.last ⟨rfl, rfl⟩ fun word derives => ?_
    have loop : Derives Rule.statement.form ([Kind.whileWord] ++ (parenthesized ++ word)) :=
      .right (.right (.left (.cat (.token .whileWord) (.cat condition derives))))
    exact .rule loop
  have opened := (complete.rule .parExpression 38 (by decide)).leaves parenthesized (statement ++ rest) condition
    (.inl rfl) (by simp at short ⊢; omega)
  have behind := (complete.rule .statement 39 (by decide)).leaves statement rest derived last
    (by simp at short ⊢; omega)
  have same : [Kind.whileWord] ++ (parenthesized ++ statement) ++ rest =
      .whileWord :: (parenthesized ++ (statement ++ rest)) := by simp
  rw [same]
  exact .next .bump .bump (.next (complete.sound.rule _ _) opened behind)

private theorem Level.Complete.forLoop (complete : level.Complete limit room) :
    Accepts limit room ((Step.all [.bump, .expect .leftParen, .call .forControl 42, .expect .rightParen,
      .call .statement 43]).run limit level)
      (.all [.token .forWord, .token .leftParen, .rule .forControl, .token .rightParen, .rule .statement])
      Rule.statement.Fits := by
  refine ⟨sound_run limit complete.sound _, fun word rest derives fit short => ?_⟩
  simp only [Form.all, derives_cat_iff, derives_token_iff] at derives
  obtain ⟨_, rfl, _, ⟨_, rfl, _, ⟨control, controlled, _, ⟨_, rfl, statement, derived, rfl⟩, rfl⟩, rfl⟩, rfl⟩ := derives
  have fits : Rule.statement.Fits
      (Kind.forWord :: Kind.leftParen :: (control ++ [Kind.rightParen]) ++ statement) rest := by simpa using fit
  have last : Rule.statement.Fits statement rest := by
    refine fits.last ⟨rfl, rfl⟩ fun word derives => ?_
    have loop : Derives Rule.statement.form
        ([Kind.forWord] ++ ([Kind.leftParen] ++ (control ++ ([Kind.rightParen] ++ word)))) :=
      .right (.right (.right (.right (.left (.cat (.token .forWord) (.cat (.token .leftParen)
        (.cat controlled (.cat (.token .rightParen) derives))))))))
    simpa using Derives.rule loop
  have inside := (complete.rule .forControl 42 (by decide)).leaves control (.rightParen :: (statement ++ rest))
    controlled (.inl rfl) (by simp at short ⊢; omega)
  have behind := (complete.rule .statement 43 (by decide)).leaves statement rest derived last
    (by simp at short ⊢; omega)
  have same : [Kind.forWord] ++ ([Kind.leftParen] ++ (control ++ ([Kind.rightParen] ++ statement))) ++ rest =
      .forWord :: .leftParen :: (control ++ .rightParen :: (statement ++ rest)) := by simp
  rw [same]
  exact .next .bump .bump (.next (.expect _) .expect (.next (complete.sound.rule _ _) inside
    (.next (.expect _) .expect behind)))

theorem Level.Complete.statement (complete : level.Complete limit room) :
    Accepts limit room (Rule.statement.body.run limit level) Rule.statement.form Rule.statement.Fits := by
  have body : Accepts limit room ((Step.call .block 34).run limit level) (.rule .block) (before fun _ => true) :=
    complete.call
  refine .chooseFirst body.anywhere (.chooseFirst complete.branches (.chooseFirst complete.whileLoop (.chooseFirst ?_
    (.chooseFirst complete.forLoop (.chooseFirst ?_ (.chooseFirst ?_ (.chooseFirst ?_ (.chooseFirst .bump ?_))))))))
  · exact .anywhere (.next .bump (.next complete.call (.next .expect (.next complete.call .expect))))
  · exact .anywhere (.next .bump (.next (.chooseShort complete.whole .done) .expect))
  · exact .anywhere (.next .bump .expect)
  · exact .anywhere (.next .bump .expect)
  · exact .anywhere (.next complete.whole .expect)

theorem Level.Complete.creator (complete : level.Complete limit room) :
    Accepts limit room (Rule.creator.body.run limit level) Rule.creator.form Rule.creator.Fits := by
  refine ⟨sound_run limit complete.sound _, fun word rest derives fit short => ?_⟩
  obtain ⟨name, named, tail, ended, rfl⟩ := derives_cat_iff.mp derives
  have typed : Accepts limit room (Step.typeName.run limit level) .typeName
      (before (Form.any [.rule .arguments, .all [.bracket, .many .bracket]]).starts) := accepts_typeName rfl
  have brackets : Accepts limit room ((Step.loop (.on .leftBracket) (.all [.bump,
      .perhaps (.not (.on .rightBracket)) .expression, .expect .rightBracket])).run limit level) (.many .bracket)
      (before (· != .leftBracket)) :=
    .loopShort (.next .bump (.next (.chooseShort complete.whole .done) .expect))
  rw [List.append_assoc] at short ⊢
  have fewer : (tail ++ rest).length < limit := by
    simp at short ⊢
    omega
  refine .next typed.sound (typed.leaves name (tail ++ rest) named (ended.front rfl rest) short) ?_
  rcases derives_alt_iff.mp ended with called | indexed
  · have opened : current (tail ++ rest) = .leftParen := beq_iff_eq.mp (called.front rfl rest)
    exact .choose_no (by simp [Look.on, opened])
      ((complete.rule .arguments 87 (by decide)).leaves tail rest called (.inl rfl) fewer)
  · obtain ⟨index, first, others, indexes, rfl⟩ := derives_cat_iff.mp indexed
    have absorbs : Rule.creator.Absorbs (name ++ (index ++ others)) := by
      intro more extension
      have last : Derives .bracket more := by
        obtain ⟨_, opened, _, inner, rfl⟩ := derives_cat_iff.mp extension
        obtain ⟨expression, derived, _, closed, rfl⟩ := derives_cat_iff.mp inner
        exact .cat opened (.cat (.left derived) closed)
      have longer : Derives Rule.creator.form (name ++ (index ++ (others ++ more))) :=
        .cat named (.right (.cat first (indexes.many_append last.once)))
      simpa using Derives.rule longer
    have stopped : Rule.creator.follows (current rest) = true := fit.resolve_right fun whole => whole absorbs
    have opened : ∀ kind, (Form.all [.bracket, .many .bracket]).starts kind = true → (kind == .leftBracket) = true := by
      decide
    exact .choose_yes (opened _ (indexed.front rfl rest))
      (brackets.leaves (index ++ others) rest (.more first indexes) stopped fewer)

theorem Level.Complete.primary (complete : level.Complete limit room) :
    Accepts limit room (Rule.primary.body.run limit level) Rule.primary.form Rule.primary.Fits := by
  have literal : Accepts limit room ((Step.call .literal 85).run limit level) (.rule .literal) (before fun _ => true) :=
    complete.call
  have created : Accepts limit room ((Step.next .bump (.call .creator 86)).run limit level)
      (.cat (.token .newWord) (.rule .creator)) Rule.primary.Fits := by
    refine ⟨sound_run limit complete.sound _, fun word rest derives fit short => ?_⟩
    obtain ⟨_, first, creator, derived, rfl⟩ := derives_cat_iff.mp derives
    obtain rfl := derives_token_iff.mp first
    have last : Rule.creator.Fits creator rest := fit.last ⟨rfl, rfl⟩ fun word derives =>
      .rule (.right (.right (.right (.left (.cat (.token .newWord) derives)))))
    exact .next .bump .bump ((complete.rule .creator 86 (by decide)).leaves creator rest derived last
      (Nat.lt_of_succ_lt short))
  refine .chooseFirst (.anywhere (.next .bump (.next complete.whole .expect))) (.chooseFirst .bump (.chooseFirst .bump
    (.chooseFirst created (.only literal.anywhere (.fail _) ?_))))
  exact fun word rest derives _ => derives.front rfl rest

private theorem Level.Complete.plainBody (complete : level.Complete limit room) {rule : Rule}
    (inner : rule ≠ .compilationUnit)
    (plain : rule.extension = .empty) :
    Accepts limit room (rule.body.run limit level) rule.form (before rule.follows) := by
  cases rule with
  | compilationUnit => contradiction
  | statement | primary | creator => cases plain
  | typeDeclaration => exact .chooseShort .bump (.next complete.modifiers complete.call)
  | modifier => exact .bump
  | classDeclaration =>
    exact .next .expect (.next .expect (.next (.chooseShort (.next .bump complete.call) .done) complete.call))
  | classBody => exact .next .expect (.next (.loopShort complete.call) .expect)
  | classBodyDeclaration =>
    refine .chooseShort .bump (.next complete.modifiers (.chooseFirst complete.call ?_))
    refine .choose complete.call complete.members ?_ ?_
    · intro word rest constructor _
      obtain ⟨more, rfl⟩ := constructor_cases constructor
      rfl
    · intro word rest member _
      exact not_pair_member member
  | constructorDeclaration => exact .next .expect (.next complete.call complete.call)
  | methodDeclaration =>
    exact .next (.chooseShort .bump complete.call)
      (.next .expect (.next complete.call (.chooseShort .bump complete.call)))
  | fieldDeclaration =>
    exact .next complete.call (.next complete.call (.next (.loopShort (.next .bump complete.call)) .expect))
  | formalParameters =>
    exact .next .expect
      (.next (.chooseShort (.next complete.call (.loopShort (.next .bump complete.call))) .done) .expect)
  | formalParameter => exact .next complete.final (.next complete.call .expect)
  | type => exact .next (accepts_typeName rfl) (.loopShort (.next .bump .expect))
  | variableDeclarator => exact .next .expect (.chooseShort (.next .bump complete.whole) .done)
  | block => exact .next .expect (.next (.loopShort complete.call) .expect)
  | blockStatement =>
    refine .choose (.next complete.call .expect) (.chooseFirst complete.call complete.call) ?_ ?_
    · intro word rest declared _
      obtain ⟨declaration, derived, ended, -, rfl⟩ := derives_cat_iff.mp declared
      rw [List.append_assoc]
      exact localVariable_declaration derived
    · intro word rest derives _
      rcases derives_alt_iff.mp derives with nested | statement
      · have first : current (word ++ rest) = .classWord := beq_iff_eq.mp (nested.front rfl rest)
        exact not_localVariable (by rw [first]; rfl) (by simp [first])
      · exact not_localVariable_statement statement
  | localVariableDeclaration =>
    exact .next complete.final (.next complete.call (.next complete.call (.loopShort (.next .bump complete.call))))
  | parExpression => exact .next .expect (.next complete.whole .expect)
  | forControl =>
    have seen : ∀ kind : Kind, (Form.all [.token .semicolon, .optional .expression, .token .semicolon,
        .optional (.rule .expressionList)]).leads Rule.forControl.follows kind = true → (kind == .semicolon) = true := by
      decide
    refine .next (complete.initial.weaken fun _ _ _ fit => seen _ fit) ?_
    exact .next .expect (.next (.chooseShort complete.whole .done) (.next .expect (.chooseShort complete.call .done)))
  | expressionList => exact .next complete.whole (.loopShort (.next .bump complete.whole))
  | literal => exact .bump
  | arguments => exact .next .expect (.next (.chooseShort complete.call .done) .expect)

theorem Level.Complete.body (complete : level.Complete limit room) {rule : Rule} (inner : rule ≠ .compilationUnit) :
    Accepts limit room (rule.body.run limit level) rule.form rule.Fits := by
  by_cases plain : rule.extension = .empty
  · refine (complete.plainBody inner plain).weaken fun word rest derives fit => fit.resolve_right fun whole => whole ?_
    intro more extension
    rw [plain] at extension
    rw [derives_empty_iff.mp extension, List.append_nil]
    exact .rule derives
  · cases rule with
    | statement => exact complete.statement
    | primary => exact complete.primary
    | creator => exact complete.creator
    | _ => exact absurd rfl plain

/-- A primary takes the indexes behind it that belong to it. -/
private theorem split_indexes {primary trailers tail : List Kind} (derived : Derives (.rule .primary) primary)
    (derives : Derives (.many trailerForm) trailers) (flat : current tail ≠ .leftBracket) :
    ∃ longer more, primary ++ trailers = longer ++ more ∧ Derives (.rule .primary) longer ∧
      Derives (.many trailerForm) more ∧ Rule.primary.Fits longer (more ++ tail) := by
  induction derives using Derives.manyInduction generalizing primary with
  | none => exact ⟨primary, [], rfl, derived, .none, .inl (by simpa [Rule.follows] using flat)⟩
  | more front back trailer rest ih =>
    have stays (other : current (front ++ back ++ tail) ≠ .leftBracket) :
        Rule.primary.Fits primary (front ++ back ++ tail) := .inl (by simpa [Rule.follows] using other)
    by_cases absorbs : Rule.primary.Absorbs primary
    · rcases trailer_cases trailer with ⟨more, -, rfl⟩ | ⟨index, inner, rfl⟩ | arguments | ⟨kind, step, rfl⟩
      · exact ⟨primary, _, rfl, derived, .more trailer rest, stays (by simp [current])⟩
      · obtain ⟨longer, more, same, others⟩ := ih (absorbs _ (.cat (.token _) (.cat inner (.token _))))
        exact ⟨longer, more, by simpa using same, others⟩
      · have opened : current (front ++ (back ++ tail)) = .leftParen := beq_iff_eq.mp (arguments.front rfl _)
        exact ⟨primary, _, rfl, derived, .more trailer rest, stays (by simp [opened])⟩
      · have different : kind ≠ .leftBracket := by
          rintro rfl
          cases step
        exact ⟨primary, _, rfl, derived, .more trailer rest, stays different⟩
    · exact ⟨primary, front ++ back, rfl, derived, .more trailer rest, .inr absorbs⟩

theorem Level.Complete.operands (complete : level.Complete limit room) :
    TakesOperands limit (room + 1) (operand level) := by
  intro operand segments rest whole derived stop short
  unfold MiniJava.operand
  cases whole with
  | @signed operator word unary inner =>
    refine ⟨[], .none, by simp, ?_⟩
    have taken := complete.expression unaryPower word segments rest inner derived stop (Nat.lt_of_succ_lt short)
    rw [remaining_unaryPower] at taken
    have start : (current (operator :: word ++ (Segment.words segments ++ rest))).isUnary = true := unary
    rw [if_pos start]
    exact .enclosed (.inl rfl) (.next .bump .bump taken)
  | @bare primary trailers first others =>
    have flat : current (Segment.words segments ++ rest) ≠ .leftBracket :=
      Segment.current_words (· ≠ .leftBracket) derived (by decide)
        fun same => by simp [same, Kind.continues] at stop
    obtain ⟨longer, more, same, given, later, fit⟩ := split_indexes first others flat
    have plain : ∀ kind : Kind, (Form.rule .primary).starts kind = true → kind.isUnary = false := by decide
    have start := plain _ (given.front rfl (more ++ (Segment.words segments ++ rest)))
    rw [same, List.append_assoc] at short ⊢
    refine ⟨more, later, ?_, ?_⟩
    · have := List.length_pos_iff.mpr (given.ne_nil rfl)
      simp
      omega
    · rw [if_neg (by simp [start])]
      exact .enclosed (.inl rfl) ((complete.rule .primary 62 (by decide)).leaves longer _ given fit short)

end

/-- At every depth all words are taken that there is room for. -/
theorem complete_level (limit room : Nat) : (level limit room).Complete limit room := by
  induction room with
  | zero =>
    exact ⟨sound_level limit 0, fun rule id _ => ⟨.fail _, fun _ _ _ _ _ => .tooDeep _⟩,
      fun _ _ _ _ _ _ _ _ => .tooDeep _⟩
  | succ room inner =>
    have rules : ∀ rule id, rule ≠ .compilationUnit → Accepts limit (room + 1)
        (Parser.enclosed rule.name id (rule.body.run limit (level limit room))) (.rule rule) rule.Fits :=
      fun rule id outer => .mono (fun _ => derives_rule_iff.mp) (.enclosed (.inr ⟨rule, rfl⟩) (inner.body outer))
    have sound := sound_level limit (room + 1)
    have arguments : ∀ id, Accepts limit (room + 1) _ (.rule .arguments) _ :=
      fun id => (rules .arguments id (by decide)).weaken fun _ _ _ fit => .inl fit
    have taken := takesRows sound.rule (sound_operand inner.sound) arguments inner.operands limit (Nat.le_refl limit)
    exact ⟨sound, rules, taken.1⟩

end Verbatim.MiniJava
