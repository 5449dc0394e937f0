import Verbatim.Proofs.MiniJavaAcceptance

/-! Operators are nested without a limit. A right operand is parsed with the room that the operator had, and
the nodes around operators take none, so a chain of assignments is accepted whatever its length, with all of
its nodes open at its last operand. -/

namespace Verbatim.MiniJava

open RuleEvent

/-- So many names, each of which is assigned what follows it, and a last one. -/
def assignments : Nat → List Kind
  | 0 => [.identifier]
  | count + 1 => .identifier :: .assign :: assignments count

def nameMarks : List Mark := [.enter expressionName 61, .enter Rule.primary.name 62, .take, .exit, .exit]

def assignmentMarks : Nat → List Mark
  | 0 => nameMarks
  | count + 1 => .enter expressionName 70 :: (nameMarks ++ .take :: (assignmentMarks count ++ [.exit]))

private theorem level_rule (limit room : Nat) (rule : Rule) (id : RuleId) :
    (level limit (room + 1)).rule rule id = Parser.enclosed rule.name id (rule.body.run limit (level limit room)) :=
  rfl

/-- However little room there is, it suffices for a chain of any length. -/
private theorem expression_assignments {limit room power : Nat} (count fuel : Nat) (weak : power ≤ 2)
    (rest : List Kind) :
    expressionFrom (level limit (room + 2)).rule (operand (level limit (room + 1))) (2 * count + fuel + 2) power
      (assignments count ++ .semicolon :: rest) = ⟨assignmentMarks count, .semicolon :: rest, none⟩ := by
  have named (ahead : List Kind) :
      operand (level limit (room + 1)) (.identifier :: ahead) = ⟨nameMarks, ahead, none⟩ := rfl
  have stops (power : Nat) (rule : Rule → RuleId → Parser) (expression : Nat → Parser) :
      continuation? rule expression power .semicolon = none := continuation?_of_stop rfl
  induction count generalizing power with
  | zero =>
    rw [assignments, assignmentMarks, expressionFrom]
    simp only [List.singleton_append, named]
    rw [operatorsFrom]
    simp only [current, List.headD_cons, stops]
  | succ count ih =>
    have value := ih (Nat.le_succ 1)
    have binds (rule : Rule → RuleId → Parser) (expression : Nat → Parser) :
        continuation? rule expression power .assign = some (70, Parser.next Parser.bump (expression 1)) := by
      simp [continuation?, binding?, weak]
    have fuels : 2 * (count + 1) + fuel + 2 = 2 * count + fuel + 2 + 2 := by omega
    rw [fuels, assignments, assignmentMarks, expressionFrom]
    simp only [List.cons_append, named]
    rw [operatorsFrom]
    simp only [current, List.headD_cons, binds, Parser.next, Parser.bump, value]
    rw [operatorsFrom]
    simp only [current, List.headD_cons, stops, List.cons_append, List.nil_append]

def fieldMarks : List Mark :=
  [.enter Rule.compilationUnit.name 1, .enter Rule.typeDeclaration.name 2, .enter Rule.classDeclaration.name 4, .take,
    .take, .enter Rule.classBody.name 6, .take, .enter Rule.classBodyDeclaration.name 7,
    .enter Rule.fieldDeclaration.name 12, .enter Rule.type.name 18, .take, .exit,
    .enter Rule.variableDeclarator.name 19, .take, .take]

private theorem parse_field {limit room : Nat} {ahead : List Kind} {marks : List Mark}
    (value : (level (limit + 2) room).expression 0 ahead = ⟨marks, [.semicolon, .rightBrace, .eof], none⟩) :
    (level (limit + 2) (room + 7)).rule .compilationUnit 1
        (.classWord :: .identifier :: .leftBrace :: .intWord :: .identifier :: .assign :: ahead) =
      ⟨fieldMarks ++ (marks ++ [.exit, .take, .exit, .exit, .take, .exit, .exit, .exit, .take, .exit]), [],
        none⟩ := by
  have declarator : (level (limit + 2) (room + 1)).rule .variableDeclarator 19 (.identifier :: .assign :: ahead) =
      ⟨.enter Rule.variableDeclarator.name 19 :: .take :: .take :: (marks ++ [.exit]),
        [.semicolon, .rightBrace, .eof], none⟩ := by
    rw [level_rule]
    simp [Rule.body, Step.perhaps, Step.run, Parser.enclosed, Parser.next, Parser.expect, Parser.bump, Look.on,
      current, value]
  have type : (level (limit + 2) (room + 1)).rule .type 18 (.intWord :: .identifier :: .assign :: ahead) =
      ⟨[.enter Rule.type.name 18, .take, .exit], .identifier :: .assign :: ahead, none⟩ := by with_unfolding_all rfl
  have field : (level (limit + 2) (room + 2)).rule .fieldDeclaration 12
      (.intWord :: .identifier :: .assign :: ahead) =
      ⟨fieldMarks.drop 8 ++ (marks ++ [.exit, .take, .exit]), [.rightBrace, .eof], none⟩ := by
    rw [level_rule]
    simp [Rule.body, Step.all, Step.commaMore, Step.run, Parser.enclosed, Parser.next, Parser.expect, Parser.bump,
      Parser.loop, Parser.done, Look.on, current, type, declarator, fieldMarks]
  have member : (level (limit + 2) (room + 3)).rule .classBodyDeclaration 7
      (.intWord :: .identifier :: .assign :: ahead) =
      ⟨fieldMarks.drop 7 ++ (marks ++ [.exit, .take, .exit, .exit]), [.rightBrace, .eof], none⟩ := by
    rw [level_rule]
    simp [Rule.body, Step.select, Step.run, Parser.enclosed, Parser.next, Parser.loop, Parser.done, Look.on,
      Look.among, Look.pair, Look.method, afterType?, Kind.isPrimitive, Kind.isModifier, skipBrackets, current, field,
      fieldMarks]
  have body : (level (limit + 2) (room + 4)).rule .classBody 6
      (.leftBrace :: .intWord :: .identifier :: .assign :: ahead) =
      ⟨fieldMarks.drop 5 ++ (marks ++ [.exit, .take, .exit, .exit, .take, .exit]), [.eof], none⟩ := by
    rw [level_rule]
    simp [Rule.body, Step.all, Step.run, Parser.enclosed, Parser.next, Parser.expect, Parser.bump, Parser.loop,
      Parser.done, Look.inside, current, member, fieldMarks]
  have declared : (level (limit + 2) (room + 5)).rule .classDeclaration 4
      (.classWord :: .identifier :: .leftBrace :: .intWord :: .identifier :: .assign :: ahead) =
      ⟨fieldMarks.drop 2 ++ (marks ++ [.exit, .take, .exit, .exit, .take, .exit, .exit]), [.eof], none⟩ := by
    rw [level_rule]
    simp [Rule.body, Step.all, Step.perhaps, Step.run, Parser.enclosed, Parser.next, Parser.expect, Parser.bump,
      Parser.done, Look.on, current, body, fieldMarks]
  have only : (level (limit + 2) (room + 6)).rule .typeDeclaration 2
      (.classWord :: .identifier :: .leftBrace :: .intWord :: .identifier :: .assign :: ahead) =
      ⟨fieldMarks.drop 1 ++ (marks ++ [.exit, .take, .exit, .exit, .take, .exit, .exit, .exit]), [.eof], none⟩ := by
    rw [level_rule]
    simp [Rule.body, Step.run, Parser.enclosed, Parser.next, Parser.loop, Parser.done, Look.on, Look.among,
      Kind.isModifier, current, declared, fieldMarks]
  rw [level_rule]
  simp [Rule.body, Step.all, Step.run, Parser.enclosed, Parser.next, Parser.bump, Parser.loop, Parser.done, Look.not,
    Look.on, current, only, fieldMarks]

def chainKinds (count : Nat) : List Kind :=
  .classWord :: .identifier :: .leftBrace :: .intWord :: .identifier :: .assign ::
    (assignments count ++ [.semicolon, .rightBrace, .eof])

private theorem length_assignments (count : Nat) : (assignments count).length = 2 * count + 1 := by
  induction count with
  | zero => rfl
  | succ count ih =>
    rw [assignments, List.length_cons, List.length_cons, ih]
    omega

private theorem parseKinds_chain (count : Nat) : ∃ back, parseKinds (chainKinds count) =
    ⟨fieldMarks ++ (assignmentMarks count ++ back), [], none⟩ := by
  have fuels : (chainKinds count).length + 1 = 2 * count + 9 + 2 := by simp [chainKinds, length_assignments]
  have value := @expression_assignments (2 * count + 9 + 2) 247 0 count 9 (Nat.zero_le 2) [.rightBrace, .eof]
  rw [parseKinds, fuels]
  exact ⟨_, parse_field value⟩

private theorem prefix_number {front marks : List Mark} (first : front <+: marks) (indexes : List Nat) :
    number indexes front <+: number indexes marks := by
  obtain ⟨rest, rfl⟩ := first
  rw [number_append]
  exact List.prefix_append _ _

/-- Each operator of the chain leaves another node open around its right operand. -/
private theorem climb_chain (count : Nat) :
    ∃ front, front <+: fieldMarks ++ assignmentMarks count ∧ climb 0 front = some (count + 9) := by
  have deeper (base : Nat) :
      ∃ front, front <+: assignmentMarks count ∧ climb base front = some (count + base + 2) := by
    induction count generalizing base with
    | zero => exact ⟨[.enter expressionName 61, .enter Rule.primary.name 62], ⟨_, rfl⟩, by simp [climb]⟩
    | succ count ih =>
      obtain ⟨front, ⟨rest, same⟩, climbs⟩ := ih (base + 1)
      refine ⟨.enter expressionName 70 :: (nameMarks ++ .take :: front), ⟨rest ++ [.exit], ?_⟩, ?_⟩
      · simp [assignmentMarks, ← same]
      · simp [nameMarks, climb, climbs]
        omega
  obtain ⟨front, first, climbs⟩ := deeper 7
  exact ⟨fieldMarks ++ front, (List.prefix_append_right_inj _).mpr first, climbs⟩

def chained : Nat → List Char
  | 0 => "a;\x7d".toList
  | count + 1 => 'a' :: '=' :: chained count

def chainedField (count : Nat) : String := String.ofList ("class A\x7bint a=".toList ++ chained count)

private theorem chained_cons (count : Nat) : ∃ rest, chained count = 'a' :: rest := by
  cases count with
  | zero => exact ⟨_, rfl⟩
  | succ count => exact ⟨_, rfl⟩

private theorem frontToken_chained (rest : List Char) :
    frontToken ('a' :: '=' :: 'a' :: rest) = (.identifier, 1) ∧ frontToken ('=' :: 'a' :: rest) = (.assign, 1) := by
  constructor <;> with_unfolding_all rfl

private theorem lexFrom_chained (count : Nat) (start : Position) :
    (lexFrom (2 * count + 9) start (chained count)).map Lexeme.kind =
      assignments count ++ [.semicolon, .rightBrace, .eof] := by
  induction count generalizing start with
  | zero => with_unfolding_all rfl
  | succ count ih =>
    obtain ⟨rest, same⟩ := chained_cons count
    obtain ⟨named, assigned⟩ := frontToken_chained rest
    have kinds := ih ((start.advance ['a']).advance ['='])
    have fuels : 2 * (count + 1) + 9 = 2 * count + 9 + 1 + 1 := by omega
    rw [same] at kinds
    rw [fuels, chained, same, assignments, lexFrom, named]
    simp only [List.drop_succ_cons, List.drop_zero]
    rw [lexFrom, assigned, List.cons_append, List.cons_append, ← kinds]
    rfl

private theorem length_chained (count : Nat) : (chained count).length = 2 * count + 3 := by
  induction count with
  | zero => rfl
  | succ count ih =>
    rw [chained, List.length_cons, List.length_cons, ih]
    omega

private theorem shown_assignments (count : Nat) : ∀ kind ∈ assignments count, (!kind.channel.isHidden) = true := by
  induction count with
  | zero => exact List.forall_mem_singleton.mpr rfl
  | succ count ih => exact List.forall_mem_cons.mpr ⟨rfl, List.forall_mem_cons.mpr ⟨rfl, ih⟩⟩

private theorem kinds_chainedField (count : Nat) : visibleKinds (lex (chainedField count)) = chainKinds count := by
  have text : (chainedField count).toList = "class A\x7bint a=".toList ++ chained count := String.toList_ofList
  have size : (chainedField count).length = 2 * count + 9 + 8 := by
    have front : "class A\x7bint a=".toList.length = 14 := by decide
    rw [← String.length_toList, text, List.length_append, length_chained, front]
    omega
  obtain ⟨rest, same⟩ := chained_cons count
  obtain ⟨start, front⟩ : ∃ start,
      (lexFrom (2 * count + 9 + 8) .start ("class A\x7bint a=".toList ++ 'a' :: rest)).map Lexeme.kind =
        [Kind.classWord, .whitespace, .identifier, .leftBrace, .intWord, .whitespace, .identifier, .assign] ++
          (lexFrom (2 * count + 9) start ('a' :: rest)).map Lexeme.kind := ⟨_, by with_unfolding_all rfl⟩
  rw [visibleKinds_eq, lex, size, text, same, front, ← same, lexFrom_chained, List.filter_append, List.filter_append,
    List.filter_eq_self.mpr (shown_assignments count)]
  rfl

private theorem chain_accepted (count : Nat) : (∀ diagnostic, .error diagnostic ∉ (parse (chainedField count)).events) ∧
    ∃ front, front <+: (parse (chainedField count)).events ∧ enters front = exits front + (count + 9) := by
  have parsed : (parse (chainedField count)).events = events (lex (chainedField count)) := by rw [parse]
  obtain ⟨back, outcome⟩ := parseKinds_chain count
  rw [← kinds_chainedField] at outcome
  rw [parsed, accepted_iff_succeeds, outcome, events_of_success outcome]
  obtain ⟨front, first, climbs⟩ := climb_chain count
  have inside : front <+: fieldMarks ++ (assignmentMarks count ++ back) := by
    rw [← List.append_assoc]
    exact first.trans (List.prefix_append _ back)
  have balance := exits_number climbs ((visible (lex (chainedField count))).map Prod.snd)
  exact ⟨rfl, _, prefix_number inside _, by omega⟩

/-- Rules are nested deeper than the limit in a source that is parsed without an error. -/
theorem chain_exceeds_limit :
    ¬∀ front, front <+: (parse (chainedField 248)).events → enters front ≤ exits front + depthLimit := by
  intro limited
  obtain ⟨-, front, first, deep⟩ := chain_accepted 248
  have bound := limited front first
  rw [depthLimit] at bound
  omega

end Verbatim.MiniJava
