import Verbatim.Proofs.MiniJavaGroups
import Verbatim.Proofs.MiniJavaRuns

/-! Parsing gets on, and so it ends. Whatever succeeds has taken a visible token, and the end of the source is taken
last, behind all declarations. So each round of a loop leaves fewer visible tokens than it found, there is exactly one
run over every source, and below every rule of a tree that is parsed without an error stands a visible token. -/

namespace Verbatim

namespace MiniJava

/-- From one cursor to the next, which stands at a visible token and has fewer of them to come, if nothing failed. -/
structure Gains (lexemes : List Lexeme) (cursor last : Cursor) (failure : Option Diagnostic) : Prop where
  stands : OnVisible lexemes last.position
  taken : failure = none → ∃ count, 0 < count ∧ Consumes lexemes cursor last count
  fewer : failure = none → (seenFrom lexemes last.position).length < (seenFrom lexemes cursor.position).length

/-- A source that was parsed to its end, which is taken where the loop over its declarations has stopped. -/
structure Finishes (lexemes : List Lexeme) (id : RuleId) (cursor last : Cursor) : Prop where
  before : ∃ stop behind, Runs lexemes (.step (.loop (.not (.on .eof)) (.call .typeDeclaration 2)))
      (cursor.enter Rule.compilationUnit.name id) (stop, none) ∧
    OnVisible lexemes stop.position ∧ Routine.kindAt lexemes stop.position = .eof ∧
    Routine.bump lexemes stop = (behind, none) ∧ last = behind.leave none
  whole : last.position = lexemes.length
  taken : 0 < (seenFrom lexemes cursor.position).length
  consumes : Consumes lexemes cursor last (seenFrom lexemes cursor.position).length

/-- How parsing gets on in some tokens, from wherever a cursor stands at a visible one. -/
structure Progress (lexemes : List Lexeme) : Prop where
  rule : ∀ rule id cursor last failure, rule ≠ .compilationUnit → OnVisible lexemes cursor.position →
    rule.given (Routine.ahead lexemes cursor.position) → Runs lexemes (.call rule id) cursor (last, failure) →
      Gains lexemes cursor last failure
  expression : ∀ power cursor last failure, OnVisible lexemes cursor.position →
    Runs lexemes (.expression power) cursor (last, failure) → Gains lexemes cursor last failure
  qualifiedName : ∀ cursor last failure, OnVisible lexemes cursor.position →
    Runs lexemes (.step .qualifiedName) cursor (last, failure) → Gains lexemes cursor last failure
  unit : ∀ id cursor last failure, OnVisible lexemes cursor.position →
    Runs lexemes (.call .compilationUnit id) cursor (last, failure) →
      (failure = none → Finishes lexemes id cursor last) ∧ (failure ≠ none → OnVisible lexemes last.position)
  /-- A round of a loop in the body of a rule. -/
  loops : ∀ (rule : Rule) test body cursor last failure, (test, body) ∈ rule.body.loops →
    OnVisible lexemes cursor.position → test (Routine.ahead lexemes cursor.position) = true →
      Runs lexemes (.step body) cursor (last, failure) → Gains lexemes cursor last failure
  /-- A round of the loop over operators. -/
  operators : ∀ power start id more (cursor last : Cursor) failure, OnVisible lexemes cursor.position →
    Task.continuation? power (Routine.kindAt lexemes cursor.position) = some (id, more) →
      Runs lexemes more (cursor.precede start id) (last, failure) → Gains lexemes (cursor.precede start id) last failure
  /-- A round of a loop that looks ahead leaves fewer tokens to look at, and the test has ended the loop. -/
  pairs : ∀ position first second, second ≠ .eof → ∀ offset,
    (Routine.nth lexemes position offset = first → Routine.nth lexemes position (offset + 1) = second →
      ((seenFrom lexemes position).drop (offset + 2)).length < ((seenFrom lexemes position).drop offset).length) ∧
    let last := Routine.pairsEnd lexemes position first second lexemes.length offset
    ¬(Routine.nth lexemes position last = first ∧ Routine.nth lexemes position (last + 1) = second)
  /-- Stepping over hidden tokens ends at a visible one, and passes none. -/
  hidden : ∀ position < lexemes.length, OnVisible lexemes (Routine.visibleFrom lexemes position) ∧
    seenFrom lexemes (Routine.visibleFrom lexemes position) = seenFrom lexemes position
  /-- There is a run, and it does what the routines do. -/
  runs : ∀ cursor result, OnVisible lexemes cursor.position → cursor.depth ≤ depthLimit →
    (∀ rule id, rule.given (Routine.ahead lexemes cursor.position) →
      (Runs lexemes (.call rule id) cursor result ↔ (callsAt lexemes cursor.depth).rule rule id cursor = result)) ∧
    ∀ power, Runs lexemes (.expression power) cursor result ↔
      (callsAt lexemes cursor.depth).expression power cursor = result

section

variable {lexemes : List Lexeme} {cursor last : Cursor} {failure : Option Diagnostic} {task : Task}
  {given : List Kind → Prop}

private theorem Runs.gains (ended : Ended lexemes) (runs : Runs lexemes task cursor (last, failure))
    (careful : task.Careful given) (takes : task.takes = true) (fits : ∀ start, task.Fits start)
    (stands : OnVisible lexemes cursor.position) (holds : given (kindsOf (seenFrom lexemes cursor.position))) :
    Gains lexemes cursor last failure := by
  have passes := runs.passes ended careful stands holds
  refine ⟨passes.stands, ?_, ?_⟩
  · rintro rfl
    obtain ⟨count, advances, taken⟩ := passes.count (fits _) stands.rests
    exact ⟨count, taken takes, advances.consumes⟩
  · rintro rfl
    have fewer := runs.fewer ended careful fits stands holds
    rwa [takes] at fewer

/-- Where the end of the source stands in front, it is the only token left, and it is the last one. -/
private theorem bump_of_eof (ended : Ended lexemes) (stands : OnVisible lexemes cursor.position)
    (here : Routine.kindAt lexemes cursor.position = .eof) (bumped : Routine.bump lexemes cursor = (last, none)) :
    last.position = lexemes.length ∧ (seenFrom lexemes cursor.position).length = 1 := by
  obtain ⟨front, finish, rfl, finished, inner⟩ := ended
  have inside := stands.inside
  have least : cursor.position = front.length := by
    by_contra other
    have early : cursor.position < front.length := by
      rw [List.length_append, List.length_singleton] at inside
      omega
    rw [Routine.kindAt, List.getElem?_append_left early, List.getElem?_eq_getElem early] at here
    exact inner _ (List.getElem_mem early) here
  have past : (front ++ [finish]).drop (front.length + 1) = [] := by simp
  have rest : (front ++ [finish]).drop front.length = [finish] := by simp
  constructor
  · rw [Routine.bump, if_pos inside] at bumped
    obtain rfl := congrArg Prod.fst bumped
    dsimp only
    rw [least, Routine.visibleFrom, past, List.length_append]
    rfl
  · rw [least, seenFrom, rest, shown_cons, finished]
    rfl

private theorem declarations_pass (ended : Ended lexemes) {id : RuleId} (stands : OnVisible lexemes cursor.position)
    {result : Cursor × Option Diagnostic}
    (declarations : Runs lexemes (.step (.loop (.not (.on .eof)) (.call .typeDeclaration 2)))
      (cursor.enter Rule.compilationUnit.name id) result) :
    Passes lexemes anywhere (.step (.loop (.not (.on .eof)) (.call .typeDeclaration 2)))
      (cursor.enter Rule.compilationUnit.name id) result :=
  declarations.passes ended (careful_declarations anywhere) stands trivial

/-- What the declarations have left where the loop over them stops is the end of the source alone. -/
private theorem finishes_of_declarations (ended : Ended lexemes) {id : RuleId}
    (stands : OnVisible lexemes cursor.position)
    {stop : Cursor} (declarations : Runs lexemes (.step (.loop (.not (.on .eof)) (.call .typeDeclaration 2)))
      (cursor.enter Rule.compilationUnit.name id) (stop, none)) :
    ∃ behind, Routine.bump lexemes stop = (behind, none) ∧ Finishes lexemes id cursor (behind.leave none) ∧
      ∃ outline : Outline, (behind.leave none).events = cursor.events ++ outline.events ∧
        outline.Every (Filled lexemes) := by
  have passes := declarations_pass ended stands declarations
  have stops : Look.not (.on .eof) (kindsOf (seenFrom lexemes stop.position)) = false := passes.known rfl
  have here : Routine.kindAt lexemes stop.position = .eof := by
    rw [kindAt_eq lexemes passes.stands.rests]
    simpa [Look.not, Look.on] using stops
  obtain ⟨behind, bumped, further⟩ := Advances.bump passes.stands
  obtain ⟨whole, single⟩ := bump_of_eof ended passes.stands here bumped
  obtain ⟨count, advances, -⟩ := passes.count trivial stands.rests
  have total : count + 1 = (seenFrom lexemes cursor.position).length := by
    have left := congrArg List.length advances.consumes.left
    have enough := advances.consumes.enough
    rw [single, List.length_drop, Cursor.enter_position] at left
    rw [Cursor.enter_position] at enough
    omega
  have within := advances.trans further
  have consumes := (within.enclosed stands.rests (Nat.succ_pos count)).consumes
  rw [total] at consumes
  refine ⟨behind, bumped, ⟨?_, whole, total ▸ Nat.succ_pos count, consumes⟩,
    within.described_enclosed (Nat.succ_pos count)⟩
  exact ⟨stop, behind, declarations, passes.stands, here, bumped, rfl⟩

private theorem unit_cases (ended : Ended lexemes) {id : RuleId} (stands : OnVisible lexemes cursor.position)
    (runs : Runs lexemes (.call .compilationUnit id) cursor (last, failure)) :
    (failure ≠ none ∧ OnVisible lexemes last.position) ∨
      failure = none ∧ Finishes lexemes id cursor last ∧
        ∃ outline : Outline, last.events = cursor.events ++ outline.events ∧ outline.Every (Filled lexemes) := by
  cases runs with
  | full => exact .inl ⟨nofun, stands⟩
  | enclosed room inner =>
    have body : Runs lexemes (.step (.next (.loop (.not (.on .eof)) (.call .typeDeclaration 2)) .bump))
      (cursor.enter Rule.compilationUnit.name id) _ := inner
    cases body with
    | steps both =>
      cases both with
      | broken declarations => exact .inl ⟨nofun, (declarations_pass ended stands declarations).stands⟩
      | next declarations back =>
        obtain ⟨behind, bumped, finishes⟩ := finishes_of_declarations ended stands declarations
        cases (back.unique .bump).trans bumped
        exact .inr ⟨rfl, finishes⟩

private theorem progress (ended : Ended lexemes) : Progress lexemes := by
  constructor
  case rule =>
    intro rule id cursor last failure outer stands holds runs
    rw [ahead_eq lexemes stands.rests] at holds
    exact runs.gains ended (Task.careful_call outer id) (takes_body rule) (fun _ => trivial) stands holds
  case expression =>
    intro power cursor last failure stands runs
    have holds : anywhere (kindsOf (seenFrom lexemes cursor.position)) := trivial
    exact runs.gains ended trivial rfl (fun _ => trivial) stands holds
  case qualifiedName =>
    intro cursor last failure stands runs
    have holds : anywhere (kindsOf (seenFrom lexemes cursor.position)) := trivial
    exact runs.gains ended Step.careful_qualifiedName rfl (fun _ => trivial) stands holds
  case unit =>
    intro id cursor last failure stands runs
    obtain ⟨failed, still⟩ | ⟨rfl, finishes, -⟩ := unit_cases ended stands runs
    · exact ⟨fun succeeded => absurd succeeded failed, fun _ => still⟩
    · exact ⟨fun _ => finishes, nofun⟩
  case loops =>
    intro rule test body cursor last failure inside stands answer runs
    rw [ahead_eq lexemes stands.rests] at answer
    obtain ⟨takes, careful⟩ := careful_of_mem_loops inside
    exact runs.gains ended careful takes (fun _ => trivial) stands answer
  case operators =>
    intro power start id more cursor last failure stands found runs
    have continues := Task.continues found
    have here := (kindAt_eq lexemes stands.rests).symm
    exact runs.gains ended continues.careful continues.takes continues.fits stands here
  case pairs =>
    intro position first second inner offset
    refine ⟨fun _ behind => ?_, pairsEnd_stops lexemes position inner offset⟩
    have inside : offset + 1 < (seenFrom lexemes position).length := by
      by_contra past
      rw [nth_eq, List.drop_eq_nil_of_le (by rw [kindsOf, List.length_map]; omega)] at behind
      exact inner behind.symm
    rw [List.length_drop, List.length_drop]
    omega
  case hidden => exact fun position inside => ended.onVisible inside
  case runs =>
    intro cursor result stands depth
    refine ⟨fun rule id holds => ?_, fun power => runs_expression_iff ended stands depth power⟩
    rw [ahead_eq lexemes stands.rests] at holds
    exact runs_rule_iff ended stands depth holds

end

attribute [local irreducible] events

/-- The cursor in front of the first visible token of a source. -/
def begin (lexemes : List Lexeme) : Cursor := ⟨Routine.visibleFrom lexemes 0, 0, []⟩

theorem Ended.nonempty {lexemes : List Lexeme} (ended : Ended lexemes) : 0 < lexemes.length := by
  obtain ⟨front, last, rfl, -, -⟩ := ended
  simp

/-- There is one run over a source, and it notes the events of the parse. -/
theorem exists_run (source : String) : ∃ last failure,
    (∀ result, Runs (lex source) (.call .compilationUnit 1) (begin (lex source)) result ↔ result = (last, failure)) ∧
      (parse source).events = last.events ++ failure.toList.map .error := by
  have ended := ended_lex source
  have stands : OnVisible (lex source) (begin (lex source)).position := (ended.onVisible ended.nonempty).1
  have only (result : Cursor × Option Diagnostic) :
      Runs (lex source) (.call .compilationUnit 1) (begin (lex source)) result ↔
        (callsAt (lex source) 0).rule .compilationUnit 1 (begin (lex source)) = result :=
    runs_rule_iff ended stands (Nat.zero_le _) trivial
  have routine : Routine.events (lex source) =
      ((callsAt (lex source) 0).rule .compilationUnit 1 (begin (lex source))).1.events ++
        ((callsAt (lex source) 0).rule .compilationUnit 1 (begin (lex source))).2.toList.map .error := rfl
  refine ⟨_, _, fun result => (only result).trans eq_comm, ?_⟩
  rw [events_parse, ← cursor_events, routine]
  rfl

private theorem visibleLeaves_ne_nil {source : String} {mode : ParseMode} {tree : SyntaxTree}
    (built : grammar.tree source mode = .ok tree) (accepted : ∀ diagnostic, .error diagnostic ∉ (parse source).events)
    {node : Verbatim.Node} (inside : node ∈ tree.nodes) (rule : node.isGroup = false) :
    tree.visibleLeaves node ≠ [] := by
  have ended := ended_lex source
  have stands : OnVisible (lex source) (begin (lex source)).position := (ended.onVisible ended.nonempty).1
  obtain ⟨last, failure, only, noted⟩ := exists_run source
  obtain ⟨failed, -⟩ | ⟨rfl, -, outline, described, every⟩ := unit_cases ended stands ((only _).mpr rfl)
  · obtain ⟨diagnostic, rfl⟩ := Option.ne_none_iff_exists'.mp failed
    refine absurd ?_ (accepted diagnostic)
    rw [noted]
    exact List.mem_append_right _ (List.mem_singleton.mpr rfl)
  have same : outline.events = (parse source).events := by
    rw [noted, described]
    exact (List.append_nil _).symm
  have course : (parse source).events.filter Outline.isCourse = (parse source).events := by
    rw [List.filter_eq_self]
    intro event member
    cases event with
    | error diagnostic => exact absurd member (accepted diagnostic)
    | enter name id | token index | exit => rfl
  rw [tree_eq_build] at built
  obtain ⟨row, ⟨index, shown, below⟩, found⟩ :=
    Assembly.leaves_of_node built ⟨0, by rw [same, course]; exact (List.append_nil _).symm⟩ every inside rule
  obtain ⟨lexeme, placed, visible⟩ := shown
  have raw : (parse source).tokens[index]? = some lexeme.raw := by rw [tokens_parse, List.getElem?_map, placed]; rfl
  obtain ⟨leaf, member, token⟩ := found index lexeme.raw raw below
  refine List.ne_nil_of_mem (List.mem_filter.mpr ⟨member, ?_⟩)
  have channel : leaf.token.channel = lexeme.kind.channel := congrArg Token.channel token
  rw [channel, visible]
  rfl

/-- What succeeds has taken a visible token, and the end of the source is taken last. So the loops of the parser come
to an end, every source is parsed in exactly one way, and without an error there is a visible token below every node
that is no group. -/
theorem parsing_gets_on_and_ends :
    (∀ lexemes, Ended lexemes → Progress lexemes) ∧
    ∀ source, Ended (lex source) ∧
      (∃ last failure, (∀ result, Runs (lex source) (.call .compilationUnit 1) (begin (lex source)) result ↔
          result = (last, failure)) ∧ (parse source).events = last.events ++ failure.toList.map .error) ∧
      ∀ mode tree, grammar.tree source mode = .ok tree → (∀ diagnostic, .error diagnostic ∉ (parse source).events) →
        ∀ node ∈ tree.nodes, node.isGroup = false → tree.visibleLeaves node ≠ [] :=
  ⟨fun _ ended => progress ended, fun source => ⟨ended_lex source, exists_run source,
    fun _ _ built accepted _ inside rule => visibleLeaves_ne_nil built accepted inside rule⟩⟩

/-- A modifier in front of a comment is taken with it, and a class with that modifier is parsed. -/
theorem final_class_gets_on :
    let lexemes : List Lexeme := [⟨.finalWord, "final", .start⟩, ⟨.blockComment, "/**/", .start⟩,
      ⟨.classWord, "class", .start⟩, ⟨.eof, "", .start⟩]
    let source := "final/**/class A{}"
    (Ended lexemes ∧ ∃ last, Runs lexemes (.call .modifier 3) ⟨0, 0, []⟩ (last, none) ∧ last.position = 2 ∧
      Gains lexemes ⟨0, 0, []⟩ last none) ∧
    (∀ diagnostic, .error diagnostic ∉ (parse source).events) ∧
      ∃ tree, grammar.tree source .lenient = .ok tree ∧ false ∈ tree.nodes.map Verbatim.Node.isGroup ∧
        ∀ node ∈ tree.nodes, node.isGroup = false → tree.visibleLeaves node ≠ [] := by
  intro lexemes source
  have ended : Ended lexemes := ⟨lexemes.take 3, ⟨.eof, "", .start⟩, rfl, rfl, by decide⟩
  obtain ⟨gets_on, ends⟩ := parsing_gets_on_and_ends
  have run : Runs lexemes (.call .modifier 3) ⟨0, 0, []⟩ (_, none) := .enclosed (by decide) .bump
  have gains := (gets_on lexemes ended).rule .modifier 3 ⟨0, 0, []⟩ _ none (by decide) ⟨_, rfl, rfl⟩ rfl run
  obtain ⟨course, small, ruled⟩ : (∀ event ∈ events (lex source), Outline.isCourse event = true) ∧
      Call.sizeOf (calls source) + 1 < Builder.wordLimit ∧ false ∈ (calls source).filterMap Call.grouped? := by
    decide +kernel
  obtain ⟨tree, built⟩ := (exists_tree_iff source).mpr ⟨by decide, small⟩
  have accepted : ∀ diagnostic, .error diagnostic ∉ (parse source).events := by
    intro diagnostic member
    rw [events_parse] at member
    cases course _ member
  refine ⟨⟨ended, _, run, rfl, gains⟩, accepted, tree, built, ?_, ?_⟩
  · have made := (SyntaxTree.readsBack_of_build ((tree_eq_ok_iff source tree).mp built)).made
    rwa [tree.isGroup_nodes, made]
  · exact (ends source).2.2 .lenient tree built accepted

end MiniJava

end Verbatim
