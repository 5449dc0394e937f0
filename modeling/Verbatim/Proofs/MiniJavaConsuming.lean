import Verbatim.Proofs.MiniJavaTypeEnd

/-! Looking ahead agrees with parsing. What a cursor takes is counted in visible tokens, whatever is hidden between
them; what looking ahead has counted is there when a rule asks for it, and a rule goes on behind what it was given. -/

namespace Verbatim.MiniJava

def Cursor.enter (cursor : Cursor) (name : String) (id : RuleId) : Cursor :=
  { cursor.note (.enter name id) with depth := cursor.depth + 1 }

@[simp]
theorem Cursor.enter_position (cursor : Cursor) (name : String) (id : RuleId) :
    (cursor.enter name id).position = cursor.position :=
  rfl

@[simp]
theorem Cursor.enter_depth (cursor : Cursor) (name : String) (id : RuleId) :
    (cursor.enter name id).depth = cursor.depth + 1 :=
  rfl

/-- The routines where so many rules are open, as parsing a whole source comes to them. -/
def callsAt (lexemes : List Lexeme) (depth : Nat) : Calls :=
  Routine.calls lexemes ((visible lexemes).length + 1) (depthLimit + 1 - depth)

/-- The steps of a body where so many rules are open. -/
def performAt (lexemes : List Lexeme) (depth : Nat) : Step → Routine :=
  Routine.perform lexemes ((visible lexemes).length + 1) (callsAt lexemes depth)

/-- From one cursor to another, the first visible tokens are attached, just so many. -/
structure Consumes (lexemes : List Lexeme) (cursor last : Cursor) (count : Nat) : Prop where
  rests : Rests lexemes last.position
  enough : count ≤ (seenFrom lexemes cursor.position).length
  left : seenFrom lexemes last.position = (seenFrom lexemes cursor.position).drop count
  noted : ∃ more, last.events = cursor.events ++ more ∧
    RuleEvent.attached more = ((seenFrom lexemes cursor.position).take count).map Prod.snd

/-- A method declaration does not start with void, and it goes on behind its type, its name and the parenthesis that
opens its parameters, none of which fails. -/
def MethodBegins (lexemes : List Lexeme) (cursor : Cursor) : Prop :=
  Routine.kindAt lexemes cursor.position ≠ .voidWord ∧ ∃ typed named opened,
    (callsAt lexemes (cursor.depth + 1)).rule .type 15 (cursor.enter Rule.methodDeclaration.name 11) = (typed, none) ∧
    Routine.expect lexemes .identifier typed = (named, none) ∧
    Routine.expect lexemes .leftParen (named.enter Rule.formalParameters.name 16) = (opened, none) ∧
    opened.events <+: ((callsAt lexemes cursor.depth).rule .methodDeclaration 11 cursor).1.events

/-- The declaration of a local variable goes on behind its modifier, if it is final, its type and the name in its
first declarator, none of which fails. -/
def LocalVariableBegins (lexemes : List Lexeme) (cursor : Cursor) (id : RuleId) : Prop :=
  ∃ marked typed named,
    (if Routine.kindAt lexemes cursor.position = .finalWord then
      (callsAt lexemes (cursor.depth + 1)).rule .modifier 30 (cursor.enter Rule.localVariableDeclaration.name id) =
        (marked, none)
    else marked = cursor.enter Rule.localVariableDeclaration.name id) ∧
    (callsAt lexemes (cursor.depth + 1)).rule .type 31 marked = (typed, none) ∧
    Routine.expect lexemes .identifier (typed.enter Rule.variableDeclarator.name 32) = (named, none) ∧
    named.events <+: ((callsAt lexemes cursor.depth).rule .localVariableDeclaration id cursor).1.events

section Cursors

variable {lexemes : List Lexeme} {cursor middle last : Cursor} {count more : Nat}

theorem Consumes.start (rests : Rests lexemes cursor.position) : Consumes lexemes cursor cursor 0 :=
  ⟨rests, Nat.zero_le _, rfl, [], (List.append_nil _).symm, rfl⟩

theorem Consumes.enter (consumes : Consumes lexemes cursor last count) (name : String) (id : RuleId) :
    Consumes lexemes cursor (last.enter name id) count := by
  obtain ⟨events, same, taken⟩ := consumes.noted
  refine ⟨consumes.rests, consumes.enough, consumes.left, events ++ [.enter name id], ?_, ?_⟩
  · rw [← List.append_assoc, ← same]
    rfl
  · rw [RuleEvent.attached_append, taken]
    simp

theorem Consumes.trans (front : Consumes lexemes cursor middle count) (back : Consumes lexemes middle last more) :
    Consumes lexemes cursor last (count + more) := by
  obtain ⟨early, started, before⟩ := front.noted
  obtain ⟨late, followed, behind⟩ := back.noted
  have enough := back.enough
  rw [front.left, List.length_drop] at enough
  have first := front.enough
  refine ⟨back.rests, by omega, by rw [back.left, front.left, List.drop_drop], early ++ late, ?_, ?_⟩
  · rw [followed, started, List.append_assoc]
  · rw [RuleEvent.attached_append, before, behind, front.left, List.take_add, List.map_append]

theorem Consumes.kindAt_eq (consumes : Consumes lexemes cursor last count) :
    Routine.kindAt lexemes last.position = Routine.nth lexemes cursor.position count := by
  rw [MiniJava.kindAt_eq lexemes consumes.rests, consumes.left, nth_eq, kindsOf, List.map_drop, kindsOf]

theorem Agree.consumes {marks : List Mark} {rest : List Kind} {failure : Option String} {failed : Option Diagnostic}
    (agree : Agree lexemes cursor ⟨marks, rest, failure⟩ (last, failed))
    (enough : marks.count .take ≤ (seenFrom lexemes cursor.position).length) :
    Consumes lexemes cursor last (marks.count .take) := by
  refine ⟨agree.rests, enough, agree.seen, _, agree.events, ?_⟩
  rw [attached_number, List.map_take]

theorem bump_consumes (rests : Rests lexemes cursor.position) (inside : cursor.position < lexemes.length) :
    ∃ last, Routine.bump lexemes cursor = (last, none) ∧ last.depth = cursor.depth ∧
      last.events = cursor.events ++ [.token cursor.position] ∧ Consumes lexemes cursor last 1 := by
  obtain ⟨lexeme, -, -, -, seen⟩ | ⟨-, past, -⟩ := seenFrom_cases lexemes rests
  · obtain ⟨stops, same⟩ := visibleFrom_spec lexemes (cursor.position + 1)
    rw [Routine.bump, if_pos inside]
    refine ⟨_, rfl, rfl, rfl, stops, ?_, ?_, [.token cursor.position], rfl, ?_⟩
    · rw [seen]
      exact Nat.le_add_left _ _
    · rw [seen]
      exact same
    · rw [seen]
      rfl
  · exact absurd inside (Nat.not_lt.mpr past)

theorem Consumes.expect (consumes : Consumes lexemes cursor last count) {kind : Kind} (inner : kind ≠ .eof)
    (counted : Routine.nth lexemes cursor.position count = kind) :
    ∃ behind, Routine.expect lexemes kind last = (behind, none) ∧ behind.depth = last.depth ∧
      Consumes lexemes cursor behind (count + 1) := by
  have here : Routine.kindAt lexemes last.position = kind := consumes.kindAt_eq.trans counted
  obtain ⟨-, -, inside, -⟩ | ⟨-, -, -, none⟩ := seenFrom_cases lexemes consumes.rests
  · obtain ⟨behind, bumped, depth, -, taken⟩ := bump_consumes consumes.rests inside
    refine ⟨behind, ?_, depth, consumes.trans taken⟩
    rw [Routine.expect, if_pos (beq_iff_eq.mpr here), bumped]
  · rw [MiniJava.kindAt_eq lexemes consumes.rests, none] at here
    exact absurd here.symm inner

variable {room : Nat}

theorem callsAt_eq {depth : Nat} (space : depth + room = depthLimit) :
    callsAt lexemes depth = Routine.calls lexemes ((visible lexemes).length + 1) (room + 1) := by
  have fuel : depthLimit + 1 - depth = room + 1 := by omega
  rw [callsAt, fuel]

private theorem agree_callsAt (rests : Rests lexemes cursor.position) (space : cursor.depth + (room + 1) = depthLimit)
    (rule : Rule) (id : RuleId) :
    Agree lexemes cursor
      (Parser.enclosed rule.name id
        (rule.body.run ((visible lexemes).length + 1) (level ((visible lexemes).length + 1) room))
        (kindsOf (seenFrom lexemes cursor.position)))
      ((callsAt lexemes cursor.depth).rule rule id cursor) := by
  rw [callsAt_eq space]
  exact (mimics_calls (Nat.succ_pos (visible lexemes).length) (room + 1)).rule rule id cursor rests space

private theorem rule_consumes (rests : Rests lexemes cursor.position) (space : cursor.depth + (room + 1) = depthLimit)
    (rule : Rule) (id : RuleId) (inside : count ≤ (kindsOf (seenFrom lexemes cursor.position)).length)
    (body : rule.body.run ((visible lexemes).length + 1) (level ((visible lexemes).length + 1) room)
      (kindsOf (seenFrom lexemes cursor.position)) = took count (kindsOf (seenFrom lexemes cursor.position))) :
    ∃ last, (callsAt lexemes cursor.depth).rule rule id cursor = (last, none) ∧ last.depth = cursor.depth ∧
      Consumes lexemes cursor last count := by
  have agree := agree_callsAt rests space rule id
  rw [Parser.enclosed, body, took] at agree
  dsimp only at agree
  have taken : (Mark.enter rule.name id :: (List.replicate count .take ++ [.exit])).count .take = count := by simp
  rw [kindsOf, List.length_map] at inside
  obtain ⟨marks, last, -, stopped⟩ | ⟨marks, rest, wanted, last, ended, -⟩ := agree.cases
  · rw [stopped] at agree ⊢
    have consumes := agree.consumes (by rw [taken]; exact inside)
    rw [taken] at consumes
    exact ⟨last, rfl, agree.depth, consumes⟩
  · cases congrArg Outcome.failure ended

private theorem type_consumes (rests : Rests lexemes cursor.position) (space : cursor.depth + (room + 1) = depthLimit)
    (id : RuleId) (counted : Routine.typeEnd? lexemes cursor.position 0 = some count)
    (stop : Routine.nth lexemes cursor.position count ≠ .leftBracket) :
    ∃ last, (callsAt lexemes cursor.depth).rule .type id cursor = (last, none) ∧ last.depth = cursor.depth ∧
      Consumes lexemes cursor last count := by
  have enough : (kindsOf (seenFrom lexemes cursor.position)).length ≤ (visible lexemes).length + 1 :=
    Nat.le_succ_of_le (length_seenFrom_le lexemes cursor.position)
  rw [typeEnd?_eq, List.drop_zero] at counted
  obtain ⟨length, found, same⟩ := Option.map_eq_some_iff.mp counted
  rw [Nat.zero_add] at same
  rw [nth_eq, ← same] at stop
  rw [← same]
  exact rule_consumes rests space .type id (typeLength?_le found) (type_took enough found stop)

private theorem type_stays (rests : Rests lexemes cursor.position) (space : cursor.depth + (room + 1) = depthLimit)
    (id : RuleId) (missing : Routine.typeEnd? lexemes cursor.position 0 = none) :
    ∃ last diagnostic, (callsAt lexemes cursor.depth).rule .type id cursor = (last, some diagnostic) ∧
      Consumes lexemes cursor last 0 := by
  have agree := agree_callsAt rests space .type id
  rw [typeEnd?_eq, List.drop_zero, Option.map_eq_none_iff] at missing
  rw [Parser.enclosed, type_fails missing] at agree
  dsimp only at agree
  obtain ⟨marks, last, ended, -⟩ | ⟨marks, rest, wanted, last, -, stopped⟩ := agree.cases
  · cases congrArg Outcome.failure ended
  · rw [stopped] at agree ⊢
    exact ⟨last, _, rfl, agree.consumes (Nat.zero_le _)⟩

private theorem final_consumes (rests : Rests lexemes cursor.position) (space : cursor.depth + (room + 1) = depthLimit)
    (id : RuleId) (final : Routine.kindAt lexemes cursor.position = .finalWord) :
    ∃ last, (callsAt lexemes cursor.depth).rule .modifier id cursor = (last, none) ∧ last.depth = cursor.depth ∧
      Consumes lexemes cursor last 1 := by
  rw [MiniJava.kindAt_eq lexemes rests] at final
  generalize seen : kindsOf (seenFrom lexemes cursor.position) = ahead at final
  cases ahead with
  | nil => cases final
  | cons kind rest =>
    apply rule_consumes rests space
    · rw [seen, List.length_cons]
      exact Nat.le_add_left _ _
    · rw [seen]
      rfl

theorem Consumes.nth_eq (consumes : Consumes lexemes cursor last count) (offset : Nat) :
    Routine.nth lexemes last.position offset = Routine.nth lexemes cursor.position (count + offset) := by
  rw [MiniJava.nth_eq, MiniJava.nth_eq, consumes.left, kindsOf, List.map_drop, List.drop_drop, kindsOf]

theorem Consumes.typeEnd?_eq (consumes : Consumes lexemes cursor last count) :
    Routine.typeEnd? lexemes cursor.position count = (Routine.typeEnd? lexemes last.position 0).map (count + ·) := by
  have behind : kindsOf (seenFrom lexemes last.position) = (kindsOf (seenFrom lexemes cursor.position)).drop count := by
    rw [consumes.left, kindsOf, List.map_drop, kindsOf]
  rw [MiniJava.typeEnd?_eq, MiniJava.typeEnd?_eq, List.drop_zero, behind, Option.map_map]
  congr 1
  funext length
  simp

theorem Consumes.type (consumes : Consumes lexemes cursor middle more) (space : middle.depth + (room + 1) = depthLimit)
    (id : RuleId) (counted : Routine.typeEnd? lexemes cursor.position more = some count)
    (stop : Routine.nth lexemes cursor.position count ≠ .leftBracket) :
    ∃ last, (callsAt lexemes middle.depth).rule .type id middle = (last, none) ∧ last.depth = middle.depth ∧
      Consumes lexemes cursor last count := by
  rw [consumes.typeEnd?_eq] at counted
  obtain ⟨length, found, same⟩ := Option.map_eq_some_iff.mp counted
  rw [← same, ← consumes.nth_eq] at stop
  obtain ⟨last, parsed, level, taken⟩ := type_consumes consumes.rests space id found stop
  rw [← same]
  exact ⟨last, parsed, level, consumes.trans taken⟩

section Steps

variable {depth : Nat} {one other : Step}

/-- Whatever the steps of a body do, they keep the events so far. -/
private theorem prefix_perform (rests : Rests lexemes cursor.position) (height : cursor.depth = depth)
    (space : depth + room = depthLimit) (step : Step) :
    cursor.events <+: (performAt lexemes depth step cursor).1.events := by
  have mimics : (Routine.calls lexemes ((visible lexemes).length + 1) (room + 1)).Mimic lexemes room
      (level ((visible lexemes).length + 1) room) := mimics_calls (Nat.succ_pos _) room
  have agree := mimics_perform ((visible lexemes).length + 1) mimics step cursor rests (by omega)
  rw [performAt, callsAt_eq space, agree.events]
  exact List.prefix_append _ _

private theorem perform_next (found : performAt lexemes depth one cursor = (middle, none)) :
    performAt lexemes depth (.next one other) cursor = performAt lexemes depth other middle := by
  rw [performAt] at found ⊢
  rw [Routine.perform, Routine.next, found]

private theorem prefix_next (rests : Rests lexemes middle.position) (level : middle.depth = depth)
    (space : depth + room = depthLimit) (found : performAt lexemes depth one cursor = (middle, none)) :
    middle.events <+: (performAt lexemes depth (.next one other) cursor).1.events := by
  rw [perform_next found]
  exact prefix_perform rests level space other

private theorem prefix_rule (lexemes : List Lexeme) (level : cursor.depth = depth)
    (space : depth + (room + 1) = depthLimit)
    (rule : Rule) (id : RuleId) :
    (performAt lexemes (depth + 1) rule.body (cursor.enter rule.name id)).1.events <+:
      ((callsAt lexemes depth).rule rule id cursor).1.events := by
  have deeper : depth + 1 + room = depthLimit := by omega
  have called (limit : Nat) : (Routine.calls lexemes limit (room + 1 + 1)).rule rule id =
      Routine.enclosed lexemes rule.name id
        (Routine.perform lexemes limit (Routine.calls lexemes limit (room + 1)) rule.body) := rfl
  have entered : cursor.enter rule.name id = { cursor.note (.enter rule.name id) with depth := cursor.depth + 1 } := rfl
  rw [performAt, callsAt_eq space, callsAt_eq deeper, called, Routine.enclosed, if_neg (by omega), ← entered]
  generalize Routine.perform lexemes _ _ rule.body (cursor.enter rule.name id) = result
  obtain ⟨last, failed⟩ := result
  cases failed with
  | none => exact List.prefix_append _ _
  | some diagnostic => exact List.prefix_rfl

private theorem prefix_call (rests : Rests lexemes cursor.position) (level : cursor.depth = depth)
    (space : depth + (room + 1) = depthLimit) (rule : Rule) (id : RuleId) :
    ((callsAt lexemes depth).rule rule id cursor).1.events <+:
      (performAt lexemes depth (.next (.call rule id) other) cursor).1.events := by
  have agree := agree_callsAt rests (by rw [level]; exact space) rule id
  rw [level] at agree
  obtain ⟨marks, last, -, stopped⟩ | ⟨marks, rest, wanted, last, -, stopped⟩ := agree.cases
  · rw [stopped] at agree ⊢
    exact prefix_next agree.rests (agree.depth.trans level) space stopped
  · rw [performAt, Routine.perform, Routine.perform, Routine.next, stopped]

/-- A rule that has come to a call goes on behind the token that the called rule opens with. -/
private theorem prefix_opened {outer inner : Rule} {id called : RuleId} {kind : Kind} {rest more : Step}
    (space : cursor.depth + (room + 2) = depthLimit) (consumes : Consumes lexemes cursor middle count)
    (level : middle.depth = cursor.depth + 1)
    (body : performAt lexemes (cursor.depth + 1) outer.body (cursor.enter outer.name id) =
      performAt lexemes (cursor.depth + 1) (.next (.call inner called) rest) middle)
    (opening : inner.body = .next (.expect kind) more) (stops : Rests lexemes last.position)
    (deeper : last.depth = cursor.depth + 1 + 1)
    (found : Routine.expect lexemes kind (middle.enter inner.name called) = (last, none)) :
    last.events <+: ((callsAt lexemes cursor.depth).rule outer id cursor).1.events := by
  have below : cursor.depth + 1 + (room + 1) = depthLimit := by omega
  have bottom : cursor.depth + 1 + 1 + room = depthLimit := by omega
  have opens : performAt lexemes (cursor.depth + 1 + 1) (.expect kind) (middle.enter inner.name called) = (last, none) :=
    found
  have within := prefix_rule lexemes level below inner called
  rw [opening] at within
  have whole := prefix_rule lexemes rfl space outer id
  rw [body] at whole
  calc
    last.events <+: _ := prefix_next stops deeper bottom opens
    _ <+: _ := within
    _ <+: _ := prefix_call consumes.rests level below inner called
    _ <+: _ := whole

end Steps

private theorem method_begins (rests : Rests lexemes cursor.position) (space : cursor.depth + (room + 2) = depthLimit)
    (method : Routine.isMethodAhead lexemes cursor.position = true) : MethodBegins lexemes cursor := by
  obtain ⟨count, counted, followed⟩ := (Option.any_eq_true _ _).mp method
  simp only [Bool.and_eq_true, beq_iff_eq] at followed
  obtain ⟨name, parenthesis⟩ := followed
  have typeful : Routine.kindAt lexemes cursor.position ≠ .voidWord := by
    intro void
    rw [(Consumes.start rests).kindAt_eq] at void
    simp [Routine.typeEnd?, void, Kind.isPrimitive] at counted
  have below : cursor.depth + 1 + (room + 1) = depthLimit := by omega
  have entered := (Consumes.start rests).enter Rule.methodDeclaration.name 11
  obtain ⟨typed, parsed, level, first⟩ := entered.type below 15 counted (by rw [name]; decide)
  obtain ⟨named, expected, still, second⟩ := first.expect (by decide) name
  obtain ⟨opened, found, deeper, third⟩ :=
    (second.enter Rule.formalParameters.name 16).expect (by decide) parenthesis
  rw [Cursor.enter_depth] at parsed level deeper
  refine ⟨typeful, typed, named, opened, parsed, expected, found, ?_⟩
  have depth : named.depth = cursor.depth + 1 := still.trans level
  have chosen : performAt lexemes (cursor.depth + 1) (.choose (.on .voidWord) .bump (.call .type 15))
      (cursor.enter Rule.methodDeclaration.name 11) = (typed, none) := by
    rw [MiniJava.kindAt_eq lexemes rests] at typeful
    have other : Look.on .voidWord (Routine.ahead lexemes cursor.position) = false := by
      rw [ahead_eq lexemes rests]
      simpa [Look.on] using typeful
    simp only [performAt, Routine.perform, Cursor.enter_position, other, Bool.false_eq_true, ↓reduceIte]
    exact parsed
  have body : performAt lexemes (cursor.depth + 1) Rule.methodDeclaration.body
      (cursor.enter Rule.methodDeclaration.name 11) =
        performAt lexemes (cursor.depth + 1) (.next (.call .formalParameters 16)
          (.choose (.on .semicolon) .bump (.call .block 17))) named :=
    (perform_next chosen).trans (perform_next expected)
  exact prefix_opened space second depth body rfl third.rests (by omega) found

private theorem final_perhaps (rests : Rests lexemes cursor.position) (space : cursor.depth + (room + 1) = depthLimit)
    (id : RuleId) :
    ∃ marked,
      (if Routine.kindAt lexemes cursor.position = .finalWord then
        (callsAt lexemes cursor.depth).rule .modifier id cursor = (marked, none)
      else marked = cursor) ∧ marked.depth = cursor.depth ∧
      performAt lexemes cursor.depth (.perhaps (.on .finalWord) (.call .modifier id)) cursor = (marked, none) ∧
      Consumes lexemes cursor marked (if Routine.kindAt lexemes cursor.position == .finalWord then 1 else 0) := by
  have test : Look.on .finalWord (Routine.ahead lexemes cursor.position) =
      (Routine.kindAt lexemes cursor.position == .finalWord) := by
    rw [ahead_eq lexemes rests, MiniJava.kindAt_eq lexemes rests, Look.on]
  simp only [performAt, Step.perhaps, Routine.perform, test, beq_iff_eq]
  by_cases final : Routine.kindAt lexemes cursor.position = .finalWord
  · obtain ⟨marked, called, level, taken⟩ := final_consumes rests space id final
    simp only [if_pos final]
    exact ⟨marked, called, level, called, taken⟩
  · simp only [if_neg final]
    exact ⟨cursor, rfl, rfl, rfl, .start rests⟩

private theorem localVariable_begins (rests : Rests lexemes cursor.position)
    (space : cursor.depth + (room + 2) = depthLimit)
    (id : RuleId) (declared : Routine.isLocalVariableAhead lexemes cursor.position = true) :
    LocalVariableBegins lexemes cursor id := by
  obtain ⟨count, counted, followed⟩ := (Option.any_eq_true _ _).mp declared
  have name : Routine.nth lexemes cursor.position count = .identifier := eq_of_beq followed
  have below : cursor.depth + 1 + (room + 1) = depthLimit := by omega
  have entered := (Consumes.start rests).enter Rule.localVariableDeclaration.name id
  obtain ⟨marked, given, height, chosen, final⟩ := final_perhaps entered.rests below 30
  rw [Cursor.enter_position, Cursor.enter_depth] at given
  rw [Cursor.enter_depth] at height chosen
  have first := entered.trans final
  rw [Nat.zero_add] at first
  obtain ⟨typed, parsed, level, second⟩ :=
    first.type (by rw [height]; exact below) 31 counted (by rw [name]; decide)
  obtain ⟨named, expected, deeper, third⟩ :=
    (second.enter Rule.variableDeclarator.name 32).expect (by decide) name
  rw [height] at parsed level
  rw [Cursor.enter_depth] at deeper
  refine ⟨marked, typed, named, given, parsed, expected, ?_⟩
  have body : performAt lexemes (cursor.depth + 1) Rule.localVariableDeclaration.body
      (cursor.enter Rule.localVariableDeclaration.name id) =
        performAt lexemes (cursor.depth + 1) (.next (.call .variableDeclarator 32)
          (.commaMore (.call .variableDeclarator 33))) typed :=
    (perform_next chosen).trans (perform_next parsed)
  exact prefix_opened space second level body rfl third.rests (by omega) expected

end Cursors

/-- Looking ahead agrees with parsing wherever a cursor rests. The type that offsets find is parsed, and just its
tokens are taken; where they find none, parsing fails and takes no token. So what is ahead of a method or of a local
variable is parsed without failure. -/
theorem lookahead_parsed (lexemes : List Lexeme) (cursor : Cursor) (rests : Rests lexemes cursor.position) :
    (cursor.depth < depthLimit → ∀ id,
      (∀ count, Routine.typeEnd? lexemes cursor.position 0 = some count →
        Routine.nth lexemes cursor.position count ≠ .leftBracket →
          ∃ last, (callsAt lexemes cursor.depth).rule .type id cursor = (last, none) ∧
            Consumes lexemes cursor last count) ∧
      (Routine.typeEnd? lexemes cursor.position 0 = none →
        ∃ last diagnostic, (callsAt lexemes cursor.depth).rule .type id cursor = (last, some diagnostic) ∧
          Consumes lexemes cursor last 0)) ∧
    (cursor.depth + 2 ≤ depthLimit →
      (Routine.isMethodAhead lexemes cursor.position = true → MethodBegins lexemes cursor) ∧
      ∀ id, Routine.isLocalVariableAhead lexemes cursor.position = true → LocalVariableBegins lexemes cursor id) ∧
    Look.method (Routine.ahead lexemes cursor.position) = Routine.isMethodAhead lexemes cursor.position ∧
    Look.localVariable (Routine.ahead lexemes cursor.position) =
      Routine.isLocalVariableAhead lexemes cursor.position := by
  refine ⟨?_, ?_, (isMethodAhead_eq lexemes _ rests).symm, (isLocalVariableAhead_eq lexemes _ rests).symm⟩
  · intro shallow id
    obtain ⟨room, space⟩ : ∃ room, cursor.depth + (room + 1) = depthLimit :=
      ⟨depthLimit - cursor.depth - 1, by omega⟩
    constructor
    · intro count counted stop
      obtain ⟨last, parsed, -, consumes⟩ := type_consumes rests space id counted stop
      exact ⟨last, parsed, consumes⟩
    · intro missing
      exact type_stays rests space id missing
  · intro deep
    obtain ⟨room, space⟩ : ∃ room, cursor.depth + (room + 2) = depthLimit :=
      ⟨depthLimit - cursor.depth - 2, by omega⟩
    constructor
    · intro method
      exact method_begins rests space method
    · intro id declared
      exact localVariable_begins rests space id declared

theorem array_type_with_comment :
    let lexemes : List Lexeme :=
      [⟨.finalWord, "final", .start⟩, ⟨.whitespace, " ", .start⟩, ⟨.identifier, "a", .start⟩,
        ⟨.blockComment, "/*.*/", .start⟩, ⟨.dot, ".", .start⟩, ⟨.identifier, "b", .start⟩, ⟨.leftBracket, "[", .start⟩,
        ⟨.whitespace, " ", .start⟩, ⟨.rightBracket, "]", .start⟩, ⟨.identifier, "c", .start⟩,
        ⟨.leftParen, "(", .start⟩, ⟨.eof, "", .start⟩]
    let marked : Cursor := ⟨0, 254, []⟩
    let typed : Cursor := ⟨2, 254, []⟩
    (Rests lexemes 0 ∧ Rests lexemes 2) ∧
      (Routine.typeEnd? lexemes 2 0 = some 5 ∧ Routine.nth lexemes 2 5 ≠ .leftBracket ∧
        ∃ last, (callsAt lexemes 254).rule .type 18 typed = (last, none) ∧ Consumes lexemes typed last 5) ∧
      (Routine.typeEnd? lexemes 0 0 = none ∧ ∃ last diagnostic,
        (callsAt lexemes 254).rule .type 18 marked = (last, some diagnostic) ∧ Consumes lexemes marked last 0) ∧
      (Routine.isMethodAhead lexemes 2 = true ∧ MethodBegins lexemes typed) ∧
      Routine.isLocalVariableAhead lexemes 0 = true ∧ LocalVariableBegins lexemes marked 27 := by
  intro lexemes marked typed
  have first : Rests lexemes 0 := by
    intro lexeme found
    cases found
    rfl
  have third : Rests lexemes 2 := by
    intro lexeme found
    cases found
    rfl
  have counted : Routine.typeEnd? lexemes 2 0 = some 5 := by decide
  have stop : Routine.nth lexemes 2 5 ≠ .leftBracket := by decide
  have missing : Routine.typeEnd? lexemes 0 0 = none := by decide
  have method : Routine.isMethodAhead lexemes 2 = true := by decide
  have declared : Routine.isLocalVariableAhead lexemes 0 = true := by decide
  have shallow : 254 < depthLimit := by decide
  have deep : 254 + 2 ≤ depthLimit := by decide
  obtain ⟨types, begins, -, -⟩ := lookahead_parsed lexemes typed third
  obtain ⟨failing, locals, -, -⟩ := lookahead_parsed lexemes marked first
  exact ⟨⟨first, third⟩, ⟨counted, stop, (types shallow 18).1 5 counted stop⟩,
    ⟨missing, (failing shallow 18).2 missing⟩, ⟨method, (begins deep).1 method⟩, declared,
    (locals deep).2 27 declared⟩

end Verbatim.MiniJava
