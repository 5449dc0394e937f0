import Verbatim.MiniJava.Cursor
import Verbatim.Proofs.MiniJavaStream

/-! The parser with a cursor over all tokens makes the events of the parser that sees the visible ones only.
The cursor never rests on a hidden token, so that each look at the tokens ahead gets to see what is left
of the visible ones, from the start of the source to its end. -/

namespace Verbatim.MiniJava

def shown (lexemes : List Lexeme) (position : Nat) : List (Lexeme × Nat) :=
  (lexemes.zipIdx position).filter fun (lexeme, _) => !lexeme.kind.channel.isHidden

def kindsOf (entries : List (Lexeme × Nat)) : List Kind := entries.map fun entry => entry.1.kind

section

variable (lexemes : List Lexeme)

def seenFrom (position : Nat) : List (Lexeme × Nat) := shown (lexemes.drop position) position

def Rests (position : Nat) : Prop :=
  ∀ lexeme, lexemes[position]? = some lexeme → lexeme.kind.channel.isHidden = false

theorem shown_cons {lexeme : Lexeme} {rest : List Lexeme} {position : Nat} :
    shown (lexeme :: rest) position =
      if lexeme.kind.channel.isHidden then shown rest (position + 1)
      else (lexeme, position) :: shown rest (position + 1) := by
  cases concealed : lexeme.kind.channel.isHidden <;> simp [shown, concealed]

theorem kindsOf_shown (lexemes : List Lexeme) (position : Nat) :
    kindsOf (shown lexemes position) = (lexemes.map Lexeme.kind).filter fun kind => !kind.channel.isHidden := by
  induction lexemes generalizing position with
  | nil => rfl
  | cons lexeme rest ih =>
    have later := ih (position + 1)
    cases concealed : lexeme.kind.channel.isHidden <;> simpa [shown_cons, concealed, kindsOf] using later

private theorem drop_succ_of_drop {position : Nat} {lexeme : Lexeme} {rest : List Lexeme}
    (here : lexemes.drop position = lexeme :: rest) : lexemes.drop (position + 1) = rest := by
  rw [← List.drop_drop, here]
  rfl

theorem visibleFrom_spec (position : Nat) :
    Rests lexemes (Routine.visibleFrom lexemes position) ∧
      seenFrom lexemes (Routine.visibleFrom lexemes position) = seenFrom lexemes position := by
  unfold Routine.visibleFrom
  generalize same : lexemes.drop position = rest
  induction rest generalizing position with
  | nil =>
    refine ⟨?_, rfl⟩
    intro lexeme found
    have : lexemes.length ≤ position := List.drop_eq_nil_iff.mp same
    rw [skipHidden, List.getElem?_eq_none this] at found
    cases found
  | cons lexeme rest ih =>
    have later := drop_succ_of_drop lexemes same
    rw [skipHidden]
    split
    next concealed =>
      obtain ⟨rests, seen⟩ := ih (position + 1) later
      refine ⟨rests, seen.trans ?_⟩
      rw [seenFrom, seenFrom, same, later, shown_cons, if_pos concealed]
    next shows =>
      refine ⟨?_, rfl⟩
      intro other found
      have here : lexemes[position]? = some lexeme := by
        rw [← List.head?_drop, same]
        rfl
      obtain rfl := Option.some.inj (here.symm.trans found)
      exact Bool.eq_false_iff.mpr shows

/-- Where the cursor rests, it stands at the first of the visible tokens, or at the end of all tokens. -/
theorem seenFrom_cases {position : Nat} (rests : Rests lexemes position) :
    (∃ lexeme, lexemes[position]? = some lexeme ∧ position < lexemes.length ∧
      lexemes.drop position = lexeme :: lexemes.drop (position + 1) ∧
        seenFrom lexemes position = (lexeme, position) :: seenFrom lexemes (position + 1)) ∨
    (lexemes[position]? = none ∧ lexemes.length ≤ position ∧ lexemes.drop position = [] ∧
      seenFrom lexemes position = []) := by
  by_cases inside : position < lexemes.length
  · have here := List.drop_eq_getElem_cons inside
    refine .inl ⟨lexemes[position], List.getElem?_eq_getElem inside, inside, here, ?_⟩
    rw [seenFrom, here, shown_cons, rests _ (List.getElem?_eq_getElem inside), if_neg (by simp), seenFrom]
  · have past := Nat.le_of_not_lt inside
    have none := List.drop_eq_nil_iff.mpr past
    exact .inr ⟨List.getElem?_eq_none past, past, none, by rw [seenFrom, none]; rfl⟩

theorem kindAt_eq {position : Nat} (rests : Rests lexemes position) :
    Routine.kindAt lexemes position = current (kindsOf (seenFrom lexemes position)) := by
  obtain ⟨lexeme, found, -, -, seen⟩ | ⟨found, -, -, seen⟩ := seenFrom_cases lexemes rests <;>
    rw [Routine.kindAt, found, seen] <;> rfl

theorem ahead_eq {position : Nat} (rests : Rests lexemes position) :
    Routine.ahead lexemes position = kindsOf (seenFrom lexemes position) := by
  obtain ⟨lexeme, found, -, here, seen⟩ | ⟨found, -, here, seen⟩ := seenFrom_cases lexemes rests
  · rw [Routine.ahead, here, seen, kindsOf, List.map_cons, ← kindsOf, seenFrom, kindsOf_shown]
  · rw [Routine.ahead, here, seen]
    rfl

/-- Beside what a parser did with the visible tokens from the cursor on, what a routine did. -/
structure Agree (cursor : Cursor) (outcome : Outcome) (result : Cursor × Option Diagnostic) : Prop where
  rests : Rests lexemes result.1.position
  depth : result.1.depth = cursor.depth
  seen : seenFrom lexemes result.1.position = (seenFrom lexemes cursor.position).drop (outcome.marks.count .take)
  rest : outcome.rest = kindsOf (seenFrom lexemes result.1.position)
  events : result.1.events = cursor.events ++ number ((seenFrom lexemes cursor.position).map Prod.snd) outcome.marks
  failure : result.2 = outcome.failure.map fun wanted => Routine.complaint lexemes wanted result.1.position

/-- A routine does what a parser does where so many more rules may be opened. -/
def Mimics (room : Nat) (routine : Routine) (parser : Parser) : Prop :=
  ∀ cursor, Rests lexemes cursor.position → cursor.depth + room = depthLimit →
    Agree lexemes cursor (parser (kindsOf (seenFrom lexemes cursor.position))) (routine cursor)

structure Calls.Mimic (room : Nat) (calls : Calls) (level : Level) : Prop where
  rule : ∀ rule id, Mimics lexemes room (calls.rule rule id) (level.rule rule id)
  expression : ∀ power, Mimics lexemes room (calls.expression power) (level.expression power)

end

section

variable {lexemes : List Lexeme} {cursor middle : Cursor} {result : Cursor × Option Diagnostic} {marks more : List Mark}
  {rest behind : List Kind} {failure : Option String}

theorem Agree.start (rests : Rests lexemes cursor.position) :
    Agree lexemes cursor ⟨[], kindsOf (seenFrom lexemes cursor.position), none⟩ (cursor, none) :=
  ⟨rests, rfl, rfl, rfl, (List.append_nil _).symm, rfl⟩

theorem Agree.cases {outcome : Outcome} (agree : Agree lexemes cursor outcome result) :
    (∃ marks last, outcome = ⟨marks, kindsOf (seenFrom lexemes last.position), none⟩ ∧ result = (last, none)) ∨
      ∃ marks rest wanted last, outcome = ⟨marks, rest, some wanted⟩ ∧
        result = (last, some (Routine.complaint lexemes wanted last.position)) := by
  obtain ⟨marks, rest, failure⟩ := outcome
  obtain ⟨last, failed⟩ := result
  obtain rfl : rest = kindsOf (seenFrom lexemes last.position) := agree.rest
  have told : failed = failure.map fun wanted => Routine.complaint lexemes wanted last.position := agree.failure
  cases failure with
  | none => exact .inl ⟨marks, last, rfl, congrArg _ told⟩
  | some wanted => exact .inr ⟨marks, _, wanted, last, rfl, congrArg _ told⟩

theorem Agree.append (front : Agree lexemes cursor ⟨marks, rest, none⟩ (middle, none))
    (back : Agree lexemes middle ⟨more, behind, failure⟩ result) :
    Agree lexemes cursor ⟨marks ++ more, behind, failure⟩ result := by
  refine ⟨back.rests, back.depth.trans front.depth, ?_, back.rest, ?_, back.failure⟩
  · rw [back.seen, front.seen, List.drop_drop, List.count_append]
  · rw [back.events, front.events, front.seen, number_append, List.map_drop, List.append_assoc]

theorem Agree.enter {name : String} {id : RuleId} {last : Cursor} {failed : Option Diagnostic}
    (inside : Agree lexemes { cursor.note (.enter name id) with depth := cursor.depth + 1 } ⟨marks, rest, failure⟩
      (last, failed)) :
    Agree lexemes cursor ⟨.enter name id :: marks, rest, failure⟩ ({ last with depth := last.depth - 1 }, failed) := by
  refine ⟨inside.rests, ?_, ?_, inside.rest, ?_, inside.failure⟩
  · have deeper : last.depth = cursor.depth + 1 := inside.depth
    dsimp only
    omega
  · rw [List.count_cons_of_ne (by simp)]
    exact inside.seen
  · have noted : last.events = cursor.events ++ [.enter name id] ++ number _ marks := inside.events
    rw [number, ← List.singleton_append, ← List.append_assoc]
    exact noted

/-- The node around an operator is entered in front of all that was noted since. -/
theorem Agree.precede (id : RuleId) (front : Agree lexemes cursor ⟨marks, rest, none⟩ (middle, none)) :
    Agree lexemes cursor ⟨.enter expressionName id :: marks, rest, none⟩
      (middle.precede cursor.events.length id, none) := by
  refine ⟨front.rests, front.depth, ?_, front.rest, ?_, rfl⟩
  · rw [List.count_cons_of_ne (by simp)]
    exact front.seen
  · have noted : middle.events = cursor.events ++ number _ marks := front.events
    rw [number, Cursor.precede, noted, List.take_left, List.drop_left]

theorem Agree.exit (front : Agree lexemes cursor ⟨marks, rest, none⟩ (middle, none)) :
    Agree lexemes cursor ⟨marks ++ [.exit], rest, none⟩ (middle.note .exit, none) := by
  refine ⟨front.rests, front.depth, ?_, front.rest, ?_, rfl⟩
  · rw [List.count_append]
    exact front.seen
  · rw [number_append_exit, ← List.append_assoc, ← front.events]
    rfl

end

namespace Mimics

variable {lexemes : List Lexeme} {room : Nat} {first second body : Routine} {one other inner : Parser}

theorem done : Mimics lexemes room (fun cursor => (cursor, none)) Parser.done :=
  fun _ rests _ => .start rests

theorem fail (wanted : String) : Mimics lexemes room (Routine.fail lexemes wanted) (Parser.fail wanted) :=
  fun _ rests _ => ⟨rests, rfl, rfl, rfl, (List.append_nil _).symm, rfl⟩

theorem bump : Mimics lexemes room (Routine.bump lexemes) Parser.bump := by
  intro cursor rests _
  unfold Routine.bump
  obtain ⟨lexeme, -, inside, -, seen⟩ | ⟨-, past, -, seen⟩ := seenFrom_cases lexemes rests
  · obtain ⟨stops, same⟩ := visibleFrom_spec lexemes (cursor.position + 1)
    rw [if_pos inside, seen]
    exact ⟨stops, rfl, by rw [seen]; exact same, congrArg kindsOf same.symm, by rw [seen]; rfl, rfl⟩
  · rw [if_neg (Nat.not_lt.mpr past), seen]
    have start := Agree.start rests
    rwa [seen] at start

theorem choose {test : Look} (yes : Mimics lexemes room first one) (no : Mimics lexemes room second other) :
    Mimics lexemes room
      (fun cursor => if test (Routine.ahead lexemes cursor.position) then first cursor else second cursor)
      (fun ahead => if test ahead then one ahead else other ahead) := by
  intro cursor rests space
  dsimp only
  rw [ahead_eq lexemes rests]
  split
  · exact yes cursor rests space
  · exact no cursor rests space

private theorem chooseAt {test : Kind → Bool} (yes : Mimics lexemes room first one)
    (no : Mimics lexemes room second other) :
    Mimics lexemes room
      (fun cursor => if test (Routine.kindAt lexemes cursor.position) then first cursor else second cursor)
      (fun ahead => if test (current ahead) then one ahead else other ahead) := by
  intro cursor rests space
  dsimp only
  rw [kindAt_eq lexemes rests]
  split
  · exact yes cursor rests space
  · exact no cursor rests space

theorem expect (kind : Kind) : Mimics lexemes room (Routine.expect lexemes kind) (Parser.expect kind) := by
  intro cursor rests space
  exact @chooseAt _ room _ _ _ _ (· == kind) bump (fail _) cursor rests space

theorem next (front : Mimics lexemes room first one) (back : Mimics lexemes room second other) :
    Mimics lexemes room (Routine.next first second) (Parser.next one other) := by
  intro cursor rests space
  have start := front cursor rests space
  unfold Routine.next Parser.next
  obtain ⟨marks, middle, ended, stopped⟩ | ⟨marks, rest, wanted, middle, ended, stopped⟩ := start.cases
  · rw [ended, stopped] at start ⊢
    exact start.append (back middle start.rests (by rw [start.depth]; exact space))
  · rw [ended, stopped] at start ⊢
    exact start

theorem enclosed {name : String} {id : RuleId} (inside : Mimics lexemes room body inner) :
    Mimics lexemes (room + 1) (Routine.enclosed lexemes name id body) (Parser.enclosed name id inner) := by
  intro cursor rests space
  have below := inside { cursor.note (.enter name id) with depth := cursor.depth + 1 } rests (by dsimp only; omega)
  have called : Agree lexemes _ (inner (kindsOf (seenFrom lexemes cursor.position))) _ := below
  unfold Routine.enclosed Parser.enclosed
  rw [if_neg (by omega)]
  obtain ⟨marks, last, ended, stopped⟩ | ⟨marks, rest, wanted, last, ended, stopped⟩ := called.cases
  · rw [ended, stopped] at called ⊢
    exact called.enter.exit
  · rw [ended, stopped] at called ⊢
    exact called.enter

theorem loop (test : Look) (inside : Mimics lexemes room body inner) (fuel : Nat) :
    Mimics lexemes room (Routine.loop lexemes test body fuel) (Parser.loop test inner fuel) := by
  induction fuel with
  | zero => exact done
  | succ fuel ih => exact choose (next inside ih) done

end Mimics

section

variable {lexemes : List Lexeme} {room : Nat}

theorem mimics_perform (limit : Nat) {calls : Calls} {level : Level} (mimic : calls.Mimic lexemes room level)
    (step : Step) : Mimics lexemes room (Routine.perform lexemes limit calls step) (step.run limit level) := by
  induction step with
  | done => exact .done
  | bump => exact .bump
  | expect kind => exact .expect kind
  | call rule id => exact mimic.rule rule id
  | expression => exact mimic.expression 0
  | fail wanted => exact .fail wanted
  | next first second front back => exact .next front back
  | choose test yes no holds fails => exact .choose holds fails
  | loop test body inner => exact .loop test inner limit

private theorem mimics_operand {inner : Calls} {level : Level} (mimic : inner.Mimic lexemes room level) :
    Mimics lexemes (room + 1) (Routine.operand lexemes inner) (operand level) :=
  .chooseAt (.enclosed (.next .bump (mimic.expression unaryPower))) (.enclosed (mimic.rule .primary 62))

private theorem mimics_continuation {called : Rule → RuleId → Routine} {rule : Rule → RuleId → Parser}
    {within : Nat → Routine}
    {expression : Nat → Parser} (rules : ∀ name id, Mimics lexemes room (called name id) (rule name id))
    (expressions : ∀ power, Mimics lexemes room (within power) (expression power)) (power : Nat) (kind : Kind) :
    (Routine.continuation? lexemes called within power kind = none ∧ continuation? rule expression power kind = none) ∨
      ∃ id more behind, Routine.continuation? lexemes called within power kind = some (id, more) ∧
        continuation? rule expression power kind = some (id, behind) ∧ Mimics lexemes room more behind := by
  unfold Routine.continuation?
  split
  · have arguments := @Mimics.chooseAt lexemes room _ _ _ _ (· == .leftParen) (rules .arguments 64) .done
    exact .inr ⟨_, _, _, rfl, rfl, .next .bump (.next (.expect _) arguments)⟩
  · exact .inr ⟨_, _, _, rfl, rfl, .next .bump (.next (expressions 0) (.expect _))⟩
  · exact .inr ⟨_, _, _, rfl, rfl, rules _ _⟩
  · exact .inr ⟨_, _, _, rfl, rfl, .bump⟩
  · exact .inr ⟨_, _, _, rfl, rfl, .bump⟩
  · rw [continuation?]
    · rcases binding? kind with - | ⟨left, right, id⟩
      · exact .inl ⟨rfl, rfl⟩
      dsimp only
      split
      · exact .inl ⟨rfl, rfl⟩
      split
      · exact .inr ⟨_, _, _, rfl, rfl, .next .bump (.next (expressions 0) (.next (.expect _) (expressions _)))⟩
      · exact .inr ⟨_, _, _, rfl, rfl, .next .bump (expressions _)⟩
    all_goals assumption

/-- Expressions, and what goes on behind a left operand, whose events begin where the cursor was before it. -/
private theorem mimics_expression {called : Rule → RuleId → Routine} {rule : Rule → RuleId → Parser} {front : Routine}
    {first : Parser} (rules : ∀ name id, Mimics lexemes room (called name id) (rule name id))
    (operands : Mimics lexemes room front first) (fuel : Nat) :
    (∀ power, Mimics lexemes room (Routine.expressionFrom lexemes called front fuel power)
      (expressionFrom rule first fuel power)) ∧
    ∀ power cursor middle left, cursor.depth + room = depthLimit →
      Agree lexemes cursor ⟨left, kindsOf (seenFrom lexemes middle.position), none⟩ (middle, none) →
      Agree lexemes cursor (operatorsFrom rule first fuel power left (kindsOf (seenFrom lexemes middle.position)))
        (Routine.operatorsFrom lexemes called front fuel power cursor.events.length middle) := by
  induction fuel with
  | zero => exact ⟨fun _ => .done, fun power cursor middle left _ agree => agree⟩
  | succ fuel ih =>
    obtain ⟨expressions, operators⟩ := ih
    constructor
    · intro power cursor rests space
      have start := operands cursor rests space
      rw [expressionFrom, Routine.expressionFrom]
      dsimp only
      obtain ⟨marks, middle, ended, stopped⟩ | ⟨marks, rest, wanted, middle, ended, stopped⟩ := start.cases
      · rw [ended, stopped] at start ⊢
        exact operators power cursor middle marks space start
      · rw [ended, stopped] at start ⊢
        exact start
    · intro power cursor middle left space agree
      rw [operatorsFrom, Routine.operatorsFrom]
      dsimp only
      rw [kindAt_eq lexemes agree.rests]
      obtain ⟨none, other⟩ | ⟨id, more, behind, found, other, mimics⟩ :=
        mimics_continuation rules expressions power (current (kindsOf (seenFrom lexemes middle.position)))
      · rw [none, other]
        exact agree
      · rw [found, other]
        have entered := agree.precede id
        have continued := mimics (middle.precede cursor.events.length id) entered.rests
          (by rw [entered.depth]; exact space)
        have stands : (middle.precede cursor.events.length id).position = middle.position := rfl
        rw [stands] at continued
        dsimp only
        obtain ⟨marks, last, ended, stopped⟩ | ⟨marks, rest, wanted, last, ended, stopped⟩ := continued.cases
        · rw [ended, stopped] at continued ⊢
          have closed := (entered.append continued).exit
          rw [List.append_assoc, List.cons_append] at closed
          exact operators power cursor (last.note .exit) _ space closed
        · rw [ended, stopped] at continued ⊢
          exact entered.append continued

private theorem mimics_full {name : String} {id : RuleId} {body : Routine} :
    Mimics lexemes 0 (Routine.enclosed lexemes name id body) (tooDeep name) := by
  intro cursor rests full
  have reached : cursor.depth = depthLimit := full
  rw [Routine.enclosed, if_pos reached]
  exact Mimics.fail _ cursor rests full

theorem mimics_calls {limit : Nat} (fuelled : 0 < limit) (room : Nat) :
    (Routine.calls lexemes limit (room + 1)).Mimic lexemes room (level limit room) := by
  induction room with
  | zero =>
    have operands :
        Mimics lexemes 0 (Routine.operand lexemes (Routine.calls lexemes limit 0)) (tooDeep expressionName) := by
      intro cursor rests full
      unfold Routine.operand
      split
      · exact mimics_full cursor rests full
      · exact mimics_full cursor rests full
    refine ⟨fun _ _ => mimics_full, ?_⟩
    intro power cursor rests full
    have start := operands cursor rests full
    obtain ⟨fuel, rfl⟩ := Nat.exists_eq_add_one_of_ne_zero (Nat.ne_of_gt fuelled)
    rw [Routine.calls]
    dsimp only
    rw [Routine.expressionFrom]
    dsimp only
    obtain ⟨marks, last, ended, -⟩ | ⟨marks, rest, wanted, last, -, stopped⟩ := start.cases
    · cases congrArg Outcome.failure ended
    · rw [stopped] at start ⊢
      exact start
  | succ room inner =>
    have rules : ∀ (rule : Rule) id, Mimics lexemes (room + 1)
        (Routine.enclosed lexemes rule.name id
          (Routine.perform lexemes limit (Routine.calls lexemes limit (room + 1)) rule.body))
        (Parser.enclosed rule.name id (rule.body.run limit (level limit room))) :=
      fun rule id => .enclosed (mimics_perform limit inner rule.body)
    exact ⟨rules, (mimics_expression rules (mimics_operand inner) limit).1⟩

private theorem found_eq {position : Nat} (rests : Rests lexemes position) :
    lexemes[position]? = (seenFrom lexemes position).head?.map Prod.fst := by
  obtain ⟨lexeme, found, -, -, seen⟩ | ⟨found, -, -, seen⟩ := seenFrom_cases lexemes rests <;> rw [found, seen] <;> rfl

/-- The cursor makes the events of the parser that sees the visible tokens only. -/
theorem cursor_events (lexemes : List Lexeme) : Routine.events lexemes = events lexemes := by
  obtain ⟨rests, seen⟩ := visibleFrom_spec lexemes 0
  have whole : seenFrom lexemes 0 = visible lexemes := rfl
  have agree := (mimics_calls (Nat.succ_pos (visible lexemes).length) depthLimit).rule .compilationUnit 1
    ⟨Routine.visibleFrom lexemes 0, 0, []⟩ rests (Nat.zero_add _)
  have parsed : (level ((visible lexemes).length + 1) depthLimit).rule .compilationUnit 1
      (kindsOf (visible lexemes)) = parseKinds (kindsOf (visible lexemes)) := by
    rw [parseKinds, kindsOf, List.length_map]
  dsimp only at agree
  rw [seen, whole, parsed] at agree
  unfold Routine.events events
  dsimp only
  rw [← kindsOf]
  obtain ⟨marks, last, ended, stopped⟩ | ⟨marks, rest, wanted, last, ended, stopped⟩ := agree.cases
  · rw [ended, stopped] at agree ⊢
    have noted := agree.events
    rw [seen, whole] at noted
    exact (List.append_nil _).trans noted
  · rw [ended, stopped] at agree ⊢
    have noted : last.events = [] ++ number ((seenFrom lexemes (Routine.visibleFrom lexemes 0)).map Prod.snd) marks :=
      agree.events
    rw [seen, whole, List.nil_append] at noted
    have left : seenFrom lexemes last.position =
        (visible lexemes).drop ((visible lexemes).length - rest.length) := by
      have remains : rest = kindsOf (seenFrom lexemes last.position) := agree.rest
      have behind : seenFrom lexemes last.position = (seenFrom lexemes _).drop (marks.count .take) := agree.seen
      dsimp only at behind
      rw [seen, whole] at behind
      rw [remains, kindsOf, List.length_map, behind, List.length_drop]
      by_cases short : marks.count .take ≤ (visible lexemes).length
      · rw [Nat.sub_sub_self short]
      · rw [List.drop_of_length_le (by omega), List.drop_of_length_le (by omega)]
    dsimp only
    rw [noted, Option.toList_some, List.map_singleton, Routine.complaint, found_eq agree.rests, left]

end

end Verbatim.MiniJava
