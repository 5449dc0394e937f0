import Verbatim.Proofs.MiniJavaProgress

/-! Runs end. A task has at most one run from a cursor, and the routines have found it: each round of a loop and each
operator takes a token, so that fuel for all visible tokens is never used up, and what is nested too deep fails. -/

namespace Verbatim.MiniJava

variable {lexemes : List Lexeme} {task first second body : Task} {cursor last : Cursor}
  {result : Cursor × Option Diagnostic} {given : List Kind → Prop}

private theorem current_ahead (position : Nat) :
    current (Routine.ahead lexemes position) = Routine.kindAt lexemes position := by
  rw [Routine.kindAt, ← List.head?_drop, Routine.ahead]
  split
  next none => rw [none]; rfl
  next here => rw [here]; rfl

theorem Runs.unique (one : Runs lexemes task cursor result) :
    ∀ {other}, Runs lexemes task cursor other → result = other := by
  induction one with
  | done | bump | expect | fail =>
    intro other runs
    cases runs
    rfl
  | call called ih =>
    intro other runs
    cases runs with
    | call also => exact ih also
  | whole inner ih =>
    intro other runs
    cases runs with
    | whole also => exact ih also
  | steps both ih =>
    intro other runs
    cases runs with
    | steps also => exact ih also
  | choose chosen ih =>
    intro other runs
    cases runs with
    | choose also => exact ih also
  | loop round ih =>
    intro other runs
    cases runs with
    | loop also => exact ih also
  | next front back before behind =>
    intro other runs
    cases runs with
    | next early late =>
      cases before early
      exact behind late
    | broken early => cases before early
  | broken front ih =>
    intro other runs
    cases runs with
    | next early late => cases ih early
    | broken early => exact ih early
  | full reached =>
    intro other runs
    cases runs with
    | full => rfl
    | enclosed room inner => exact absurd reached room
  | enclosed room inner ih =>
    intro other runs
    cases runs with
    | full reached => exact absurd reached room
    | enclosed room also =>
      cases ih also
      rfl
  | expression both ih =>
    intro other runs
    cases runs with
    | expression also => exact ih also
  | ended stops =>
    intro other runs
    cases runs with
    | ended => rfl
    | operator found | unfinished found => cases stops.symm.trans found
  | operator found inner later before behind =>
    intro other runs
    cases runs with
    | ended stops => cases stops.symm.trans found
    | operator same early late =>
      cases found.symm.trans same
      cases before early
      exact behind late
    | unfinished same early =>
      cases found.symm.trans same
      cases before early
  | unfinished found inner ih =>
    intro other runs
    cases runs with
    | ended stops => cases stops.symm.trans found
    | operator same early late =>
      cases found.symm.trans same
      cases ih early
    | unfinished same early =>
      cases found.symm.trans same
      exact ih early

private theorem bump_depth (lexemes : List Lexeme) (cursor : Cursor) :
    (Routine.bump lexemes cursor).1.depth = cursor.depth := by
  unfold Routine.bump
  split <;> rfl

theorem Runs.depth (runs : Runs lexemes task cursor result) : result.1.depth = cursor.depth := by
  induction runs with
  | done | fail | full | ended => rfl
  | bump => exact bump_depth lexemes _
  | expect =>
    unfold Routine.expect
    split
    · exact bump_depth lexemes _
    · rfl
  | call called ih | whole inner ih | steps both ih | choose chosen ih | loop round ih | expression both ih
  | broken front ih | unfinished found inner ih => exact ih
  | next front back before behind => exact behind.trans before
  | operator found inner later before behind => exact behind.trans before
  | @enclosed name id body cursor last failure room inner ih =>
    have deeper : last.depth = cursor.depth + 1 := ih
    cases failure with
    | none | some diagnostic => exact (congrArg (· - 1) deeper).trans (Nat.add_sub_cancel ..)

/-- Behind a task there are no more visible tokens than before it, and fewer behind one that takes some. -/
theorem Runs.fewer (ended : Ended lexemes) (runs : Runs lexemes task cursor (last, none)) (careful : task.Careful given)
    (fits : ∀ start, task.Fits start) (stands : OnVisible lexemes cursor.position)
    (holds : given (kindsOf (seenFrom lexemes cursor.position))) :
    (seenFrom lexemes last.position).length + task.takes.toNat ≤ (seenFrom lexemes cursor.position).length := by
  obtain ⟨count, advances, taken⟩ := (runs.passes ended careful stands holds).count (fits _) stands.rests
  have enough := advances.consumes.enough
  rw [advances.consumes.left, List.length_drop]
  cases takes : task.takes with
  | false => exact Nat.sub_le ..
  | true =>
    have := taken takes
    simp only [Bool.toNat_true]
    omega

private theorem exists_failure (failed : ∀ last, result = (last, none) → False) :
    ∃ last diagnostic, result = (last, some diagnostic) := by
  obtain ⟨last, failure⟩ := result
  cases failure with
  | none => exact absurd rfl (failed last)
  | some diagnostic => exact ⟨last, diagnostic, rfl⟩

/-- A routine that runs a task at some depth, where something is given and fewer visible tokens are left than the fuel
is for. -/
def Fulfils (lexemes : List Lexeme) (depth fuel : Nat) (given : List Kind → Prop) (task : Task) (routine : Routine) :
    Prop :=
  ∀ cursor, OnVisible lexemes cursor.position → cursor.depth = depth →
    (seenFrom lexemes cursor.position).length < fuel → given (kindsOf (seenFrom lexemes cursor.position)) →
      Runs lexemes task cursor (routine cursor)

structure Calls.Fulfil (calls : Calls) (lexemes : List Lexeme) (depth limit : Nat) : Prop where
  rule : ∀ rule id, rule ≠ .compilationUnit →
    MiniJava.Fulfils lexemes depth limit rule.given (.call rule id) (calls.rule rule id)
  expression : ∀ power, MiniJava.Fulfils lexemes depth limit anywhere (.expression power) (calls.expression power)

namespace Fulfils

variable {depth fuel less : Nat} {one other routine : Routine} {test : Look} {single yes no : Step}

theorem done : Fulfils lexemes depth fuel given (.step .done) fun cursor => (cursor, none) := fun _ _ _ _ _ => .done

theorem bump : Fulfils lexemes depth fuel given (.step .bump) (Routine.bump lexemes) := fun _ _ _ _ _ => .bump

theorem expect (kind : Kind) : Fulfils lexemes depth fuel given (.step (.expect kind)) (Routine.expect lexemes kind) :=
  fun _ _ _ _ _ => .expect

theorem shorten (fewer : less ≤ fuel) (fulfils : Fulfils lexemes depth fuel given task routine) :
    Fulfils lexemes depth less given task routine :=
  fun cursor stands level short holds => fulfils cursor stands level (Nat.lt_of_lt_of_le short fewer) holds

theorem weaken {stronger : List Kind → Prop} (weaker : ∀ ahead, stronger ahead → given ahead)
    (fulfils : Fulfils lexemes depth fuel given task routine) : Fulfils lexemes depth fuel stronger task routine :=
  fun cursor stands level short holds => fulfils cursor stands level short (weaker _ holds)

theorem everywhere (fulfils : Fulfils lexemes depth fuel anywhere task routine) :
    Fulfils lexemes depth fuel given task routine :=
  fulfils.weaken fun _ _ => trivial

/-- Behind a first task that takes a token there is fuel to spare. -/
theorem next (ended : Ended lexemes) (careful : first.Careful given) (fits : ∀ start, first.Fits start)
    (spare : fuel ≤ less + first.takes.toNat) (front : Fulfils lexemes depth fuel given first one)
    (back : Fulfils lexemes depth less (first.known given) second other) :
    Fulfils lexemes depth fuel given (.next first second) (Routine.next one other) := by
  intro cursor stands level short holds
  have run := front cursor stands level short holds
  unfold Routine.next
  split
  next middle found =>
    rw [found] at run
    have passes := run.passes ended careful stands holds
    have fewer := run.fewer ended careful fits stands holds
    exact .next run (back middle passes.stands (run.depth.trans level) (by omega) (passes.known rfl))
  next failed =>
    obtain ⟨last, diagnostic, found⟩ := exists_failure failed
    rw [found] at run ⊢
    exact .broken run

theorem step {first second : Step}
    (fulfils : Fulfils lexemes depth fuel given (.next (.step first) (.step second)) routine) :
    Fulfils lexemes depth fuel given (.step (.next first second)) routine :=
  fun cursor stands level short holds => .steps (fulfils cursor stands level short holds)

theorem steps {first second : Step} (ended : Ended lexemes) (careful : first.Careful given)
    (front : Fulfils lexemes depth fuel given (.step first) one)
    (back : Fulfils lexemes depth fuel (first.known given) (.step second) other) :
    Fulfils lexemes depth fuel given (.step (.next first second)) (Routine.next one other) := by
  have both : Fulfils lexemes depth fuel given (.next (.step first) (.step second)) (Routine.next one other) :=
    next ended careful (fun _ => trivial) (Nat.le_add_right ..) front back
  exact both.step

theorem choose (holds : Fulfils lexemes depth fuel (fun ahead => given ahead ∧ test ahead = true) (.step yes) one)
    (fails : Fulfils lexemes depth fuel given (.step no) other) :
    Fulfils lexemes depth fuel given (.step (.choose test yes no))
      (fun cursor => if test (Routine.ahead lexemes cursor.position) then one cursor else other cursor) := by
  intro cursor stands level short hold
  apply Runs.choose
  dsimp only
  rw [ahead_eq lexemes stands.rests]
  split
  next answer => exact holds cursor stands level short ⟨hold, answer⟩
  next => exact fails cursor stands level short hold

theorem call {rule : Rule} {id : RuleId} (fulfils : Fulfils lexemes depth fuel given (.call rule id) routine) :
    Fulfils lexemes depth fuel given (.step (.call rule id)) routine :=
  fun cursor stands level short holds => .call (fulfils cursor stands level short holds)

theorem whole (fulfils : Fulfils lexemes depth fuel given (.expression 0) routine) :
    Fulfils lexemes depth fuel given (.step .expression) routine :=
  fun cursor stands level short holds => .whole (fulfils cursor stands level short holds)

theorem loop (ended : Ended lexemes) (takes : single.takes = true)
    (careful : single.Careful fun ahead => test ahead = true) {limit : Nat}
    (inside : Fulfils lexemes depth limit (fun ahead => test ahead = true) (.step single) one)
    (fuelled : fuel ≤ limit) :
    Fulfils lexemes depth fuel given (.step (.loop test single)) (Routine.loop lexemes test one fuel) := by
  induction fuel generalizing given with
  | zero => exact fun _ _ _ short _ => absurd short (Nat.not_lt_zero _)
  | succ fuel ih =>
    intro cursor stands level short _
    apply Runs.loop
    rw [Routine.loop]
    dsimp only
    rw [ahead_eq lexemes stands.rests]
    split
    next answer =>
      have spare : fuel + 1 ≤ fuel + (Task.step single).takes.toNat := by
        rw [Task.takes, takes]
        exact Nat.le_refl _
      have round : Fulfils lexemes depth (fuel + 1) (fun ahead => test ahead = true)
          (.next (.step single) (.step (.loop test single))) (Routine.next one (Routine.loop lexemes test one fuel)) :=
        next ended careful (fun _ => trivial) spare (inside.shorten fuelled) (ih (Nat.le_of_succ_le fuelled))
      exact .steps (round cursor stands level short answer)
    next => exact .done

theorem enclosed {name : String} {id : RuleId}
    (inside : depth ≠ depthLimit → Fulfils lexemes (depth + 1) fuel given body routine) :
    Fulfils lexemes depth fuel given (.enclosed name id body) (Routine.enclosed lexemes name id routine) := by
  intro cursor stands level short holds
  unfold Routine.enclosed
  split
  next reached => exact .full reached
  next room =>
    have run := inside (by rw [← level]; exact room) (cursor.enter name id) stands (congrArg (· + 1) level) short holds
    have entered : { cursor.note (.enter name id) with depth := cursor.depth + 1 } = cursor.enter name id := rfl
    rw [entered]
    generalize routine (cursor.enter name id) = outcome at run
    obtain ⟨last, failure⟩ := outcome
    cases failure with
    | none | some diagnostic => exact .enclosed room run

end Fulfils

section

variable {depth limit : Nat} {calls inner : Calls}

private theorem fulfils_perform (ended : Ended lexemes) (fulfils : calls.Fulfil lexemes depth limit) {step : Step}
    (careful : step.Careful given) :
    Fulfils lexemes depth limit given (.step step) (Routine.perform lexemes limit calls step) := by
  induction step generalizing given with
  | done => exact .done
  | bump => exact .bump
  | expect kind => exact .expect kind
  | call rule id => exact .call ((fulfils.rule rule id careful.1).weaken careful.2)
  | expression => exact .whole (fulfils.expression 0).everywhere
  | fail wanted => exact fun _ _ _ _ _ => .fail
  | next first second front back => exact .steps ended careful.1 (front careful.1) (back careful.2)
  | choose test yes no holds fails => exact .choose (holds careful.1) (fails careful.2)
  | loop test body inside => exact .loop ended careful.1 careful.2 (inside careful.2) (Nat.le_refl limit)

private theorem fulfils_operand (ended : Ended lexemes)
    (deeper : depth ≠ depthLimit → inner.Fulfil lexemes (depth + 1) limit)
    (kind : Kind) :
    Fulfils lexemes depth limit (fun ahead => current ahead = kind) (.operand kind)
      (Routine.operand lexemes inner) := by
  have careful := Task.careful_operand kind
  intro cursor stands level short here
  have same := (kindAt_eq lexemes stands.rests).trans here
  unfold Routine.operand
  unfold Task.operand at careful ⊢
  rw [same]
  split
  next unary =>
    rw [if_pos unary] at careful
    have fulfils : Fulfils lexemes depth limit (fun ahead => current ahead = kind)
        (.enclosed expressionName 60 (.next (.step .bump) (.expression unaryPower)))
        (Routine.enclosed lexemes expressionName 60
          (Routine.next (Routine.bump lexemes) (inner.expression unaryPower))) :=
      .enclosed fun room => .next ended careful.2.2.1 (fun _ => trivial) (Nat.le_add_right ..) .bump
        ((deeper room).expression unaryPower).everywhere
    exact fulfils cursor stands level short here
  next =>
    have fulfils : Fulfils lexemes depth limit anywhere (.enclosed expressionName 61 (.step (.call .primary 62)))
        (Routine.enclosed lexemes expressionName 61 (inner.rule .primary 62)) :=
      .enclosed fun room => .call ((deeper room).rule .primary 62 (by decide))
    exact fulfils cursor stands level short trivial

private theorem fulfils_continuation (ended : Ended lexemes) {called : Rule → RuleId → Routine} {within : Nat → Routine}
    {fuel : Nat}
    (arguments : ∀ id, Fulfils lexemes depth (fuel + 1) anywhere (.call .arguments id) (called .arguments id))
    (expressions : ∀ power, Fulfils lexemes depth fuel anywhere (.expression power) (within power))
    (power : Nat) (kind : Kind) :
    (Routine.continuation? lexemes called within power kind = none ∧ Task.continuation? power kind = none) ∨
      ∃ id routine more, Routine.continuation? lexemes called within power kind = some (id, routine) ∧
        Task.continuation? power kind = some (id, more) ∧
          Fulfils lexemes depth (fuel + 1) (fun ahead => current ahead = kind) more routine := by
  have behind {second : Task} {other : Routine} (inner : kind ≠ .eof)
      (back : Fulfils lexemes depth fuel anywhere second other) :
      Fulfils lexemes depth (fuel + 1) (fun ahead => current ahead = kind) (.next (.step .bump) second)
        (Routine.next (Routine.bump lexemes) other) :=
    .next ended (Step.careful_at inner) (fun _ => trivial) (Nat.le_refl _) .bump back.everywhere
  unfold Routine.continuation?
  split
  · have member : Fulfils lexemes depth fuel anywhere (.step (.perhaps (.on .leftParen) (.call .arguments 64)))
        fun cursor => if Routine.kindAt lexemes cursor.position == .leftParen then called .arguments 64 cursor
          else (cursor, none) := by
      simp only [← current_ahead]
      exact .choose (.call ((arguments 64).shorten (Nat.le_succ fuel)).everywhere) .done
    have named : Fulfils lexemes depth fuel anywhere
        (.step (.next (.expect .identifier) (.perhaps (.on .leftParen) (.call .arguments 64)))) _ :=
      .steps ended Step.careful_expect (.expect .identifier) member.everywhere
    exact .inr ⟨_, _, _, rfl, rfl, (behind (by decide) named).step⟩
  · have index : Fulfils lexemes depth fuel anywhere (.step (.next .expression (.expect .rightBracket))) _ :=
      .steps ended trivial (.whole (expressions 0)) (.expect .rightBracket)
    exact .inr ⟨_, _, _, rfl, rfl, (behind (by decide) index).step⟩
  · exact .inr ⟨_, _, _, rfl, rfl, .call (arguments _).everywhere⟩
  · exact .inr ⟨_, _, _, rfl, rfl, .bump⟩
  · exact .inr ⟨_, _, _, rfl, rfl, .bump⟩
  · rw [Task.continuation?]
    · rcases bound : binding? kind with - | ⟨left, right, id⟩
      · exact .inl ⟨rfl, rfl⟩
      have inner : kind ≠ .eof := fun last => by simp [last, binding?] at bound
      dsimp only
      split
      · exact .inl ⟨rfl, rfl⟩
      split
      · have colon : Fulfils lexemes depth fuel anywhere (.next (.step (.expect .colon)) (.expression right)) _ :=
          .next ended Step.careful_expect (fun _ => trivial) (Nat.le_add_right ..) (.expect .colon)
            (expressions right).everywhere
        have both : Fulfils lexemes depth fuel anywhere
            (.next (.expression 0) (.next (.step (.expect .colon)) (.expression right))) _ :=
          .next ended trivial (fun _ => trivial) (Nat.le_add_right ..) (expressions 0) colon
        exact .inr ⟨_, _, _, rfl, rfl, behind inner both⟩
      · exact .inr ⟨_, _, _, rfl, rfl, behind inner (expressions right)⟩
    all_goals assumption

/-- Expressions, and what goes on behind a left operand: each operator takes a token and a unit of fuel. -/
private theorem fulfils_expression (ended : Ended lexemes) {called : Rule → RuleId → Routine} {front : Routine}
    {fuel limit : Nat}
    (arguments : ∀ id, Fulfils lexemes depth limit anywhere (.call .arguments id) (called .arguments id))
    (operands : ∀ kind, Fulfils lexemes depth limit (fun ahead => current ahead = kind) (.operand kind) front)
    (fuelled : fuel ≤ limit) :
    (∀ power, Fulfils lexemes depth fuel anywhere (.expression power)
      (Routine.expressionFrom lexemes called front fuel power)) ∧
    ∀ power start, Fulfils lexemes depth fuel anywhere (.operators power start)
      (Routine.operatorsFrom lexemes called front fuel power start) := by
  induction fuel with
  | zero =>
    exact ⟨fun _ _ _ _ short _ => absurd short (Nat.not_lt_zero _),
      fun _ _ _ _ _ short _ => absurd short (Nat.not_lt_zero _)⟩
  | succ fuel ih =>
    obtain ⟨expressions, operators⟩ := ih (Nat.le_of_succ_le fuelled)
    constructor
    · intro power cursor stands level short _
      have here := (kindAt_eq lexemes stands.rests).symm
      have operand := operands (Routine.kindAt lexemes cursor.position)
      have spare : fuel + 1 ≤ fuel + (Task.operand (Routine.kindAt lexemes cursor.position)).takes.toNat := by
        rw [Task.operand_takes]
        exact Nat.le_refl _
      have both := Fulfils.next ended (Task.careful_operand _) (Task.operand_fits _) spare (operand.shorten fuelled)
        (operators power cursor.events.length).everywhere
      rw [Routine.expressionFrom]
      exact .expression (both cursor stands level short here)
    · intro power start cursor stands level short _
      have here := (kindAt_eq lexemes stands.rests).symm
      rw [Routine.operatorsFrom]
      dsimp only
      obtain ⟨none, stops⟩ | ⟨id, routine, more, continued, found, fulfils⟩ :=
        fulfils_continuation ended (fun id => (arguments id).shorten fuelled) expressions power
          (Routine.kindAt lexemes cursor.position)
      · rw [none]
        exact .ended stops
      · rw [continued]
        have continues := Task.continues found
        have run := fulfils (cursor.precede start id) stands level short here
        dsimp only
        split
        next behind succeeded =>
          rw [succeeded] at run
          have passes := run.passes ended continues.careful stands here
          have fewer := run.fewer ended continues.careful continues.fits stands here
          rw [continues.takes] at fewer
          exact .operator found run (operators power start (behind.note .exit) passes.stands (run.depth.trans level)
            (Nat.lt_of_lt_of_le fewer (Nat.le_of_lt_succ short)) trivial)
        next failed =>
          obtain ⟨last, diagnostic, outcome⟩ := exists_failure failed
          rw [outcome] at run ⊢
          exact .unfinished found run

private theorem fulfils_rule (ended : Ended lexemes)
    (deeper : depth ≠ depthLimit → inner.Fulfil lexemes (depth + 1) limit)
    {rule : Rule} (outer : rule ≠ .compilationUnit) (id : RuleId) :
    Fulfils lexemes depth limit rule.given (.call rule id)
      (Routine.enclosed lexemes rule.name id (Routine.perform lexemes limit inner rule.body)) :=
  .enclosed fun room => fulfils_perform ended (deeper room) (careful_body outer)

/-- Only the end of the source is taken without a look at it. -/
private theorem fulfils_unit (ended : Ended lexemes)
    (deeper : depth ≠ depthLimit → inner.Fulfil lexemes (depth + 1) limit)
    (id : RuleId) :
    Fulfils lexemes depth limit anywhere (.call .compilationUnit id)
      (Routine.enclosed lexemes Rule.compilationUnit.name id
        (Routine.perform lexemes limit inner Rule.compilationUnit.body)) :=
  .enclosed fun room => .steps ended (careful_declarations _)
    (fulfils_perform ended (deeper room) (careful_declarations _)) .bump

private theorem fulfils_level (ended : Ended lexemes) {fuel : Nat}
    (deeper : depth ≠ depthLimit → (Routine.calls lexemes limit fuel).Fulfil lexemes (depth + 1) limit) :
    (Routine.calls lexemes limit (fuel + 1)).Fulfil lexemes depth limit := by
  refine ⟨fun rule id outer => fulfils_rule ended deeper outer id, ?_⟩
  have arguments (id : RuleId) := fulfils_rule ended deeper (show Rule.arguments ≠ .compilationUnit by decide) id
  exact (fulfils_expression ended arguments (fulfils_operand ended deeper) (Nat.le_refl limit)).1

private theorem fulfils_calls (ended : Ended lexemes) {room : Nat} (space : depth + room = depthLimit) :
    (Routine.calls lexemes limit (room + 1)).Fulfil lexemes depth limit := by
  induction room generalizing depth with
  | zero => exact fulfils_level ended fun shallow => absurd space shallow
  | succ room ih => exact fulfils_level ended fun _ => ih (by omega)

end

private theorem length_seenFrom_lt (lexemes : List Lexeme) (position : Nat) :
    (seenFrom lexemes position).length < (visible lexemes).length + 1 := by
  have bound := length_seenFrom_le lexemes position
  rw [kindsOf, List.length_map] at bound
  exact Nat.lt_succ_of_le bound

/-- What a routine does is the only run of the task that it fulfils. -/
private theorem Fulfils.runs_iff {depth fuel : Nat} {routine : Routine}
    (fulfils : Fulfils lexemes depth fuel given task routine) (stands : OnVisible lexemes cursor.position)
    (level : cursor.depth = depth) (short : (seenFrom lexemes cursor.position).length < fuel)
    (holds : given (kindsOf (seenFrom lexemes cursor.position))) :
    Runs lexemes task cursor result ↔ routine cursor = result := by
  have run := fulfils cursor stands level short holds
  exact ⟨run.unique, fun same => same ▸ run⟩

section

variable (ended : Ended lexemes) (stands : OnVisible lexemes cursor.position) (depth : cursor.depth ≤ depthLimit)

include ended stands depth

theorem runs_expression_iff (power : Nat) :
    Runs lexemes (.expression power) cursor result ↔
      (callsAt lexemes cursor.depth).expression power cursor = result := by
  obtain ⟨room, space⟩ := Nat.exists_eq_add_of_le depth
  rw [callsAt_eq space.symm]
  exact ((fulfils_calls ended space.symm).expression power).runs_iff stands rfl (length_seenFrom_lt ..) trivial

theorem runs_rule_iff {rule : Rule} {id : RuleId} (holds : rule.given (kindsOf (seenFrom lexemes cursor.position))) :
    Runs lexemes (.call rule id) cursor result ↔ (callsAt lexemes cursor.depth).rule rule id cursor = result := by
  obtain ⟨room, space⟩ := Nat.exists_eq_add_of_le depth
  rw [callsAt_eq space.symm]
  by_cases outer : rule = .compilationUnit
  · subst outer
    have deeper (shallow : cursor.depth ≠ depthLimit) :
        (Routine.calls lexemes ((visible lexemes).length + 1) room).Fulfil lexemes (cursor.depth + 1)
          ((visible lexemes).length + 1) := by
      obtain ⟨room, rfl⟩ := Nat.exists_eq_add_one_of_ne_zero (fun none : room = 0 => shallow (by omega))
      exact fulfils_calls ended (by omega)
    exact (fulfils_unit ended deeper id).runs_iff stands rfl (length_seenFrom_lt ..) trivial
  · exact ((fulfils_calls ended space.symm).rule rule id outer).runs_iff stands rfl (length_seenFrom_lt ..) holds

end

end Verbatim.MiniJava
