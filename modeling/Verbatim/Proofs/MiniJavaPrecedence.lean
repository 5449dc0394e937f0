import Verbatim.Proofs.MiniJavaAccepting
import Verbatim.Proofs.MiniJavaOperands

/-! Parsing by precedence takes a row of operands from left to right. An expression of some power ends in
front of the first operator that binds less tightly, and the operators that are left to the caller are
exactly the ones from there on. -/

namespace Verbatim.MiniJava

/-- How tightly an operator binds the operand before it. -/
def Kind.leftPower (kind : Kind) : Nat := ((binding? kind).map fun entry => entry.1).getD 0

/-- The least power of the operators in the operand behind an operator. -/
def Kind.rightPower (kind : Kind) : Nat := ((binding? kind).map fun entry => entry.2.1).getD 0

def remaining (power : Nat) (segments : List Segment) : List Segment :=
  segments.dropWhile fun segment => decide (power ≤ segment.operator.leftPower)

/-- A parser takes rows of operands up to the operator where its power ends. -/
def TakesRows (limit room : Nat) (parser : Nat → Parser) : Prop :=
  ∀ power operand segments rest, Operand operand → (∀ segment ∈ segments, segment.Derived) →
    (current rest).continues = false → (operand ++ (Segment.words segments ++ rest)).length < limit →
    Leaves room (parser power (operand ++ (Segment.words segments ++ rest)))
      (Segment.words (remaining power segments) ++ rest)

/-- An operator that is taken inside of an operand would also have been taken outside. -/
private theorem leftPower_of_rightPower_le : ∀ outer inner : Kind, outer.isOperator = true → inner.isOperator = true →
    outer.rightPower ≤ inner.leftPower → outer.leftPower ≤ inner.leftPower := by
  decide +kernel

private theorem leftPower_lt_unaryPower : ∀ kind : Kind, kind.leftPower < unaryPower := by decide

section

variable {segments : List Segment}

private theorem remaining_zero : remaining 0 segments = [] := by
  induction segments with
  | nil => rfl
  | cons segment segments ih => exact ih

private theorem remaining_of_tight {power : Nat} {segment : Segment} (tight : power ≤ segment.operator.leftPower) :
    remaining power (segment :: segments) = remaining power segments :=
  List.dropWhile_cons_of_pos (by simpa using tight)

private theorem remaining_of_loose {power : Nat} {segment : Segment} (loose : segment.operator.leftPower < power) :
    remaining power (segment :: segments) = segment :: segments :=
  List.dropWhile_cons_of_neg (by simpa using loose)

theorem remaining_unaryPower : remaining unaryPower segments = segments := by
  cases segments with
  | nil => rfl
  | cons segment segments =>
    exact remaining_of_loose (leftPower_lt_unaryPower segment.operator)

private theorem remaining_sub {power : Nat} : ∀ segment ∈ remaining power segments, segment ∈ segments :=
  fun _ member => (List.dropWhile_sublist _).subset member

private theorem length_words_remaining (power : Nat) (segments : List Segment) :
    (Segment.words (remaining power segments)).length ≤ (Segment.words segments).length := by
  obtain ⟨front, same⟩ : remaining power segments <:+ segments := List.dropWhile_suffix _
  rw [← same, Segment.words_append, same, List.length_append]
  exact Nat.le_add_left _ _

private theorem remaining_remaining {power : Nat} {outer : Kind} (operator : outer.isOperator = true)
    (tight : power ≤ outer.leftPower) (derived : ∀ segment ∈ segments, segment.Derived) :
    remaining power (remaining outer.rightPower segments) = remaining power segments := by
  induction segments with
  | nil => rfl
  | cons segment segments ih =>
    obtain ⟨first, others⟩ := List.forall_mem_cons.mp derived
    by_cases inside : outer.rightPower ≤ segment.operator.leftPower
    · have also := Nat.le_trans tight (leftPower_of_rightPower_le _ _ operator first.isOperator inside)
      rw [remaining_of_tight inside, remaining_of_tight also]
      exact ih others
    · rw [remaining_of_loose (Nat.lt_of_not_le inside)]

end

theorem TakesRows.accepts {limit room : Nat} {parser : Nat → Parser} (rows : TakesRows limit room parser)
    (sound : Sound (parser 0)) :
    Accepts limit room (parser 0) .expression (before fun kind => !kind.continues) := by
  refine ⟨sound, fun word rest derives fit short => ?_⟩
  obtain ⟨operand, segments, first, derived, rfl⟩ := derives.chain
  rw [List.append_assoc] at short ⊢
  have taken := rows 0 operand segments rest first derived (by simpa [before] using fit) short
  rw [remaining_zero] at taken
  exact taken

section

variable {rule : Rule → RuleId → Parser} {expression : Nat → Parser} {power : Nat} {kind : Kind}

theorem continuation?_of_stop (stop : kind.continues = false) : continuation? rule expression power kind = none := by
  have unbound : ∀ kind : Kind, kind.continues = false → binding? kind = none := by decide
  unfold continuation?
  split <;> first | contradiction | rw [unbound kind stop]

private theorem binding?_of_isOperator (operator : kind.isOperator = true) :
    ∃ id, binding? kind = some (kind.leftPower, kind.rightPower, id) := by
  have bound : ∀ kind : Kind, kind.isOperator = true → (binding? kind).isSome = true := by decide
  obtain ⟨⟨left, right, id⟩, same⟩ := Option.isSome_iff_exists.mp (bound kind operator)
  exact ⟨id, by simp [Kind.leftPower, Kind.rightPower, same]⟩

private theorem continuation?_of_isOperator (rule : Rule → RuleId → Parser) (expression : Nat → Parser) (power : Nat)
    (operator : kind.isOperator = true) :
    ∃ id, continuation? rule expression power kind =
      if kind.leftPower < power then none
      else if kind == .question then
        some (id, .next .bump (.next (expression 0) (.next (.expect .colon) (expression kind.rightPower))))
      else some (id, .next .bump (expression kind.rightPower)) := by
  obtain ⟨id, bound⟩ := binding?_of_isOperator operator
  refine ⟨id, ?_⟩
  unfold continuation?
  split <;> first | contradiction | simp only [bound]

end

section

variable {room fuel power : Nat} {rule : Rule → RuleId → Parser} {first : Parser} {left : List Mark}
  {ahead middle rest : List Kind}

private theorem Leaves.operators_stop
    (stops : continuation? rule (expressionFrom rule first fuel) power (current ahead) = none) :
    Leaves room (operatorsFrom rule first (fuel + 1) power left ahead) ahead := by
  rw [operatorsFrom]
  dsimp only
  rw [stops]
  exact .inl ⟨rfl, rfl⟩

/-- An operator or a trailer is taken, and the node around it is the left operand of what comes next. -/
private theorem Leaves.operators_step {id : RuleId} {behind : Parser} (course : Course 0 left)
    (continued : continuation? rule (expressionFrom rule first fuel) power (current ahead) = some (id, behind))
    (sound : Sound behind) (taken : Leaves room (behind ahead) middle)
    (later : ∀ left, Course 0 left → Leaves room (operatorsFrom rule first fuel power left middle) rest) :
    Leaves room (operatorsFrom rule first (fuel + 1) power left ahead) rest := by
  rw [operatorsFrom]
  dsimp only
  rw [continued]
  obtain ⟨depth, inner, closed⟩ := sound ahead
  dsimp only
  generalize behind ahead = outcome at *
  obtain ⟨marks, _, failure⟩ := outcome
  rcases taken with ⟨rfl, rfl⟩ | ⟨⟨name, rfl⟩, deeper, above, inside⟩
  · obtain rfl := closed rfl
    have whole := ((course.append inner).enter id (.inl rfl)).exit
    rw [List.cons_append, List.append_assoc] at whole
    exact later _ whole
  · exact .inr ⟨⟨name, rfl⟩, 0 + deeper + 1, by omega, (course.append inside).enter id (.inl rfl)⟩

private theorem split_arguments {trailers tail : List Kind} (derives : Derives (.many trailerForm) trailers)
    (closed : current tail ≠ .leftParen) :
    ∃ arguments more, trailers = arguments ++ more ∧ Derives (.many trailerForm) more ∧
      (Derives (.rule .arguments) arguments ∨ arguments = [] ∧ current (more ++ tail) ≠ .leftParen) := by
  induction derives using Derives.manyInduction with
  | none => exact ⟨[], [], rfl, .none, .inr ⟨rfl, closed⟩⟩
  | more front back trailer rest _ =>
    rcases trailer_cases trailer with ⟨more, -, rfl⟩ | ⟨index, -, rfl⟩ | arguments | ⟨kind, step, rfl⟩
    · exact ⟨[], _, rfl, .more trailer rest, .inr ⟨rfl, by simp [current]⟩⟩
    · exact ⟨[], _, rfl, .more trailer rest, .inr ⟨rfl, by simp [current]⟩⟩
    · exact ⟨front, back, rfl, rest, .inl arguments⟩
    · refine ⟨[], _, rfl, .more trailer rest, .inr ⟨rfl, ?_⟩⟩
      rintro same
      obtain rfl : kind = .leftParen := same
      cases step

/-- A parser takes an operand, or at least so much of it that only trailers are left. -/
def TakesOperands (limit room : Nat) (parser : Parser) : Prop :=
  ∀ operand segments rest, Operand operand → (∀ segment ∈ segments, segment.Derived) →
    (current rest).continues = false → (operand ++ (Segment.words segments ++ rest)).length < limit →
    ∃ trailers, Derives (.many trailerForm) trailers ∧ trailers.length < operand.length ∧
      Leaves room (parser (operand ++ (Segment.words segments ++ rest))) (trailers ++ (Segment.words segments ++ rest))

private theorem leaves_trailer (power : Nat) {trailers tail : List Kind} {expression : Nat → Parser}
    (arguments : ∀ id, Accepts (fuel + 1) room (rule .arguments id) (.rule .arguments) (before fun _ => true))
    (expressions : Accepts fuel room (expression 0) .expression (before fun kind => !kind.continues))
    (derives : Derives (.many trailerForm) trailers) (more : trailers ≠ []) (closed : current tail ≠ .leftParen)
    (short : (trailers ++ tail).length < fuel + 1) :
    ∃ id behind later, continuation? rule expression power (current (trailers ++ tail)) = some (id, behind) ∧
      Derives (.many trailerForm) later ∧ later.length < trailers.length ∧
      Leaves room (behind (trailers ++ tail)) (later ++ tail) := by
  cases derives with
  | none => exact absurd rfl more
  | @more _ front back trailer others =>
    rw [List.append_assoc] at short ⊢
    rcases trailer_cases trailer with ⟨given, called, rfl⟩ | ⟨index, inner, rfl⟩ | called | ⟨kind, step, rfl⟩
    · -- arguments behind a name belong to it, even if the trailers say otherwise
      have calls : ∃ passed later, given ++ back = passed ++ later ∧ Derives (.many trailerForm) later ∧
          (Derives (.rule .arguments) passed ∨ passed = [] ∧ current (later ++ tail) ≠ .leftParen) := by
        rcases called with rfl | called
        · exact split_arguments others closed
        · exact ⟨given, back, rfl, others, .inl called⟩
      obtain ⟨passed, later, same, rest, called⟩ := calls
      have whole : Kind.dot :: .identifier :: given ++ (back ++ tail) =
          .dot :: .identifier :: (passed ++ (later ++ tail)) := by
        rw [List.cons_append, List.cons_append, ← List.append_assoc, same, List.append_assoc]
      have size := congrArg List.length same
      rw [whole] at short ⊢
      refine ⟨63, _, later, rfl, rest, ?_, .next .bump .bump (.next (.expect _) .expect ?_)⟩
      · simp at size ⊢
        omega
      · rcases called with called | ⟨rfl, other⟩
        · have opened : (current (passed ++ (later ++ tail)) == .leftParen) = true := called.front rfl _
          rw [if_pos opened]
          exact (arguments 64).leaves passed _ called rfl (by simp at short ⊢; omega)
        · rw [List.nil_append, if_neg (by simpa using other)]
          exact .done
    · refine ⟨65, _, back, rfl, others, by simp; omega, .next .bump .bump (.next expressions.sound ?_ .expect)⟩
      have inside := expressions.leaves index (.rightBracket :: (back ++ tail)) inner rfl (by simp at short ⊢; omega)
      simpa using inside
    · have opened : current (front ++ (back ++ tail)) = .leftParen := beq_iff_eq.mp (called.front rfl _)
      rw [opened]
      refine ⟨66, _, back, rfl, others, ?_, (arguments 67).leaves front _ called rfl short⟩
      have := List.length_pos_iff.mpr (called.ne_nil rfl)
      simp
      omega
    · refine ⟨68, .bump, back, ?_, others, by simp, .bump⟩
      have steps : ∀ kind : Kind, kind.isStep = true → kind = .increment ∨ kind = .decrement := by decide
      rcases steps kind step with rfl | rfl <;> rfl

private theorem leaves_segment (rule : Rule → RuleId → Parser) {segment : Segment} {segments : List Segment}
    {expression : Nat → Parser} (rows : TakesRows fuel room expression) (sound : ∀ power, Sound (expression power))
    (derived : ∀ other ∈ segment :: segments, other.Derived)
    (tight : power ≤ segment.operator.leftPower) (stop : (current rest).continues = false)
    (short : (Segment.words (segment :: segments) ++ rest).length < fuel + 1) :
    ∃ id behind, continuation? rule expression power (current (Segment.words (segment :: segments) ++ rest)) =
        some (id, behind) ∧
      Leaves room (behind (Segment.words (segment :: segments) ++ rest))
        (Segment.words (remaining segment.operator.rightPower segments) ++ rest) := by
  rw [Segment.words_cons, List.append_assoc, Segment.current_word]
  obtain ⟨whole, others⟩ := List.forall_mem_cons.mp derived
  obtain ⟨id, continued⟩ := continuation?_of_isOperator rule expression power whole.isOperator
  rw [if_neg (Nat.not_lt.mpr tight)] at continued
  cases whole with
  | @binary operator operand known first =>
    have plain : operator ≠ .question := by
      rintro rfl
      cases known
    rw [if_neg (by simpa [Segment.operator] using plain)] at continued
    refine ⟨id, _, continued, ?_⟩
    rw [Segment.words_cons, List.append_assoc] at short
    rw [Segment.word, List.cons_append] at short ⊢
    exact .next .bump .bump (rows _ operand segments rest first others stop (Nat.lt_of_succ_lt_succ short))
  | @conditional middle operand between first =>
    rw [if_pos (by rfl)] at continued
    refine ⟨id, _, continued, ?_⟩
    rw [Segment.words_cons, List.append_assoc] at short
    rw [Segment.word, List.cons_append, List.append_assoc, List.cons_append] at short ⊢
    have inside := (rows.accepts (sound 0)).leaves middle (.colon :: (operand ++ (Segment.words segments ++ rest)))
      between rfl (by simp at short ⊢; omega)
    have behind := rows Kind.question.rightPower operand segments rest first others stop (by simp at short ⊢; omega)
    exact .next .bump .bump (.next (sound 0) inside (.next (.expect _) .expect behind))

/-- An expression takes a row of operands up to where its power ends, and so does what goes on behind a left
operand. Each unit of fuel pays for a token. -/
theorem takesRows {limit : Nat} (rules : ∀ name id, Sound (rule name id)) (operandSound : Sound first)
    (arguments : ∀ id, Accepts limit room (rule .arguments id) (.rule .arguments) (before fun _ => true))
    (operands : TakesOperands limit room first) (fuel : Nat) (fuelled : fuel ≤ limit) :
    TakesRows fuel room (expressionFrom rule first fuel) ∧
      ∀ power left trailers segments rest, Course 0 left → Derives (.many trailerForm) trailers →
        (∀ segment ∈ segments, segment.Derived) → (current rest).continues = false →
        (trailers ++ (Segment.words segments ++ rest)).length < fuel →
        Leaves room (operatorsFrom rule first fuel power left (trailers ++ (Segment.words segments ++ rest)))
          (Segment.words (remaining power segments) ++ rest) := by
  induction fuel with
  | zero =>
    exact ⟨fun _ _ _ _ _ _ _ short => absurd short (Nat.not_lt_zero _),
      fun _ _ _ _ _ _ _ _ _ short => absurd short (Nat.not_lt_zero _)⟩
  | succ fuel ih =>
    obtain ⟨rows, operators⟩ := ih (Nat.le_of_succ_le fuelled)
    have sound := sound_expression rules operandSound fuel
    constructor
    · intro power operand segments rest whole derived stop short
      obtain ⟨trailers, derives, fewer, taken⟩ := operands operand segments rest whole derived stop (by omega)
      obtain ⟨depth, course, closed⟩ := operandSound (operand ++ (Segment.words segments ++ rest))
      rw [expressionFrom]
      dsimp only
      generalize first (operand ++ (Segment.words segments ++ rest)) = outcome at *
      obtain ⟨marks, _, failure⟩ := outcome
      rcases taken with ⟨rfl, rfl⟩ | ⟨⟨name, rfl⟩, deep⟩
      · obtain rfl := closed rfl
        exact operators power marks trailers segments rest course derives derived stop (by simp at short ⊢; omega)
      · exact .inr ⟨⟨name, rfl⟩, deep⟩
    · intro power left trailers segments rest course derives derived stop short
      by_cases none : trailers = []
      · subst none
        cases segments with
        | nil => exact .operators_stop (continuation?_of_stop stop)
        | cons segment segments =>
          obtain ⟨whole, others⟩ := List.forall_mem_cons.mp derived
          by_cases tight : power ≤ segment.operator.leftPower
          · obtain ⟨id, behind, continued, taken⟩ := leaves_segment rule rows sound derived tight stop short
            -- the operator takes its operand with all that binds tighter; what remains is looser and goes on here
            refine .operators_step course continued (sound_continuation rules sound continued) taken ?_
            intro left node
            have taken := segment.length_word_pos
            have fewer := length_words_remaining segment.operator.rightPower segments
            rw [remaining_of_tight tight, ← remaining_remaining whole.isOperator tight others]
            exact operators power left [] _ rest node .none (fun other member => others other (remaining_sub other member))
              stop (by simp at short ⊢; omega)
          · have loose := Nat.lt_of_not_le tight
            obtain ⟨id, continued⟩ :=
              continuation?_of_isOperator rule (expressionFrom rule first fuel) power whole.isOperator
            rw [if_pos loose] at continued
            rw [remaining_of_loose loose]
            refine .operators_stop ?_
            rw [List.nil_append, Segment.words_cons, List.append_assoc, Segment.current_word]
            exact continued
      · have closed : current (Segment.words segments ++ rest) ≠ .leftParen :=
          Segment.current_words (· ≠ .leftParen) derived (by decide)
            fun same => by simp [same, Kind.continues] at stop
        obtain ⟨id, behind, later, continued, others, fewer, taken⟩ :=
          leaves_trailer power (fun id => (arguments id).shorten fuelled) (rows.accepts (sound 0)) derives none closed short
        refine .operators_step course continued (sound_continuation rules sound continued) taken fun left whole => ?_
        exact operators power left later segments rest whole others derived stop (by simp at short ⊢; omega)

end

end Verbatim.MiniJava
