import Verbatim.MiniJava.Parser
import Verbatim.Proofs.MiniJavaGrammar

/-! What the marks of parsers keep to, whatever the tokens are. A discipline tells what holds of the marks where a
parser succeeds and where it fails, and how both are kept when marks are put together. That the parsers of every
level keep to it is proved here once, along the steps of the bodies and the operators of expressions. -/

namespace Verbatim.MiniJava

def deepMessage (name : String) : String :=
  "`" ++ name ++ "` nested more than " ++ Numeral.decimal depthLimit ++ " rules deep"

/-- What steps call and what they tell is among this. -/
def Step.Allowed (calls : Rule → RuleId → Prop) (tells : String → Prop) : Step → Prop
  | .call rule id => calls rule id
  | .fail wanted => tells wanted
  | .next first second => first.Allowed calls tells ∧ second.Allowed calls tells
  | .choose _ yes no => yes.Allowed calls tells ∧ no.Allowed calls tells
  | .loop _ body => body.Allowed calls tells
  | .done | .bump | .expect _ | .expression => True

theorem Step.allowed_of_forall {calls : Rule → RuleId → Prop} {tells : String → Prop}
    (called : ∀ rule id, calls rule id)
    (said : ∀ wanted, tells wanted) (step : Step) : step.Allowed calls tells := by
  induction step with
  | call rule id => exact called rule id
  | fail wanted => exact said wanted
  | next first second front back => exact ⟨front, back⟩
  | choose test yes no holds fails => exact ⟨holds, fails⟩
  | loop test body inner => exact inner
  | done | bump | expect kind | expression => trivial

section

variable (rule : Rule → RuleId → Parser) (expression : Nat → Parser) (power : Nat)

/-- What goes on behind a left operand, by the kind of the token there. -/
inductive Continues : Kind → RuleId → Parser → Prop
  | member : Continues .dot 63 (.next .bump (.next (.expect .identifier) fun ahead =>
      if current ahead == .leftParen then rule .arguments 64 ahead else Parser.done ahead))
  | index : Continues .leftBracket 65 (.next .bump (.next (expression 0) (.expect .rightBracket)))
  | call : Continues .leftParen 66 (rule .arguments 67)
  | step {kind : Kind} (step : kind.isStep = true) : Continues kind 68 .bump
  | conditional {left right : Nat} {id : RuleId} (bound : binding? .question = some (left, right, id))
      (tight : power ≤ left) :
      Continues .question id (.next .bump (.next (expression 0) (.next (.expect .colon) (expression right))))
  | binary {kind : Kind} {left right : Nat} {id : RuleId} (bound : binding? kind = some (left, right, id))
      (tight : power ≤ left) (plain : kind ≠ .question) : Continues kind id (.next .bump (expression right))

end

theorem continues_of_continuation? {rule : Rule → RuleId → Parser} {expression : Nat → Parser} {power : Nat}
    {kind : Kind} {id : RuleId} {behind : Parser}
    (found : continuation? rule expression power kind = some (id, behind)) :
    Continues rule expression power kind id behind := by
  unfold continuation? at found
  split at found
  · cases found
    exact .member
  · cases found
    exact .index
  · cases found
    exact .call
  · cases found
    exact .step rfl
  · cases found
    exact .step rfl
  · split at found
    · cases found
    next left right id bound =>
      split at found
      · cases found
      next tight =>
        split at found
        next question =>
          cases found
          obtain rfl := beq_iff_eq.mp question
          exact .conditional bound (Nat.not_lt.mp tight)
        next plain =>
          cases found
          exact .binary bound (Nat.not_lt.mp tight) (by simpa using plain)

/-- What marks keep to where there is room for so many more rules. -/
structure Discipline where
  /-- What holds of all that was done where a parser succeeds. -/
  whole : (room : Nat) → List Mark → Prop
  /-- What holds of it where a parser fails, which leaves its rules open. -/
  broken : (room : Nat) → (wanted : String) → List Mark → Prop
  /-- The nodes that may be entered around marks of the inner room, in the outer one. -/
  node : (inner outer : Nat) → (name : String) → RuleId → Prop
  calls : Rule → RuleId → Prop
  tells : String → Prop
  nil : ∀ room, whole room []
  take : ∀ room, whole room [.take]
  append : ∀ {room first second}, whole room first → whole room second → whole room (first ++ second)
  breaks : ∀ {room wanted first second}, whole room first → broken room wanted second →
    broken room wanted (first ++ second)
  fails : ∀ {wanted} room, tells wanted → broken room wanted []
  full : ∀ name, broken 0 (deepMessage name) []
  encloses : ∀ {inner outer name id marks}, node inner outer name id → whole inner marks →
    whole outer (.enter name id :: (marks ++ [.exit]))
  leaves : ∀ {inner outer name id wanted marks}, node inner outer name id → broken inner wanted marks →
    broken outer wanted (.enter name id :: marks)
  expected : ∀ kind : Kind, tells ("expected " ++ kind.name)
  body : ∀ rule : Rule, rule.body.Allowed calls tells
  called : ∀ {rule id} room, calls rule id → node room (room + 1) rule.name id
  primary : calls .primary 62
  member : calls .arguments 64
  call : calls .arguments 67
  operand : ∀ id ∈ [60, 61], ∀ room, node room (room + 1) expressionName id
  trailer : ∀ id ∈ [63, 65, 66, 68], ∀ room, node room room expressionName id
  operator : ∀ {kind left right id} room, binding? kind = some (left, right, id) → node room room expressionName id

namespace Discipline

def Judges (discipline : Discipline) (room : Nat) (outcome : Outcome) : Prop :=
  match outcome.failure with
  | none => discipline.whole room outcome.marks
  | some wanted => discipline.broken room wanted outcome.marks

def Keeps (discipline : Discipline) (room : Nat) (parser : Parser) : Prop :=
  ∀ ahead, discipline.Judges room (parser ahead)

/-- A level whose parsers keep to the discipline, as far as it lets them be called. -/
structure Governs (discipline : Discipline) (room : Nat) (level : Level) : Prop where
  rule : ∀ rule id, discipline.calls rule id → discipline.Keeps room (level.rule rule id)
  expression : ∀ power, discipline.Keeps room (level.expression power)

variable {discipline : Discipline} {room : Nat}

namespace Keeps

variable {first second body : Parser}

theorem done : discipline.Keeps room Parser.done := fun _ => discipline.nil room

theorem fail {wanted : String} (said : discipline.tells wanted) : discipline.Keeps room (Parser.fail wanted) :=
  fun _ => discipline.fails room said

theorem tooDeep (name : String) : discipline.Keeps 0 (MiniJava.tooDeep name) := fun _ => discipline.full name

theorem bump : discipline.Keeps room Parser.bump
  | [] => discipline.nil room
  | _ :: _ => discipline.take room

theorem choose {test : Look} (yes : discipline.Keeps room first) (no : discipline.Keeps room second) :
    discipline.Keeps room fun ahead => if test ahead then first ahead else second ahead := by
  intro ahead
  dsimp only
  split
  · exact yes ahead
  · exact no ahead

theorem expect (kind : Kind) : discipline.Keeps room (Parser.expect kind) :=
  choose bump (fail (discipline.expected kind))

theorem next (front : discipline.Keeps room first) (back : discipline.Keeps room second) :
    discipline.Keeps room (Parser.next first second) := by
  intro ahead
  have start := front ahead
  unfold Parser.next
  generalize first ahead = outcome at start ⊢
  obtain ⟨marks, rest, - | wanted⟩ := outcome
  · have later := back rest
    dsimp only
    generalize second rest = outcome at later ⊢
    obtain ⟨more, behind, - | wanted⟩ := outcome
    · exact discipline.append start later
    · exact discipline.breaks start later
  · exact start

theorem enclosed {inner outer : Nat} {name : String} {id : RuleId} (node : discipline.node inner outer name id)
    (inside : discipline.Keeps inner body) : discipline.Keeps outer (Parser.enclosed name id body) := by
  intro ahead
  have judged := inside ahead
  unfold Parser.enclosed
  generalize body ahead = outcome at judged ⊢
  obtain ⟨marks, rest, - | wanted⟩ := outcome
  · exact discipline.encloses node judged
  · exact discipline.leaves node judged

theorem loop (test : Look) (inside : discipline.Keeps room body) (fuel : Nat) :
    discipline.Keeps room (Parser.loop test body fuel) := by
  induction fuel with
  | zero => exact done
  | succ fuel ih => exact choose (next inside ih) done

end Keeps

theorem keeps_run (limit : Nat) {level : Level} (governs : discipline.Governs room level) (step : Step)
    (allowed : step.Allowed discipline.calls discipline.tells) : discipline.Keeps room (step.run limit level) := by
  induction step with
  | done => exact .done
  | bump => exact .bump
  | expect kind => exact .expect kind
  | call rule id => exact governs.rule rule id allowed
  | expression => exact governs.expression 0
  | fail wanted => exact .fail allowed
  | next first second front back => exact .next (front allowed.1) (back allowed.2)
  | choose test yes no holds fails => exact .choose (holds allowed.1) (fails allowed.2)
  | loop test body inner => exact .loop test (inner allowed) limit

theorem keeps_operand {inner : Level} (governs : discipline.Governs room inner) :
    discipline.Keeps (room + 1) (MiniJava.operand inner) :=
  .choose (.enclosed (discipline.operand 60 (by decide) room) (.next .bump (governs.expression unaryPower)))
    (.enclosed (discipline.operand 61 (by decide) room) (governs.rule .primary 62 discipline.primary))

section

variable {rule : Rule → RuleId → Parser}

/-- What goes on behind a left operand keeps to the discipline, and the node around both takes no room. -/
theorem keeps_continuation {expression : Nat → Parser}
    (rules : ∀ name id, discipline.calls name id → discipline.Keeps room (rule name id))
    (expressions : ∀ power, discipline.Keeps room (expression power))
    {power : Nat} {kind : Kind} {id : RuleId} {behind : Parser}
    (found : continuation? rule expression power kind = some (id, behind)) :
    discipline.node room room expressionName id ∧ discipline.Keeps room behind := by
  cases continues_of_continuation? found with
  | member =>
    exact ⟨discipline.trailer 63 (by decide) room, .next .bump (.next (.expect _) (.choose (rules _ _ discipline.member) .done))⟩
  | index => exact ⟨discipline.trailer 65 (by decide) room, .next .bump (.next (expressions 0) (.expect _))⟩
  | call => exact ⟨discipline.trailer 66 (by decide) room, rules _ _ discipline.call⟩
  | step => exact ⟨discipline.trailer 68 (by decide) room, .bump⟩
  | conditional bound =>
    exact ⟨discipline.operator room bound, .next .bump (.next (expressions 0) (.next (.expect _) (expressions _)))⟩
  | binary bound => exact ⟨discipline.operator room bound, .next .bump (expressions _)⟩

theorem keeps_expression {first : Parser}
    (rules : ∀ name id, discipline.calls name id → discipline.Keeps room (rule name id))
    (operands : discipline.Keeps room first) (fuel : Nat) :
    (∀ power, discipline.Keeps room (expressionFrom rule first fuel power)) ∧
      ∀ power left, discipline.whole room left → discipline.Keeps room (operatorsFrom rule first fuel power left) := by
  induction fuel with
  | zero => exact ⟨fun _ => .done, fun power left whole ahead => whole⟩
  | succ fuel ih =>
    obtain ⟨expressions, operators⟩ := ih
    constructor
    · intro power ahead
      have start := operands ahead
      rw [expressionFrom]
      dsimp only
      generalize first ahead = outcome at start ⊢
      obtain ⟨marks, rest, - | wanted⟩ := outcome
      · exact operators power marks start rest
      · exact start
    · intro power left whole ahead
      rw [operatorsFrom]
      dsimp only
      split
      · exact whole
      next id behind continued =>
        obtain ⟨node, kept⟩ := keeps_continuation rules expressions continued
        have later := kept ahead
        generalize behind ahead = outcome at later ⊢
        obtain ⟨marks, rest, - | wanted⟩ := outcome
        · have wrapped := discipline.encloses node (discipline.append whole later)
          rw [List.append_assoc] at wrapped
          exact operators power _ wrapped rest
        · exact discipline.leaves node (discipline.breaks whole later)

end

/-- The parsers of every level keep to every discipline. -/
theorem governs_level (discipline : Discipline) (limit room : Nat) : discipline.Governs room (level limit room) := by
  induction room with
  | zero => exact ⟨fun _ _ _ => .tooDeep _, fun _ => .tooDeep _⟩
  | succ room inner =>
    have rules : ∀ (rule : Rule) id, discipline.calls rule id →
        discipline.Keeps (room + 1) (Parser.enclosed rule.name id (rule.body.run limit (level limit room))) :=
      fun rule id calls => .enclosed (discipline.called room calls) (keeps_run limit inner _ (discipline.body rule))
    exact ⟨rules, (keeps_expression rules (keeps_operand inner) limit).1⟩

end Discipline

end Verbatim.MiniJava
