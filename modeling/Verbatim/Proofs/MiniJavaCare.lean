import Verbatim.MiniJava.Run
import Verbatim.Proofs.MiniJavaReading

/-! What the body of a rule shows before it is run. Each way through it to success takes a token, each token that
is taken whatever it is has been looked at, so that it is not the end of the source, and the body of each loop takes
a token too. Both are seen step by step, from what is known of the tokens in front. -/

namespace Verbatim.MiniJava

namespace Step

def takes : Step → Bool
  | .done | .loop _ _ => false
  | .bump | .expect _ | .call _ _ | .expression | .fail _ => true
  | .next first second => first.takes || second.takes
  | .choose _ yes no => yes.takes && no.takes

def known (given : List Kind → Prop) : Step → List Kind → Prop
  | .done => given
  | .bump => fun rest => ∃ kind, given (kind :: rest)
  | .next first second => second.known (first.known given)
  | .loop test _ => fun ahead => test ahead = false
  | .expect _ | .call _ _ | .expression | .fail _ | .choose _ _ _ => anywhere

/-- A step that never takes the end of the source, and in which each round of a loop takes a token. -/
def Careful (given : List Kind → Prop) : Step → Prop
  | .done | .expression | .fail _ => True
  | .bump => ∀ ahead, given ahead → current ahead ≠ .eof
  | .expect kind => kind ≠ .eof
  | .call rule _ => rule ≠ .compilationUnit ∧ ∀ ahead, given ahead → rule.given ahead
  | .next first second => first.Careful given ∧ second.Careful (first.known given)
  | .choose test yes no => yes.Careful (fun ahead => given ahead ∧ test ahead = true) ∧ no.Careful given
  | .loop test body => body.takes = true ∧ body.Careful (fun ahead => test ahead = true)

def loops : Step → List (Look × Step)
  | .next first second | .choose _ first second => first.loops ++ second.loops
  | .loop test body => (test, body) :: body.loops
  | .done | .bump | .expect _ | .call _ _ | .expression | .fail _ => []

variable {given : List Kind → Prop} {test : Look} {body item : Step}

private theorem Careful.of_mem_loops {step : Step} (careful : step.Careful given) (inside : (test, body) ∈ step.loops) :
    body.takes = true ∧ body.Careful (fun ahead => test ahead = true) := by
  induction step generalizing given with
  | next first second front back =>
    rcases List.mem_append.mp inside with inside | inside
    · exact front careful.1 inside
    · exact back careful.2 inside
  | choose test yes no holds fails =>
    rcases List.mem_append.mp inside with inside | inside
    · exact holds careful.1 inside
    · exact fails careful.2 inside
  | loop test body inner =>
    rcases List.mem_cons.mp inside with same | inside
    · cases same
      exact careful
    · exact inner careful.2 inside
  | done | bump | expect | call | expression | fail => cases inside

theorem careful_expect {kind : Kind} (inner : kind ≠ .eof := by decide) : (expect kind).Careful given := inner

theorem careful_at {kind : Kind} (inner : kind ≠ .eof := by decide) : bump.Careful fun ahead => current ahead = kind :=
  fun _ here ended => inner (here.symm.trans ended)

private theorem careful_on {kind : Kind} (inner : kind ≠ .eof := by decide) :
    bump.Careful fun ahead => Look.on kind ahead = true :=
  fun ahead holds => careful_at inner ahead (eq_of_beq holds)

private theorem careful_found {kind : Kind} (inner : kind ≠ .eof := by decide) :
    bump.Careful fun ahead => given ahead ∧ Look.on kind ahead = true :=
  fun ahead holds => careful_on inner ahead holds.2

theorem careful_call {rule : Rule} {id : RuleId} (outer : rule ≠ .compilationUnit := by decide)
    (holds : ∀ ahead, given ahead → rule.given ahead := by exact fun _ _ => trivial) :
    (Step.call rule id).Careful given :=
  ⟨outer, holds⟩

private theorem careful_final {id : RuleId} :
    (Step.call .modifier id).Careful fun ahead => given ahead ∧ Look.on .finalWord ahead = true :=
  ⟨by decide, fun _ holds => by rw [Rule.given, eq_of_beq holds.2]; rfl⟩

private theorem careful_modifiers {id : RuleId} :
    (Step.loop (.among Kind.isModifier) (.call .modifier id)).Careful given :=
  ⟨rfl, by decide, fun _ holds => holds⟩

private theorem careful_commaMore (inner : item.Careful fun rest => ∃ kind, Look.on .comma (kind :: rest) = true) :
    (commaMore item).Careful given :=
  ⟨rfl, careful_on, inner⟩

theorem careful_qualifiedName : qualifiedName.Careful given := by
  refine ⟨careful_expect, rfl, fun ahead pair => ?_, fun rest ⟨kind, pair⟩ => ?_⟩
  · simp only [Look.pair, Bool.and_eq_true, beq_iff_eq] at pair
    rw [pair.1]
    decide
  · simp only [Look.pair, Bool.and_eq_true, beq_iff_eq, List.drop_succ_cons, List.drop_zero] at pair
    rw [pair.2]
    decide

private theorem careful_typeName : typeName.Careful given :=
  ⟨fun _ holds ended => by simp [Look.among, ended, Kind.isPrimitive] at holds, careful_qualifiedName⟩

end Step

open Step

theorem takes_body (rule : Rule) : rule.body.takes = true := by
  cases rule <;> rfl

theorem careful_body {rule : Rule} (outer : rule ≠ .compilationUnit) : rule.body.Careful rule.given := by
  cases rule with
  | compilationUnit => contradiction
  | typeDeclaration => exact ⟨careful_found, careful_modifiers, careful_call⟩
  | modifier => exact fun _ modifier ended => by simp [Rule.given, ended, Kind.isModifier] at modifier
  | classDeclaration => exact ⟨careful_expect, careful_expect, ⟨⟨careful_found, careful_call⟩, trivial⟩, careful_call⟩
  | classBody | block => exact ⟨careful_expect, ⟨rfl, careful_call⟩, careful_expect⟩
  | classBodyDeclaration =>
    exact ⟨careful_found, careful_modifiers, careful_call, careful_call, careful_call, careful_call, careful_call,
      careful_call, trivial⟩
  | constructorDeclaration => exact ⟨careful_expect, careful_call, careful_call⟩
  | methodDeclaration =>
    exact ⟨⟨careful_found, careful_call⟩, careful_expect, careful_call, careful_found, careful_call⟩
  | fieldDeclaration => exact ⟨careful_call, careful_call, careful_commaMore careful_call, careful_expect⟩
  | formalParameters =>
    exact ⟨careful_expect, ⟨⟨careful_call, careful_commaMore careful_call⟩, trivial⟩, careful_expect⟩
  | formalParameter => exact ⟨⟨careful_final, trivial⟩, careful_call, careful_expect⟩
  | type =>
    exact ⟨careful_typeName, rfl, careful_on, careful_expect⟩
  | variableDeclarator => exact ⟨careful_expect, ⟨careful_found, trivial⟩, trivial⟩
  | blockStatement => exact ⟨⟨careful_call, careful_expect⟩, careful_call, careful_call⟩
  | localVariableDeclaration =>
    exact ⟨⟨careful_final, trivial⟩, careful_call, careful_call, careful_commaMore careful_call⟩
  | statement =>
    refine ⟨careful_call, ?ifs, ?whiles, ?dos, ?fors, ?returns, ?_⟩
    case ifs => exact ⟨careful_found, careful_call, careful_call, ⟨careful_found, careful_call⟩, trivial⟩
    case whiles => exact ⟨careful_found, careful_call, careful_call⟩
    case dos => exact ⟨careful_found, careful_call, careful_expect, careful_call, careful_expect⟩
    case fors => exact ⟨careful_found, careful_expect, careful_call, careful_expect, careful_call⟩
    case returns => exact ⟨careful_found, ⟨trivial, trivial⟩, careful_expect⟩
    exact ⟨⟨careful_found, careful_expect⟩, ⟨careful_found, careful_expect⟩, careful_found, trivial, careful_expect⟩
  | parExpression => exact ⟨careful_expect, trivial, careful_expect⟩
  | forControl =>
    exact ⟨⟨careful_call, trivial, careful_call⟩, careful_expect, ⟨trivial, trivial⟩, careful_expect, careful_call,
      trivial⟩
  | expressionList => exact ⟨trivial, careful_commaMore trivial⟩
  | primary =>
    exact ⟨⟨careful_found, trivial, careful_expect⟩, careful_found, careful_found, ⟨careful_found, careful_call⟩,
      careful_call (by decide) fun _ holds => holds.2, trivial⟩
  | literal => exact fun _ literal ended => by simp [Rule.given, ended, Kind.isLiteral] at literal
  | creator =>
    have brackets {given : List Kind → Prop} : (Step.loop (.on .leftBracket)
        (all [.bump, perhaps (.not (.on .rightBracket)) .expression, .expect .rightBracket])).Careful given :=
      ⟨rfl, careful_on, ⟨trivial, trivial⟩, careful_expect⟩
    exact ⟨careful_typeName, brackets, careful_call⟩
  | arguments => exact ⟨careful_expect, ⟨careful_call, trivial⟩, careful_expect⟩

/-- The loop over the declarations of a source stops at its end, which is taken behind it. -/
theorem careful_declarations (given : List Kind → Prop) :
    (Step.loop (.not (.on .eof)) (.call .typeDeclaration 2)).Careful given :=
  ⟨rfl, careful_call⟩

theorem careful_of_mem_loops {rule : Rule} {test : Look} {body : Step} (inside : (test, body) ∈ rule.body.loops) :
    body.takes = true ∧ body.Careful (fun ahead => test ahead = true) := by
  by_cases outer : rule = .compilationUnit
  · subst outer
    exact (careful_declarations anywhere).of_mem_loops inside
  · exact (careful_body outer).of_mem_loops inside

namespace Task

def takes : Task → Bool
  | .step single => single.takes
  | .expression _ => true
  | .operators _ _ => false
  | .next first second => first.takes || second.takes
  | .enclosed _ _ body => body.takes

def known (given : List Kind → Prop) : Task → List Kind → Prop
  | .step single => single.known given
  | .next first second => second.known (first.known given)
  | .expression _ | .operators _ _ | .enclosed _ _ _ => anywhere

/-- A task whose left operand, if it goes on behind one, has its events from `start` on. -/
def Fits (start : Nat) : Task → Prop
  | .operators _ other => other = start
  | .next first second => first.Fits start ∧ second.Fits start
  | .step _ | .expression _ | .enclosed _ _ _ => True

/-- A task that never takes the end of the source, and makes no node without a token. -/
def Careful (given : List Kind → Prop) : Task → Prop
  | .step single => single.Careful given
  | .expression _ | .operators _ _ => True
  | .next first second => first.Careful given ∧ second.Careful (first.known given)
  | .enclosed _ _ body => body.takes = true ∧ (∀ start, body.Fits start) ∧ body.Careful given

theorem careful_call {rule : Rule} (outer : rule ≠ .compilationUnit) (id : RuleId) :
    (call rule id).Careful rule.given :=
  ⟨takes_body rule, fun _ => trivial, careful_body outer⟩

theorem operand_takes (kind : Kind) : (operand kind).takes = true := by
  unfold operand
  split <;> rfl

theorem operand_fits (kind : Kind) (start : Nat) : (operand kind).Fits start := by
  unfold operand
  split <;> trivial

theorem careful_operand (kind : Kind) : (operand kind).Careful fun ahead => current ahead = kind := by
  unfold operand
  split
  next unary =>
    refine ⟨rfl, fun _ => ⟨trivial, trivial⟩, ?_, trivial⟩
    intro ahead here ended
    rw [← here, ended] at unary
    cases unary
  next => exact ⟨rfl, fun _ => trivial, Step.careful_call⟩

/-- What goes on behind a left operand takes the token that says so, which is not the end of the source. -/
structure Continues (kind : Kind) (more : Task) : Prop where
  inner : kind ≠ .eof
  takes : more.takes = true
  careful : more.Careful fun ahead => current ahead = kind
  fits : ∀ start, more.Fits start

theorem continues {power : Nat} {kind : Kind} {id : RuleId} {more : Task}
    (found : continuation? power kind = some (id, more)) : Continues kind more := by
  unfold continuation? at found
  split at found
  · cases found
    have arguments : (Step.perhaps (.on .leftParen) (.call .arguments 64)).Careful
        ((Step.expect .identifier).known (Step.bump.known fun ahead => current ahead = .dot)) :=
      ⟨Step.careful_call, trivial⟩
    exact ⟨by decide, rfl, ⟨Step.careful_at, Step.careful_expect, arguments⟩, fun _ => trivial⟩
  · cases found
    exact ⟨by decide, rfl, ⟨Step.careful_at, trivial, Step.careful_expect⟩, fun _ => trivial⟩
  · cases found
    exact ⟨by decide, rfl, Step.careful_call, fun _ => trivial⟩
  · cases found
    exact ⟨by decide, rfl, Step.careful_at (by decide), fun _ => trivial⟩
  · cases found
    exact ⟨by decide, rfl, Step.careful_at (by decide), fun _ => trivial⟩
  · split at found
    · cases found
    next bound =>
      have inner : kind ≠ .eof := fun ended => by simp [ended, binding?] at bound
      split at found
      · cases found
      split at found
      · cases found
        exact ⟨inner, rfl, ⟨Step.careful_at inner, trivial, Step.careful_expect, trivial⟩,
          fun _ => ⟨trivial, trivial, trivial, trivial⟩⟩
      · cases found
        exact ⟨inner, rfl, ⟨Step.careful_at inner, trivial⟩, fun _ => ⟨trivial, trivial⟩⟩

end Task

end Verbatim.MiniJava
