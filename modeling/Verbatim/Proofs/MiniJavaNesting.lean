import Verbatim.Proofs.MiniJavaAcceptance

/-! How deeply the rules of a parse are nested. The limit holds for the rules that are called: each of them
counts against the room that its caller leaves. The node around an operator is entered when its left
operand has been read already, and no room is taken for it, so that operators nest beyond every limit. -/

namespace Verbatim.MiniJava

open RuleEvent

abbrev Node := String × RuleId

/-- Whether a node is entered by calling a rule, unlike the nodes around operators. -/
def isCalled (node : Node) : Bool := node.1 != expressionName || node.2 ≤ 61

/-- The nodes that are open behind some events, the innermost one first. -/
def openNodes : (outer : List Node) → List RuleEvent → List Node
  | outer, [] => outer
  | outer, .enter name id :: events => openNodes ((name, id) :: outer) events
  | outer, .exit :: events => openNodes outer.tail events
  | outer, .token _ :: events => openNodes outer events
  | outer, .error _ :: events => openNodes outer events

private theorem openNodes_error (outer : List Node) (events : List RuleEvent) (diagnostic : Diagnostic) :
    openNodes outer (events ++ [.error diagnostic]) = openNodes outer events := by
  fun_induction openNodes outer events with
  | case1 => rfl
  | case2 outer name id events ih => exact ih
  | case3 outer events ih => exact ih
  | case4 outer index events ih => exact ih
  | case5 outer other events ih => exact ih

def calledDepth (events : List RuleEvent) : Nat := (openNodes [] events).countP isCalled

def openAfter : (outer : List Node) → List Mark → List Node
  | outer, [] => outer
  | outer, .enter name id :: marks => openAfter ((name, id) :: outer) marks
  | outer, .exit :: marks => openAfter outer.tail marks
  | outer, .take :: marks => openAfter outer marks

private theorem openAfter_append (outer : List Node) (first second : List Mark) :
    openAfter outer (first ++ second) = openAfter (openAfter outer first) second := by
  fun_induction openAfter outer first with
  | case1 => rfl
  | case2 outer name id marks ih => exact ih
  | case3 outer marks ih => exact ih
  | case4 outer marks ih => exact ih

private theorem openNodes_number (indexes : List Nat) (marks : List Mark) (outer : List Node) :
    openNodes outer (number indexes marks) = openAfter outer marks := by
  fun_induction number indexes marks generalizing outer with
  | case1 => rfl
  | case2 indexes name id marks ih => exact ih _
  | case3 indexes marks ih => exact ih _
  | case4 index indexes marks ih => exact ih _
  | case5 marks ih => exact ih _

/-- Marks that leave just these nodes open, and never more called rules than there is room for. -/
structure Within (room : Nat) (opened : List Node) (marks : List Mark) : Prop where
  leaves : ∀ outer, openAfter outer marks = opened ++ outer
  limited : ∀ outer, outer.countP isCalled + room ≤ depthLimit →
    ∀ front, front <+: marks → (openAfter outer front).countP isCalled ≤ depthLimit

namespace Within

variable {room : Nat} {opened more : List Node} {first second marks : List Mark} {name : String} {id : RuleId}

theorem nil : Within room [] [] := by
  constructor
  · intro outer
    rfl
  · intro outer space front first
    rw [List.prefix_nil.mp first, openAfter]
    omega

theorem cons {mark : Mark} {pushed : List Node} {used : Nat}
    (opens : ∀ outer marks, openAfter outer (mark :: marks) = openAfter (pushed ++ outer) marks)
    (counted : room + pushed.countP isCalled = used) (inner : Within room opened marks) :
    Within used (opened ++ pushed) (mark :: marks) := by
  constructor
  · intro outer
    rw [opens, inner.leaves, List.append_assoc]
  · intro outer space front first
    rcases List.prefix_cons_iff.mp first with rfl | ⟨front, rfl, later⟩
    · rw [openAfter]
      omega
    · rw [opens]
      refine inner.limited _ ?_ front later
      rw [List.countP_append]
      omega

theorem take : Within room [] [.take] :=
  @cons room [] [] .take [] room (fun _ _ => rfl) rfl nil

theorem append (front : Within room [] first) (back : Within room opened second) :
    Within room opened (first ++ second) := by
  constructor
  · intro outer
    rw [openAfter_append, front.leaves, back.leaves, List.nil_append]
  · intro outer space part early
    rcases List.prefix_or_prefix_of_prefix early (List.prefix_append first second) with inside | ⟨rest, rfl⟩
    · exact front.limited outer space part inside
    · rw [openAfter_append, front.leaves]
      exact back.limited outer space rest ((List.prefix_append_right_inj first).mp early)

/-- A node takes room only if it is that of a called rule. -/
theorem enter {used : Nat} (counted : room + (if isCalled (name, id) then 1 else 0) = used)
    (inner : Within room opened marks) : Within used (opened ++ [(name, id)]) (.enter name id :: marks) :=
  cons (fun _ _ => rfl) (by rw [List.countP_singleton, counted]) inner

theorem exit {node : Node} (inner : Within room [node] marks) : Within room [] (marks ++ [.exit]) := by
  constructor
  · intro outer
    rw [openAfter_append, inner.leaves]
    rfl
  · intro outer space front first
    rcases List.prefix_concat_iff.mp first with rfl | inside
    · rw [openAfter_append, inner.leaves, openAfter, openAfter, List.singleton_append, List.tail_cons]
      omega
    · exact inner.limited outer space front inside

end Within

/-- What is said where there is no room begins with the name of a rule, and everything else does not. -/
def Plain (wanted : String) : Prop := wanted.toList.head? ≠ some '`'

/-- What is done within the room for rules: all nodes are closed, or it failed, and then all room is used where
it says so. -/
def Ends (room : Nat) (outcome : Outcome) : Prop :=
  ∃ opened, Within room opened outcome.marks ∧ (outcome.failure = none → opened = []) ∧
    ∀ wanted, outcome.failure = some wanted → Plain wanted ∨ opened.countP isCalled = room

/-- A parser that keeps to its room, and that only runs out of it where all of it is used. -/
def Bounded (room : Nat) (parser : Parser) : Prop := ∀ ahead, Ends room (parser ahead)

structure Level.IsBounded (room : Nat) (level : Level) : Prop where
  rule : ∀ rule id, Bounded room (level.rule rule id)
  expression : ∀ power, Bounded room (level.expression power)

def Step.Plain : Step → Prop
  | .fail wanted => MiniJava.Plain wanted
  | .next first second => first.Plain ∧ second.Plain
  | .choose _ yes no => yes.Plain ∧ no.Plain
  | .loop _ body => body.Plain
  | _ => True

private theorem plain_body (rule : Rule) : rule.body.Plain := by
  cases rule <;> simp [Rule.body, Step.all, Step.select, Step.perhaps, Step.commaMore, Step.qualifiedName,
    Step.typeName, Step.Plain, Plain]

theorem Step.Plain.allowed {step : Step} (plain : step.Plain) : step.Allowed (fun _ _ => True) MiniJava.Plain := by
  induction step with
  | fail wanted => exact plain
  | next first second front back => exact ⟨front plain.1, back plain.2⟩
  | choose test yes no holds fails => exact ⟨holds plain.1, fails plain.2⟩
  | loop test body inner => exact inner plain
  | done | bump | expect kind | call rule id | expression => trivial

private theorem isCalled_operator {kind : Kind} {left right : Nat} {id : RuleId}
    (bound : binding? kind = some (left, right, id)) : isCalled (expressionName, id) = false := by
  have known : ∀ kind, ∀ entry ∈ binding? kind, isCalled (expressionName, entry.2.2) = false := by decide
  exact known kind _ bound

def rooming : Discipline where
  whole room := Within room []
  broken room wanted marks := ∃ opened, Within room opened marks ∧ (Plain wanted ∨ opened.countP isCalled = room)
  node inner outer name id := inner + (if isCalled (name, id) then 1 else 0) = outer
  calls _ _ := True
  tells := Plain
  nil _ := .nil
  take _ := .take
  append front back := front.append back
  breaks front back := back.imp fun _ later => ⟨front.append later.1, later.2⟩
  fails _ plain := ⟨[], .nil, .inl plain⟩
  full _ := ⟨[], .nil, .inr rfl⟩
  encloses counted inside := (inside.enter counted).exit
  leaves := by
    rintro inner outer name id wanted marks counted ⟨opened, within, full⟩
    refine ⟨_, within.enter counted, full.imp_right fun same => ?_⟩
    rw [List.countP_append, same, List.countP_singleton, counted]
  expected kind := by simp [Plain]
  body rule := (plain_body rule).allowed
  called {rule _} _ _ := by cases rule <;> rfl
  primary := trivial
  member := trivial
  call := trivial
  operand := by
    intro id listed room
    have called : ∀ id ∈ ([60, 61] : List RuleId), isCalled (expressionName, id) = true := by simp [isCalled]
    rw [if_pos (called id listed)]
  trailer := by
    intro id listed room
    have uncalled : ∀ id ∈ ([63, 65, 66, 68] : List RuleId), ¬isCalled (expressionName, id) = true := by
      simp [isCalled]
    rw [if_neg (uncalled id listed), Nat.add_zero]
  operator _ bound := by simp [isCalled_operator bound]

private theorem bounded_of_keeps {room : Nat} {parser : Parser} (keeps : rooming.Keeps room parser) :
    Bounded room parser := by
  intro ahead
  have judged := keeps ahead
  generalize parser ahead = outcome at judged ⊢
  obtain ⟨marks, rest, - | wanted⟩ := outcome
  · exact ⟨[], judged, fun _ => rfl, nofun⟩
  · obtain ⟨opened, within, full⟩ := judged
    refine ⟨opened, within, nofun, ?_⟩
    rintro _ ⟨⟩
    exact full

private theorem bounded_level (limit room : Nat) : (level limit room).IsBounded room := by
  have governs := rooming.governs_level limit room
  exact ⟨fun rule id => bounded_of_keeps (governs.rule rule id trivial),
    fun power => bounded_of_keeps (governs.expression power)⟩

private theorem told_of_message {wanted found name other : String}
    (same : wanted ++ ", found " ++ found = deepMessage name ++ ", found " ++ other) : ¬Plain wanted := by
  have front := congrArg (fun text => text.toList.head?) same
  intro plain
  cases letters : wanted.toList with
  | nil => simp [deepMessage, letters] at front
  | cons letter rest =>
    simp only [deepMessage, String.toList_append, letters] at front
    exact plain (by simpa [letters] using front)

/-- At no point of a parse are more called rules open than the limit says, and the parse gives up on the
nesting only where just as many are open. -/
theorem called_rules_within_limit (source : String) :
    (∀ front, front <+: (parse source).events → calledDepth front ≤ depthLimit) ∧
      ∀ front diagnostic name found, (parse source).events = front ++ [.error diagnostic] →
        diagnostic.message = deepMessage name ++ ", found " ++ found → calledDepth front = depthLimit := by
  have parsed : (parse source).events = events (lex source) := by rw [parse]
  rw [parsed]
  obtain ⟨indexes, seen⟩ : ∃ indexes, indexes = (visible (lex source)).map Prod.snd := ⟨_, rfl⟩
  obtain ⟨opened, within, closed, full⟩ :=
    (bounded_level ((visibleKinds (lex source)).length + 1) depthLimit).rule .compilationUnit 1
      (visibleKinds (lex source))
  rw [← parseKinds] at within closed full
  rcases outcome : parseKinds (visibleKinds (lex source)) with ⟨marks, rest, failure⟩
  rw [outcome] at within full
  have limited : ∀ front, front <+: number indexes marks → calledDepth front ≤ depthLimit := by
    intro front first
    obtain ⟨taken, early, rfl⟩ := exists_of_prefix_number first
    rw [calledDepth, openNodes_number]
    exact within.limited [] (Nat.le_of_eq (Nat.zero_add _)) taken early
  cases failure with
  | none =>
    rw [events_of_success outcome, ← seen]
    refine ⟨limited, ?_⟩
    intro front diagnostic name found same
    have reported : .error diagnostic ∈ number indexes marks := same ▸ List.mem_concat_self
    exact absurd reported (error_notMem_number indexes marks diagnostic)
  | some wanted =>
    obtain ⟨last, same⟩ := events_of_failure outcome
    rw [same, ← seen]
    constructor
    · intro front first
      rcases List.prefix_concat_iff.mp first with rfl | inside
      · have unchanged := limited _ List.prefix_rfl
        rwa [calledDepth, openNodes_error]
      · exact limited front inside
    · intro front diagnostic name found ending told
      obtain ⟨rfl, reported⟩ := List.append_inj' ending rfl
      cases reported
      obtain ⟨text, said⟩ := diagnose_message wanted _ last
      rcases full wanted rfl with plain | full
      · exact absurd plain (told_of_message (said.symm.trans told))
      · rw [calledDepth, openNodes_number, within.leaves, List.append_nil, full]

end Verbatim.MiniJava
