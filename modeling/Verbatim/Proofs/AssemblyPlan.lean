import Verbatim.Assembly
import Verbatim.Proofs.TreeNesting
import Verbatim.Proofs.TreeRefinement

/-! What an assembly makes of its events, as one sequence of calls. The plan follows from tokens and
events alone; an assembly that goes through has made the calls of its plan, and it goes through
whenever its events agree with each other and with the tokens, and its plan can be built. -/

namespace Verbatim

namespace Assembly

def nodeCalls (tokens : List RawToken) : List Call :=
  .start groupName groupRule :: (tokens.map fun raw => .token raw.placed) ++ [.finish]

def groupCalls (tokens : List RawToken) : List Call := if tokens.isEmpty then [] else nodeCalls tokens

/-- The calls at the end, where tokens before `next` have their place and `depth` nodes are open. -/
def lastCalls (tokens : List RawToken) (next depth : Nat) : List Call :=
  if depth = 0 then nodeCalls (tokens.drop next)
  else List.replicate (depth - 1) .finish ++ groupCalls (tokens.drop next) ++ [.finish]

/-- The calls that the events lead to. -/
def plan (tokens : List RawToken) : (next depth : Nat) → List RuleEvent → List Call
  | next, depth, [] => lastCalls tokens next depth
  | next, depth, .enter name rule :: events => .start name rule :: plan tokens next (depth + 1) events
  | next, depth, .token index :: events =>
    groupCalls ((tokens.take index).drop next) ++ (tokens[index]?.toList.map fun raw => .token raw.placed) ++
      plan tokens (index + 1) depth events
  | next, depth, .exit :: events =>
    if depth = 1 then plan tokens next depth events else .finish :: plan tokens next (depth - 1) events
  | next, depth, .error _ :: events => plan tokens next depth events

/-- Events that agree with each other and with `count` tokens, the root stays open after its exit. -/
def Consistent (mode : ParseMode) (count : Nat) : (next depth : Nat) → (exited : Bool) → List RuleEvent → Prop
  | _, _, _, [] => True
  | next, depth, exited, .enter _ _ :: events => exited = false ∧ Consistent mode count next (depth + 1) false events
  | next, depth, exited, .token index :: events =>
    (0 < depth ∧ exited = false) ∧ next ≤ index ∧ index < count ∧ Consistent mode count (index + 1) depth false events
  | next, depth, exited, .exit :: events =>
    (0 < depth ∧ exited = false) ∧
      if depth = 1 then Consistent mode count next depth true events
      else Consistent mode count next (depth - 1) false events
  | next, depth, exited, .error _ :: events => mode = .lenient ∧ Consistent mode count next depth exited events

private theorem addTokens_eq (builder : Builder) (tokens : List RawToken) :
    addTokens builder tokens = builder.run (tokens.map fun raw => .token raw.placed) := by
  induction tokens generalizing builder with
  | nil => rfl
  | cons raw rest ih =>
    simp only [addTokens, List.map_cons, Builder.run, Builder.call]
    exact congrArg _ (funext fun next => ih next)

private theorem addNode_eq (builder : Builder) (tokens : List RawToken) :
    addNode builder tokens = builder.run (nodeCalls tokens) := by
  simp only [nodeCalls, List.cons_append, Builder.run]
  refine congrArg _ (funext fun next => ?_)
  rw [Builder.run_append, ← addTokens_eq]
  exact congrArg _ (funext fun next => (Builder.run_singleton next .finish).symm)

private theorem addGroup_eq (builder : Builder) (tokens : List RawToken) :
    addGroup builder tokens = builder.run (groupCalls tokens) := by
  unfold addGroup groupCalls
  split
  · rfl
  · exact addNode_eq builder tokens

private theorem closeInner_eq (inner : Nat) (builder : Builder) :
    closeInner inner builder = builder.run (List.replicate inner .finish) := by
  induction inner generalizing builder with
  | zero => rfl
  | succ inner ih =>
    simp only [closeInner, List.replicate_succ, Builder.run, Builder.call]
    exact congrArg _ (funext fun next => ih next)

theorem inRule_iff (state : Assembly) : state.inRule = true ↔ 0 < state.builder.nesting ∧ state.rootExited = false := by
  simp [inRule]

/-- The end of an assembly makes the last calls of the plan. -/
private theorem finish_eq (state : Assembly) (rooted : state.builder.hasRoot = true ↔ 0 < state.builder.nesting) :
    state.finish = (state.builder.run (lastCalls state.tokens.toList state.next state.builder.nesting)).bind
      fun done => done.finish := by
  have slice : (state.tokens.extract state.next state.tokens.size).toList = state.tokens.toList.drop state.next := by
    rw [Array.toList_extract, List.extract_eq_drop_take', ← Array.length_toList, List.take_length]
  unfold finish lastCalls
  rw [slice]
  by_cases inside : 0 < state.builder.nesting
  · rw [if_pos (rooted.mpr inside), if_neg (Nat.ne_of_gt inside), Builder.run_append, Builder.run_append, closeInner_eq]
    cases state.builder.run (List.replicate (state.builder.nesting - 1) .finish) with
    | error violation => rfl
    | ok builder =>
      simp only [addGroup_eq, Builder.run_singleton, Except.bind, bind, Builder.call]
      cases builder.run (groupCalls (state.tokens.toList.drop state.next)) <;> rfl
  · rw [if_neg (fun root => inside (rooted.mp root)), if_pos (Nat.eq_zero_of_not_pos inside), addNode_eq]
    rfl

theorem ofViolation_eq_ok {result : Except Violation α} {value : α} :
    Fault.ofViolation result = .ok value ↔ result = .ok value := by
  cases result <;> simp [Fault.ofViolation]

private theorem tokenCalls_flat (tokens : List RawToken) :
    ((tokens.map fun raw => Call.token raw.placed).map Call.closes).sum = 0 ∧
      ((tokens.map fun raw => Call.token raw.placed).map Call.opens).sum = 0 := by
  induction tokens with
  | nil => exact ⟨rfl, rfl⟩
  | cons raw rest ih => simpa [Call.opens, Call.closes] using ih

private theorem groupCalls_balanced (tokens : List RawToken) :
    ((groupCalls tokens).map Call.closes).sum = ((groupCalls tokens).map Call.opens).sum := by
  unfold groupCalls
  split
  · rfl
  · simp only [nodeCalls, List.cons_append, List.map_cons, List.map_append, List.sum_cons, List.sum_append,
      (tokenCalls_flat tokens).1, (tokenCalls_flat tokens).2]
    rfl

def depthBehind (depth : Nat) : RuleEvent → Nat
  | .enter _ _ => depth + 1
  | .exit => if depth = 1 then 1 else depth - 1
  | .token _ | .error _ => depth

/-- An event that may follow those that led to a state. -/
def Agrees (mode : ParseMode) (state : Assembly) : RuleEvent → Prop
  | .enter _ _ => state.rootExited = false
  | .token index =>
    (0 < state.builder.nesting ∧ state.rootExited = false) ∧ state.next ≤ index ∧ index < state.tokens.size
  | .exit => 0 < state.builder.nesting ∧ state.rootExited = false
  | .error _ => mode = .lenient

def callsFor (state : Assembly) : RuleEvent → List Call
  | .enter name rule => [.start name rule]
  | .token index =>
    groupCalls ((state.tokens.toList.take index).drop state.next) ++
      (state.tokens.toList[index]?.toList.map fun raw => .token raw.placed)
  | .exit => if state.builder.nesting = 1 then [] else [.finish]
  | .error _ => []

/-- The state behind an event, once its calls have been made. -/
def behind (state : Assembly) (event : RuleEvent) (builder : Builder) : Assembly where
  tokens := state.tokens
  builder := builder
  next :=
    match event with
    | .token index => index + 1
    | _ => state.next
  rootExited :=
    match event with
    | .exit => state.rootExited || decide (state.builder.nesting = 1)
    | _ => state.rootExited

section Step

variable {mode : ParseMode} {state after : Assembly} {builder : Builder} {event : RuleEvent} {events : List RuleEvent}

private theorem attach_eq (inside : state.inRule = true) {index : Nat} (order : state.next ≤ index) {raw : RawToken}
    (found : state.tokens[index]? = some raw) :
    state.attach index =
      (state.builder.run (groupCalls ((state.tokens.toList.take index).drop state.next) ++ [.token raw.placed])).map
        (state.behind (.token index)) := by
  have slice : (state.tokens.extract state.next index).toList = (state.tokens.toList.take index).drop state.next := by
    rw [Array.toList_extract, List.extract_eq_drop_take']
  simp only [attach, found, inside, Nat.not_lt.mpr order, slice, addGroup_eq, Builder.run_append, Builder.run_singleton,
    Builder.call]
  cases state.builder.run (groupCalls ((state.tokens.toList.take index).drop state.next)) with
  | error violation => rfl
  | ok middle =>
    simp only [Except.bind, bind]
    cases middle.token raw.placed <;> rfl

/-- An event that agrees does nothing but to make its calls. -/
private theorem step_eq (agrees : state.Agrees mode event) :
    state.step mode event = Fault.ofViolation ((state.builder.run (state.callsFor event)).map (state.behind event)) := by
  cases event with
  | enter name rule =>
    have free : state.rootExited = false := agrees
    rw [step, enter, if_neg (by simp [free]), callsFor, Builder.run_singleton, Builder.call]
    rfl
  | token index =>
    obtain ⟨inside, order, known⟩ := agrees
    have found := Array.getElem?_eq_getElem known
    rw [step, attach_eq ((inRule_iff state).mpr inside) order found, callsFor, Array.getElem?_toList, found]
    rfl
  | exit =>
    have entered : state.inRule = true := (inRule_iff state).mpr agrees
    by_cases last : state.builder.nesting = 1
    · simp [step, exit, entered, last, callsFor, Builder.run, Except.map, behind]
    · simp only [step, exit, entered, last, callsFor, Builder.run_singleton, Builder.call, Bool.not_true, if_false,
        Bool.false_eq_true]
      cases state.builder.finishNode with
      | error violation => rfl
      | ok builder => simp [Except.map, behind, last]
  | error diagnostic =>
    obtain rfl : mode = .lenient := agrees
    rfl

private theorem agrees_of_step (stepped : state.step mode event = .ok after) : state.Agrees mode event := by
  cases event with
  | enter name rule =>
    rw [step, ofViolation_eq_ok, enter] at stepped
    split at stepped
    · cases stepped
    next free => exact eq_false_of_ne_true free
  | token index =>
    rw [step, ofViolation_eq_ok, attach] at stepped
    split at stepped
    · cases stepped
    next raw found =>
    split at stepped
    · cases stepped
    next inside =>
    split at stepped
    · cases stepped
    next order =>
    exact ⟨(inRule_iff state).mp (by simpa using inside), Nat.not_lt.mp order, (Array.getElem?_eq_some_iff.mp found).1⟩
  | exit =>
    rw [step, ofViolation_eq_ok, exit] at stepped
    split at stepped
    · cases stepped
    next inside => exact (inRule_iff state).mp (by simpa using inside)
  | error diagnostic =>
    cases mode with
    | strict => cases stepped
    | lenient => rfl

theorem step_eq_ok : state.step mode event = .ok after ↔
    state.Agrees mode event ∧ ∃ builder, state.builder.run (state.callsFor event) = .ok builder ∧
      after = state.behind event builder := by
  constructor
  · intro stepped
    have agrees := agrees_of_step stepped
    rw [step_eq agrees, ofViolation_eq_ok, map_eq_ok] at stepped
    obtain ⟨builder, made, same⟩ := stepped
    exact ⟨agrees, builder, made, same.symm⟩
  · rintro ⟨agrees, builder, made, rfl⟩
    rw [step_eq agrees, made]
    rfl

theorem nesting_behind (agrees : state.Agrees mode event)
    (made : state.builder.run (state.callsFor event) = .ok builder) :
    builder.nesting = depthBehind state.builder.nesting event := by
  obtain ⟨-, nesting⟩ := Builder.nesting_run made
  cases event with
  | enter name rule => exact nesting
  | token index =>
    obtain ⟨closes, opens⟩ := tokenCalls_flat state.tokens.toList[index]?.toList
    rw [callsFor, List.map_append, List.map_append, List.sum_append, List.sum_append, closes, opens,
      groupCalls_balanced] at nesting
    rw [depthBehind]
    omega
  | exit =>
    have inside : 0 < state.builder.nesting := agrees.1
    rw [callsFor] at nesting
    rw [depthBehind]
    split at nesting
    next last => simpa [last] using nesting
    next last =>
      simp only [List.map_cons, List.map_nil, List.sum_cons, List.sum_nil, Call.closes, Call.opens] at nesting
      rw [if_neg last]
      omega
  | error diagnostic => exact nesting

theorem rooted_behind (agrees : state.Agrees mode event)
    (rooted : state.builder.hasRoot = true ↔ 0 < state.builder.nesting)
    (made : state.builder.run (state.callsFor event) = .ok builder) :
    builder.hasRoot = true ↔ 0 < builder.nesting := by
  have kept := (Builder.nesting_run made).1
  have nesting := nesting_behind agrees made
  cases event with
  | enter name rule =>
    rw [callsFor, Builder.run_singleton] at made
    exact iff_of_true (Builder.nesting_call made).1 (by rw [nesting]; exact Nat.succ_pos _)
  | token index => exact iff_of_true (kept (rooted.mpr agrees.1.1)) (by rw [nesting]; exact agrees.1.1)
  | exit =>
    refine iff_of_true (kept (rooted.mpr agrees.1)) ?_
    have inside : 0 < state.builder.nesting := agrees.1
    rw [nesting, depthBehind]
    split <;> omega
  | error diagnostic =>
    cases made
    exact rooted

private theorem plan_cons (state : Assembly) (builder : Builder) :
    plan state.tokens.toList state.next state.builder.nesting (event :: events) =
      state.callsFor event ++
        plan state.tokens.toList (state.behind event builder).next (depthBehind state.builder.nesting event) events := by
  cases event with
  | enter | token | error => rfl
  | exit =>
    by_cases last : state.builder.nesting = 1 <;> simp [plan, callsFor, behind, depthBehind, last]

private theorem consistent_cons (builder : Builder) :
    Consistent mode state.tokens.size state.next state.builder.nesting state.rootExited (event :: events) ↔
      state.Agrees mode event ∧ Consistent mode state.tokens.size (state.behind event builder).next
        (depthBehind state.builder.nesting event) (state.behind event builder).rootExited events := by
  cases event with
  | enter name rule =>
    simp only [Consistent, Agrees, behind, depthBehind]
    exact and_congr_right fun free => by rw [free]
  | token index =>
    simp only [Consistent, Agrees, behind, depthBehind, and_assoc]
    exact and_congr_right fun _ => and_congr_right fun free => by rw [free]
  | exit =>
    refine and_congr_right fun (inside : _ ∧ state.rootExited = false) => ?_
    by_cases last : state.builder.nesting = 1
    · simp [behind, depthBehind, last]
    · simp [behind, depthBehind, last, inside.2]
  | error diagnostic => exact Iff.rfl

end Step

private theorem consistent_of_run {mode : ParseMode} {events : List RuleEvent} {state last : Assembly}
    (ran : state.run mode events = .ok last) :
    Consistent mode state.tokens.size state.next state.builder.nesting state.rootExited events := by
  induction events generalizing state with
  | nil => trivial
  | cons event events ih =>
    obtain ⟨after, stepped, later⟩ := bind_eq_ok.mp ran
    obtain ⟨agrees, builder, made, rfl⟩ := step_eq_ok.mp stepped
    refine (consistent_cons builder).mpr ⟨agrees, ?_⟩
    rw [← nesting_behind agrees made]
    exact ih later

/-- Events that agree make the calls of their plan, and fail only where these do. -/
private theorem run_finish_eq {mode : ParseMode} {events : List RuleEvent} {state : Assembly}
    (rooted : state.builder.hasRoot = true ↔ 0 < state.builder.nesting)
    (consistent : Consistent mode state.tokens.size state.next state.builder.nesting state.rootExited events) :
    (state.run mode events).bind (fun last => Fault.ofViolation last.finish) =
      Fault.ofViolation ((state.builder.run (plan state.tokens.toList state.next state.builder.nesting events)).bind
        fun done => done.finish) := by
  induction events generalizing state with
  | nil => exact congrArg Fault.ofViolation (finish_eq state rooted)
  | cons event events ih =>
    have agrees := ((consistent_cons state.builder).mp consistent).1
    cases made : state.builder.run (state.callsFor event) with
    | error violation =>
      rw [run, step_eq agrees, plan_cons state state.builder, Builder.run_append, made]
      rfl
    | ok builder =>
      have rest := ((consistent_cons builder).mp consistent).2
      rw [run, step_eq agrees, plan_cons state builder, Builder.run_append, made]
      rw [← nesting_behind agrees made] at rest ⊢
      exact ih (rooted_behind agrees rooted made) rest

theorem build_of_consistent {mode : ParseMode} {tokens : List RawToken} {events : List RuleEvent}
    (consistent : Consistent mode tokens.length 0 0 false events) :
    build tokens events mode = Fault.ofViolation (Builder.build (plan tokens 0 0 events)) := by
  have blank : ({} : Builder).hasRoot = true ↔ 0 < ({} : Builder).nesting := by decide
  exact @run_finish_eq mode events { tokens := tokens.toArray } blank consistent

theorem build_eq_ok_iff {tokens : List RawToken} {events : List RuleEvent} {mode : ParseMode} {tree : SyntaxTree} :
    build tokens events mode = .ok tree ↔
      Consistent mode tokens.length 0 0 false events ∧ Builder.build (plan tokens 0 0 events) = .ok tree := by
  constructor
  · intro built
    obtain ⟨last, ran, -⟩ := bind_eq_ok.mp built
    have consistent : Consistent mode tokens.length 0 0 false events := consistent_of_run ran
    rw [build_of_consistent consistent, ofViolation_eq_ok] at built
    exact ⟨consistent, built⟩
  · rintro ⟨consistent, built⟩
    rw [build_of_consistent consistent, built]
    rfl

private theorem step_strict {event : RuleEvent} {state next : Assembly}
    (stepped : state.step .lenient event = .ok next) :
    state.step .strict event = .ok next ∨
      ∃ diagnostic, state.step .strict event = .error (.error (.parse diagnostic)) := by
  cases event with
  | error diagnostic => exact .inr ⟨diagnostic, rfl⟩
  | enter | token | exit => exact .inl stepped

/-- A strict run differs from a lenient one only by its first error. -/
private theorem run_strict {events : List RuleEvent} {state last : Assembly}
    (ran : state.run .lenient events = .ok last) :
    state.run .strict events = .ok last ∨
      ∃ diagnostic, state.run .strict events = .error (.error (.parse diagnostic)) := by
  induction events generalizing state with
  | nil => exact .inl ran
  | cons event events ih =>
    obtain ⟨next, first, later⟩ := bind_eq_ok.mp ran
    rw [run]
    rcases step_strict first with same | ⟨diagnostic, stopped⟩
    · rw [same]
      exact ih later
    · rw [stopped]
      exact .inr ⟨diagnostic, rfl⟩

/-- What a lenient parse makes a tree of, a strict one does too or stops at an error. -/
theorem build_strict {tokens : List RawToken} {events : List RuleEvent} {tree : SyntaxTree}
    (built : build tokens events .lenient = .ok tree) :
    build tokens events .strict = .ok tree ∨
      ∃ diagnostic, build tokens events .strict = .error (.error (.parse diagnostic)) := by
  obtain ⟨last, ran, finished⟩ := bind_eq_ok.mp built
  unfold build
  rcases run_strict ran with same | ⟨diagnostic, stopped⟩
  · rw [same]
    exact .inl finished
  · rw [stopped]
    exact .inr ⟨diagnostic, rfl⟩

private theorem ofViolation_eq_error {result : Except Violation α} {fault : Fault}
    (refused : Fault.ofViolation result = .error fault) : ∃ violation, fault = .violation violation := by
  cases result with
  | ok value => cases refused
  | error violation => exact ⟨violation, (Except.error.inj refused).symm⟩

private theorem step_eq_error {mode : ParseMode} {event : RuleEvent} {state : Assembly} {fault : Fault}
    (refused : state.step mode event = .error fault) :
    (∃ diagnostic, event = .error diagnostic ∧ fault = .error (.parse diagnostic)) ∨
      ∃ violation, fault = .violation violation := by
  cases event with
  | enter | token | exit => exact .inr (ofViolation_eq_error refused)
  | error diagnostic =>
    cases mode with
    | strict => exact .inl ⟨diagnostic, rfl, (Except.error.inj refused).symm⟩
    | lenient => cases refused

theorem run_eq_error {mode : ParseMode} {events : List RuleEvent} {state : Assembly} {fault : Fault}
    (refused : state.run mode events = .error fault) :
    (∃ diagnostic, .error diagnostic ∈ events ∧ fault = .error (.parse diagnostic)) ∨
      ∃ violation, fault = .violation violation := by
  induction events generalizing state with
  | nil => cases refused
  | cons event events ih =>
    rw [run] at refused
    cases stepped : state.step mode event with
    | ok next =>
      rw [stepped] at refused
      refine (ih refused).imp_left ?_
      rintro ⟨diagnostic, later, same⟩
      exact ⟨diagnostic, List.mem_cons_of_mem event later, same⟩
    | error other =>
      rw [stepped] at refused
      cases refused
      refine (step_eq_error stepped).imp_left ?_
      rintro ⟨diagnostic, rfl, same⟩
      exact ⟨diagnostic, List.mem_cons_self, same⟩

/-- A parse that gives no tree reports an error of the source, which is one of the events, or a broken contract. -/
theorem build_eq_error {tokens : List RawToken} {events : List RuleEvent} {mode : ParseMode} {fault : Fault}
    (refused : build tokens events mode = .error fault) :
    (∃ diagnostic, .error diagnostic ∈ events ∧ fault = .error (.parse diagnostic)) ∨
      ∃ violation, fault = .violation violation := by
  unfold build at refused
  cases ran : run mode { tokens := tokens.toArray } events with
  | ok last =>
    rw [ran] at refused
    exact .inr (ofViolation_eq_error refused)
  | error other =>
    rw [ran] at refused
    cases refused
    exact run_eq_error ran

theorem build_eq_parse {tokens : List RawToken} {events : List RuleEvent} {mode : ParseMode} {diagnostic : Diagnostic}
    (refused : build tokens events mode = .error (.error (.parse diagnostic))) : .error diagnostic ∈ events := by
  rcases build_eq_error refused with ⟨found, inside, same⟩ | ⟨violation, broken⟩
  · cases same
    exact inside
  · cases broken

theorem accepted_of_consistent {count next depth : Nat} {exited : Bool} {events : List RuleEvent}
    (consistent : Consistent .strict count next depth exited events) (diagnostic : Diagnostic) :
    .error diagnostic ∉ events := by
  induction events generalizing next depth exited with
  | nil => exact List.not_mem_nil
  | cons event events ih =>
    intro member
    cases event with
    | enter name rule => exact ih consistent.2 ((List.mem_cons.mp member).resolve_left nofun)
    | token index => exact ih consistent.2.2.2 ((List.mem_cons.mp member).resolve_left nofun)
    | exit =>
      have later := (List.mem_cons.mp member).resolve_left nofun
      obtain ⟨-, rest⟩ := consistent
      split at rest
      · exact ih rest later
      · exact ih rest later
    | error found => cases consistent.1

def leaves (tokens : List RawToken) : List Element := tokens.map fun raw => .token raw.placed

def group (tokens : List RawToken) : List Element :=
  if tokens.isEmpty then [] else [.node groupName groupRule (leaves tokens)]

theorem callsOf_leaves (tokens : List RawToken) :
    Element.callsOf (leaves tokens) = tokens.map fun raw => .token raw.placed := by
  induction tokens with
  | nil => rfl
  | cons raw rest ih =>
    rw [leaves, List.map_cons, Element.callsOf, List.map_cons, ← ih]
    rfl

theorem calls_node_leaves (tokens : List RawToken) :
    (Element.node groupName groupRule (leaves tokens)).calls = nodeCalls tokens := by
  rw [Element.calls, callsOf_leaves]
  rfl

theorem callsOf_group (tokens : List RawToken) : Element.callsOf (group tokens) = groupCalls tokens := by
  unfold group groupCalls
  split
  · rfl
  · rw [Element.callsOf, Element.callsOf, List.append_nil, calls_node_leaves]

/-- The last calls complete any draft that has so many open nodes. -/
private theorem run_lastCalls (tokens : List RawToken) (next : Nat) {draft : Draft}
    (unfinished : ∀ root, draft ≠ .whole root) :
    ∃ root, draft.run (lastCalls tokens next draft.depth) = some (.whole root) := by
  cases draft with
  | blank =>
    refine ⟨⟨groupName, groupRule, leaves (tokens.drop next)⟩, ?_⟩
    rw [lastCalls, Draft.depth, if_pos rfl, ← calls_node_leaves]
    exact Draft.run_node ⟨groupName, groupRule, leaves (tokens.drop next)⟩
  | part inner outer =>
    rw [lastCalls, Draft.depth, if_neg (Nat.succ_ne_zero _), Nat.add_sub_cancel]
    induction outer generalizing inner with
    | nil =>
      rw [List.length_nil, List.replicate_zero, List.nil_append, Draft.run_append, ← callsOf_group, Draft.run_elements]
      exact ⟨_, rfl⟩
    | cons frame outer ih => exact ih (frame.add inner.node) (by simp)
  | whole root => exact absurd rfl (unfinished root)

theorem run_plan {mode : ParseMode} (tokens : List RawToken) (events : List RuleEvent) {next : Nat} {exited : Bool}
    (draft : Draft) (unfinished : ∀ root, draft ≠ .whole root)
    (consistent : Consistent mode tokens.length next draft.depth exited events) :
    ∃ root, draft.run (plan tokens next draft.depth events) = some (.whole root) := by
  induction events generalizing next exited draft with
  | nil => exact run_lastCalls tokens next unfinished
  | cons event events ih =>
    cases event with
    | enter name rule =>
      cases draft with
      | blank => exact ih (.part ⟨name, rule, []⟩ []) (by simp) consistent.2
      | part inner outer => exact ih (.part ⟨name, rule, []⟩ (inner :: outer)) (by simp) consistent.2
      | whole root => exact absurd rfl (unfinished root)
    | token index =>
      obtain ⟨⟨inside, -⟩, -, bound, rest⟩ := consistent
      cases draft with
      | blank | whole => cases inside
      | part inner outer =>
        rw [plan, List.getElem?_eq_getElem bound, ← callsOf_group, Draft.run_append, Draft.run_append,
          Draft.run_elements]
        exact ih (.part (Frame.add _ (.token tokens[index].placed)) outer) (by simp) rest
    | exit =>
      obtain ⟨⟨inside, -⟩, rest⟩ := consistent
      cases draft with
      | blank | whole => cases inside
      | part inner outer =>
        cases outer with
        | nil => exact ih (.part inner []) unfinished rest
        | cons frame outer => exact ih (.part (frame.add inner.node) outer) (by simp) rest
    | error diagnostic => exact ih draft unfinished consistent.2

theorem exists_build {mode : ParseMode} {tokens : List RawToken} {events : List RuleEvent}
    (consistent : Consistent mode tokens.length 0 0 false events) (fits : Builder.Fits (plan tokens 0 0 events)) :
    ∃ tree, build tokens events mode = .ok tree := by
  obtain ⟨root, taken⟩ := run_plan tokens events .blank (by simp) consistent
  have same := Draft.run_blank_iff.mp taken
  obtain ⟨tree, made⟩ := Builder.exists_build root (by rw [same]; exact fits)
  exact ⟨tree, build_eq_ok_iff.mpr ⟨consistent, by rw [← made, same]; rfl⟩⟩

end Assembly

end Verbatim
