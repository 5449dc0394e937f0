import Verbatim.Proofs.AssemblyCapacity
import Verbatim.Proofs.AssemblyModes
import Verbatim.Proofs.AssemblyTokens
import Verbatim.Proofs.EventOrder

/-! Which events an assembly accepts. Its state agrees with the counts of the events so far, as long as it goes
on. So it follows events exactly as long as they are in order, it stops at the first one that is not, and it can be
finished wherever it has come to. -/

namespace Verbatim.Assembly

open RuleEvent

variable {tokens : List RawToken} {events before : List RuleEvent} {event : RuleEvent} {state after : Assembly}
  {violation : Violation}

/-- A state of an assembly that has followed events, as their counts say. -/
structure Reached (tokens : List RawToken) (before : List RuleEvent) (state : Assembly) : Prop where
  orderly : Orderly tokens.length before
  listed : state.tokens = tokens.toArray
  next : state.next = due before
  exited : state.rootExited = decide (Closed before)
  nesting : state.builder.nesting = depth before
  rooted : state.builder.hasRoot = true ↔ 0 < state.builder.nesting

theorem Reached.initial (tokens : List RawToken) : Reached tokens [] { tokens := tokens.toArray } where
  orderly := orderly_nil
  listed := rfl
  next := rfl
  exited := rfl
  nesting := rfl
  rooted := (by decide : ({} : Builder).hasRoot = true ↔ 0 < ({} : Builder).nesting)

theorem Reached.inRule_iff (reached : Reached tokens before state) :
    state.inRule = true ↔ exits before < enters before := by
  rw [Assembly.inRule_iff, reached.exited, reached.nesting, inside_iff, decide_eq_false_iff_not]

theorem Reached.outside (reached : Reached tokens before state) (outside : enters before ≤ exits before) :
    state.inRule = false := by
  rw [← Bool.not_eq_true, reached.inRule_iff]
  exact Nat.not_lt.mpr outside

private theorem Reached.refuses (reached : Reached tokens before state)
    (broken : offence? tokens.length before event = some violation) :
    state.step .lenient event = .error (.violation violation) := by
  cases event with
  | enter name rule =>
    rw [offence?] at broken
    split at broken
    next closed =>
      cases broken
      simp [step, enter, reached.exited, closed, Fault.ofViolation]
    next => cases broken
  | token index =>
    have found : state.tokens[index]? = tokens[index]? := by simp [reached.listed]
    have size : state.tokens.size = tokens.length := by simp [reached.listed]
    rw [offence?] at broken
    split at broken
    next missing =>
      cases broken
      simp [step, attach, found, List.getElem?_eq_none missing, size, Fault.ofViolation]
    next known =>
    have raw := List.getElem?_eq_getElem (Nat.not_le.mp known)
    split at broken
    next outside =>
      cases broken
      simp [step, attach, found, raw, reached.outside outside, Fault.ofViolation]
    next inside =>
    have entered : state.inRule = true := reached.inRule_iff.mpr (Nat.not_le.mp inside)
    split at broken
    next early =>
      cases broken
      simp [step, attach, found, raw, entered, reached.next, early, Fault.ofViolation]
    next => cases broken
  | exit =>
    rw [offence?] at broken
    split at broken
    next outside =>
      cases broken
      simp [step, exit, reached.outside outside, Fault.ofViolation]
    next => cases broken
  | error diagnostic => cases broken

theorem Reached.fine (reached : Reached tokens before state) (stepped : state.step .lenient event = .ok after) :
    offence? tokens.length before event = none := by
  cases found : offence? tokens.length before event with
  | none => rfl
  | some violation =>
    rw [reached.refuses found] at stepped
    cases stepped

/-- What the state says of the events so far it says of one more event, if it takes it. -/
theorem Reached.step (reached : Reached tokens before state) (stepped : state.step .lenient event = .ok after) :
    Reached tokens (before ++ [event]) after := by
  have orderly := reached.orderly.concat (reached.fine stepped)
  have level := reached.orderly.level
  obtain ⟨agrees, builder, made, rfl⟩ := step_eq_ok.mp stepped
  have rooted := rooted_behind agrees reached.rooted made
  have nesting := nesting_behind agrees made
  rw [reached.nesting] at nesting
  cases event with
  | enter name rule =>
    have free : ¬Closed before := of_decide_eq_false (reached.exited.symm.trans agrees)
    refine ⟨orderly, reached.listed, ?_, ?_, ?_, rooted⟩
    · rw [due_enter]
      exact reached.next
    · simp [behind, reached.exited, free, closed_enter level]
    · rw [depth_enter level free]
      exact nesting
  | token index =>
    refine ⟨orderly, reached.listed, due_token.symm, ?_, ?_, rooted⟩
    · simp [behind, reached.exited]
    · rw [depth_token]
      exact nesting
  | exit =>
    have inside := reached.inRule_iff.mp ((Assembly.inRule_iff state).mpr agrees)
    have free := (inside_iff.mp inside).2
    refine ⟨orderly, reached.listed, ?_, ?_, ?_, rooted⟩
    · rw [due_exit]
      exact reached.next
    · simp [behind, reached.exited, reached.nesting, free, closed_exit inside]
    · rw [depth_exit inside]
      exact nesting
  | error diagnostic =>
    refine ⟨orderly, reached.listed, ?_, ?_, ?_, rooted⟩
    · rw [due_error]
      exact reached.next
    · simp [behind, reached.exited]
    · rw [depth_error]
      exact nesting

private theorem reached_of_run (ran : run .lenient { tokens := tokens.toArray } events = .ok state) :
    Reached tokens events state := by
  induction events using List.reverseRecOn generalizing state with
  | nil =>
    cases ran
    exact .initial tokens
  | append_singleton before event ih =>
    have split := ran
    rw [run_append] at split
    obtain ⟨middle, first, -⟩ := bind_eq_ok.mp split
    rw [run_concat first] at ran
    exact (ih first).step ran

/-- Events in order agree with each other and with the tokens, whatever part of them has been followed. -/
private theorem consistent_of_orderly (orderly : Orderly tokens.length (before ++ events)) :
    Consistent .lenient tokens.length (due before) (depth before) (decide (Closed before)) events := by
  induction events generalizing before with
  | nil => trivial
  | cons event rest ih =>
    have later : Orderly tokens.length ((before ++ [event]) ++ rest) := by simpa using orderly
    have level := orderly.leading.level
    have fine := later.leading.offence_eq
    have more := ih later
    cases event with
    | enter name rule =>
      have free : ¬Closed before := by simpa [offence?] using fine
      rw [due_enter, depth_enter level free, decide_eq_false (closed_enter level)] at more
      exact ⟨decide_eq_false free, more⟩
    | token index =>
      obtain ⟨known, entered, order⟩ := offence?_token_iff.mp fine
      have inside := inside_iff.mp entered
      simp only [due_token, depth_token, closed_token, decide_eq_false inside.2] at more
      exact ⟨⟨inside.1, decide_eq_false inside.2⟩, order, known, more⟩
    | exit =>
      have inside := offence?_exit_iff.mp fine
      have entered := inside_iff.mp inside
      refine ⟨⟨entered.1, decide_eq_false entered.2⟩, ?_⟩
      simp only [due_exit, depth_exit inside, closed_exit inside] at more
      split
      next last => simpa [last] using more
      next last => simpa [last] using more
    | error diagnostic =>
      simp only [due_error, depth_error, closed_error] at more
      exact ⟨rfl, more⟩

private theorem consistent_from_start (orderly : Orderly tokens.length events) :
    Consistent .lenient tokens.length 0 0 false events :=
  @consistent_of_orderly tokens events [] orderly

private theorem orderly_of_build {tree : SyntaxTree} (built : build tokens events .lenient = .ok tree) :
    Orderly tokens.length events := by
  obtain ⟨state, ran, -⟩ := bind_eq_ok.mp built
  exact (reached_of_run ran).orderly

def namesIn (tokens : List RawToken) (events : List RuleEvent) : List String :=
  groupName :: (tokens.map RawToken.kind ++ events.filterMap RuleEvent.name?)

/-- Tokens and events that take more than a buffer or a text can be indexed by. -/
def Oversized (tokens : List RawToken) (events : List RuleEvent) : Prop :=
  Builder.wordLimit ≤ (String.join (tokens.map RawToken.text)).utf8ByteSize ∨
    Builder.wordLimit ≤ Call.sizeOf (plan tokens 0 0 events) + 1

private theorem card_toFinset_mono {names others : List String} (part : names ⊆ others) :
    names.toFinset.card ≤ others.toFinset.card :=
  Finset.card_le_card fun _ member => List.mem_toFinset.mpr (part (List.mem_toFinset.mp member))

private theorem namesOf_plan_subset (tokens : List RawToken) (events : List RuleEvent) :
    Call.namesOf (plan tokens 0 0 events) ⊆ namesIn tokens events := by
  intro name inside
  rcases mem_namesOf_plan inside with (rfl | ⟨raw, member, rfl⟩) | ⟨rule, member⟩
  · exact List.mem_cons_self
  · exact List.mem_cons_of_mem _ (List.mem_append_left _ (List.mem_map_of_mem member))
  · exact List.mem_cons_of_mem _ (List.mem_append_right _ (List.mem_filterMap.mpr ⟨_, member, rfl⟩))

private theorem textOf_plan (orderly : Orderly tokens.length events) :
    Call.textOf (plan tokens 0 0 events) = String.join (tokens.map RawToken.text) := by
  rw [Call.textOf_eq_join, tokensOf_plan tokens events (consistent_from_start orderly), List.drop_zero, List.map_map]
  rfl

private theorem few_planned (few : (namesIn tokens events).toFinset.card ≤ Tag.nameLimit) :
    (Call.namesOf (plan tokens 0 0 events)).toFinset.card ≤ Tag.nameLimit :=
  (card_toFinset_mono (namesOf_plan_subset tokens events)).trans few

private theorem fits_iff (few : (namesIn tokens events).toFinset.card ≤ Tag.nameLimit)
    (orderly : Orderly tokens.length events) :
    Builder.Fits (plan tokens 0 0 events) ↔ ¬Oversized tokens events := by
  rw [Oversized, not_or, Nat.not_le, Nat.not_le, ← textOf_plan orderly]
  constructor
  · intro fits
    exact ⟨fits.text, fits.buffer⟩
  · rintro ⟨text, buffer⟩
    exact ⟨few_planned few, text, buffer⟩

private theorem exists_build_iff (few : (namesIn tokens events).toFinset.card ≤ Tag.nameLimit) :
    (∃ tree, build tokens events .lenient = .ok tree) ↔ Orderly tokens.length events ∧ ¬Oversized tokens events := by
  constructor
  · rintro ⟨tree, built⟩
    have orderly := orderly_of_build built
    obtain ⟨root, same, shown⟩ := Builder.build_eq_ok (build_eq_ok_iff.mp built).2
    have fits : Builder.Fits (Draft.whole root).calls := shown.fits
    rw [Draft.calls, same, fits_iff few orderly] at fits
    exact ⟨orderly, fits⟩
  · rintro ⟨orderly, small⟩
    exact exists_build (consistent_from_start orderly) ((fits_iff few orderly).mpr small)

private theorem build_lenient_ne_error (tokens : List RawToken) (events : List RuleEvent) (error : Error) :
    build tokens events .lenient ≠ .error (.error error) := by
  intro refused
  rcases build_eq_error refused with ⟨diagnostic, -, parse⟩ | ⟨violation, broken⟩
  · rw [parse, build_course .lenient] at refused
    exact absurd (List.mem_filter.mp (build_eq_parse refused)).2 nofun
  · cases broken

private theorem refused_for_capacity (few : (namesIn tokens events).toFinset.card ≤ Tag.nameLimit)
    (orderly : Orderly tokens.length events) (large : Oversized tokens events) :
    ∃ violation, build tokens events .lenient = .error (.violation violation) ∧ violation.isCapacity = true := by
  cases made : build tokens events .lenient with
  | ok tree => exact absurd large ((exists_build_iff few).mp ⟨tree, made⟩).2
  | error fault =>
    cases fault with
    | error error => exact absurd made (build_lenient_ne_error tokens events error)
    | violation violation =>
      exact ⟨violation, rfl, capacity_of_consistent (consistent_from_start orderly) (few_planned few) made⟩

private theorem few_leading {front back : List RuleEvent}
    (few : (namesIn tokens (front ++ back)).toFinset.card ≤ Tag.nameLimit) :
    (namesIn tokens front).toFinset.card ≤ Tag.nameLimit := by
  refine (card_toFinset_mono ?_).trans few
  intro name inside
  simp only [namesIn, List.filterMap_append, List.mem_cons, List.mem_append] at inside ⊢
  tauto

/-- Events that are out of order are refused at the first one that offends. -/
private theorem stops_at_offence {front back : List RuleEvent}
    (few : (namesIn tokens front).toFinset.card ≤ Tag.nameLimit)
    (orderly : Orderly tokens.length front) (small : ¬Oversized tokens front)
    (broken : offence? tokens.length front event = some violation) :
    Stops .lenient tokens (front ++ event :: back) front (.violation violation) := by
  obtain ⟨tree, built⟩ := (exists_build_iff few).mpr ⟨orderly, small⟩
  obtain ⟨state, ran, -⟩ := bind_eq_ok.mp built
  exact ⟨event, back, state, rfl, ran, (reached_of_run ran).refuses broken⟩

/-- Wherever an assembly has come to, it can be finished: there is a rule to close for the root that was left, and
what it makes is a tree, unless it is too large. -/
private theorem finish_of_run (few : (namesIn tokens events).toFinset.card ≤ Tag.nameLimit)
    (ran : run .lenient { tokens := tokens.toArray } events = .ok state) :
    (state.builder.hasRoot = true → (if state.rootExited then 1 else 0) ≤ state.builder.nesting) ∧
      ((∃ tree, state.finish = .ok tree) ↔ ¬Oversized tokens events) := by
  have reached := reached_of_run ran
  constructor
  · intro root
    have inside := reached.rooted.mp root
    split <;> omega
  · have outcome : build tokens events .lenient = Fault.ofViolation state.finish := by
      unfold build
      rw [ran]
      rfl
    have built := exists_build_iff few
    rw [outcome] at built
    simpa only [ofViolation_eq_ok, reached.orderly, true_and] using built

/-- With few enough names a lenient parse reports no error of its source, makes a tree of exactly the events that
are in order, and breaks its contract at the first event that offends otherwise; a tree that would be too large is
all that is excepted, and refused as such. It can be finished behind any events that it has followed. -/
theorem accepted_iff_orderly (tokens : List RawToken) (events : List RuleEvent)
    (few : (namesIn tokens events).toFinset.card ≤ Tag.nameLimit) :
    ((∃ tree, build tokens events .lenient = .ok tree) ↔ Orderly tokens.length events ∧ ¬Oversized tokens events) ∧
    (∀ error, build tokens events .lenient ≠ .error (.error error)) ∧
    (Orderly tokens.length events → Oversized tokens events →
      ∃ violation, build tokens events .lenient = .error (.violation violation) ∧ violation.isCapacity = true) ∧
    (¬Orderly tokens.length events → ∃ front event back violation, events = front ++ event :: back ∧
      Orderly tokens.length front ∧ offence? tokens.length front event = some violation ∧
      (Oversized tokens front ∨ build tokens events .lenient = .error (.violation violation) ∧
        Stops .lenient tokens events front (.violation violation))) ∧
    ∀ front, front <+: events → ∀ state, run .lenient { tokens := tokens.toArray } front = .ok state →
      (state.builder.hasRoot = true → (if state.rootExited then 1 else 0) ≤ state.builder.nesting) ∧
        ((∃ tree, state.finish = .ok tree) ↔ ¬Oversized tokens front) := by
  refine ⟨exists_build_iff few, build_lenient_ne_error tokens events, refused_for_capacity few, ?_, ?_⟩
  · intro broken
    obtain ⟨front, event, back, violation, rfl, orderly, found⟩ := exists_offence broken
    refine ⟨front, event, back, violation, rfl, orderly, found, ?_⟩
    by_cases large : Oversized tokens front
    · exact .inl large
    · have stops : Stops .lenient tokens (front ++ event :: back) front (.violation violation) :=
        stops_at_offence (few_leading few) orderly large found
      exact .inr ⟨stops.build_eq, stops⟩
  · rintro front ⟨back, rfl⟩ state ran
    exact finish_of_run (few_leading few) ran

theorem nested_rules_accepted :
    let tokens : List RawToken :=
      [⟨"WS", " ", .hidden, ⟨1, 0⟩⟩, ⟨"ID", "ä", .visible, ⟨1, 1⟩⟩, ⟨"WS", "\n", .hidden, ⟨1, 2⟩⟩]
    let events : List RuleEvent :=
      [.enter "unit" 1, .enter "name" 2, .token 1, .exit, .error ⟨"stopped", ⟨2, 0⟩⟩, .exit, .error ⟨"more", ⟨2, 0⟩⟩]
    (namesIn tokens events).toFinset.card ≤ Tag.nameLimit ∧ (∃ tree, build tokens events .lenient = .ok tree) ∧
      Orderly tokens.length events ∧ ¬Oversized tokens events := by
  intro tokens events
  have few : (namesIn tokens events).toFinset.card ≤ Tag.nameLimit := (List.toFinset_card_le _).trans (by decide)
  have fits : Builder.Fits (plan tokens 0 0 events) :=
    .ofLength (by decide) (by decide) (by decide)
  have consistent : Consistent .lenient tokens.length 0 0 false events := by simp [Consistent, tokens, events]
  have built := exists_build consistent fits
  exact ⟨few, built, (accepted_iff_orderly tokens events few).1.mp built⟩

end Verbatim.Assembly
