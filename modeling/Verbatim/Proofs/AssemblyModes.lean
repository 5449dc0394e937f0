import Verbatim.Processor
import Verbatim.Proofs.AssemblyOutline
import Verbatim.Proofs.TreeEquality

/-! The two modes of a parse side by side. A lenient run takes the course of its events, errors left out; a
strict one takes the same course up to the first error and ends there. So the modes can be told apart only by
events that report an error. -/

namespace Verbatim.Assembly

open Outline (isCourse)

variable {mode other : ParseMode} {tokens : List RawToken} {events front : List RuleEvent} {event : RuleEvent}
  {state : Assembly} {fault : Fault} {diagnostic : Diagnostic}

/-- A parse is refused at the event behind `front`: all before it is followed, and its own step fails. -/
def Stops (mode : ParseMode) (tokens : List RawToken) (events front : List RuleEvent) (fault : Fault) : Prop :=
  ∃ event back state, events = front ++ event :: back ∧ run mode { tokens := tokens.toArray } front = .ok state ∧
    state.step mode event = .error fault

theorem run_append (mode : ParseMode) (state : Assembly) (front back : List RuleEvent) :
    state.run mode (front ++ back) = (state.run mode front).bind fun middle => middle.run mode back := by
  induction front generalizing state with
  | nil => rfl
  | cons event rest ih =>
    simp only [List.cons_append, run]
    cases state.step mode event with
    | error fault => rfl
    | ok next => exact ih next

theorem run_concat {last : Assembly} (ran : state.run mode front = .ok last) (event : RuleEvent) :
    state.run mode (front ++ [event]) = last.step mode event := by
  rw [run_append, ran]
  change (last.step mode event).bind _ = _
  cases last.step mode event <;> rfl

theorem Stops.build_eq (stops : Stops mode tokens events front fault) : build tokens events mode = .error fault := by
  obtain ⟨event, back, state, rfl, ran, refused⟩ := stops
  have stopped : run mode { tokens := tokens.toArray } (front ++ event :: back) = .error fault := by
    rw [run_append, ran]
    change (state.step mode event).bind _ = _
    rw [refused]
    rfl
  unfold build
  rw [stopped]
  rfl

private theorem step_course (course : isCourse event = true) (mode other : ParseMode) :
    state.step mode event = state.step other event := by
  cases event with
  | enter | token | exit => rfl
  | error diagnostic => cases course

private theorem course_of_refused (refused : state.step .lenient event = .error fault) : isCourse event = true := by
  cases event with
  | enter | token | exit => rfl
  | error diagnostic => cases refused

/-- A lenient run is any run over the events without their errors. -/
private theorem run_course (mode : ParseMode) (state : Assembly) (events : List RuleEvent) :
    state.run .lenient events = state.run mode (events.filter isCourse) := by
  induction events generalizing state with
  | nil => rfl
  | cons event rest ih =>
    cases course : isCourse event with
    | true =>
      rw [List.filter_cons_of_pos course, run, run, step_course course .lenient mode]
      exact congrArg _ (funext fun next => ih next)
    | false =>
      rw [List.filter_cons_of_neg (by simp [course]), ← ih]
      cases event with
      | enter | token | exit => cases course
      | error diagnostic => rfl

theorem build_course (mode : ParseMode) (tokens : List RawToken) (events : List RuleEvent) :
    build tokens events .lenient = build tokens (events.filter isCourse) mode := by
  unfold build
  rw [run_course mode]

/-- The event that a lenient parse stops at is that which a parse without errors stops at. -/
private theorem stops_course (mode : ParseMode) (tokens : List RawToken) (events front : List RuleEvent)
    (fault : Fault) :
    Stops mode tokens (events.filter isCourse) front fault ↔
      ∃ passed, passed.filter isCourse = front ∧ Stops .lenient tokens events passed fault := by
  constructor
  · rintro ⟨event, back, state, split, ran, refused⟩
    obtain ⟨first, second, rfl, rfl, same⟩ := List.filter_eq_append_iff.mp split
    obtain ⟨skipped, rest, rfl, errors, course, -⟩ := List.filter_eq_cons_iff.mp same
    have silent : skipped.filter isCourse = [] := List.filter_eq_nil_iff.mpr errors
    have passed : (first ++ skipped).filter isCourse = first.filter isCourse := by
      rw [List.filter_append, silent, List.append_nil]
    refine ⟨first ++ skipped, passed, event, rest, state, (List.append_assoc _ _ _).symm, ?_, ?_⟩
    · rw [run_course mode, passed]
      exact ran
    · rw [step_course course .lenient mode]
      exact refused
  · rintro ⟨passed, rfl, event, back, state, rfl, ran, refused⟩
    have course := course_of_refused refused
    refine ⟨event, back.filter isCourse, state, ?_, ?_, ?_⟩
    · rw [List.filter_append, List.filter_cons_of_pos course]
    · rw [← run_course]
      exact ran
    · rw [step_course course mode .lenient]
      exact refused

private theorem course_of_plain (plain : ∀ diagnostic, .error diagnostic ∉ events) (member : event ∈ events) :
    isCourse event = true := by
  cases event with
  | enter | token | exit => rfl
  | error diagnostic => exact absurd member (plain diagnostic)

private theorem filter_course (plain : ∀ diagnostic, .error diagnostic ∉ events) : events.filter isCourse = events :=
  List.filter_eq_self.mpr fun _ member => course_of_plain plain member

private theorem build_strict_of_plain (plain : ∀ diagnostic, .error diagnostic ∉ events) :
    build tokens events .strict = build tokens events .lenient := by
  rw [build_course .strict, filter_course plain]

private theorem stops_of_plain (plain : ∀ diagnostic, .error diagnostic ∉ events) (front : List RuleEvent)
    (fault : Fault) :
    Stops .strict tokens events front fault ↔ Stops .lenient tokens events front fault := by
  refine exists_congr fun event => exists_congr fun back => exists_congr fun state => and_congr_right ?_
  rintro rfl
  have before : ∀ diagnostic, .error diagnostic ∉ front :=
    fun diagnostic member => plain diagnostic (List.mem_append_left _ member)
  have course : isCourse event = true := course_of_plain plain (List.mem_append_right _ List.mem_cons_self)
  rw [step_course course .strict .lenient, run_course .strict _ front, filter_course before]

private theorem stops_strict_at_error {back : List RuleEvent} (plain : ∀ diagnostic, .error diagnostic ∉ front)
    (ran : run .lenient { tokens := tokens.toArray } front = .ok state) :
    Stops .strict tokens (front ++ .error diagnostic :: back) front (.error (.parse diagnostic)) := by
  refine ⟨.error diagnostic, back, state, rfl, ?_, rfl⟩
  rw [run_course .strict, filter_course plain] at ran
  exact ran

/-- Without errors the modes have one outcome, or stop at one event. An error behind events that are followed is
the outcome of a strict parse, and what a lenient one does is done without any errors. So a tree of a strict
parse is one of a lenient parse as well. -/
theorem modes_agree (tokens : List RawToken) (events : List RuleEvent) :
    ((∀ diagnostic, .error diagnostic ∉ events) →
      build tokens events .strict = build tokens events .lenient ∧
      ∀ front fault, Stops .strict tokens events front fault ↔ Stops .lenient tokens events front fault) ∧
    (∀ front diagnostic back state, events = front ++ .error diagnostic :: back →
      (∀ earlier, .error earlier ∉ front) → run .lenient { tokens := tokens.toArray } front = .ok state →
      build tokens events .strict = .error (.error (.parse diagnostic)) ∧
      Stops .strict tokens events front (.error (.parse diagnostic))) ∧
    (∀ mode, build tokens events .lenient = build tokens (events.filter isCourse) mode ∧
      ∀ front fault, Stops mode tokens (events.filter isCourse) front fault ↔
        ∃ passed, passed.filter isCourse = front ∧ Stops .lenient tokens events passed fault) ∧
    ∀ (grammar : Grammar) (source : String) (tree : SyntaxTree), grammar.tree source .strict = .ok tree →
      ∃ kept, grammar.tree source .lenient = .ok kept ∧ (kept == tree) = true := by
  refine ⟨?_, ?_, ?_, ?_⟩
  · intro plain
    exact ⟨build_strict_of_plain plain, stops_of_plain plain⟩
  · rintro front diagnostic back state rfl plain ran
    have stops : Stops .strict tokens (front ++ .error diagnostic :: back) front (.error (.parse diagnostic)) :=
      stops_strict_at_error plain ran
    exact ⟨stops.build_eq, stops⟩
  · intro mode
    exact ⟨build_course mode tokens events, stops_course mode tokens events⟩
  · intro grammar source tree built
    have plain := accepted_of_consistent (build_eq_ok_iff.mp built).1
    exact ⟨tree, (build_strict_of_plain plain).symm.trans built, SyntaxTree.equivalence_beq.refl tree⟩

theorem exits_behind_error_unseen :
    let tokens : List RawToken := [⟨"ID", "x", .visible, ⟨1, 0⟩⟩]
    let front : List RuleEvent := [.enter "unit" 1, .token 0]
    let events : List RuleEvent := front ++ .error ⟨"stopped", ⟨1, 1⟩⟩ :: [.exit, .exit, .exit]
    ∃ state, run .lenient { tokens := tokens.toArray } front = .ok state ∧
      build tokens events .strict = .error (.error (.parse ⟨"stopped", ⟨1, 1⟩⟩)) ∧
      build tokens events .lenient = build tokens (front ++ [.exit, .exit, .exit]) .strict := by
  intro tokens front events
  have fits : Builder.Fits (plan tokens 0 0 front) :=
    .ofLength (by decide) (by decide) (by decide)
  have consistent : Consistent .lenient tokens.length 0 0 false front := by simp [Consistent, tokens, front]
  obtain ⟨tree, built⟩ := exists_build consistent fits
  obtain ⟨state, ran, -⟩ := bind_eq_ok.mp built
  obtain ⟨-, stopped, course, -⟩ := modes_agree tokens events
  exact ⟨state, ran, (stopped front _ _ state rfl (by simp [front]) ran).1, (course .strict).1⟩

end Verbatim.Assembly
