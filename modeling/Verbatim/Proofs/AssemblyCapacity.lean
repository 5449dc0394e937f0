import Verbatim.Proofs.AssemblyPlan
import Verbatim.Proofs.TreeRefusals

/-! What can stop an assembly of events that agree. It fails only where its plan does, and a plan of few names
fails only for what a text or a buffer cannot hold. -/

namespace Verbatim

def Violation.isCapacity : Violation → Bool
  | .textTooLong _ | .treeTooLarge => true
  | _ => false

namespace Builder

variable {builder : Builder} {draft after : Draft} {violation : Violation}

private theorem Shows.capacity_of_call (shows : Shows builder draft) {call : Call}
    (taken : draft.call call = some after)
    (few : (Call.namesOf (draft.calls ++ [call])).toFinset.card ≤ Tag.nameLimit)
    (refused : builder.call call = .error violation) : violation.isCapacity = true := by
  have nesting := shows.nesting
  cases refuses_of_call refused with
  | secondRoot rooted closed =>
    have started := shows.hasRoot_iff.mp rooted
    cases draft with
    | blank => exact absurd rfl started
    | part inner outer => exact absurd (nesting.symm.trans closed) (Nat.succ_ne_zero _)
    | whole root => cases taken
  | tokenBeforeNode outside | nothingToFinish outside =>
    cases draft with
    | part inner outer => exact absurd (nesting.symm.trans outside) (Nat.succ_ne_zero _)
    | blank | whole => cases taken
  | tooManyNames named fresh full =>
    cases call with
    | start | token =>
      obtain rfl := List.mem_singleton.mp named
      exact absurd (shows.room rfl few fresh) (Nat.not_lt.mpr full)
    | finish => cases named
  | textTooLong | treeTooLarge => rfl

private theorem Shows.capacity_of_run (shows : Shows builder draft) {calls : List Call}
    (taken : draft.run calls = some after)
    (few : (Call.namesOf (draft.calls ++ calls)).toFinset.card ≤ Tag.nameLimit)
    (refused : builder.run calls = .error violation) : violation.isCapacity = true := by
  obtain ⟨front, call, rest, middle, rfl, ran, stopped⟩ := run_eq_error refused
  obtain ⟨before, passed, shown⟩ := shows.run ran
  rw [Draft.run_append, passed, Option.bind_some, Draft.run] at taken
  obtain ⟨behind, placed, -⟩ := Option.bind_eq_some_iff.mp taken
  refine shown.capacity_of_call placed (le_trans (Finset.card_le_card ?_) few) stopped
  intro name inside
  rw [Draft.calls_run passed] at inside
  simp only [List.mem_toFinset, Call.namesOf_append, Call.namesOf_cons, List.mem_append] at inside ⊢
  tauto

private theorem capacity_of_build (root : Frame) (few : (Call.namesOf root.node.calls).toFinset.card ≤ Tag.nameLimit)
    (refused : build root.node.calls = .error violation) : violation.isCapacity = true := by
  unfold build at refused
  cases ran : run {} root.node.calls with
  | error broken =>
    rw [ran] at refused
    cases refused
    exact Shows.initial.capacity_of_run (Draft.run_node root) few ran
  | ok last =>
    obtain ⟨draft, taken, shown⟩ := Shows.initial.run ran
    cases taken.symm.trans (Draft.run_node root)
    have started : last.hasRoot = true := shown.hasRoot_iff.mpr (by simp)
    have closed : last.nesting = 0 := shown.nesting
    rw [ran] at refused
    simp [Except.bind, Builder.finish, started, closed] at refused

end Builder

namespace Assembly

/-- With few names events that agree fail for the size of their tree only. -/
theorem capacity_of_consistent {mode : ParseMode} {tokens : List RawToken} {events : List RuleEvent}
    {violation : Violation}
    (consistent : Consistent mode tokens.length 0 0 false events)
    (few : (Call.namesOf (plan tokens 0 0 events)).toFinset.card ≤ Tag.nameLimit)
    (refused : build tokens events mode = .error (.violation violation)) : violation.isCapacity = true := by
  obtain ⟨root, taken⟩ := run_plan tokens events .blank (by simp) consistent
  have same : root.node.calls = plan tokens 0 0 events := Draft.run_blank_iff.mp taken
  rw [build_of_consistent consistent, ← same] at refused
  rw [← same] at few
  cases built : Builder.build root.node.calls with
  | ok tree =>
    rw [built] at refused
    cases refused
  | error broken =>
    rw [built] at refused
    cases refused
    exact Builder.capacity_of_build root few built

end Assembly

end Verbatim
