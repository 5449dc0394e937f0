import Verbatim.Proofs.TreeNesting

/-! Why a builder refuses a call. Either the call has no place in the tree, or one of the limits on names, text and
buffer leaves no room for it; what a builder takes adds to these by just what is in the call. -/

namespace Verbatim

private theorem Names.intern_eq_error {names : Names} {name : String} {violation : Violation}
    (refused : names.intern name = .error violation) :
    violation = .tooManyNames Tag.nameLimit ∧ name ∉ names ∧ Tag.nameLimit ≤ names.size := by
  unfold intern at refused
  split at refused
  · cases refused
  next search =>
  split at refused
  · cases refused
  next full =>
  cases refused
  exact ⟨rfl, Array.idxOf?_eq_none_iff.mp search, Nat.not_lt.mp full⟩

namespace Builder

/-- Why a builder refuses a call: the call has no place, or there is no room for it. -/
inductive Refuses (builder : Builder) : Call → Violation → Prop where
  | secondRoot {name : String} {rule : RuleId} (rooted : builder.hasRoot = true) (closed : builder.nesting = 0) :
      Refuses builder (.start name rule) .secondRoot
  | tokenBeforeNode {token : Token} (outside : builder.nesting = 0) : Refuses builder (.token token) .tokenBeforeNode
  | nothingToFinish (outside : builder.nesting = 0) : Refuses builder .finish .nothingToFinish
  | tooManyNames {call : Call} {name : String} (named : name ∈ call.names) (fresh : name ∉ builder.names)
      (full : Tag.nameLimit ≤ builder.names.size) : Refuses builder call (.tooManyNames Tag.nameLimit)
  | textTooLong {token : Token} (long : wordLimit ≤ builder.text.utf8ByteSize + token.text.utf8ByteSize) :
      Refuses builder (.token token) (.textTooLong (builder.text.utf8ByteSize + token.text.utf8ByteSize))
  | treeTooLarge {call : Call} (large : wordLimit ≤ builder.data.size + call.size + 1) :
      Refuses builder call .treeTooLarge

variable {builder next : Builder} {draft : Draft} {call : Call} {violation : Violation}

private theorem append_eq_error {record : Record} (refused : builder.append record = .error violation) :
    violation = .treeTooLarge ∧ wordLimit ≤ builder.data.size + record.size + 1 := by
  unfold append at refused
  split at refused
  · cases refused
  next full =>
  cases refused
  exact ⟨rfl, Nat.not_lt.mp full⟩

theorem refuses_of_call (refused : builder.call call = .error violation) : builder.Refuses call violation := by
  cases call with
  | start name rule =>
    rw [Builder.call, start] at refused
    split at refused
    next twice =>
      cases refused
      obtain ⟨rooted, closed⟩ := Bool.and_eq_true_iff.mp twice
      exact .secondRoot rooted ((isEmpty_pending builder).mp closed)
    next =>
    split at refused
    next interning =>
      cases refused
      obtain ⟨rfl, fresh, full⟩ := Names.intern_eq_error interning
      exact .tooManyNames List.mem_cons_self fresh full
    next =>
    obtain ⟨rfl, large⟩ := append_eq_error refused
    exact .treeTooLarge large
  | token token =>
    rw [Builder.call, Builder.token] at refused
    split at refused
    next outside =>
      cases refused
      exact .tokenBeforeNode ((isEmpty_pending builder).mp outside)
    next =>
    split at refused
    next interning =>
      cases refused
      obtain ⟨rfl, fresh, full⟩ := Names.intern_eq_error interning
      exact .tooManyNames List.mem_cons_self fresh full
    next =>
    dsimp only at refused
    split at refused
    next =>
      obtain ⟨rfl, large⟩ := append_eq_error refused
      exact .treeTooLarge large
    next long =>
      cases refused
      exact .textTooLong (Nat.not_lt.mp long)
  | finish =>
    rw [Builder.call, finishNode] at refused
    split at refused
    next outside =>
      cases refused
      exact .nothingToFinish (congrArg List.length outside)
    next =>
    dsimp only at refused
    split at refused
    next appended =>
      cases refused
      obtain ⟨rfl, large⟩ := append_eq_error appended
      exact .treeTooLarge large
    next => cases refused

theorem Shows.grows (shows : builder.Shows draft) (made : builder.call call = .ok next) :
    (∃ after, next.Shows after) ∧ next.data.size = builder.data.size + call.size ∧
      next.text = builder.text ++ call.text ∧ ∀ name ∈ next.names, name ∈ builder.names ∨ name ∈ call.names := by
  obtain ⟨after, taken, shown⟩ := shows.call made
  have calls := Draft.calls_call taken
  refine ⟨⟨after, shown⟩, ?_, ?_, ?_⟩
  · rw [shown.size, shows.size, calls, Call.sizeOf_append, Call.sizeOf_cons, Call.sizeOf_nil, Nat.add_zero]
  · rw [shown.text, shows.text, calls, Call.textOf_append, Call.textOf_cons, Call.textOf_nil, String.append_empty]
  · intro name inside
    rw [shows.known]
    simpa [calls] using (shown.known name).mp inside

/-- A run that fails does so at one of its calls. -/
theorem run_eq_error {calls : List Call} (refused : builder.run calls = .error violation) :
    ∃ front call rest middle, calls = front ++ call :: rest ∧ builder.run front = .ok middle ∧
      middle.call call = .error violation := by
  induction calls generalizing builder with
  | nil => cases refused
  | cons call rest ih =>
    rw [run] at refused
    cases made : builder.call call with
    | error broken =>
      rw [made] at refused
      cases refused
      exact ⟨[], call, rest, builder, rfl, rfl, made⟩
    | ok next =>
      rw [made] at refused
      obtain ⟨front, last, later, middle, rfl, ran, stopped⟩ := ih refused
      exact ⟨call :: front, last, later, middle, rfl, bind_eq_ok.mpr ⟨next, made, ran⟩, stopped⟩

end Builder

end Verbatim
