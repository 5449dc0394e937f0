import Verbatim.Proofs.TreeBuilding

/-! How deep a tree under construction is. Calls alone say how many nodes they open and close, and the
builder keeps count of just that, whatever it has written. -/

namespace Verbatim

namespace Call

def opens : Call → Nat
  | .start _ _ => 1
  | _ => 0

def closes : Call → Nat
  | .finish => 1
  | _ => 0

end Call

namespace Builder

theorem run_append (builder : Builder) (first second : List Call) :
    builder.run (first ++ second) = (builder.run first).bind fun middle => middle.run second := by
  induction first generalizing builder with
  | nil => rfl
  | cons call calls ih =>
    simp only [List.cons_append, run]
    cases builder.call call with
    | error violation => rfl
    | ok next => exact ih next

theorem run_singleton (builder : Builder) (call : Call) : builder.run [call] = builder.call call := by
  simp only [run]
  cases builder.call call <;> rfl

private theorem append_facts {builder next : Builder} {record : Record} (done : builder.append record = .ok next) :
    next.hasRoot = true ∧ next.pending = builder.pending := by
  obtain ⟨-, rfl⟩ := append_eq_ok done
  have positive : 0 < record.size := by cases record <;> simp [Record.size]
  have size : (builder.data ++ record.bytes).size ≠ 0 := by
    rw [← Array.length_toList, Array.toList_appendList, List.length_append, Record.length_bytes]
    omega
  exact ⟨(hasRoot_iff_size _).mpr size, rfl⟩

theorem nesting_call {builder next : Builder} {call : Call} (made : builder.call call = .ok next) :
    next.hasRoot = true ∧ next.nesting + call.closes = builder.nesting + call.opens := by
  cases call with
  | start name rule =>
    simp only [Builder.call, start] at made
    split at made
    · cases made
    split at made
    · cases made
    obtain ⟨root, pending⟩ := append_facts made
    exact ⟨root, by simp [nesting, pending, Call.opens, Call.closes]⟩
  | token token =>
    simp only [Builder.call, Builder.token] at made
    split at made
    · cases made
    split at made
    · cases made
    split at made
    · obtain ⟨root, pending⟩ := append_facts made
      exact ⟨root, by simp [nesting, pending, Call.opens, Call.closes]⟩
    · cases made
  | finish =>
    simp only [Builder.call, finishNode] at made
    split at made
    · cases made
    next index outer listed =>
    split at made
    · cases made
    next closed appended =>
    obtain ⟨root, pending⟩ := append_facts appended
    have same := Except.ok.inj made
    have size : next.data.size = closed.data.size := by rw [← same, Word.size_patch, Word.size_patch]
    have outer : next.pending = outer := by rw [← same]; exact pending
    refine ⟨?_, by simp [nesting, outer, listed, Call.opens, Call.closes]⟩
    rw [hasRoot_iff_size, size]
    exact (hasRoot_iff_size closed).mp root

/-- Nothing but a first root can be built outside of all nodes. -/
theorem open_or_first {builder next : Builder} {call : Call} (made : builder.call call = .ok next) :
    0 < builder.nesting ∨ builder.hasRoot = false ∧ call.opens = 1 := by
  cases listed : builder.pending with
  | cons index outer => exact .inl (by simp [nesting, listed])
  | nil =>
    cases call with
    | start name rule =>
      refine .inr ⟨?_, rfl⟩
      cases rooted : builder.hasRoot with
      | false => rfl
      | true => simp [Builder.call, start, rooted, listed] at made
    | token token => simp [Builder.call, Builder.token, listed] at made
    | finish => simp [Builder.call, finishNode, listed] at made

theorem nesting_run {builder next : Builder} {calls : List Call} (made : builder.run calls = .ok next) :
    (builder.hasRoot = true → next.hasRoot = true) ∧
      next.nesting + (calls.map Call.closes).sum = builder.nesting + (calls.map Call.opens).sum := by
  induction calls generalizing builder with
  | nil => cases made; simp
  | cons call rest ih =>
    obtain ⟨middle, first, later⟩ := bind_eq_ok.mp made
    obtain ⟨root, once⟩ := nesting_call first
    obtain ⟨kept, more⟩ := ih later
    refine ⟨fun _ => kept root, ?_⟩
    simp only [List.map_cons, List.sum_cons]
    omega

end Builder

end Verbatim
