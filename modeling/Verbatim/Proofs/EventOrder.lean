import Mathlib.Data.List.Induction
import Verbatim.Proofs.EventCounts
import Verbatim.Violation

/-! Events in order. Rules nest and the first of them is the only root, tokens are attached inside of rules, each
once and from left to right. The counts of the events before one decide whether it may come there, so a sequence
that is out of order has a first event that offends. -/

namespace Verbatim

namespace RuleEvent

def name? : RuleEvent → Option String
  | .enter name _ => some name
  | _ => none

/-- Events that are in order among themselves and with `count` tokens. -/
structure Orderly (count : Nat) (events : List RuleEvent) : Prop where
  nested : Nested events
  /-- Nothing but errors comes behind the exit of the first rule. -/
  single : ∀ front back, events = front ++ back → Closed front →
    ∀ event ∈ back, ∃ diagnostic, event = .error diagnostic
  inside : ∀ front index back, events = front ++ .token index :: back → exits front < enters front
  ascending : (attached events).Pairwise (· < ·)
  known : ∀ index ∈ attached events, index < count

/-- What an event breaks behind the events before it. -/
def offence? (count : Nat) (before : List RuleEvent) : RuleEvent → Option Violation
  | .enter name _ => if Closed before then some (.ruleAfterRoot name) else none
  | .token index =>
    if count ≤ index then some (.tokenIndexOutOfRange index count)
    else if enters before ≤ exits before then some (.tokenOutsideRule index)
    else if index < due before then some (.tokenOutOfOrder index (due before))
    else none
  | .exit => if enters before ≤ exits before then some .noRuleToExit else none
  | .error _ => none

variable {count index : Nat} {events before front back : List RuleEvent} {event : RuleEvent} {name : String}
  {rule : RuleId} {diagnostic : Diagnostic} {violation : Violation}

theorem offence?_token_iff : offence? count before (.token index) = none ↔
    index < count ∧ exits before < enters before ∧ due before ≤ index := by
  rw [offence?]
  split
  next unknown => exact iff_of_false nofun fun fine => Nat.not_lt.mpr unknown fine.1
  next known =>
    split
    next outside => exact iff_of_false nofun fun fine => Nat.not_lt.mpr outside fine.2.1
    next inside =>
      split
      next early => exact iff_of_false nofun fun fine => Nat.not_lt.mpr fine.2.2 early
      next order => exact iff_of_true rfl ⟨Nat.not_le.mp known, Nat.not_le.mp inside, Nat.not_lt.mp order⟩

theorem offence?_exit_iff : offence? count before .exit = none ↔ exits before < enters before := by
  simp [offence?]

private theorem lt_due (ascending : (attached events).Pairwise (· < ·)) (member : index ∈ attached events) :
    index < due events := by
  unfold due
  rcases (attached events).eq_nil_or_concat with none | ⟨most, last, same⟩
  · rw [none] at member
    cases member
  · rw [List.concat_eq_append] at same
    rw [same] at ascending member ⊢
    rw [List.getLast?_concat, Option.elim_some]
    rcases List.mem_append.mp member with earlier | final
    · have order := (List.pairwise_append.mp ascending).2.2 index earlier last (List.mem_singleton.mpr rfl)
      omega
    · rw [List.mem_singleton.mp final]
      exact Nat.lt_succ_self last

private theorem due_le (ascending : (attached (events ++ [.token index])).Pairwise (· < ·)) : due events ≤ index := by
  unfold due
  cases found : (attached events).getLast? with
  | none => exact Nat.zero_le index
  | some last =>
    rw [attached_append] at ascending
    have order := (List.pairwise_append.mp ascending).2.2 last (List.mem_of_getLast? found)
    exact order index (List.mem_singleton.mpr rfl)

private theorem closed_errors (errors : ∀ event ∈ back, ∃ diagnostic, event = .error diagnostic)
    (closed : Closed front) :
    Closed (front ++ back) := by
  have silent : enters back = 0 ∧ exits back = 0 := by
    induction back with
    | nil => exact ⟨rfl, rfl⟩
    | cons event rest ih =>
      obtain ⟨diagnostic, rfl⟩ := errors event List.mem_cons_self
      simpa using ih fun event member => errors event (List.mem_cons_of_mem _ member)
  simpa [Closed, silent] using closed

theorem Orderly.leading (orderly : Orderly count (front ++ back)) : Orderly count front where
  nested := fun first part => orderly.nested first (part.trans (List.prefix_append front back))
  single := by
    rintro first second rfl closed event member
    exact orderly.single first (second ++ back) (List.append_assoc _ _ _) closed event (List.mem_append_left _ member)
  inside := by
    rintro first index second rfl
    exact orderly.inside first index (second ++ back) (List.append_assoc _ _ _)
  ascending := by
    have ascending := orderly.ascending
    rw [attached_append] at ascending
    exact (List.pairwise_append.mp ascending).1
  known := by
    intro index member
    apply orderly.known
    rw [attached_append]
    exact List.mem_append_left _ member

theorem Orderly.level (orderly : Orderly count events) : exits events ≤ enters events :=
  orderly.nested events (List.prefix_refl events)

theorem Orderly.offence_eq (orderly : Orderly count (before ++ [event])) : offence? count before event = none := by
  cases event with
  | enter name rule =>
    refine if_neg fun closed => ?_
    obtain ⟨diagnostic, same⟩ := orderly.single before _ rfl closed _ (List.mem_singleton.mpr rfl)
    cases same
  | token index =>
    have known : index < count := orderly.known index (by simp)
    exact offence?_token_iff.mpr ⟨known, orderly.inside before index [] rfl, due_le orderly.ascending⟩
  | exit =>
    have level := orderly.level
    simp only [enters_append, exits_append, enters_exit, exits_exit, enters_nil, exits_nil] at level
    exact offence?_exit_iff.mpr (by omega)
  | error diagnostic => rfl

/-- What offends nobody behind the exit of the first rule is an error. -/
private theorem error_of_closed (fine : offence? count before event = none) (closed : Closed before) :
    ∃ diagnostic, event = .error diagnostic := by
  have outside : ¬exits before < enters before := Nat.not_lt.mpr (Nat.le_of_eq closed.2.symm)
  cases event with
  | enter name rule => simp [offence?, closed] at fine
  | token index => exact absurd (offence?_token_iff.mp fine).2.1 outside
  | exit => exact absurd (offence?_exit_iff.mp fine) outside
  | error diagnostic => exact ⟨diagnostic, rfl⟩

theorem Orderly.concat (orderly : Orderly count before) (fine : offence? count before event = none) :
    Orderly count (before ++ [event]) where
  nested := by
    intro first part
    rcases List.prefix_concat_iff.mp part with rfl | earlier
    · have level := orderly.level
      cases event with
      | enter | token | error => simp; omega
      | exit =>
        have inside := offence?_exit_iff.mp fine
        simp
        omega
    · exact orderly.nested first earlier
  single := by
    intro first second split closed other member
    rcases second.eq_nil_or_concat with rfl | ⟨most, last, rfl⟩
    · cases member
    · rw [List.concat_eq_append] at split member
      rw [← List.append_assoc] at split
      obtain ⟨rfl, same⟩ := List.append_inj' split rfl
      cases same
      have errors := orderly.single first most rfl closed
      rcases List.mem_append.mp member with earlier | final
      · exact errors other earlier
      · rw [List.mem_singleton.mp final]
        exact error_of_closed fine (closed_errors errors closed)
  inside := by
    intro first index second split
    rcases second.eq_nil_or_concat with rfl | ⟨most, last, rfl⟩
    · obtain ⟨rfl, same⟩ := List.append_inj' split rfl
      cases same
      exact (offence?_token_iff.mp fine).2.1
    · rw [List.concat_eq_append, ← List.cons_append, ← List.append_assoc] at split
      obtain ⟨rfl, -⟩ := List.append_inj' split rfl
      exact orderly.inside first index most rfl
  ascending := by
    cases event with
    | enter | exit | error => simpa using orderly.ascending
    | token index =>
      have order := (offence?_token_iff.mp fine).2.2
      rw [attached_append]
      refine List.pairwise_append.mpr ⟨orderly.ascending, List.pairwise_singleton _ _, ?_⟩
      intro earlier member other final
      rw [List.mem_singleton.mp final]
      exact Nat.lt_of_lt_of_le (lt_due orderly.ascending member) order
  known := by
    intro index member
    rw [attached_append] at member
    rcases List.mem_append.mp member with earlier | final
    · exact orderly.known index earlier
    · cases event with
      | enter | exit | error => cases final
      | token other =>
        obtain rfl := List.mem_singleton.mp final
        exact (offence?_token_iff.mp fine).1

theorem orderly_nil : Orderly count [] where
  nested := fun front part => by simp [List.prefix_nil.mp part]
  single := by
    rintro front back split closed event member
    obtain ⟨rfl, rfl⟩ := List.append_eq_nil_iff.mp split.symm
    cases member
  inside := by simp
  ascending := .nil
  known := by simp

theorem exists_offence (broken : ¬Orderly count events) :
    ∃ front event back violation, events = front ++ event :: back ∧ Orderly count front ∧
      offence? count front event = some violation := by
  induction events using List.reverseRecOn with
  | nil => exact absurd orderly_nil broken
  | append_singleton before event ih =>
    by_cases orderly : Orderly count before
    · cases found : offence? count before event with
      | none => exact absurd (orderly.concat found) broken
      | some violation => exact ⟨before, event, [], violation, rfl, orderly, found⟩
    · obtain ⟨front, other, back, violation, rfl, earlier, found⟩ := ih orderly
      exact ⟨front, other, back ++ [event], violation, List.append_assoc _ _ _, earlier, found⟩

section

variable (level : exits before ≤ enters before)

theorem inside_iff : exits before < enters before ↔ 0 < depth before ∧ ¬Closed before := by
  by_cases closed : Closed before
  · have same := closed.2
    rw [depth, if_pos closed]
    simp only [closed, not_true_eq_false, and_false, iff_false]
    omega
  · rw [depth, if_neg closed]
    simp only [closed, not_false_eq_true, and_true]
    omega

include level

theorem closed_enter : ¬Closed (before ++ [.enter name rule]) := by
  simp [Closed]
  omega

theorem depth_enter (free : ¬Closed before) : depth (before ++ [.enter name rule]) = depth before + 1 := by
  rw [depth, if_neg (closed_enter level), depth, if_neg free]
  simp
  omega

end

theorem closed_exit (inside : exits before < enters before) : Closed (before ++ [.exit]) ↔ depth before = 1 := by
  have free := (inside_iff.mp inside).2
  rw [depth, if_neg free]
  simp [Closed]
  omega

theorem depth_exit (inside : exits before < enters before) :
    depth (before ++ [.exit]) = if depth before = 1 then 1 else depth before - 1 := by
  have free := (inside_iff.mp inside).2
  rw [depth]
  simp only [closed_exit inside]
  split
  · rfl
  · rw [depth, if_neg free]
    simp
    omega

@[simp] theorem closed_token : Closed (before ++ [.token index]) ↔ Closed before := by simp [Closed]

@[simp] theorem closed_error : Closed (before ++ [.error diagnostic]) ↔ Closed before := by simp [Closed]

@[simp] theorem depth_token : depth (before ++ [.token index]) = depth before := by simp [depth]

@[simp] theorem depth_error : depth (before ++ [.error diagnostic]) = depth before := by simp [depth]

@[simp] theorem due_enter : due (before ++ [.enter name rule]) = due before := by simp [due]

@[simp] theorem due_token : due (before ++ [.token index]) = index + 1 := by simp [due]

@[simp] theorem due_exit : due (before ++ [.exit]) = due before := by simp [due]

@[simp] theorem due_error : due (before ++ [.error diagnostic]) = due before := by simp [due]

end RuleEvent

end Verbatim
