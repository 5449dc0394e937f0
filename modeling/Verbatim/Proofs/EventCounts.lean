import Mathlib.Data.List.Basic
import Verbatim.Grammar

/-! Counts of events. How deep in rules a parse is follows from how many of them were entered and left, and
which token may come next from the last one that was attached. -/

namespace Verbatim

namespace RuleEvent

def isEnter : RuleEvent → Bool
  | .enter _ _ => true
  | _ => false

def index? : RuleEvent → Option Nat
  | .token index => some index
  | _ => none

def enters (events : List RuleEvent) : Nat := events.countP isEnter

def exits (events : List RuleEvent) : Nat := events.count .exit

def attached (events : List RuleEvent) : List Nat := events.filterMap index?

def Nested (events : List RuleEvent) : Prop := ∀ front, front <+: events → exits front ≤ enters front

section

variable {name : String} {rule : RuleId} {index : Nat} {diagnostic : Diagnostic} {events : List RuleEvent}

@[simp] theorem enters_nil : enters [] = 0 := rfl

@[simp] theorem exits_nil : exits [] = 0 := rfl

@[simp] theorem enters_enter : enters (.enter name rule :: events) = enters events + 1 :=
  List.countP_cons_of_pos rfl

@[simp] theorem exits_enter : exits (.enter name rule :: events) = exits events := by simp [exits]

@[simp] theorem enters_token : enters (.token index :: events) = enters events :=
  List.countP_cons_of_neg nofun

@[simp] theorem exits_token : exits (.token index :: events) = exits events := by simp [exits]

@[simp] theorem enters_exit : enters (.exit :: events) = enters events :=
  List.countP_cons_of_neg nofun

@[simp] theorem exits_exit : exits (.exit :: events) = exits events + 1 := by simp [exits]

@[simp] theorem enters_error : enters (.error diagnostic :: events) = enters events :=
  List.countP_cons_of_neg nofun

@[simp] theorem exits_error : exits (.error diagnostic :: events) = exits events := by simp [exits]

@[simp] theorem enters_append (more : List RuleEvent) : enters (events ++ more) = enters events + enters more :=
  List.countP_append

@[simp] theorem exits_append (more : List RuleEvent) : exits (events ++ more) = exits events + exits more :=
  List.count_append

@[simp] theorem attached_nil : attached [] = [] := rfl

@[simp] theorem attached_enter : attached (.enter name rule :: events) = attached events := rfl

@[simp] theorem attached_exit : attached (.exit :: events) = attached events := rfl

@[simp] theorem attached_token : attached (.token index :: events) = index :: attached events := rfl

@[simp] theorem attached_error : attached (.error diagnostic :: events) = attached events := rfl

@[simp] theorem attached_append (more : List RuleEvent) :
    attached (events ++ more) = attached events ++ attached more :=
  List.filterMap_append

theorem mem_attached_iff : index ∈ attached events ↔ .token index ∈ events := by
  constructor
  · intro member
    obtain ⟨event, inside, same⟩ := List.mem_filterMap.mp member
    cases event with
    | token other =>
      cases same
      exact inside
    | enter | exit | error => cases same
  · intro inside
    exact List.mem_filterMap.mpr ⟨_, inside, rfl⟩

end

/-- The first of the rules has been left again. -/
def Closed (events : List RuleEvent) : Prop := 0 < enters events ∧ exits events = enters events

instance : DecidablePred Closed := fun _ => inferInstanceAs (Decidable (_ ∧ _))

/-- How many rules are open, where the first of them is never closed. -/
def depth (events : List RuleEvent) : Nat := if Closed events then 1 else enters events - exits events

/-- The place behind the last token that is attached. -/
def due (events : List RuleEvent) : Nat := (attached events).getLast?.elim 0 (· + 1)

end RuleEvent

end Verbatim
