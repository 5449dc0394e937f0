import Verbatim.Proofs.AssemblyPlan

/-! The tree of a parse beside the rules that its events describe. An assembly adds groups to them and
nothing else: each group is a longest run of tokens that no event attaches, and it stands right in front
of the token behind the run, or last in the root where there is none. -/

namespace Verbatim

/-- The tree that events describe, with tokens named by their places. -/
inductive Outline where
  | token (index : Nat)
  | rule (name : String) (id : RuleId) (children : List Outline)

namespace Outline

mutual

def events : Outline → List RuleEvent
  | .token index => [.token index]
  | .rule name id children => .enter name id :: (eventsOf children ++ [.exit])

def eventsOf : List Outline → List RuleEvent
  | [] => []
  | outline :: rest => outline.events ++ eventsOf rest

end

/-- Syntax errors say nothing about the tree. -/
def isCourse : RuleEvent → Bool
  | .error _ => false
  | _ => true

theorem filter_ne_nil_of_enter {events : List RuleEvent} (entered : ∃ name rule, .enter name rule ∈ events) :
    events.filter isCourse ≠ [] := by
  obtain ⟨name, rule, member⟩ := entered
  exact List.ne_nil_of_mem (List.mem_filter.mpr ⟨member, rfl⟩)

/-- Events describe an outline if they are its own, errors left out and the rules that are still open at
their end closed there. -/
def DescribedBy (outline : Outline) (events : List RuleEvent) : Prop :=
  ∃ unclosed, outline.events = events.filter isCourse ++ List.replicate unclosed .exit

mutual

private theorem events_injective {first second : Outline} {front back : List RuleEvent}
    (same : first.events ++ front = second.events ++ back) : first = second ∧ front = back := by
  match first, second with
  | .token index, .token other =>
    obtain ⟨⟨⟩, rfl⟩ := List.cons.inj same
    exact ⟨rfl, rfl⟩
  | .token index, .rule name id children => cases same
  | .rule name id children, .token index => cases same
  | .rule name id children, .rule other place below =>
    simp only [events, List.cons_append, List.append_assoc, List.cons.injEq, RuleEvent.enter.injEq,
      List.nil_append] at same
    obtain ⟨⟨rfl, rfl⟩, inner⟩ := same
    obtain ⟨rfl, rfl⟩ := eventsOf_injective inner
    exact ⟨rfl, rfl⟩

private theorem eventsOf_injective {first second : List Outline} {front back : List RuleEvent}
    (same : eventsOf first ++ .exit :: front = eventsOf second ++ .exit :: back) : first = second ∧ front = back := by
  match first, second with
  | [], [] => exact ⟨rfl, (List.cons.inj same).2⟩
  | [], .token index :: rest | [], .rule name id children :: rest => cases same
  | .token index :: rest, [] | .rule name id children :: rest, [] => cases same
  | outline :: rest, other :: more =>
    simp only [eventsOf, List.append_assoc] at same
    obtain ⟨rfl, inner⟩ := events_injective same
    obtain ⟨rfl, rfl⟩ := eventsOf_injective inner
    exact ⟨rfl, rfl⟩

end

theorem DescribedBy.unique {first second : Outline} {events : List RuleEvent} (one : first.DescribedBy events)
    (other : second.DescribedBy events) : first = second := by
  obtain ⟨fewer, one⟩ := one
  obtain ⟨more, other⟩ := other
  wlog order : fewer ≤ more generalizing first second fewer more
  · exact (this more other fewer one (Nat.le_of_not_le order)).symm
  -- the longer sequence is the shorter one with further exits, which no outline has behind it
  obtain ⟨extra, rfl⟩ := Nat.exists_eq_add_of_le order
  have same : first.events ++ List.replicate extra .exit = second.events ++ [] := by
    rw [one, other, List.append_assoc, List.replicate_append_replicate, List.append_nil]
  exact (events_injective same).1

theorem DescribedBy.mem {outline : Outline} {events : List RuleEvent} {event : RuleEvent}
    (described : outline.DescribedBy events) (member : event ∈ outline.events) (left : event ≠ .exit) :
    event ∈ events := by
  obtain ⟨unclosed, same⟩ := described
  rw [same] at member
  rcases List.mem_append.mp member with member | member
  · exact List.mem_of_mem_filter member
  · exact absurd (List.eq_of_mem_replicate member) left

end Outline

/-- A part of an assembled tree: a token that an event attaches, a rule that events enter, or a group of
the tokens from `first` up to `behind`. -/
inductive Piece where
  | token (index : Nat)
  | group (first behind : Nat)
  | rule (name : String) (id : RuleId) (children : List Piece)

namespace Piece

open Assembly (leaves)

mutual

def elements (tokens : List RawToken) : Piece → List Element
  | .token index => leaves tokens[index]?.toList
  | .group first behind => [.node groupName groupRule (leaves ((tokens.take behind).drop first))]
  | .rule name id children => [.node name id (elementsOf tokens children)]

def elementsOf (tokens : List RawToken) : List Piece → List Element
  | [] => []
  | piece :: rest => piece.elements tokens ++ elementsOf tokens rest

end

mutual

/-- What is left of a piece once the groups are deleted. -/
def outlines : Piece → List Outline
  | .token index => [.token index]
  | .group _ _ => []
  | .rule name id children => [.rule name id (outlinesOf children)]

def outlinesOf : List Piece → List Outline
  | [] => []
  | piece :: rest => piece.outlines ++ outlinesOf rest

end

def gap (first behind : Nat) : List Piece := if first < behind then [.group first behind] else []

theorem elementsOf_append (tokens : List RawToken) (front back : List Piece) :
    elementsOf tokens (front ++ back) = elementsOf tokens front ++ elementsOf tokens back := by
  induction front with
  | nil => rfl
  | cons piece rest ih => simp only [List.cons_append, elementsOf, ih, List.append_assoc]

theorem outlinesOf_append (front back : List Piece) :
    outlinesOf (front ++ back) = outlinesOf front ++ outlinesOf back := by
  induction front with
  | nil => rfl
  | cons piece rest ih => simp only [List.cons_append, outlinesOf, ih, List.append_assoc]

theorem outlinesOf_gap (first behind : Nat) : outlinesOf (gap first behind) = [] := by
  unfold gap
  split <;> rfl

private theorem callsOf_gap {tokens : List RawToken} (first : Nat) {behind : Nat} (inside : behind ≤ tokens.length) :
    Element.callsOf (elementsOf tokens (gap first behind)) =
      Assembly.groupCalls ((tokens.take behind).drop first) := by
  unfold gap
  split
  next order =>
    have filled : ((tokens.take behind).drop first).isEmpty = false := by
      rw [List.isEmpty_eq_false_iff, ← List.length_pos_iff, List.length_drop, List.length_take]
      omega
    rw [← Assembly.callsOf_group, Assembly.group, filled]
    rfl
  next order =>
    have empty : (tokens.take behind).drop first = [] := by
      rw [List.drop_eq_nil_iff, List.length_take]
      omega
    rw [empty]
    rfl

/-- A run of tokens that no event attaches and that cannot be made longer, among those from `next` up to
`count`. -/
structure Run (events : List RuleEvent) (next count first behind : Nat) : Prop where
  filled : first < behind
  inside : next ≤ first ∧ behind ≤ count
  free : ∀ index, first ≤ index → index < behind → .token index ∉ events
  before : first = next ∨ .token (first - 1) ∈ events
  after : behind = count ∨ .token behind ∈ events

/-- Pieces side by side, and those below them, in which each group is a run and the token behind the run
follows it in the same row. -/
inductive Anchored (events : List RuleEvent) (next count : Nat) : List Piece → Prop
  | nil : Anchored events next count []
  | token {index : Nat} {rest : List Piece} (later : Anchored events next count rest) :
    Anchored events next count (.token index :: rest)
  | group {first index : Nat} {rest : List Piece} (run : Run events next count first index)
    (attached : .token index ∈ events) (later : Anchored events next count rest) :
    Anchored events next count (.group first index :: .token index :: rest)
  | rule {name : String} {id : RuleId} {children rest : List Piece} (below : Anchored events next count children)
    (later : Anchored events next count rest) : Anchored events next count (.rule name id children :: rest)

variable {events : List RuleEvent} {next later count first behind : Nat} {event : RuleEvent} {row : List Piece}

theorem Run.cons (silent : ∀ index, event ≠ .token index) (run : Run events next count first behind) :
    Run (event :: events) next count first behind := by
  refine ⟨run.filled, run.inside, ?_, run.before.imp_right (List.mem_cons_of_mem event),
    run.after.imp_right (List.mem_cons_of_mem event)⟩
  intro index from_ upTo member
  cases member with
  | head => exact silent index rfl
  | tail _ member => exact run.free index from_ upTo member

theorem Run.attach {index : Nat} (order : next ≤ index) (run : Run events (index + 1) count first behind) :
    Run (.token index :: events) next count first behind := by
  obtain ⟨above, inside⟩ := run.inside
  refine ⟨run.filled, ⟨by omega, inside⟩, ?_, ?_, run.after.imp_right (List.mem_cons_of_mem _)⟩
  · intro other from_ upTo member
    cases member with
    | head => omega
    | tail _ member => exact run.free other from_ upTo member
  · rcases run.before with rfl | member
    · exact .inr List.mem_cons_self
    · exact .inr (List.mem_cons_of_mem _ member)

theorem Anchored.map {more : List RuleEvent} (keeps : ∀ event ∈ events, event ∈ more)
    (runs : ∀ {first behind}, Run events later count first behind → Run more next count first behind)
    (anchored : Anchored events later count row) : Anchored more next count row := by
  induction anchored with
  | nil => exact .nil
  | token _ ih => exact .token ih
  | group run attached _ ih => exact .group (runs run) (keeps _ attached) ih
  | rule _ _ below ih => exact .rule below ih

/-- The calls that fill the open rules, of which the innermost comes first, and close them. The trailing
pieces go into the root. -/
def callsClosing (tokens : List RawToken) (trailing : List Piece) : List (List Piece) → List Call
  | [] => []
  | [row] => Element.callsOf (elementsOf tokens (row ++ trailing)) ++ [.finish]
  | row :: outer => Element.callsOf (elementsOf tokens row) ++ .finish :: callsClosing tokens trailing outer

/-- The events that describe what these calls add. -/
def eventsClosing (rows : List (List Piece)) : List RuleEvent :=
  rows.flatMap fun row => Outline.eventsOf (outlinesOf row) ++ [.exit]

private theorem callsClosing_append (tokens : List RawToken) (trailing front row : List Piece)
    (outer : List (List Piece)) :
    callsClosing tokens trailing ((front ++ row) :: outer) =
      Element.callsOf (elementsOf tokens front) ++ callsClosing tokens trailing (row :: outer) := by
  cases outer <;> simp only [callsClosing, elementsOf_append, Element.callsOf_append, List.append_assoc]

private theorem callsClosing_cons {tokens : List RawToken} {trailing : List Piece} (row : List Piece)
    {outer : List (List Piece)}
    (root : outer ≠ []) :
    callsClosing tokens trailing (row :: outer) =
      Element.callsOf (elementsOf tokens row) ++ .finish :: callsClosing tokens trailing outer := by
  cases outer with
  | nil => exact absurd rfl root
  | cons inner outer => rfl

private theorem callsClosing_blank (tokens : List RawToken) (trailing : List Piece) (depth : Nat) :
    callsClosing tokens trailing (List.replicate (depth + 1) []) =
      List.replicate depth .finish ++ (Element.callsOf (elementsOf tokens trailing) ++ [.finish]) := by
  induction depth with
  | zero => rfl
  | succ depth ih =>
    rw [List.replicate_succ, callsClosing_cons [] (by simp), ih]
    rfl

/-- What events add to the open rules: rows of pieces, and the place from which on no token is attached. -/
structure Fills (tokens : List RawToken) (events : List RuleEvent) (next : Nat) (rows : List (List Piece))
    (last : Nat) : Prop where
  planned : Assembly.plan tokens next rows.length events = callsClosing tokens (gap last tokens.length) rows
  described : ∃ unclosed, eventsClosing rows = events.filter Outline.isCourse ++ List.replicate unclosed .exit
  anchored : ∀ row ∈ rows, Anchored events next tokens.length row
  trailing : last < tokens.length → Run events next tokens.length last tokens.length

namespace Fills

variable {tokens : List RawToken} {last : Nat} {inner : List Piece} {outer rows : List (List Piece)}

/-- Errors alone leave everything to the end. -/
theorem settled (settled : events.filter Outline.isCourse = []) (tokens : List RawToken) (next depth : Nat) :
    Fills tokens events next (List.replicate (depth + 1) []) next := by
  have planned : Assembly.plan tokens next (depth + 1) events = Assembly.lastCalls tokens next (depth + 1) := by
    induction events with
    | nil => rfl
    | cons event events ih =>
      cases event with
      | error diagnostic => exact ih settled
      | enter name rule | token index | exit => cases settled
  refine ⟨?_, ⟨depth + 1, ?_⟩, ?_, ?_⟩
  · rw [List.length_replicate, planned, callsClosing_blank, callsOf_gap next (Nat.le_refl _), List.take_length,
      Assembly.lastCalls, if_neg (Nat.succ_ne_zero _), List.append_assoc, Nat.add_sub_cancel]
  · rw [settled, eventsClosing, List.flatMap_replicate]
    simp [outlinesOf, Outline.eventsOf]
  · intro row member
    rw [List.eq_of_mem_replicate member]
    exact .nil
  · intro filled
    have silent : ∀ index, .token index ∉ events := fun index member =>
      absurd (List.filter_eq_nil_iff.mp settled _ member) (by simp [Outline.isCourse])
    exact ⟨filled, ⟨Nat.le_refl _, Nat.le_refl _⟩, fun index _ _ => silent index, .inl rfl, .inl rfl⟩

theorem keeps (silent : ∀ index, event ≠ .token index) (anchored : Anchored events next count row) :
    Anchored (event :: events) next count row :=
  anchored.map (fun _ => List.mem_cons_of_mem event) (.cons silent)

/-- What is added inside of a rule becomes the rule in the row around it. -/
theorem enter (name : String) (rule : RuleId) (fills : Fills tokens events next (inner :: row :: outer) last) :
    Fills tokens (.enter name rule :: events) next ((.rule name rule inner :: row) :: outer) last := by
  obtain ⟨planned, ⟨unclosed, described⟩, anchored, trailing⟩ := fills
  simp only [List.mem_cons, forall_eq_or_imp] at anchored
  obtain ⟨below, beside, around⟩ := anchored
  refine ⟨?_, ⟨unclosed, ?_⟩, ?_, fun filled => (trailing filled).cons (by simp)⟩
  · rw [List.length_cons, List.length_cons] at planned
    rw [List.length_cons, Assembly.plan, planned, callsClosing_cons inner (by simp),
      ← List.singleton_append (l := row), callsClosing_append]
    simp [elementsOf, elements, Element.callsOf, Element.calls]
  · rw [List.filter_cons_of_pos rfl, List.cons_append, ← described]
    simp [eventsClosing, outlinesOf, outlines, Outline.eventsOf, Outline.events]
  · simp only [List.mem_cons, forall_eq_or_imp]
    exact ⟨.rule (keeps (by simp) below) (keeps (by simp) beside),
      fun row member => keeps (by simp) (around row member)⟩

/-- A token is attached behind the group of those that are passed over. -/
theorem attach {index : Nat} (order : next ≤ index) (inside : index < tokens.length)
    (above : ∀ other, .token other ∈ events → index < other) (fills : Fills tokens events (index + 1) (row :: outer) last) :
    Fills tokens (.token index :: events) next ((gap next index ++ .token index :: row) :: outer) last := by
  obtain ⟨planned, ⟨unclosed, described⟩, anchored, trailing⟩ := fills
  simp only [List.mem_cons, forall_eq_or_imp] at anchored
  obtain ⟨beside, around⟩ := anchored
  have keeps : ∀ {row}, Anchored events (index + 1) tokens.length row →
      Anchored (.token index :: events) next tokens.length row :=
    .map (fun _ => List.mem_cons_of_mem _) (.attach order)
  refine ⟨?_, ⟨unclosed, ?_⟩, ?_, fun filled => (trailing filled).attach order⟩
  · rw [List.length_cons] at planned
    rw [List.length_cons, Assembly.plan, planned, callsClosing_append, ← List.singleton_append (l := row),
      callsClosing_append, callsOf_gap next (Nat.le_of_lt inside), List.append_assoc]
    simp [elementsOf, elements, Assembly.callsOf_leaves]
  · rw [List.filter_cons_of_pos rfl, List.cons_append, ← described]
    simp [eventsClosing, outlinesOf_append, outlinesOf_gap, outlinesOf, outlines, Outline.eventsOf, Outline.events]
  · simp only [List.mem_cons, forall_eq_or_imp]
    refine ⟨?_, fun row member => keeps (around row member)⟩
    unfold gap
    split
    next filled =>
      refine .group ⟨filled, ⟨Nat.le_refl _, Nat.le_of_lt inside⟩, ?_, .inl rfl, .inr List.mem_cons_self⟩
        List.mem_cons_self (keeps beside)
      intro other from_ upTo member
      cases member with
      | head => omega
      | tail _ member =>
        have later := above other member
        omega
    next => exact .token (keeps beside)

theorem exit (fills : Fills tokens events next (row :: outer) last) :
    Fills tokens (.exit :: events) next ([] :: row :: outer) last := by
  obtain ⟨planned, ⟨unclosed, described⟩, anchored, trailing⟩ := fills
  refine ⟨?_, ⟨unclosed, ?_⟩, ?_, fun filled => (trailing filled).cons (by simp)⟩
  · rw [List.length_cons, List.length_cons, Assembly.plan, if_neg (by omega), Nat.add_sub_cancel,
      callsClosing_cons [] (by simp), ← planned]
    rfl
  · rw [List.filter_cons_of_pos rfl, List.cons_append, ← described]
    rfl
  · rw [List.forall_mem_cons]
    exact ⟨.nil, fun row member => keeps (by simp) (anchored row member)⟩

/-- The root is left by its exit but stays where it is. -/
private theorem exitRoot (settled : events.filter Outline.isCourse = []) (tokens : List RawToken) (next : Nat) :
    Fills tokens (.exit :: events) next [[]] next := by
  obtain ⟨planned, -, -, trailing⟩ := Fills.settled settled tokens next 0
  refine ⟨planned, ⟨0, ?_⟩, ?_, fun filled => (trailing filled).cons (by simp)⟩
  · rw [List.filter_cons_of_pos rfl, settled]
    rfl
  · rw [List.forall_mem_singleton]
    exact .nil

theorem error (diagnostic : Diagnostic) (fills : Fills tokens events next rows last) :
    Fills tokens (.error diagnostic :: events) next rows last :=
  ⟨fills.planned, fills.described, fun row member => keeps (by simp) (fills.anchored row member),
    fun filled => (fills.trailing filled).cons (by simp)⟩

end Fills

end Piece

namespace Assembly

open Piece

variable {mode : ParseMode} {tokens : List RawToken} {events : List RuleEvent} {next count depth : Nat} {exited : Bool}

private theorem settled_of_exited (consistent : Consistent mode count next depth true events) :
    events.filter Outline.isCourse = [] := by
  induction events with
  | nil => rfl
  | cons event events ih =>
    cases event with
    | enter name rule => cases consistent.1
    | token index => cases consistent.1.2
    | exit => cases consistent.1.2
    | error diagnostic => exact ih consistent.2

private theorem attached_of_consistent (consistent : Consistent mode count next depth exited events) {index : Nat}
    (member : .token index ∈ events) : next ≤ index ∧ index < count := by
  induction events generalizing next depth exited with
  | nil => cases member
  | cons event events ih =>
    cases event with
    | enter name rule =>
      cases member with
      | tail _ member => exact ih consistent.2 member
    | token other =>
      obtain ⟨-, order, inside, rest⟩ := consistent
      cases member with
      | head => exact ⟨order, inside⟩
      | tail _ member =>
        obtain ⟨above, below⟩ := ih rest member
        exact ⟨by omega, below⟩
    | exit =>
      obtain ⟨-, rest⟩ := consistent
      cases member with
      | tail _ member =>
        split at rest
        · exact ih rest member
        · exact ih rest member
    | error diagnostic =>
      cases member with
      | tail _ member => exact ih consistent.2 member

/-- The rows that consistent events add, from the last event to the first. -/
private theorem exists_fills (consistent : Consistent mode tokens.length next (depth + 1) exited events) :
    ∃ inner outer last, outer.length = depth ∧ Fills tokens events next (inner :: outer) last := by
  induction events generalizing next depth exited with
  | nil =>
    exact ⟨[], List.replicate depth [], next, List.length_replicate, .settled rfl tokens next depth⟩
  | cons event events ih =>
    cases event with
    | enter name rule =>
      obtain ⟨inner, outer, last, size, fills⟩ := ih consistent.2
      obtain ⟨row, outer, rfl⟩ := List.exists_cons_of_length_eq_add_one size
      exact ⟨_, outer, last, Nat.succ.inj size, fills.enter name rule⟩
    | token index =>
      obtain ⟨-, order, inside, rest⟩ := consistent
      obtain ⟨row, outer, last, size, fills⟩ := ih rest
      exact ⟨_, outer, last, size, fills.attach order inside fun _ member => (attached_of_consistent rest member).1⟩
    | exit =>
      obtain ⟨-, rest⟩ := consistent
      cases depth with
      | zero => exact ⟨[], [], next, rfl, .exitRoot (settled_of_exited rest) tokens next⟩
      | succ depth =>
        rw [if_neg (by omega)] at rest
        obtain ⟨row, outer, last, size, fills⟩ := ih rest
        exact ⟨[], row :: outer, last, congrArg _ size, fills.exit⟩
    | error diagnostic =>
      obtain ⟨inner, outer, last, size, fills⟩ := ih consistent.2
      exact ⟨inner, outer, last, size, fills.error diagnostic⟩

/-- Consistent events enter no rule, or else they describe a root with the rows below it. -/
theorem exists_root (consistent : Consistent mode tokens.length 0 0 false events) :
    (events.filter Outline.isCourse = [] ∧ plan tokens 0 0 events = nodeCalls tokens) ∨
      ∃ name rule row last, plan tokens 0 0 events = .start name rule :: callsClosing tokens (gap last tokens.length) [row] ∧
        (Outline.rule name rule (outlinesOf row)).DescribedBy events ∧ Anchored events 0 tokens.length row ∧
        (last < tokens.length → Run events 0 tokens.length last tokens.length) := by
  induction events with
  | nil => exact .inl ⟨rfl, rfl⟩
  | cons event events ih =>
    cases event with
    | enter name rule =>
      obtain ⟨row, outer, last, size, fills⟩ := exists_fills consistent.2
      obtain rfl := List.eq_nil_of_length_eq_zero size
      obtain ⟨planned, ⟨unclosed, described⟩, anchored, trailing⟩ := fills
      refine .inr ⟨name, rule, row, last, congrArg _ planned, ⟨unclosed, ?_⟩, ?_,
        fun filled => (trailing filled).cons (by simp)⟩
      · rw [List.filter_cons_of_pos rfl, List.cons_append, ← described]
        simp [Outline.events, eventsClosing]
      · exact Fills.keeps (by simp) (anchored row List.mem_cons_self)
    | token index => cases consistent.1.1
    | exit => cases consistent.1.1
    | error diagnostic =>
      obtain ⟨settled, planned⟩ | ⟨name, rule, row, last, planned, described, anchored, trailing⟩ := ih consistent.2
      · exact .inl ⟨settled, planned⟩
      · exact .inr ⟨name, rule, row, last, planned, described, Fills.keeps (by simp) anchored,
          fun filled => (trailing filled).cons (by simp)⟩

/-- A tree of pieces, in which groups stand at their tokens or at the end of the root. -/
structure Arranges (tokens : List RawToken) (events : List RuleEvent) (tree : SyntaxTree) (root : Piece) : Prop where
  calls : tree.calls = Element.callsOf (root.elements tokens)
  attached : ∀ index, .token index ∈ events → index < tokens.length
  /-- Without the groups it is the one outline that the events describe. -/
  outline : ∀ outline : Outline, outline.DescribedBy events ↔ root.outlines = [outline]
  groups : ∃ name rule children trailing, root = .rule name rule (children ++ trailing) ∧
    Anchored events 0 tokens.length children ∧
    (trailing = [] ∨ ∃ first, trailing = [.group first tokens.length] ∧ Run events 0 tokens.length first tokens.length)

theorem exists_arranges {tree : SyntaxTree} (consistent : Consistent mode tokens.length 0 0 false events)
    (made : Builder.build (plan tokens 0 0 events) = .ok tree) (unsettled : events.filter Outline.isCourse ≠ []) :
    ∃ root, Arranges tokens events tree root := by
  obtain ⟨settled, -⟩ | ⟨name, rule, row, last, planned, described, anchored, trailing⟩ := exists_root consistent
  · exact absurd settled unsettled
  · refine ⟨.rule name rule (row ++ gap last tokens.length), ?_, ?_, ?_, name, rule, row, _, rfl, anchored, ?_⟩
    · rw [(SyntaxTree.readsBack_of_build made).made, planned]
      simp [callsClosing, elements, Element.callsOf, Element.calls]
    · exact fun index member => (attached_of_consistent consistent member).2
    · intro outline
      rw [outlines, outlinesOf_append, outlinesOf_gap, List.append_nil, List.singleton_inj]
      exact ⟨fun also => described.unique also, fun same => same ▸ described⟩
    · unfold gap
      split
      next filled => exact .inr ⟨last, rfl, trailing filled⟩
      next => exact .inl rfl

/-- Without its groups a tree is what the events describe. Each group is a whole run of tokens that no
event attaches; it stands in front of the token behind the run, or last in the root if there is none.
Where no rule is entered, all tokens stand in one group. -/
theorem groups_anchor_runs (tokens : List RawToken) (events : List RuleEvent) (tree : SyntaxTree)
    (built : build tokens events .lenient = .ok tree) :
    ((∃ name rule, .enter name rule ∈ events) → ∃ root, Arranges tokens events tree root) ∧
    ((∀ name rule, .enter name rule ∉ events) →
      tree.calls = (Element.node groupName groupRule (leaves tokens)).calls) := by
  obtain ⟨consistent, made⟩ := build_eq_ok_iff.mp built
  refine ⟨fun entered => exists_arranges consistent made (Outline.filter_ne_nil_of_enter entered), ?_⟩
  intro none
  obtain ⟨settled, planned⟩ | ⟨name, rule, row, last, -, described, -, -⟩ := exists_root consistent
  · rw [(SyntaxTree.readsBack_of_build made).made, planned, calls_node_leaves]
  · exact absurd (described.mem List.mem_cons_self (by simp)) (none name rule)

/-- A group in front of a token inside of a rule, a rule that only looks like a group, and a trailing group
behind rules that stay open. -/
theorem unclosed_rules_anchor_runs :
    let tokens : List RawToken :=
      [⟨"WS", " ", .hidden, ⟨1, 0⟩⟩, ⟨"WS", "\n", .hidden, ⟨1, 1⟩⟩, ⟨"ID", "ä", .visible, ⟨2, 0⟩⟩,
        ⟨"WS", " ", .hidden, ⟨2, 1⟩⟩, ⟨"STRAY", "!", .visible, ⟨2, 2⟩⟩]
    let events : List RuleEvent := [.enter "unit" 1, .enter groupName groupRule, .token 2, .error ⟨"stopped", ⟨2, 2⟩⟩]
    ∃ tree, build tokens events .lenient = .ok tree ∧
      ((∃ name rule, .enter name rule ∈ events) → ∃ root, Arranges tokens events tree root) ∧
      ((∀ name rule, .enter name rule ∉ events) →
        tree.calls = (Element.node groupName groupRule (leaves tokens)).calls) := by
  intro tokens events
  have fits : Builder.Fits (plan tokens 0 0 events) :=
    .ofLength (by decide) (by decide) (by decide)
  have consistent : Consistent .lenient tokens.length 0 0 false events := by simp [Consistent, tokens, events]
  obtain ⟨tree, built⟩ := exists_build consistent fits
  exact ⟨tree, built, groups_anchor_runs tokens events tree built⟩

end Assembly

end Verbatim
