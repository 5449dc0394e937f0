import Verbatim.Proofs.AssemblyNodes
import Verbatim.Proofs.MiniJavaCare
import Verbatim.Proofs.MiniJavaConsuming

/-! Every run gets on. A run that starts at a visible token leaves the cursor at one, since the last of them is the end
of the source and is not taken; where it succeeds, what its task takes is taken, and the events that are noted are
those of whole nodes with tokens below them. The node around an operator is entered in front of its left operand, so
what a run has noted is counted from a cursor where the expression began. -/

namespace Verbatim.MiniJava

/-- The last token is the end of the source, and no other one is. -/
def Ended (lexemes : List Lexeme) : Prop :=
  ∃ (front : List Lexeme) (last : Lexeme), lexemes = front ++ [last] ∧ last.kind = .eof ∧
    ∀ lexeme ∈ front, lexeme.kind ≠ .eof

def OnVisible (lexemes : List Lexeme) (position : Nat) : Prop :=
  ∃ lexeme, lexemes[position]? = some lexeme ∧ lexeme.kind.channel = .visible

/-- There is a visible token somewhere below a rule. -/
def Filled (lexemes : List Lexeme) (_ : String) (_ : RuleId) (children : List Outline) : Prop :=
  ∃ index, OnVisible lexemes index ∧ .token index ∈ Outline.eventsOf children

section Standing

variable {lexemes : List Lexeme} {position : Nat}

theorem ended_lex (source : String) : Ended (lex source) := lex_ends source

theorem OnVisible.rests (stands : OnVisible lexemes position) : Rests lexemes position := by
  obtain ⟨lexeme, found, shown⟩ := stands
  intro other same
  obtain rfl := Option.some.inj (found.symm.trans same)
  rw [shown]
  rfl

theorem OnVisible.inside (stands : OnVisible lexemes position) : position < lexemes.length := by
  obtain ⟨lexeme, found, -⟩ := stands
  exact (List.getElem?_eq_some_iff.mp found).1

private theorem onVisible_of_shown {lexeme : Lexeme} (found : lexemes[position]? = some lexeme)
    (shown : lexeme.kind.channel.isHidden = false) : OnVisible lexemes position := by
  refine ⟨lexeme, found, ?_⟩
  cases channel : lexeme.kind.channel with
  | visible => rfl
  | hidden =>
    rw [channel] at shown
    cases shown

private theorem onVisible_of_seen {entry : Lexeme × Nat} (member : entry ∈ seenFrom lexemes position) :
    OnVisible lexemes entry.2 := by
  obtain ⟨inside, shown⟩ := List.mem_filter.mp member
  obtain ⟨least, found⟩ := List.mk_mem_zipIdx_iff_le_and_getElem?_sub.mp inside
  rw [List.getElem?_drop, Nat.add_sub_cancel' least] at found
  exact onVisible_of_shown found (by simpa using shown)

private theorem onVisible_of_rests (rests : Rests lexemes position) (more : seenFrom lexemes position ≠ []) :
    OnVisible lexemes position := by
  obtain ⟨lexeme, found, -⟩ | ⟨-, -, -, none⟩ := seenFrom_cases lexemes rests
  · exact onVisible_of_shown found (rests lexeme found)
  · exact absurd none more

private theorem Ended.eof_mem (ended : Ended lexemes) (inside : position < lexemes.length) :
    .eof ∈ kindsOf (seenFrom lexemes position) := by
  obtain ⟨front, last, rfl, finished, -⟩ := ended
  have within : position ≤ front.length := by simpa [Nat.lt_succ_iff] using inside
  rw [seenFrom, kindsOf_shown, List.mem_filter]
  refine ⟨List.mem_map.mpr ⟨last, ?_, finished⟩, rfl⟩
  rw [List.drop_append_of_le_length within]
  exact List.mem_append_right _ (List.mem_singleton.mpr rfl)

/-- Stepping over hidden tokens ends at a visible one, and none of these is passed. -/
theorem Ended.onVisible (ended : Ended lexemes) (inside : position < lexemes.length) :
    OnVisible lexemes (Routine.visibleFrom lexemes position) ∧
      seenFrom lexemes (Routine.visibleFrom lexemes position) = seenFrom lexemes position := by
  obtain ⟨rests, same⟩ := visibleFrom_spec lexemes position
  refine ⟨onVisible_of_rests rests fun none => ?_, same⟩
  have member := ended.eof_mem inside
  rw [← same, none] at member
  cases member

end Standing

/-- What lies between two cursors: some visible tokens, and the events of whole nodes with tokens below them. -/
structure Advances (lexemes : List Lexeme) (origin last : Cursor) (count : Nat) : Prop where
  consumes : Consumes lexemes origin last count
  described : ∃ outlines, last.events = origin.events ++ Outline.eventsOf outlines ∧
    Outline.EveryOf (Filled lexemes) outlines

section Advancing

variable {lexemes : List Lexeme} {origin cursor middle last : Cursor} {count more : Nat}

theorem Consumes.exit (consumes : Consumes lexemes cursor last count) :
    Consumes lexemes cursor (last.note .exit) count := by
  obtain ⟨events, same, taken⟩ := consumes.noted
  refine ⟨consumes.rests, consumes.enough, consumes.left, events ++ [.exit], ?_, ?_⟩
  · rw [← List.append_assoc, ← same]
    rfl
  · rw [RuleEvent.attached_append, taken]
    simp

theorem Consumes.precede (consumes : Consumes lexemes cursor last count) (id : RuleId) :
    Consumes lexemes cursor (last.precede cursor.events.length id) count := by
  obtain ⟨events, same, taken⟩ := consumes.noted
  refine ⟨consumes.rests, consumes.enough, consumes.left, .enter expressionName id :: events, ?_, taken⟩
  rw [Cursor.precede, same, List.take_left, List.drop_left]

/-- Behind a token that is not the end of the source there is another visible one. -/
theorem Consumes.onVisible (ended : Ended lexemes) (stands : OnVisible lexemes cursor.position)
    (inner : current (kindsOf (seenFrom lexemes cursor.position)) ≠ .eof) (consumes : Consumes lexemes cursor last 1) :
    OnVisible lexemes last.position := by
  refine onVisible_of_rests consumes.rests fun none => ?_
  have member := ended.eof_mem stands.inside
  rw [consumes.left] at none
  cases seen : seenFrom lexemes cursor.position with
  | nil =>
    rw [seen] at member
    cases member
  | cons entry rest =>
    rw [seen] at inner none member
    obtain rfl : rest = [] := none
    exact inner (List.mem_singleton.mp member).symm

namespace Advances

theorem start (rests : Rests lexemes cursor.position) : Advances lexemes cursor cursor 0 :=
  ⟨.start rests, [], (List.append_nil _).symm, trivial⟩

theorem trans (front : Advances lexemes origin middle count) (back : Advances lexemes middle last more) :
    Advances lexemes origin last (count + more) := by
  obtain ⟨early, started, before⟩ := front.described
  obtain ⟨late, followed, behind⟩ := back.described
  have every := (Outline.everyOf_append early late).mpr ⟨before, behind⟩
  refine ⟨front.consumes.trans back.consumes, early ++ late, ?_, every⟩
  rw [followed, started, Outline.eventsOf_append, List.append_assoc]

theorem bump (stands : OnVisible lexemes cursor.position) :
    ∃ last, Routine.bump lexemes cursor = (last, none) ∧ Advances lexemes cursor last 1 := by
  obtain ⟨last, bumped, -, noted, consumes⟩ := bump_consumes stands.rests stands.inside
  exact ⟨last, bumped, consumes, [.token cursor.position], noted, trivial, trivial⟩

theorem filled (advances : Advances lexemes origin last count) (taken : 0 < count) {outlines : List Outline}
    (noted : last.events = origin.events ++ Outline.eventsOf outlines) (name : String) (id : RuleId) :
    Filled lexemes name id outlines := by
  obtain ⟨events, same, attached⟩ := advances.consumes.noted
  obtain rfl : events = Outline.eventsOf outlines := List.append_cancel_left (same.symm.trans noted)
  have enough := advances.consumes.enough
  have nonempty : (seenFrom lexemes origin.position).take count ≠ [] := by
    rw [← List.length_pos_iff, List.length_take]
    omega
  obtain ⟨entry, member⟩ := List.exists_mem_of_ne_nil _ nonempty
  have listed := attached ▸ List.mem_map_of_mem member
  exact ⟨entry.2, onVisible_of_seen (List.mem_of_mem_take member), RuleEvent.mem_attached_iff.mp listed⟩

theorem described_enclosed {name : String} {id : RuleId} (inside : Advances lexemes (cursor.enter name id) last count)
    (taken : 0 < count) :
    ∃ outline : Outline, (last.leave none).events = cursor.events ++ outline.events ∧
      outline.Every (Filled lexemes) := by
  obtain ⟨outlines, noted, every⟩ := inside.described
  refine ⟨.rule name id outlines, ?_, inside.filled taken noted name id, every⟩
  have whole : (last.leave none).events = cursor.events ++ [.enter name id] ++ Outline.eventsOf outlines ++ [.exit] :=
    congrArg (· ++ [RuleEvent.exit]) noted
  rw [whole, Outline.events]
  simp

theorem enclosed {name : String} {id : RuleId} (rests : Rests lexemes cursor.position)
    (inside : Advances lexemes (cursor.enter name id) last count) (taken : 0 < count) :
    Advances lexemes cursor (last.leave none) count := by
  obtain ⟨outline, noted, every⟩ := inside.described_enclosed taken
  have within : Consumes lexemes cursor last (0 + count) :=
    ((Consumes.start rests).enter name id).trans inside.consumes
  rw [Nat.zero_add] at within
  have closed := within.exit
  refine ⟨⟨closed.rests, closed.enough, closed.left, closed.noted⟩, [outline], ?_, every, trivial⟩
  rw [noted, Outline.eventsOf, Outline.eventsOf, List.append_nil]

/-- What was noted since the origin becomes the left operand of a node. -/
theorem operator {id : RuleId} (front : Advances lexemes origin cursor count)
    (back : Advances lexemes (cursor.precede origin.events.length id) last more) (taken : 0 < more) :
    Advances lexemes origin (last.note .exit) (count + more) := by
  obtain ⟨left, started, before⟩ := front.described
  obtain ⟨right, followed, behind⟩ := back.described
  obtain ⟨index, shown, member⟩ := back.filled taken followed expressionName id
  have entered : (cursor.precede origin.events.length id).events =
      origin.events ++ .enter expressionName id :: Outline.eventsOf left := by
    rw [Cursor.precede, started, List.take_left, List.drop_left]
  have whole : (last.note .exit).events = last.events ++ [.exit] := rfl
  refine ⟨((front.consumes.precede id).trans back.consumes).exit, [.rule expressionName id (left ++ right)], ?_,
    ⟨⟨index, shown, ?_⟩, (Outline.everyOf_append left right).mpr ⟨before, behind⟩⟩, trivial⟩
  · rw [whole, followed, entered, Outline.eventsOf, Outline.eventsOf, Outline.events, Outline.eventsOf_append]
    simp
  · rw [Outline.eventsOf_append]
    exact List.mem_append_right _ member

end Advances

end Advancing

/-- What a run has done that started at a visible token, where something was given about the tokens in front. -/
structure Passes (lexemes : List Lexeme) (given : List Kind → Prop) (task : Task) (cursor : Cursor)
    (result : Cursor × Option Diagnostic) : Prop where
  stands : OnVisible lexemes result.1.position
  known : result.2 = none → task.known given (kindsOf (seenFrom lexemes result.1.position))
  advances : result.2 = none → ∀ origin front, task.Fits origin.events.length →
    Advances lexemes origin cursor front →
      ∃ back, Advances lexemes origin result.1 back ∧ front ≤ back ∧ (task.takes = true → front < back)

namespace Passes

variable {lexemes : List Lexeme} {given : List Kind → Prop} {task first second body : Task}
  {cursor middle last : Cursor} {result : Cursor × Option Diagnostic} {diagnostic : Diagnostic}

/-- Whatever goes on from its own start goes on from an earlier one. -/
private theorem of_start (stands : OnVisible lexemes last.position)
    (known : task.known given (kindsOf (seenFrom lexemes last.position))) {count : Nat}
    (advances : Advances lexemes cursor last count) (taken : task.takes = true → 0 < count) :
    Passes lexemes given task cursor (last, none) := by
  refine ⟨stands, fun _ => known, fun _ origin front _ before => ⟨front + count, before.trans advances, ?_, ?_⟩⟩
  · exact Nat.le_add_right front count
  · intro takes
    have := taken takes
    omega

theorem failed (stands : OnVisible lexemes last.position) : Passes lexemes given task cursor (last, some diagnostic) :=
  ⟨stands, nofun, nofun⟩

theorem through (passes : Passes lexemes given task cursor result) {other : Task} {less : List Kind → Prop}
    (known : ∀ ahead, task.known given ahead → other.known less ahead)
    (takes : other.takes = true → task.takes = true) (fits : ∀ start, other.Fits start → task.Fits start) :
    Passes lexemes less other cursor result := by
  refine ⟨passes.stands, fun succeeded => known _ (passes.known succeeded), fun succeeded origin front fit before => ?_⟩
  obtain ⟨back, advances, least, most⟩ := passes.advances succeeded origin front (fits _ fit) before
  exact ⟨back, advances, least, fun taken => most (takes taken)⟩

theorem count (passes : Passes lexemes given task cursor (last, none)) (fits : task.Fits cursor.events.length)
    (rests : Rests lexemes cursor.position) :
    ∃ count, Advances lexemes cursor last count ∧ (task.takes = true → 0 < count) := by
  obtain ⟨count, advances, -, taken⟩ := passes.advances rfl cursor 0 fits (.start rests)
  exact ⟨count, advances, taken⟩

theorem bump (ended : Ended lexemes) (careful : Step.bump.Careful given) (stands : OnVisible lexemes cursor.position)
    (holds : given (kindsOf (seenFrom lexemes cursor.position))) :
    Passes lexemes given (.step .bump) cursor (Routine.bump lexemes cursor) := by
  obtain ⟨last, bumped, advances⟩ := Advances.bump stands
  have consumes := advances.consumes
  rw [bumped]
  refine of_start (consumes.onVisible ended stands (careful _ holds)) ?_ advances fun _ => Nat.one_pos
  have behind : kindsOf (seenFrom lexemes last.position) = (kindsOf (seenFrom lexemes cursor.position)).drop 1 := by
    rw [consumes.left, kindsOf, List.map_drop, kindsOf]
  rw [behind]
  have enough := consumes.enough
  generalize seen : seenFrom lexemes cursor.position = entries at holds enough
  cases entries with
  | nil => cases enough
  | cons entry rest => exact ⟨entry.1.kind, holds⟩

theorem expect (ended : Ended lexemes) {kind : Kind} (inner : kind ≠ .eof)
    (stands : OnVisible lexemes cursor.position) :
    Passes lexemes given (.step (.expect kind)) cursor (Routine.expect lexemes kind cursor) := by
  unfold Routine.expect
  split
  next here =>
    rw [kindAt_eq lexemes stands.rests, beq_iff_eq] at here
    have taken := bump ended (Step.careful_at inner) stands here
    exact ⟨taken.stands, fun _ => trivial, taken.advances⟩
  next => exact failed stands

theorem next (front : Passes lexemes given first cursor (middle, none))
    (back : Passes lexemes (first.known given) second middle result) :
    Passes lexemes given (.next first second) cursor result := by
  refine ⟨back.stands, back.known, fun succeeded origin count fits before => ?_⟩
  obtain ⟨between, advanced, least, most⟩ := front.advances rfl origin count fits.1 before
  obtain ⟨behind, further, less, more⟩ := back.advances succeeded origin between fits.2 advanced
  refine ⟨behind, further, Nat.le_trans least less, fun takes => ?_⟩
  rcases Bool.or_eq_true_iff.mp takes with takes | takes
  · exact Nat.lt_of_lt_of_le (most takes) less
  · exact Nat.lt_of_le_of_lt least (more takes)

theorem enclosed {name : String} {id : RuleId} {failure : Option Diagnostic} (takes : body.takes = true)
    (fits : ∀ start, body.Fits start) (stands : OnVisible lexemes cursor.position)
    (inside : Passes lexemes given body (cursor.enter name id) (last, failure)) :
    Passes lexemes given (.enclosed name id body) cursor (last.leave failure, failure) := by
  cases failure with
  | some diagnostic => exact failed inside.stands
  | none =>
    obtain ⟨count, advances, taken⟩ := inside.count (fits _) stands.rests
    exact of_start inside.stands trivial (advances.enclosed stands.rests (taken takes)) fun _ => taken takes

/-- An operator and what is behind it take at least the token of the operator. -/
theorem operator {power start : Nat} {id : RuleId} {more : Task} {kind : Kind} {other : List Kind → Prop}
    (continues : more.Continues kind) (stands : OnVisible lexemes cursor.position)
    (inside : Passes lexemes other more (cursor.precede start id) (middle, none))
    (later : Passes lexemes anywhere (.operators power start) (middle.note .exit) result) :
    Passes lexemes given (.operators power start) cursor result := by
  refine ⟨later.stands, fun _ => trivial, fun succeeded origin front fits before => ?_⟩
  cases fits
  obtain ⟨count, advances, taken⟩ := inside.count (continues.fits _) stands.rests
  have closed := before.operator advances (taken continues.takes)
  obtain ⟨back, further, least, -⟩ := later.advances succeeded origin (front + count) rfl closed
  exact ⟨back, further, by omega, nofun⟩

end Passes

/-- Every run of a careful task gets on. The tokens that it takes are counted from an origin before its start, so that an
operator may enter its node there. -/
theorem Runs.passes {lexemes : List Lexeme} {task : Task} {cursor : Cursor} {result : Cursor × Option Diagnostic}
    (ended : Ended lexemes) (runs : Runs lexemes task cursor result) :
    ∀ {given : List Kind → Prop}, task.Careful given → OnVisible lexemes cursor.position →
      given (kindsOf (seenFrom lexemes cursor.position)) → Passes lexemes given task cursor result := by
  induction runs with
  | done =>
    intro given _ stands holds
    exact .of_start stands holds (.start stands.rests) nofun
  | bump =>
    intro given careful stands holds
    exact .bump ended careful stands holds
  | expect =>
    intro given inner stands _
    exact .expect ended inner stands
  | fail =>
    intro given _ stands _
    exact .failed stands
  | @call rule id cursor result called ih =>
    intro given careful stands holds
    have passes := ih (Task.careful_call careful.1 id) stands (careful.2 _ holds)
    exact passes.through (fun _ _ => trivial) (fun _ => takes_body rule) fun _ _ => trivial
  | whole inner ih =>
    intro given _ stands _
    exact (@ih anywhere trivial stands trivial).through (fun _ _ => trivial) (fun _ => rfl) fun _ _ => trivial
  | steps both ih =>
    intro given careful stands holds
    exact (ih careful stands holds).through (fun _ known => known) (fun takes => takes) fun _ _ => ⟨trivial, trivial⟩
  | @choose test yes no cursor result chosen ih =>
    intro given careful stands holds
    rw [ahead_eq lexemes stands.rests] at ih
    split at ih
    next answer =>
      have passes := ih careful.1 stands ⟨holds, answer⟩
      exact passes.through (fun _ _ => trivial) (fun takes => (Bool.and_eq_true_iff.mp takes).1) fun _ _ => trivial
    next =>
      have passes := ih careful.2 stands holds
      exact passes.through (fun _ _ => trivial) (fun takes => (Bool.and_eq_true_iff.mp takes).2) fun _ _ => trivial
  | @loop test body cursor result round ih =>
    intro given careful stands holds
    rw [ahead_eq lexemes stands.rests] at ih
    split at ih
    next answer =>
      have passes := @ih (fun ahead => test ahead = true) ⟨careful.2, careful⟩ stands answer
      exact passes.through (fun _ known => known) nofun fun _ _ => trivial
    next answer =>
      have passes := @ih (fun ahead => test ahead = false) trivial stands (eq_false_of_ne_true answer)
      exact passes.through (fun _ known => known) nofun fun _ _ => trivial
  | next front back first second =>
    intro given careful stands holds
    have passes := first careful.1 stands holds
    exact passes.next (second careful.2 passes.stands (passes.known rfl))
  | broken front ih =>
    intro given careful stands holds
    exact .failed (ih careful.1 stands holds).stands
  | full reached =>
    intro given _ stands _
    exact .failed stands
  | enclosed room inner ih =>
    intro given careful stands holds
    exact .enclosed careful.1 careful.2.1 stands (ih careful.2.2 stands holds)
  | @expression power cursor result both ih =>
    intro given _ stands _
    -- operators enter their nodes where the operand began, so all is counted from there
    have here := (kindAt_eq lexemes stands.rests).symm
    have passes := ih ⟨Task.careful_operand _, trivial⟩ stands here
    obtain ⟨last, failure⟩ := result
    cases failure with
    | some diagnostic => exact .failed passes.stands
    | none =>
      obtain ⟨count, advances, taken⟩ := passes.count ⟨Task.operand_fits _ _, rfl⟩ stands.rests
      exact .of_start passes.stands trivial advances fun _ =>
        taken (Bool.or_eq_true_iff.mpr (.inl (Task.operand_takes _)))
  | ended stops =>
    intro given _ stands _
    exact .of_start stands trivial (.start stands.rests) nofun
  | operator found inner later first second =>
    intro given _ stands _
    have continues := Task.continues found
    have passes := first continues.careful stands (kindAt_eq lexemes stands.rests).symm
    exact .operator continues stands passes (@second anywhere trivial passes.stands trivial)
  | unfinished found inner ih =>
    intro given _ stands _
    exact .failed (ih (Task.continues found).careful stands (kindAt_eq lexemes stands.rests).symm).stands

end Verbatim.MiniJava
