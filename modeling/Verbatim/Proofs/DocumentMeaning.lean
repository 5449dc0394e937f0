import Verbatim.Proofs.DocumentParts
import Verbatim.Proofs.DocumentRoundTrip

/-! What the parts of a document mean. Each part is judged by the place it stands in: reading makes the calls of
the elements as long as every part is proper, and the first one that is not makes the document malformed. -/

namespace Verbatim.Xml

/-- Where a part stands: outside of all elements, directly in a node, or in a token. -/
inductive Place where
  | outside
  | node
  | token
deriving DecidableEq

instance (tag : TagText) (key : String) : Decidable (tag.Has key) := inferInstanceAs (Decidable (_ ∈ _))

namespace Part

def text? : Part → Option (List Char)
  | .text raw => decoded? raw
  | .cdata content => some content
  | .element _ _ => none

def isElement : Part → Bool
  | .element _ _ => true
  | _ => false

def textOf (parts : List Part) : List Char := parts.flatMap fun part => part.text?.getD []

mutual

def elements : Part → List Element
  | .text _ | .cdata _ => []
  | .element tag inner =>
    match tag.meaning? with
    | some (.node name rule) => [.node name rule (elementsOf inner)]
    | some (.token kind channel span) => [.token ⟨kind, String.ofList (textOf inner), channel, span⟩]
    | none => []

def elementsOf : List Part → List Element
  | [] => []
  | part :: rest => part.elements ++ elementsOf rest

end

mutual

/-- A part and all parts in it with their places. -/
def spread (place : Place) : Part → List (Place × Part)
  | .text raw => [(place, .text raw)]
  | .cdata content => [(place, .cdata content)]
  | .element tag inner => (place, .element tag inner) :: spreadOf (if tag.Has ruleKey then .node else .token) inner

def spreadOf (place : Place) : List Part → List (Place × Part)
  | [] => []
  | part :: rest => part.spread place ++ spreadOf place rest

end

/-- A part that may stand at a place, whatever is in it. -/
def Proper (place : Place) : Part → Prop
  | .text raw => ∃ text, unescape raw = .ok text ∧ (place ≠ .token → text.all isBlank)
  | .cdata content => place ≠ .token → content.all isBlank
  | .element tag _ => tag.Meaningful ∧ place ≠ .token ∧ (tag.Has ruleKey ∨ place = .node)

theorem elementsOf_append (first second : List Part) :
    elementsOf (first ++ second) = elementsOf first ++ elementsOf second := by
  induction first with
  | nil => rfl
  | cons part rest ih => rw [List.cons_append, elementsOf, elementsOf, ih, List.append_assoc]

private theorem spreadOf_append (place : Place) (first second : List Part) :
    spreadOf place (first ++ second) = spreadOf place first ++ spreadOf place second := by
  induction first with
  | nil => rfl
  | cons part rest ih => rw [List.cons_append, spreadOf, spreadOf, ih, List.append_assoc]

/-- Parts that are proper throughout. -/
def Tidy (place : Place) (parts : List Part) : Prop := ∀ found ∈ spreadOf place parts, found.2.Proper found.1

theorem tidy_nil (place : Place) : Tidy place [] := nofun

theorem tidy_append {place : Place} {first second : List Part} :
    Tidy place (first ++ second) ↔ Tidy place first ∧ Tidy place second := by
  simp only [Tidy, spreadOf_append, List.forall_mem_append]

theorem tidy_cons {place : Place} {part : Part} {rest : List Part} :
    Tidy place (part :: rest) ↔ Tidy place [part] ∧ Tidy place rest :=
  @tidy_append place [part] rest

theorem tidy_text {place : Place} {raw : List Char} : Tidy place [.text raw] ↔ Proper place (.text raw) := by
  simp [Tidy, spreadOf, spread]

theorem tidy_cdata {place : Place} {content : List Char} :
    Tidy place [.cdata content] ↔ Proper place (.cdata content) := by
  simp [Tidy, spreadOf, spread]

theorem tidy_element {place : Place} {tag : TagText} {inner : List Part} :
    Tidy place [.element tag inner] ↔ Proper place (.element tag inner) ∧
      Tidy (if tag.Has ruleKey then .node else .token) inner := by
  simp only [Tidy, spreadOf, spread, List.append_nil, List.forall_mem_cons]

end Part

open Verbatim.Xml.Part

def Malformed (result : Except Fault α) : Prop := ∃ cause offset, result = .error (Reader.malformed offset cause)

/-- A result that is had under a condition; without it the document is malformed. The contract of the tree may be
broken instead, but only where there is no room for what is read. -/
def Judged (room good : Prop) (goal : α → Prop) (result : Except Fault α) : Prop :=
  (good ∧ ∃ value, result = .ok value ∧ goal value) ∨ (¬good ∧ Malformed result) ∨
    (¬room ∧ ∃ violation, result = .error (.violation violation))

namespace Judged

variable {room good first : Prop} {goal : β → Prop} {between : α → Prop} {result : Except Fault α}
  {next : α → Except Fault β}

theorem accepted {value : α} (holds : good) (reached : between value) : Judged room good between (.ok value) :=
  .inl ⟨holds, value, rfl, reached⟩

theorem refused (fails : ¬good) (offset : Nat) (cause : Cause) :
    Judged room good between (.error (Reader.malformed offset cause)) :=
  .inr (.inl ⟨fails, cause, offset, rfl⟩)

theorem broken (cramped : ¬room) (violation : Violation) : Judged room good between (.error (.violation violation)) :=
  .inr (.inr ⟨cramped, violation, rfl⟩)

theorem bind (judged : Judged room first between result) (needed : good → first)
    (later : first → ∀ value, between value → Judged room good goal (next value)) :
    Judged room good goal (result.bind next) := by
  rcases judged with ⟨holds, value, rfl, reached⟩ | ⟨fails, cause, offset, rfl⟩ | ⟨cramped, violation, rfl⟩
  · exact later holds value reached
  · exact refused (fun holds => fails (needed holds)) offset cause
  · exact broken cramped violation

theorem map {change : α → β} (judged : Judged room good between result)
    (later : ∀ value, between value → goal (change value)) : Judged room good goal (result.map change) := by
  rcases judged with ⟨holds, value, rfl, reached⟩ | ⟨fails, cause, offset, rfl⟩ | ⟨cramped, violation, rfl⟩
  · exact accepted holds (later value reached)
  · exact refused fails offset cause
  · exact broken cramped violation

theorem imp {other : α → Prop} (judged : Judged room good between result)
    (more : ∀ value, between value → other value) : Judged room good other result := by
  rcases judged with ⟨holds, value, rfl, reached⟩ | ⟨fails, cause, offset, rfl⟩ | ⟨cramped, violation, rfl⟩
  · exact accepted holds (more value reached)
  · exact refused fails offset cause
  · exact broken cramped violation

theorem congr {other : Prop} (judged : Judged room good between result) (same : other ↔ good) :
    Judged room other between result := by
  rw [Judged, same]
  exact judged

end Judged

namespace Reader

def steps (reader : Reader) : List (Event × Nat) → Except Fault Reader
  | [] => .ok reader
  | (event, offset) :: rest => (reader.step event offset).bind fun reader => reader.steps rest

theorem steps_append (reader : Reader) (first second : List (Event × Nat)) :
    reader.steps (first ++ second) = (reader.steps first).bind fun middle => middle.steps second := by
  induction first generalizing reader with
  | nil => rfl
  | cons piece rest ih =>
    obtain ⟨event, offset⟩ := piece
    rw [List.cons_append, steps, steps]
    cases reader.step event offset with
    | error fault => rfl
    | ok next => exact ih next

theorem steps_singleton (reader : Reader) (event : Event) (offset : Nat) :
    reader.steps [(event, offset)] = reader.step event offset := by
  rw [steps]
  cases reader.step event offset with
  | error fault => rfl
  | ok next => rfl

theorem step_empty (reader : Reader) (tag : TagText) (offset : Nat) :
    reader.step (.empty tag) offset = (reader.step (.start tag) offset).bind fun next => next.step .finish offset := by
  obtain ⟨builder, token, rootFinished⟩ := reader
  simp only [step]
  cases tag.opening with
  | error cause => rfl
  | ok opening =>
    cases opening with
    | node name rule =>
      simp only [startNode]
      cases token with
      | some token => rfl
      | none =>
        cases rootFinished with
        | true => rfl
        | false =>
          simp only [call, Bool.false_eq_true, ↓reduceIte]
          cases builder.call (.start name rule) <;> rfl
    | token kind channel span =>
      dsimp only
      cases checkToken ⟨builder, token, rootFinished⟩ kind offset <;> rfl

end Reader

variable {room : Prop} {builder : Builder} {draft : Draft}

private theorem judged_inside (token : OpenToken) (parts : List Part) (pieces : List (Event × Nat))
    (spelled : pieces.map Prod.fst = eventsOf parts) :
    Judged room (Tidy .token parts)
      (fun reader => reader = ⟨builder, some { token with text := token.text ++ textOf parts }, false⟩)
      (Reader.steps ⟨builder, some token, false⟩ pieces) := by
  induction parts generalizing token pieces with
  | nil =>
    obtain rfl := List.map_eq_nil_iff.mp spelled
    exact .accepted (tidy_nil .token) (by simp [textOf])
  | cons part rest ih =>
    rw [eventsOf] at spelled
    have tidy := @tidy_cons .token part rest
    cases part with
    | text raw =>
      obtain ⟨⟨event, offset⟩, later, rfl, rfl, behind⟩ := List.map_eq_cons_iff.mp spelled
      rw [Reader.steps, Reader.step]
      cases resolved : unescape raw with
      | error fault =>
        refine .refused (fun all => ?_) _ _
        obtain ⟨text, same, -⟩ := tidy_text.mp (tidy.mp all).1
        cases resolved.symm.trans same
      | ok text =>
        have read := ih { token with text := token.text ++ text } later behind
        have proper : Tidy .token [.text raw] := tidy_text.mpr ⟨text, resolved, fun other => absurd rfl other⟩
        have known : decoded? raw = some text := decoded?_eq_some_iff.mpr resolved
        simp only [List.append_assoc] at read
        simp only [textOf, List.flatMap_cons, Part.text?, known, Option.getD_some]
        exact read.congr (tidy.trans (and_iff_right proper))
    | cdata content =>
      obtain ⟨⟨event, offset⟩, later, rfl, rfl, behind⟩ := List.map_eq_cons_iff.mp spelled
      have read := ih { token with text := token.text ++ content } later behind
      have proper : Tidy .token [.cdata content] := tidy_cdata.mpr fun other => absurd rfl other
      simp only [List.append_assoc] at read
      simp only [textOf, List.flatMap_cons, Part.text?, Option.getD_some]
      exact read.congr (tidy.trans (and_iff_right proper))
    | element tag inner =>
      obtain ⟨⟨event, offset⟩, later, rfl, rfl, -⟩ := List.map_eq_cons_iff.mp spelled
      have misplaced : ¬Tidy .token (.element tag inner :: rest) := by
        intro all
        exact (tidy_element.mp (tidy.mp all).1).1.2.1 rfl
      rw [Reader.steps, Reader.step]
      cases tag.opening with
      | error cause => exact .refused misplaced _ _
      | ok opening =>
        cases opening with
        | node name rule => exact .refused misplaced _ _
        | token kind channel span => exact .refused misplaced _ _

private theorem run_whole {root : Frame} {elements : List Element} {after : Draft}
    (taken : (Draft.whole root).run (Element.callsOf elements) = some after) : elements = [] ∧ after = .whole root := by
  cases elements with
  | nil => cases taken; exact ⟨rfl, rfl⟩
  | cons element rest =>
    cases element with
    | token content => cases taken
    | node name rule below => cases taken

/-- Elements make a whole tree only if there is one, and it is a node. -/
theorem run_blank {elements : List Element} {after : Draft}
    (taken : Draft.blank.run (Element.callsOf elements) = some after) :
    (elements = [] ∧ after = .blank) ∨ ∃ root : Frame, elements = [root.node] ∧ after = .whole root := by
  cases elements with
  | nil => cases taken; exact .inl ⟨rfl, rfl⟩
  | cons element rest =>
    cases element with
    | token content => cases taken
    | node name rule below =>
      have first : Draft.blank.run (Element.node name rule below).calls = some (.whole ⟨name, rule, below⟩) :=
        Draft.run_node ⟨name, rule, below⟩
      rw [Element.callsOf, Draft.run_append, first] at taken
      obtain ⟨rfl, rfl⟩ := run_whole taken
      exact .inr ⟨⟨name, rule, below⟩, rfl, rfl⟩

def placeIn (draft : Draft) : Place := if draft.depth = 0 then .outside else .node

private theorem placeIn_ne_token (draft : Draft) : placeIn draft ≠ .token := by
  unfold placeIn
  split <;> exact nofun

private theorem placeIn_run {elements : List Element} {after : Draft}
    (taken : draft.run (Element.callsOf elements) = some after) : placeIn after = placeIn draft := by
  cases draft with
  | blank =>
    obtain ⟨-, rfl⟩ | ⟨root, -, rfl⟩ := run_blank taken
    · rfl
    · rfl
  | part inner outer =>
    rw [Draft.run_elements] at taken
    cases taken
    rfl
  | whole root =>
    obtain ⟨-, rfl⟩ := run_whole taken
    rfl

/-- The reader behind calls that a builder takes between two elements. -/
def Behind (builder : Builder) (calls : List Call) (reader : Reader) : Prop :=
  ∃ next, builder.run calls = .ok next ∧ reader = between next

private theorem behind_nil : Behind builder [] (between builder) := ⟨builder, rfl, rfl⟩

private theorem judged_text (builder : Builder) (text : List Char) (offset : Nat) :
    Judged room (text.all isBlank) (Behind builder []) ((between builder).addText text offset) := by
  rw [between, Reader.addText]
  dsimp only
  split
  next blank => exact .accepted blank behind_nil
  next filled =>
  split
  · exact .refused filled _ _
  · exact .refused filled _ _

/-- A call that a draft takes is made, unless there is no room for it. -/
private theorem judged_call {after : Draft} {call : Call} (shows : builder.Shows draft)
    (taken : draft.call call = some after)
    (fits : room → Builder.Fits (draft.calls ++ [call])) (token : Option OpenToken) (rootFinished : Bool) :
    Judged room True (fun reader => ∃ next, builder.call call = .ok next ∧ reader = ⟨next, token, rootFinished⟩)
      (Reader.call ⟨builder, token, rootFinished⟩ call) := by
  rw [Reader.call]
  cases made : builder.call call with
  | ok next => exact .accepted trivial ⟨next, rfl, rfl⟩
  | error violation =>
    refine .broken (fun space => ?_) violation
    obtain ⟨next, same⟩ := shows.exists_call taken (fits space)
    cases made.symm.trans same

theorem hasRoot_blank (shows : builder.Shows .blank) : builder.hasRoot = false := by
  rw [← Bool.not_eq_true, shows.hasRoot_iff]
  exact not_not.mpr rfl

private theorem between_taking {after : Draft} {call : Call} (shows : builder.Shows draft)
    (taken : draft.call call = some after) : between builder = ⟨builder, none, false⟩ := by
  cases draft with
  | blank => rw [between, hasRoot_blank shows, Bool.false_and]
  | part inner outer =>
    apply between_inside
    rw [shows.nesting]
    exact Nat.succ_ne_zero _
  | whole root => cases call <;> cases taken

private theorem judged_start (shows : builder.Shows draft) (name : String) (rule : RuleId) (offset : Nat)
    (fits : room → Builder.Fits (draft.calls ++ [.start name rule])) :
    Judged room (draft.call (.start name rule)).isSome (Behind builder [.start name rule])
      ((between builder).startNode name rule offset) := by
  cases taken : draft.call (.start name rule) with
  | some after =>
    rw [between_taking shows taken]
    refine ((judged_call shows taken fits none false).imp ?_).congr (iff_true_intro rfl)
    rintro reader ⟨next, made, rfl⟩
    have deeper : next.nesting = builder.nesting + 1 := (Builder.nesting_call made).2
    exact ⟨next, (builder.run_singleton _).trans made, (between_inside (by omega)).symm⟩
  | none =>
    cases draft with
    | blank | part => cases taken
    | whole root =>
      have rooted : builder.hasRoot = true := shows.hasRoot_iff.mpr (by simp)
      have closed : builder.nesting = 0 := shows.nesting
      simp only [Reader.startNode, between, rooted, closed, decide_true, Bool.and_self, ↓reduceIte]
      exact .refused (by simp) _ _

private theorem judged_finish {inner : Frame} {outer : List Frame} (shows : builder.Shows (.part inner outer))
    (fits : room → Builder.Fits (Draft.calls (.part inner outer) ++ [.finish])) (offset : Nat) :
    Judged room True (Behind builder [.finish]) ((between builder).step .finish offset) := by
  obtain ⟨after, taken⟩ : ∃ after, (Draft.part inner outer).call .finish = some after := by
    cases outer with
    | nil | cons => exact ⟨_, rfl⟩
  rw [between_taking shows taken]
  refine (judged_call shows taken fits none false).map ?_
  rintro reader ⟨next, made, rfl⟩
  have rooted := (Builder.nesting_call made).1
  refine ⟨next, (builder.run_singleton _).trans made, ?_⟩
  rw [between, rooted]
  rfl

theorem isSome_run_node (draft : Draft) (name : String) (rule : RuleId) (below : List Element) :
    (draft.run (Element.callsOf [.node name rule below])).isSome = (draft.call (.start name rule)).isSome := by
  simp only [Element.callsOf, Element.calls, List.append_nil, Draft.run]
  cases taken : draft.call (.start name rule) with
  | none => rfl
  | some after =>
    cases draft with
    | whole root => cases taken
    | blank | part =>
      cases taken
      rw [Option.bind_some, Draft.run_append, Draft.run_elements]
      rfl

private theorem isSome_run_token (draft : Draft) (token : Token) :
    (draft.run (Element.callsOf [.token token])).isSome ↔ placeIn draft = .node := by
  cases draft with
  | blank | whole => exact iff_of_false nofun nofun
  | part inner outer => exact iff_of_true rfl rfl

private theorem judged_raw (builder : Builder) (draft : Draft) (raw : List Char) (offset : Nat) :
    Judged room (Tidy (placeIn draft) [.text raw] ∧ (draft.run []).isSome) (Behind builder [])
      ((between builder).steps [(.text raw, offset)]) := by
  rw [Reader.steps_singleton, Reader.step]
  cases resolved : unescape raw with
  | error fault =>
    refine .refused (fun good => ?_) _ _
    obtain ⟨text, same, -⟩ := tidy_text.mp good.1
    cases resolved.symm.trans same
  | ok text =>
    refine (judged_text builder text offset).congr ?_
    rw [tidy_text]
    constructor
    · rintro ⟨⟨other, same, blank⟩, _⟩
      cases resolved.symm.trans same
      exact blank (placeIn_ne_token draft)
    · intro blank
      exact ⟨⟨text, resolved, fun _ => blank⟩, rfl⟩

private theorem judged_section (builder : Builder) (draft : Draft) (content : List Char) (offset : Nat) :
    Judged room (Tidy (placeIn draft) [.cdata content] ∧ (draft.run []).isSome) (Behind builder [])
      ((between builder).steps [(.cdata content, offset)]) := by
  rw [Reader.steps_singleton, Reader.step]
  refine (judged_text builder content offset).congr ?_
  rw [tidy_cdata]
  constructor
  · intro good
    exact good.1 (placeIn_ne_token draft)
  · intro blank
    exact ⟨fun _ => blank, rfl⟩

private theorem judged_token {tag : TagText} {kind : String} {channel : Channel} {span : Span} {inner : List Part}
    (opened : tag.opening = .ok (.token kind channel span)) (shows : builder.Shows draft)
    (fits : room → Builder.Fits (draft.calls ++ [.token ⟨kind, String.ofList (textOf inner), channel, span⟩]))
    (pieces : List (Event × Nat)) (spelled : pieces.map Prod.fst = eventsOf inner) (offset behind : Nat) :
    Judged room (Tidy .token inner ∧ placeIn draft = .node)
      (Behind builder [.token ⟨kind, String.ofList (textOf inner), channel, span⟩])
      ((between builder).steps ((.start tag, offset) :: (pieces ++ [(.finish, behind)]))) := by
  rw [Reader.steps, Reader.step, opened]
  cases draft with
  | blank | whole =>
    have outside : builder.nesting = 0 := shows.nesting
    simp only [Reader.checkToken, between, outside, ↓reduceIte]
    exact .refused (by simp [placeIn, Draft.depth]) _ _
  | part frame outer =>
    have inside : builder.nesting ≠ 0 := by
      rw [shows.nesting]
      exact Nat.succ_ne_zero _
    rw [between_inside inside]
    simp only [Reader.checkToken, inside, ↓reduceIte, Except.map, Except.bind]
    rw [Reader.steps_append]
    refine (judged_inside ⟨kind, channel, span, []⟩ inner pieces spelled).bind And.left ?_
    intro tidy reader read
    rw [read, Reader.steps_singleton]
    refine ((judged_call shows rfl fits none false).imp ?_).congr (iff_true_intro ⟨tidy, rfl⟩)
    rintro reader ⟨next, made, rfl⟩
    have same : next.nesting = builder.nesting := (Builder.nesting_call made).2
    exact ⟨next, (builder.run_singleton _).trans made, (between_inside (same ▸ inside)).symm⟩

private theorem judged_node {tag : TagText} {name : String} {rule : RuleId} {inner : List Part}
    (opened : tag.opening = .ok (.node name rule)) (shows : builder.Shows draft)
    (fits : room → Builder.Fits (draft.calls ++ (Element.node name rule (elementsOf inner)).calls))
    (pieces : List (Event × Nat)) (offset behind : Nat)
    (within : ∀ (next : Builder) (after : Draft), next.Shows after → placeIn after = .node →
      (room → Builder.Fits (after.calls ++ Element.callsOf (elementsOf inner))) →
        Judged room (Tidy .node inner ∧ (after.run (Element.callsOf (elementsOf inner))).isSome)
          (Behind next (Element.callsOf (elementsOf inner))) ((between next).steps pieces)) :
    Judged room (Tidy .node inner ∧ (draft.call (.start name rule)).isSome)
      (Behind builder (Element.node name rule (elementsOf inner)).calls)
      ((between builder).steps ((.start tag, offset) :: (pieces ++ [(.finish, behind)]))) := by
  rw [Element.calls, ← List.singleton_append, ← List.append_assoc] at fits
  rw [Reader.steps, Reader.step, opened]
  refine (judged_start shows name rule offset fun space => (fits space).front).bind And.right ?_
  rintro started reader ⟨first, begun, same⟩
  rw [Builder.run_singleton] at begun
  obtain ⟨after, taken, shown⟩ := shows.call begun
  obtain ⟨outer, rfl⟩ : ∃ outer, after = .part ⟨name, rule, []⟩ outer := by
    cases draft with
    | blank | part => cases taken; exact ⟨_, rfl⟩
    | whole root => cases taken
  -- the node is begun: what is in it and its end are judged where that left the builder
  rw [← Draft.calls_call taken, ← List.append_assoc] at fits
  have filled := Draft.run_elements (elementsOf inner) ⟨name, rule, []⟩ outer
  rw [same, Reader.steps_append]
  refine (within first _ shown rfl fun space => (fits space).front).bind ?_ ?_
  · intro good
    exact ⟨good.1, by rw [filled]; rfl⟩
  rintro ⟨tidy, _⟩ reader ⟨second, ran, same⟩
  obtain ⟨_, again, shown⟩ := shown.run ran
  cases filled.symm.trans again
  rw [← Draft.calls_run filled] at fits
  rw [same, Reader.steps_singleton]
  refine ((judged_finish shown fits behind).imp ?_).congr (iff_true_intro ⟨tidy, started⟩)
  rintro reader ⟨last, ended, same⟩
  refine ⟨last, ?_, same⟩
  rw [Element.calls, Builder.run, begun, Except.bind, Builder.run_append, ran, Except.bind, ended]

mutual

private theorem judged_part {builder : Builder} {draft : Draft} (part : Part)
    (listed : ∀ tag, .start tag ∈ part.events → tag.read.Whole) (shows : builder.Shows draft)
    (fits : room → Builder.Fits (draft.calls ++ Element.callsOf part.elements)) (pieces : List (Event × Nat))
    (spelled : pieces.map Prod.fst = part.events) :
    Judged room (Tidy (placeIn draft) [part] ∧ (draft.run (Element.callsOf part.elements)).isSome)
      (Behind builder (Element.callsOf part.elements)) ((between builder).steps pieces) := by
  match part with
  | .text raw =>
    obtain ⟨⟨event, offset⟩, none, rfl, rfl, last⟩ := List.map_eq_cons_iff.mp spelled
    obtain rfl := List.map_eq_nil_iff.mp last
    exact judged_raw builder draft raw offset
  | .cdata content =>
    obtain ⟨⟨event, offset⟩, none, rfl, rfl, last⟩ := List.map_eq_cons_iff.mp spelled
    obtain rfl := List.map_eq_nil_iff.mp last
    exact judged_section builder draft content offset
  | .element tag inner =>
    obtain ⟨⟨event, offset⟩, more, rfl, rfl, rest⟩ := List.map_eq_cons_iff.mp spelled
    obtain ⟨pieces, last, rfl, inside, last'⟩ := List.map_eq_append_iff.mp rest
    obtain ⟨⟨event, behind⟩, none, rfl, rfl, last⟩ := List.map_eq_cons_iff.mp last'
    obtain rfl := List.map_eq_nil_iff.mp last
    have whole : tag.read.Whole := listed tag (by simp [Part.events])
    by_cases meaningful : tag.Meaningful
    · by_cases ruled : tag.Has ruleKey
      · obtain ⟨rule, meaning⟩ := meaningful.meaning?_node ruled
        have opened := TagText.opening_eq_ok_iff.mpr ⟨whole, meaningful, meaning⟩
        simp only [Part.elements, meaning, isSome_run_node, tidy_element, if_pos ruled] at fits ⊢
        simp only [Element.callsOf, List.append_nil] at fits ⊢
        refine (judged_node opened shows fits pieces offset behind ?_).congr ?_
        · intro next after shown place space
          have listed : ∀ tag, .start tag ∈ eventsOf inner → tag.read.Whole := by
            intro tag within
            exact listed tag (by simp [Part.events, within])
          have judged := judged_parts inner listed shown space pieces inside
          rwa [place] at judged
        · constructor
          · rintro ⟨⟨_, tidy⟩, started⟩
            exact ⟨tidy, started⟩
          · rintro ⟨tidy, started⟩
            exact ⟨⟨⟨meaningful, placeIn_ne_token draft, .inl ruled⟩, tidy⟩, started⟩
      · obtain ⟨channel, span, meaning⟩ := meaningful.meaning?_token ruled
        have opened := TagText.opening_eq_ok_iff.mpr ⟨whole, meaningful, meaning⟩
        simp only [Part.elements, meaning] at fits ⊢
        refine (judged_token opened shows fits pieces inside offset behind).congr ?_
        rw [tidy_element, if_neg ruled, isSome_run_token]
        constructor
        · rintro ⟨⟨_, tidy⟩, place⟩
          exact ⟨tidy, place⟩
        · rintro ⟨tidy, place⟩
          exact ⟨⟨⟨meaningful, placeIn_ne_token draft, .inr place⟩, tidy⟩, place⟩
    · rw [Reader.steps, Reader.step]
      cases opened : tag.opening with
      | error cause => exact .refused (fun good => meaningful (tidy_element.mp good.1).1.1) _ _
      | ok opening => exact absurd (TagText.opening_eq_ok_iff.mp opened).2.1 meaningful

theorem judged_parts {builder : Builder} {draft : Draft} (parts : List Part)
    (listed : ∀ tag, .start tag ∈ eventsOf parts → tag.read.Whole) (shows : builder.Shows draft)
    (fits : room → Builder.Fits (draft.calls ++ Element.callsOf (elementsOf parts))) (pieces : List (Event × Nat))
    (spelled : pieces.map Prod.fst = eventsOf parts) :
    Judged room (Tidy (placeIn draft) parts ∧ (draft.run (Element.callsOf (elementsOf parts))).isSome)
      (Behind builder (Element.callsOf (elementsOf parts))) ((between builder).steps pieces) := by
  match parts with
  | [] =>
    obtain rfl := List.map_eq_nil_iff.mp spelled
    exact .accepted ⟨tidy_nil _, rfl⟩ behind_nil
  | part :: rest =>
    obtain ⟨first, second, rfl, here, later⟩ := List.map_eq_append_iff.mp spelled
    rw [elementsOf, Element.callsOf_append, ← List.append_assoc] at fits
    rw [elementsOf, Element.callsOf_append, Draft.run_append, tidy_cons, Reader.steps_append]
    have listedHere : ∀ tag, .start tag ∈ part.events → tag.read.Whole := by
      intro tag within
      exact listed tag (List.mem_append_left _ within)
    refine (judged_part part listedHere shows (fun space => (fits space).front) first here).bind ?_ ?_
    · intro good
      exact ⟨good.1.1, Option.isSome_of_isSome_bind good.2⟩
    rintro ⟨tidy, placed⟩ reader ⟨next, made, same⟩
    obtain ⟨after, taken, shown⟩ := shows.run made
    rw [← Draft.calls_run taken] at fits
    have listedLater : ∀ tag, .start tag ∈ eventsOf rest → tag.read.Whole := by
      intro tag within
      exact listed tag (List.mem_append_right _ within)
    rw [same, taken, Option.bind_some]
    refine ((judged_parts rest listedLater shown fits second later).imp ?_).congr ?_
    · rintro reader ⟨last, ran, same⟩
      exact ⟨last, by rw [Builder.run_append, made]; exact ran, same⟩
    · rw [placeIn_run taken]
      exact ⟨fun good => ⟨good.1.2, good.2⟩, fun good => ⟨⟨placeIn_run taken ▸ tidy, good.1⟩, good.2⟩⟩

end

end Verbatim.Xml
