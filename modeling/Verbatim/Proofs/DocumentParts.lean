import Verbatim.Proofs.TagMeaning

/-! The parts of a document. Whatever stands between a start tag and its end tag is inside of that element, and
an element that the document leaves open is taken as if it ended with the document. Writing down the parts
gives the events that they were made from. -/

namespace Verbatim.Xml

/-- An empty element is one that ends at once. -/
def Event.expand : Event → List Event
  | .empty tag => [.start tag, .finish]
  | event => [event]

namespace Stream

def Whole : Stream → Prop
  | .done _ => True
  | .fault _ _ => False
  | .next _ _ rest => rest.Whole

instance decideWhole : (stream : Stream) → Decidable stream.Whole
  | .done _ => .isTrue trivial
  | .fault _ _ => .isFalse id
  | .next _ _ rest => decideWhole rest

def events : Stream → List Event
  | .done _ | .fault _ _ => []
  | .next event _ rest => event :: rest.events

def tags (stream : Stream) : List TagText :=
  stream.events.filterMap fun
    | .start tag | .empty tag => some tag
    | _ => none

end Stream

inductive Part where
  | text (raw : List Char)
  | cdata (content : List Char)
  | element (tag : TagText) (inner : List Part)

namespace Part

mutual

def events : Part → List Event
  | .text raw => [.text raw]
  | .cdata content => [.cdata content]
  | .element tag inner => .start tag :: (eventsOf inner ++ [.finish])

def eventsOf : List Part → List Event
  | [] => []
  | part :: rest => part.events ++ eventsOf rest

end

theorem eventsOf_append (first second : List Part) :
    eventsOf (first ++ second) = eventsOf first ++ eventsOf second := by
  induction first with
  | nil => rfl
  | cons part rest ih => simp only [List.cons_append, eventsOf, ih, List.append_assoc]

theorem eventsOf_singleton (part : Part) : eventsOf [part] = part.events := by
  simp only [eventsOf, List.append_nil]

end Part

/-- What has been seen of a document: the parts outside of open elements, and the open elements with the parts
in them, innermost first. -/
structure Contents where
  top : List Part := []
  pending : List (TagText × List Part) := []

namespace Contents

def add (contents : Contents) (part : Part) : Contents :=
  match contents.pending with
  | [] => { contents with top := contents.top ++ [part] }
  | (tag, inner) :: outer => { contents with pending := (tag, inner ++ [part]) :: outer }

def take (contents : Contents) : Event → Contents
  | .text raw => contents.add (.text raw)
  | .cdata content => contents.add (.cdata content)
  | .start tag => { contents with pending := (tag, []) :: contents.pending }
  | .empty tag => contents.add (.element tag [])
  | .finish =>
    match contents.pending with
    | [] => contents
    | (tag, inner) :: outer => { contents with pending := outer }.add (.element tag inner)

def of (events : List Event) : Contents := events.foldl take {}

def eventsOpen : List (TagText × List Part) → List Event
  | [] => []
  | (tag, inner) :: outer => eventsOpen outer ++ .start tag :: Part.eventsOf inner

def events (contents : Contents) : List Event := Part.eventsOf contents.top ++ eventsOpen contents.pending

private theorem events_add (contents : Contents) (part : Part) :
    (contents.add part).events = contents.events ++ part.events := by
  obtain ⟨top, pending⟩ := contents
  cases pending with
  | nil => simp only [add, events, eventsOpen, Part.eventsOf_append, Part.eventsOf_singleton, List.append_nil]
  | cons frame outer =>
    simp only [add, events, eventsOpen, Part.eventsOf_append, Part.eventsOf_singleton, List.append_assoc,
      List.cons_append]

private theorem events_take (contents : Contents) (event : Event) (matched : event = .finish → contents.pending ≠ []) :
    (contents.take event).events = contents.events ++ event.expand := by
  cases event with
  | text raw => exact contents.events_add (.text raw)
  | cdata content => exact contents.events_add (.cdata content)
  | empty tag => exact contents.events_add (.element tag [])
  | start tag => simp only [take, events, eventsOpen, Part.eventsOf, List.append_assoc, Event.expand]
  | finish =>
    obtain ⟨top, pending⟩ := contents
    cases pending with
    | nil => exact absurd rfl (matched rfl)
    | cons frame outer =>
      rw [take, events_add]
      simp only [events, eventsOpen, Part.events, Event.expand, List.append_assoc, List.cons_append]

/-- The parts with `inside` behind them, once the open elements have ended. -/
def closing (top inside : List Part) : List (TagText × List Part) → List Part
  | [] => top ++ inside
  | (tag, inner) :: outer => closing top [.element tag (inner ++ inside)] outer

def parts (contents : Contents) : List Part := closing contents.top [] contents.pending

theorem parts_of_closed {contents : Contents} (closed : contents.pending = []) : contents.parts = contents.top := by
  rw [parts, closed, closing, List.append_nil]

private theorem eventsOf_closing (top inside : List Part) (pending : List (TagText × List Part)) :
    Part.eventsOf (closing top inside pending) =
      Part.eventsOf top ++ eventsOpen pending ++ Part.eventsOf inside ++ List.replicate pending.length .finish := by
  induction pending generalizing inside with
  | nil => simp [closing, Part.eventsOf_append, eventsOpen]
  | cons frame outer ih =>
    rw [closing, ih, Part.eventsOf_singleton, Part.events, Part.eventsOf_append]
    simp [eventsOpen, List.replicate_succ]

private theorem eventsOf_parts (contents : Contents) :
    Part.eventsOf contents.parts = contents.events ++ List.replicate contents.pending.length .finish := by
  rw [parts, eventsOf_closing, events, Part.eventsOf, List.append_nil]

end Contents

/-- How the names of the open elements change with an event. -/
def Opens (names : List (List Char)) : Option Event → List (List Char) → Prop
  | some (.start tag), after => after = tag.name :: names
  | some .finish, after => ∃ name, names = name :: after
  | _, after => after = names

section Markup

variable {offset behind : Nat} {names after : List (List Char)} {text rest : List Char} {event : Option Event}

private theorem opens_of_scanBang (found : scanBang offset names text = .piece event behind after rest) :
    Opens names event after := by
  unfold scanBang at found
  split at found
  · cases found
  split at found
  · cases found
  next bang _ =>
  split at found
  · cases found
  dsimp only at found
  split at found
  · cases found
  cases bang with
  | comment | cdata => cases found; rfl
  | doctype =>
    dsimp only at found
    split at found
    · cases found
    · cases found; rfl

private theorem opens_of_scanDeclaration (found : scanDeclaration offset names text = .piece event behind after rest) :
    Opens names event after := by
  unfold scanDeclaration at found
  split at found
  split at found
  · cases found; rfl
  · cases found

private theorem opens_of_scanEnd (found : scanEnd offset names text = .piece event behind after rest) :
    Opens names event after := by
  unfold scanEnd at found
  split at found
  dsimp only at found
  split at found
  · cases found
  split at found
  · cases found; exact ⟨_, rfl⟩
  · cases found

private theorem opens_of_scanTag (found : scanTag offset names text = .piece event behind after rest) :
    Opens names event after := by
  unfold scanTag at found
  split at found
  · cases found
  dsimp only at found
  split at found
  · cases found; rfl
  · cases found; rfl

theorem opens_of_scanMarkup (found : scanMarkup offset names text = .piece event behind after rest) :
    Opens names event after := by
  unfold scanMarkup at found
  split at found
  · cases found
  split at found
  · exact opens_of_scanBang found
  split at found
  · exact opens_of_scanDeclaration found
  split at found
  · exact opens_of_scanEnd found
  · exact opens_of_scanTag found

end Markup

/-- How a text is cut into pieces, whatever their offsets. -/
inductive Scanned : List (List Char) → List Char → Stream → Prop where
  | done {names : List (List Char)} {text : List Char} (offset : Nat) : Scanned names text (.done offset)
  | fault {names : List (List Char)} {text : List Char} (cause : Cause) (offset : Nat) :
      Scanned names text (.fault cause offset)
  | skip {offset behind : Nat} {names after : List (List Char)} {body rest : List Char} {stream : Stream}
      (found : scanMarkup offset names body = .piece none behind after rest) (later : Scanned after rest stream) :
      Scanned names ('<' :: body) stream
  | markup {offset behind : Nat} {names after : List (List Char)} {body rest : List Char} {event : Event}
      {stream : Stream} (found : scanMarkup offset names body = .piece (some event) behind after rest)
      (later : Scanned after rest stream) : Scanned names ('<' :: body) (.next event behind stream)
  | text {names : List (List Char)} {text raw rest : List Char} {stream : Stream} (offset : Nat)
      (split : raw ++ rest = text) (later : Scanned names rest stream) :
      Scanned names text (.next (.text raw) offset stream)

private theorem scanned_scanFrom (fuel offset : Nat) (names : List (List Char)) (text : List Char) :
    Scanned names text (scanFrom fuel offset names text) := by
  induction fuel generalizing offset names text with
  | zero => exact .done offset
  | succ fuel ih =>
    cases text with
    | nil => exact .done offset
    | cons c rest =>
      rw [scanFrom]
      split
      next bracket =>
        cases eq_of_beq bracket
        cases found : scanMarkup (offset + 1) names rest with
        | done behind => exact .done behind
        | fault cause behind => exact .fault cause behind
        | piece event behind after more =>
          cases event with
          | none => exact .skip found (ih behind after more)
          | some event => exact .markup found (ih behind after more)
      next =>
        dsimp only
        split
        next => exact .text _ List.takeWhile_append_dropWhile (.done _)
        next => exact .text _ List.takeWhile_append_dropWhile (ih _ names _)

theorem scanned_scan (document : String) : ∃ text, text.Sublist document.toList ∧ Scanned [] text (scan document) := by
  unfold scan
  split
  next => exact ⟨[], List.nil_sublist _, .done 0⟩
  next c rest spelled =>
  rw [spelled]
  split
  next => exact ⟨rest, List.sublist_cons_self c rest, scanned_scanFrom _ _ _ _⟩
  next => exact ⟨c :: rest, List.Sublist.refl _, scanned_scanFrom _ _ _ _⟩

namespace Contents

theorem length_pending_add (contents : Contents) (part : Part) :
    (contents.add part).pending.length = contents.pending.length := by
  obtain ⟨top, pending⟩ := contents
  cases pending with
  | nil | cons => rfl

theorem level_take {contents : Contents} {event : Event} {names after : List (List Char)}
    (opens : Opens names (some event) after) (level : names.length = contents.pending.length) :
    (event = .finish → contents.pending ≠ []) ∧ after.length = (contents.take event).pending.length := by
  cases event with
  | text raw | cdata content | empty tag =>
    cases opens
    exact ⟨nofun, by rw [take, length_pending_add, level]⟩
  | start tag =>
    cases opens
    exact ⟨nofun, congrArg Nat.succ level⟩
  | finish =>
    obtain ⟨name, rfl⟩ := opens
    obtain ⟨top, pending⟩ := contents
    cases pending with
    | nil => cases level
    | cons frame outer =>
      refine ⟨fun _ => List.cons_ne_nil _ _, ?_⟩
      rw [take, length_pending_add]
      exact Nat.succ.inj level

/-- Events that are written down behind those of the contents, each in its place. -/
def Nests (contents : Contents) (events : List Event) : Prop :=
  (events.foldl take contents).events = contents.events ++ events.flatMap Event.expand

private theorem nests_nil (contents : Contents) : contents.Nests [] := (List.append_nil _).symm

theorem Nests.cons {contents : Contents} {event : Event} {rest : List Event}
    (matched : event = .finish → contents.pending ≠ []) (later : (contents.take event).Nests rest) :
    contents.Nests (event :: rest) := by
  rw [Nests, List.foldl_cons, later, events_take contents event matched, List.flatMap_cons, List.append_assoc]

/-- A stream that is scanned without faults nests, since it ends no element that is not open. -/
private theorem nests_of_scanned {names : List (List Char)} {text : List Char} {stream : Stream} {contents : Contents}
    (scanned : Scanned names text stream) (level : names.length = contents.pending.length) (whole : stream.Whole) :
    contents.Nests stream.events := by
  induction scanned generalizing contents with
  | done | fault => exact contents.nests_nil
  | skip found _ ih =>
    cases opens_of_scanMarkup found
    exact ih level whole
  | markup found _ ih =>
    obtain ⟨matched, deep⟩ := level_take (opens_of_scanMarkup found) level
    exact Nests.cons matched (ih deep whole)
  | @text names text raw rest stream offset split _ ih =>
    have opens : Opens names (some (.text raw)) names := rfl
    obtain ⟨matched, deep⟩ := level_take opens level
    exact Nests.cons matched (ih deep whole)

end Contents

def contents (document : String) : Contents := .of (scan document).events

/-- The parts of a document are its events again, with end tags for the elements that it leaves open. -/
theorem eventsOf_contents {document : String} (whole : (scan document).Whole) :
    Part.eventsOf (contents document).parts =
      (scan document).events.flatMap Event.expand ++ List.replicate (contents document).pending.length .finish := by
  obtain ⟨text, -, scanned⟩ := scanned_scan document
  have nests : Contents.Nests {} (scan document).events := Contents.nests_of_scanned scanned rfl whole
  rw [Contents.eventsOf_parts, contents, Contents.of, nests]
  rfl

end Verbatim.Xml
