import Verbatim.Proofs.DocumentMeaning

/-! Which documents describe a tree. A document that breaks off inside of an element is judged by what it would
be with end tags: if that is malformed it is malformed already, and else the end finds the element open. -/

namespace Verbatim.Xml

open Verbatim.Xml.Part

namespace Stream

/-- The pieces with their offsets, in which an empty element ends at once. -/
def pieces : Stream → List (Event × Nat)
  | .done _ | .fault _ _ => []
  | .next event offset rest => event.expand.map (fun event => (event, offset)) ++ rest.pieces

private theorem map_pieces (stream : Stream) : stream.pieces.map Prod.fst = stream.events.flatMap Event.expand := by
  induction stream with
  | done | fault => rfl
  | next event offset rest ih => simp [pieces, events, ih, Function.comp_def]

private theorem steps_expand (reader : Reader) (event : Event) (offset : Nat) :
    reader.steps (event.expand.map fun event => (event, offset)) = reader.step event offset := by
  cases event with
  | text | cdata | start | finish => exact reader.steps_singleton _ offset
  | empty tag =>
    rw [Reader.step_empty, Event.expand, List.map_cons, Reader.steps]
    simp only [List.map_cons, List.map_nil, Reader.steps_singleton]

/-- A document that is scanned to its end is read piece by piece, and then the end is checked. -/
private theorem run_eq {stream : Stream} (whole : stream.Whole) :
    ∃ offset, ∀ reader : Reader,
      reader.run stream = (reader.steps stream.pieces).bind fun last => last.finish offset := by
  induction stream with
  | done offset => exact ⟨offset, fun _ => rfl⟩
  | fault => cases whole
  | next event offset rest ih =>
    obtain ⟨last, run⟩ := ih whole
    refine ⟨last, fun reader => ?_⟩
    rw [Reader.run, pieces, Reader.steps_append, steps_expand]
    cases reader.step event offset with
    | error fault => rfl
    | ok next => exact run next

private theorem mem_tags {stream : Stream} {tag : TagText} :
    tag ∈ stream.tags ↔ .start tag ∈ stream.events.flatMap Event.expand := by
  rw [tags, List.mem_filterMap, List.mem_flatMap]
  refine exists_congr fun event => and_congr_right fun _ => ?_
  cases event <;> simp [Event.expand, eq_comm]

end Stream

private theorem start_mem_contents {document : String} (whole : (scan document).Whole) {tag : TagText} :
    .start tag ∈ eventsOf (contents document).parts ↔ tag ∈ (scan document).tags := by
  rw [eventsOf_contents whole, Stream.mem_tags, List.mem_append]
  exact or_iff_left fun added => nomatch List.eq_of_mem_replicate added

namespace Reader

def level (reader : Reader) : Nat := reader.builder.nesting + reader.token.toList.length

section

variable {reader next : Reader} {offset : Nat}

private theorem level_call {call : Call} (made : reader.call call = .ok next) :
    next.level + call.closes = reader.level + call.opens := by
  obtain ⟨builder, token, rootFinished⟩ := reader
  rw [Reader.call] at made
  split at made
  next after called =>
    cases made
    have nesting := (Builder.nesting_call called).2
    simp only [level]
    omega
  next => cases made

private theorem level_addText {text : List Char} (added : reader.addText text offset = .ok next) :
    next.level = reader.level := by
  unfold addText at added
  split at added
  next token found =>
    cases added
    simp [level, found]
  next =>
    split at added
    · cases added
      rfl
    · split at added <;> cases added

theorem level_start {tag : TagText} (started : reader.step (.start tag) offset = .ok next) :
    next.level = reader.level + 1 := by
  rw [step] at started
  split at started
  · cases started
  · unfold startNode at started
    split at started
    · cases started
    split at started
    · cases started
    · exact level_call started
  · unfold checkToken at started
    split at started
    · cases started
    next closed =>
    split at started
    · cases started
    · cases started
      simp [level, closed]

private theorem level_finish (ended : reader.step .finish offset = .ok next) : next.level + 1 = reader.level := by
  rw [step] at ended
  split at ended
  next token found =>
    have same : next.level = reader.builder.nesting := level_call ended
    rw [same, level, found]
    rfl
  next =>
    obtain ⟨after, made, rfl⟩ := map_eq_ok.mp ended
    exact level_call made

theorem level_step {contents : Contents} {event : Event} (level : reader.level = contents.pending.length)
    (taken : reader.step event offset = .ok next) : next.level = (contents.take event).pending.length := by
  cases event with
  | text raw =>
    rw [step] at taken
    split at taken
    · cases taken
    · rw [level_addText taken, level, Contents.take, Contents.length_pending_add]
  | cdata content => rw [level_addText taken, level, Contents.take, Contents.length_pending_add]
  | start tag =>
    rw [level_start taken, level]
    rfl
  | empty tag =>
    rw [step_empty] at taken
    obtain ⟨middle, started, ended⟩ := bind_eq_ok.mp taken
    have more := level_start started
    have less := level_finish ended
    rw [Contents.take, Contents.length_pending_add]
    omega
  | finish =>
    have less := level_finish taken
    obtain ⟨top, pending⟩ := contents
    cases pending with
    | nil =>
      rw [level] at less
      cases less
    | cons frame outer =>
      rw [Contents.take, Contents.length_pending_add]
      exact Nat.succ.inj (less.trans level)

end

private theorem level_steps {reader last : Reader} {contents : Contents} (stream : Stream)
    (level : reader.level = contents.pending.length) (taken : reader.steps stream.pieces = .ok last) :
    last.level = (stream.events.foldl Contents.take contents).pending.length := by
  induction stream generalizing reader contents with
  | done | fault =>
    cases taken
    exact level
  | next event offset rest ih =>
    rw [Stream.pieces, steps_append, Stream.steps_expand] at taken
    obtain ⟨middle, first, later⟩ := bind_eq_ok.mp taken
    exact ih (level_step level first) later

private theorem finish_unclosed {reader : Reader} (inside : reader.level ≠ 0) (offset : Nat) :
    Malformed (reader.finish offset) := by
  refine ⟨.unclosedElement, offset, if_pos ?_⟩
  cases held : reader.token with
  | some token => rfl
  | none => simpa [level, held] using inside

end Reader

/-- What it takes for a document to describe a tree. -/
structure Contents.DescribesTree (contents : Contents) : Prop where
  closed : contents.pending = []
  single : ∃ tag inner, contents.top.filter Part.isElement = [.element tag inner] ∧ tag.Has ruleKey
  meaningful : ∀ place tag inner, (place, .element tag inner) ∈ spreadOf .outside contents.top → tag.Meaningful
  nested : ∀ place tag inner, (place, .element tag inner) ∈ spreadOf .outside contents.top →
    place ≠ .token ∧ (tag.Has ruleKey ∨ place = .node)
  texts : ∀ place raw, (place, .text raw) ∈ spreadOf .outside contents.top →
    ∃ text, unescape raw = .ok text ∧ (place ≠ .token → text.all isBlank)
  sections : ∀ place content, (place, .cdata content) ∈ spreadOf .outside contents.top →
    place ≠ .token → content.all isBlank

def calls (document : String) : List Call := Element.callsOf (elementsOf (contents document).parts)

private theorem judged_closed {room : Prop} {document : String} (whole : (scan document).Whole)
    (listed : ∀ tag ∈ (scan document).tags, tag.read.Whole) (fits : room → Builder.Fits (calls document)) :
    Judged room (Tidy .outside (contents document).parts ∧ (Draft.blank.run (calls document)).isSome)
      (Behind {} (calls document))
      (((Reader.steps {} (scan document).pieces)).bind fun reader =>
        reader.steps (List.replicate (contents document).pending.length (.finish, 0))) := by
  rw [← Reader.steps_append]
  refine judged_parts _ (fun tag within => listed tag ((start_mem_contents whole).mp within)) Builder.Shows.initial
    fits _ ?_
  rw [List.map_append, Stream.map_pieces, List.map_replicate, eventsOf_contents whole]

private theorem judged_end {room : Prop} {elements : List Element} {reader : Reader}
    (behind : Behind {} (Element.callsOf elements) reader) (offset : Nat) :
    Judged room (∃ root : Frame, elements = [root.node])
      (fun tree => Builder.build (Element.callsOf elements) = .ok tree) (reader.finish offset) := by
  obtain ⟨last, ran, rfl⟩ := behind
  obtain ⟨after, taken, shown⟩ := Builder.Shows.initial.run ran
  obtain ⟨rfl, rfl⟩ | ⟨root, rfl, rfl⟩ := run_blank taken
  · have closed : last.nesting = 0 := shown.nesting
    simp only [Reader.finish, between, closed, hasRoot_blank shown, Option.isSome_none, Bool.false_or, Bool.false_and,
      ne_eq, not_true_eq_false, decide_false, Bool.false_eq_true, Bool.not_false, ↓reduceIte]
    exact .refused (by simp) _ _
  · have closed : last.nesting = 0 := shown.nesting
    have rooted : last.hasRoot = true := shown.hasRoot_iff.mpr (by simp)
    have finished : last.finish = .ok ⟨last.data, last.text, last.names, 0⟩ := by
      simp [Builder.finish, rooted, closed]
    simp only [Reader.finish, between, closed, rooted, finished, Fault.ofViolation, Option.isSome_none, Bool.false_or,
      ne_eq, not_true_eq_false, decide_false, decide_true, Bool.and_self, Bool.not_true, Bool.false_eq_true, ↓reduceIte]
    exact .accepted ⟨root, rfl⟩ (bind_eq_ok.mpr ⟨last, ran, finished⟩)

/-- A document is read as the tree of its one root, or else it is malformed. -/
theorem judged_document {room : Prop} {document : String} (whole : (scan document).Whole)
    (listed : ∀ tag ∈ (scan document).tags, tag.read.Whole) (fits : room → Builder.Fits (calls document)) :
    Judged room
      ((contents document).pending = [] ∧ Tidy .outside (contents document).parts ∧
        ∃ root : Frame, elementsOf (contents document).parts = [root.node])
      (fun tree => Builder.build (calls document) = .ok tree) (read document) := by
  have judged := judged_closed whole listed fits
  obtain ⟨offset, run⟩ := Stream.run_eq whole
  rw [read, run]
  by_cases closed : (contents document).pending = []
  · have ended : (Reader.steps {} (scan document).pieces).bind (fun reader =>
        reader.steps (List.replicate (contents document).pending.length (.finish, 0))) =
          Reader.steps {} (scan document).pieces := by
      rw [closed]
      cases Reader.steps {} (scan document).pieces <;> rfl
    rw [ended] at judged
    refine judged.bind ?_ ?_
    · rintro ⟨-, tidy, root, same⟩
      refine ⟨tidy, ?_⟩
      rw [calls, same, Frame.node, isSome_run_node]
      rfl
    · rintro ⟨tidy, -⟩ reader behind
      exact (judged_end behind offset).congr (by simp only [closed, tidy, true_and])
  · -- what is read is judged with end tags, and where all of it is taken the end is met inside of an element
    cases stepped : Reader.steps {} (scan document).pieces with
    | error fault =>
      rw [stepped] at judged
      rcases judged with ⟨-, _, same, -⟩ | ⟨-, cause, place, same⟩ | ⟨cramped, violation, same⟩
      · cases same
      · cases same
        exact .refused (fun good => closed good.1) place cause
      · cases same
        exact .broken cramped violation
    | ok reader =>
      have level : reader.level = (contents document).pending.length :=
        Reader.level_steps (scan document) rfl stepped
      have inside : reader.level ≠ 0 := by
        rw [level]
        exact mt List.length_eq_zero_iff.mp closed
      exact .inr (.inl ⟨fun good => closed good.1, Reader.finish_unclosed inside offset⟩)

private theorem mem_spreadOf {place : Place} {part : Part} {parts : List Part} (inside : part ∈ parts) :
    (place, part) ∈ spreadOf place parts := by
  induction parts with
  | nil => cases inside
  | cons first rest ih =>
    rw [spreadOf, List.mem_append]
    cases inside with
    | head => cases part <;> exact .inl List.mem_cons_self
    | tail _ later => exact .inr (ih later)

private theorem elementsOf_filter (parts : List Part) :
    elementsOf (parts.filter Part.isElement) = elementsOf parts := by
  induction parts with
  | nil => rfl
  | cons part rest ih =>
    cases part with
    | text | cdata => exact ih
    | element tag inner => exact congrArg (_ ++ ·) ih

private theorem length_elementsOf {place : Place} {parts : List Part} (tidy : Tidy place parts) :
    (elementsOf parts).length = (parts.filter Part.isElement).length := by
  induction parts with
  | nil => rfl
  | cons part rest ih =>
    obtain ⟨first, later⟩ := tidy_cons.mp tidy
    cases part with
    | text | cdata => exact ih later
    | element tag inner =>
      have meaningful := (tidy_element.mp first).1.1
      have single : (Part.element tag inner).elements.length = 1 := by
        by_cases ruled : tag.Has ruleKey
        · obtain ⟨rule, meaning⟩ := meaningful.meaning?_node ruled
          simp only [Part.elements, meaning, List.length_singleton]
        · obtain ⟨channel, span, meaning⟩ := meaningful.meaning?_token ruled
          simp only [Part.elements, meaning, List.length_singleton]
      rw [elementsOf, List.length_append, single, ih later, List.filter_cons_of_pos rfl, List.length_cons, Nat.add_comm]

private theorem Contents.describesTree_iff {contents : Contents} :
    contents.DescribesTree ↔ contents.pending = [] ∧ Tidy .outside contents.parts ∧
      ∃ root : Frame, elementsOf contents.parts = [root.node] := by
  constructor
  · intro describes
    have parts := Contents.parts_of_closed describes.closed
    refine ⟨describes.closed, ?_, ?_⟩
    · rintro ⟨place, part⟩ found
      rw [parts] at found
      cases part with
      | text raw => exact describes.texts place raw found
      | cdata content => exact describes.sections place content found
      | element tag inner => exact ⟨describes.meaningful place tag inner found, describes.nested place tag inner found⟩
    · obtain ⟨tag, inner, single, ruled⟩ := describes.single
      have inside : Part.element tag inner ∈ contents.top :=
        (List.mem_filter.mp (single ▸ List.mem_singleton_self (Part.element tag inner))).1
      have meaningful := describes.meaningful _ tag inner (mem_spreadOf inside)
      obtain ⟨rule, meaning⟩ := meaningful.meaning?_node ruled
      refine ⟨⟨String.ofList tag.name, rule, elementsOf inner⟩, ?_⟩
      rw [parts, ← elementsOf_filter, single]
      simp only [elementsOf, Part.elements, meaning, List.append_nil, Frame.node]
  · rintro ⟨closed, tidy, root, same⟩
    have parts := Contents.parts_of_closed closed
    rw [parts] at tidy same
    have single := length_elementsOf tidy
    rw [same, List.length_singleton] at single
    obtain ⟨part, only⟩ := List.length_eq_one_iff.mp single.symm
    obtain ⟨inside, kind⟩ := List.mem_filter.mp (only ▸ List.mem_singleton_self part)
    refine ⟨closed, ?_, ?_, ?_, ?_, ?_⟩
    · cases part with
      | text | cdata => cases kind
      | element tag inner =>
        have proper : Proper .outside (.element tag inner) := tidy _ (mem_spreadOf inside)
        exact ⟨tag, inner, only, proper.2.2.resolve_right (by simp)⟩
    · intro place tag inner found
      exact (tidy _ found).1
    · intro place tag inner found
      exact (tidy _ found).2
    · intro place raw found
      exact tidy _ found
    · intro place content found
      exact tidy _ found

mutual

private theorem named_part (part : Part) {name : String} (named : name ∈ Call.namesOf (Element.callsOf part.elements)) :
    ∃ tag, .start tag ∈ part.events ∧ name = String.ofList tag.name := by
  match part with
  | .text _ | .cdata _ => cases named
  | .element tag inner =>
    rw [Part.elements] at named
    cases meaning : tag.meaning? with
    | none =>
      rw [meaning] at named
      cases named
    | some opening =>
      have own := TagText.name_of_meaning? meaning
      rw [meaning] at named
      cases opening with
      | node kind rule =>
        simp only [Element.callsOf, Element.calls, List.append_nil, Call.namesOf_cons, Call.namesOf_append,
          Call.namesOf_nil, Call.names, List.singleton_append, List.mem_cons] at named
        rcases named with same | within
        · exact ⟨tag, List.mem_cons_self, same.trans own⟩
        · obtain ⟨tag, found, same⟩ := named_parts inner within
          exact ⟨tag, List.mem_cons_of_mem _ (List.mem_append_left _ found), same⟩
      | token kind channel span =>
        exact ⟨tag, List.mem_cons_self, (List.mem_singleton.mp named).trans own⟩

private theorem named_parts (parts : List Part) {name : String}
    (named : name ∈ Call.namesOf (Element.callsOf (elementsOf parts))) :
    ∃ tag, .start tag ∈ eventsOf parts ∧ name = String.ofList tag.name := by
  match parts with
  | [] => cases named
  | part :: rest =>
    rw [elementsOf, Element.callsOf_append, Call.namesOf_append, List.mem_append] at named
    rcases named with here | later
    · obtain ⟨tag, found, same⟩ := named_part part here
      exact ⟨tag, List.mem_append_left _ found, same⟩
    · obtain ⟨tag, found, same⟩ := named_parts rest later
      exact ⟨tag, List.mem_append_right _ found, same⟩

end

private theorem card_names_le {document : String} (whole : (scan document).Whole) :
    (Call.namesOf (calls document)).toFinset.card ≤ ((scan document).tags.map TagText.name).toFinset.card := by
  have inside : (Call.namesOf (calls document)).toFinset ⊆
      ((scan document).tags.map TagText.name).toFinset.image String.ofList := by
    intro name named
    obtain ⟨tag, found, same⟩ := named_parts _ (List.mem_toFinset.mp named)
    rw [same]
    apply Finset.mem_image_of_mem
    exact List.mem_toFinset.mpr (List.mem_map_of_mem ((start_mem_contents whole).mp found))
  exact (Finset.card_le_card inside).trans Finset.card_image_le

/-- A document whose elements need more than there is room for in a tree. -/
def Oversized (document : String) : Prop :=
  Builder.wordLimit ≤ (Call.textOf (calls document)).utf8ByteSize ∨
    Builder.wordLimit ≤ Call.sizeOf (calls document) + 1

/-- A document whose tags can be read gives a tree exactly if it describes one. Then the tree is that of its one
outermost element, and else the document is malformed. No contract is broken but for the size of a tree. -/
theorem document_accepted_iff (document : String) (whole : (scan document).Whole)
    (listed : ∀ tag ∈ (scan document).tags, tag.read.Whole)
    (few : ((scan document).tags.map TagText.name).toFinset.card ≤ Tag.nameLimit) :
    (Oversized document ∧ ∃ violation, read document = .error (.violation violation)) ∨
      ((∃ tree, read document = .ok tree) ↔ (contents document).DescribesTree) ∧
        (∀ tree, read document = .ok tree →
          ∃ root, elementsOf (contents document).top = [root] ∧ tree.calls = root.calls) ∧
        (¬(contents document).DescribesTree →
          ∃ cause offset, read document = .error (.error (.malformedTree cause offset))) := by
  have fits (small : ¬Oversized document) : Builder.Fits (calls document) := by
    rw [Oversized, not_or, Nat.not_le, Nat.not_le] at small
    exact ⟨(card_names_le whole).trans few, small.1, small.2⟩
  have judged := judged_document whole listed fits
  rw [← Contents.describesTree_iff] at judged
  rcases judged with ⟨describes, tree, made, built⟩ | ⟨fails, malformed⟩ | ⟨large, violation, broken⟩
  · refine .inr ⟨⟨fun _ => describes, fun _ => ⟨tree, made⟩⟩, ?_, fun fails => absurd describes fails⟩
    intro other same
    cases made.symm.trans same
    obtain ⟨closed, -, root, single⟩ := Contents.describesTree_iff.mp describes
    refine ⟨root.node, ?_, ?_⟩
    · rw [← single, Contents.parts_of_closed closed]
    · rw [(SyntaxTree.readsBack_of_build built).made, calls, single, Element.callsOf, Element.callsOf, List.append_nil]
  · have refused (tree : SyntaxTree) : read document ≠ .ok tree := by
      intro made
      obtain ⟨_, _, same⟩ := malformed
      cases made.symm.trans same
    exact .inr ⟨iff_of_false (not_exists.mpr refused) fails,
      fun tree made => absurd made (refused tree), fun _ => malformed⟩
  · exact .inl ⟨not_not.mp large, violation, broken⟩

theorem token_between_blanks_accepted :
    let document := "<unit rule-id='7'>\n <ID start-line='1' start-col='0' end-line='1' end-col='1'>a&lt;</ID></unit>"
    ((∃ tree, read document = .ok tree) ↔ (contents document).DescribesTree) ∧
      (∀ tree, read document = .ok tree →
        ∃ root, elementsOf (contents document).top = [root] ∧ tree.calls = root.calls) ∧
      (¬(contents document).DescribesTree →
        ∃ cause offset, read document = .error (.error (.malformedTree cause offset))) := by
  intro document
  have tags : (scan document).tags.map TagText.name = ["unit".toList, "ID".toList] := by decide +kernel
  have few : ((scan document).tags.map TagText.name).toFinset.card ≤ Tag.nameLimit := by
    rw [tags]
    exact (List.toFinset_card_le _).trans (by decide)
  have small : ¬Oversized document := by
    rw [Oversized, not_or, Nat.not_le, Nat.not_le]
    exact ⟨by decide +kernel, by decide +kernel⟩
  exact (document_accepted_iff document (by decide +kernel) (by decide +kernel) few).resolve_left
    fun large => small large.1

end Verbatim.Xml
