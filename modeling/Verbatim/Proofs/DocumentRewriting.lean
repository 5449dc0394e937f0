import Verbatim.Proofs.DocumentAcceptance

/-! Writing what was read. A document that is read gives a tree whose names are those of its tags, in the order of
the document. Reading takes any name, and so the tree can be written again, and is read as itself then, only if the
names of all tags can be written. -/

namespace Verbatim.Xml

open Verbatim.Xml.Part

def Event.tag? : Event → Option TagText
  | .start tag | .empty tag => some tag
  | _ => none

theorem Stream.tags_eq (stream : Stream) : stream.tags = stream.events.filterMap Event.tag? := rfl

private theorem filterMap_expand (events : List Event) :
    (events.flatMap Event.expand).filterMap Event.tag? = events.filterMap Event.tag? := by
  induction events with
  | nil => rfl
  | cons event rest ih =>
    rw [List.flatMap_cons, List.filterMap_append, ih]
    cases event <;> rfl

private theorem Reader.opening_of_step {reader next : Reader} {event : Event} {offset : Nat} {tag : TagText}
    (taken : reader.step event offset = .ok next) (found : event.tag? = some tag) :
    ∃ opening, tag.opening = .ok opening := by
  cases event with
  | text | cdata | finish => cases found
  | start | empty =>
    cases found
    rw [step] at taken
    cases understood : tag.opening with
    | ok opening => exact ⟨opening, rfl⟩
    | error cause =>
      rw [understood] at taken
      cases taken

/-- A document that is read has been scanned to its end, and each of its tags has been understood. -/
private theorem Stream.whole_of_run {stream : Stream} {reader : Reader} {tree : SyntaxTree}
    (made : reader.run stream = .ok tree) : stream.Whole ∧ ∀ tag ∈ stream.tags, tag.read.Whole := by
  induction stream generalizing reader with
  | done offset => exact ⟨trivial, nofun⟩
  | fault cause offset => cases made
  | next event offset rest ih =>
    obtain ⟨next, taken, later⟩ := bind_eq_ok.mp made
    obtain ⟨whole, understood⟩ := ih later
    refine ⟨whole, fun tag inside => ?_⟩
    rw [tags_eq, events, List.filterMap_cons] at inside
    split at inside
    · exact understood tag inside
    next other found =>
      rcases List.mem_cons.mp inside with rfl | inside
      · obtain ⟨opening, same⟩ := Reader.opening_of_step taken found
        exact (TagText.opening_eq_ok_iff.mp same).1
      · exact understood tag inside

variable {document : String} {tree : SyntaxTree}

theorem described_of_read (made : read document = .ok tree) :
    (scan document).Whole ∧ (contents document).pending = [] ∧ Tidy .outside (contents document).parts ∧
      Builder.build (calls document) = .ok tree := by
  obtain ⟨whole, listed⟩ := Stream.whole_of_run made
  have judged := @judged_document False _ whole listed False.elim
  rw [made] at judged
  rcases judged with ⟨⟨closed, tidy, -⟩, _, same, built⟩ | ⟨-, _, _, same⟩ | ⟨-, _, same⟩
  · cases same
    exact ⟨whole, closed, tidy, built⟩
  · cases same
  · cases same

private theorem tags_token {parts : List Part} (tidy : Tidy .token parts) :
    (eventsOf parts).filterMap Event.tag? = [] := by
  induction parts with
  | nil => rfl
  | cons part rest ih =>
    obtain ⟨first, later⟩ := tidy_cons.mp tidy
    rw [eventsOf, List.filterMap_append, ih later]
    cases part with
    | text | cdata => rfl
    | element tag inner => exact absurd rfl (tidy_element.mp first).1.2.1

mutual

private theorem namesOf_part (part : Part) {place : Place} (tidy : Tidy place [part]) :
    Call.namesOf (Element.callsOf part.elements) =
      (part.events.filterMap Event.tag?).map fun tag => String.ofList tag.name := by
  match part with
  | .text _ | .cdata _ => rfl
  | .element tag inner =>
    obtain ⟨⟨meaningful, -⟩, within⟩ := tidy_element.mp tidy
    have tags : (Part.element tag inner).events.filterMap Event.tag? =
        tag :: (eventsOf inner).filterMap Event.tag? := by
      simp [Part.events, Event.tag?]
    rw [tags, List.map_cons, Part.elements]
    by_cases ruled : tag.Has ruleKey
    · obtain ⟨rule, meaning⟩ := meaningful.meaning?_node ruled
      have below := namesOf_parts inner within
      simp [meaning, Element.callsOf, Element.calls, Call.names, below]
    · obtain ⟨channel, span, meaning⟩ := meaningful.meaning?_token ruled
      rw [if_neg ruled] at within
      simp [meaning, Element.callsOf, Element.calls, Call.names, tags_token within]

private theorem namesOf_parts (parts : List Part) {place : Place} (tidy : Tidy place parts) :
    Call.namesOf (Element.callsOf (elementsOf parts)) =
      ((eventsOf parts).filterMap Event.tag?).map fun tag => String.ofList tag.name := by
  match parts with
  | [] => rfl
  | part :: rest =>
    obtain ⟨first, later⟩ := tidy_cons.mp tidy
    rw [elementsOf, Element.callsOf_append, Call.namesOf_append, eventsOf, List.filterMap_append, List.map_append,
      namesOf_part part first, namesOf_parts rest later]

end

theorem namesOf_read (made : read document = .ok tree) :
    Call.namesOf (calls document) = (scan document).tags.map fun tag => String.ofList tag.name := by
  obtain ⟨whole, closed, tidy, -⟩ := described_of_read made
  rw [calls, namesOf_parts _ tidy, eventsOf_contents whole, closed, List.filterMap_append, filterMap_expand,
    Stream.tags_eq]
  simp

/-- What was read from a document is written and read again exactly if all tags of the document have names that can
be written; else writing fails with the first name that cannot. -/
theorem written_again_iff_named (document : String) (tree : SyntaxTree) (made : read document = .ok tree) :
    match (scan document).tags.find? fun tag => !isName tag.name with
    | some tag => write tree = .error (.invalidXmlName (String.ofList tag.name))
    | none => ∃ again copy, write tree = .ok again ∧ read again = .ok copy ∧ (copy == tree) = true := by
  obtain ⟨-, -, -, built⟩ := described_of_read made
  have names := namesOf_read made
  have first : (Call.namesOf (calls document)).find? unwritable =
      ((scan document).tags.find? fun tag => !isName tag.name).map fun tag => String.ofList tag.name := by
    rw [names, List.find?_map]
    congr 2
    funext tag
    simp [unwritable]
  split
  next tag found =>
    rw [found] at first
    exact write_eq_error built first
  next all =>
    rw [all] at first
    have named : ∀ name ∈ Call.namesOf (calls document), isName name.toList = true := by
      intro name inside
      simpa [unwritable] using List.find?_eq_none.mp first name inside
    obtain ⟨again, written, same⟩ := exists_write built named
    exact ⟨again, tree, written, same, beq_self_eq_true tree.calls⟩

theorem exists_read (document : String) (succeeds : (read document).toOption.isSome) :
    ∃ tree, read document = .ok tree := by
  cases made : read document with
  | ok tree => exact ⟨tree, rfl⟩
  | error fault =>
    rw [made] at succeeds
    cases succeeds

theorem commented_document_written_again :
    let document := "<a:b rule-id='7'><!-- > --><t start-line='1' start-col='0' end-line='1' end-col='0'>&#60;</t ></a:b>"
    ∃ tree, read document = .ok tree ∧
      ∃ again copy, write tree = .ok again ∧ read again = .ok copy ∧ (copy == tree) = true := by
  intro document
  obtain ⟨succeeds, named⟩ : (read document).toOption.isSome ∧
      (scan document).tags.find? (fun tag => !isName tag.name) = none := by decide +kernel
  clear_value document
  obtain ⟨tree, made⟩ := exists_read document succeeds
  have written := written_again_iff_named document tree made
  rw [named] at written
  exact ⟨tree, made, written⟩

/-- Reading takes a name that starts with a digit, which writing refuses. -/
theorem numeral_name_not_written_again :
    (∃ tree, read "<1 rule-id='1'/>" = .ok tree ∧ write tree = .error (.invalidXmlName "1")) ∧
      ¬∀ document tree, read document = .ok tree →
        ∃ again copy, write tree = .ok again ∧ read again = .ok copy ∧ (copy == tree) = true := by
  have refused : ∃ tree, read "<1 rule-id='1'/>" = .ok tree ∧ write tree = .error (.invalidXmlName "1") := by
    obtain ⟨tree, made⟩ := exists_read "<1 rule-id='1'/>" (by decide +kernel)
    have written : (read "<1 rule-id='1'/>").toOption.map write = some (.error (.invalidXmlName "1")) := by
      decide +kernel
    rw [made] at written
    exact ⟨tree, made, Option.some.inj written⟩
  refine ⟨refused, fun always => ?_⟩
  obtain ⟨tree, made, failed⟩ := refused
  obtain ⟨again, copy, written, -⟩ := always _ tree made
  cases failed.symm.trans written

end Verbatim.Xml
