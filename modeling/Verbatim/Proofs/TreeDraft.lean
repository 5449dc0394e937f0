import Verbatim.Tree.Element

/-! Which sequences of calls describe a tree. A draft is what the calls so far say, without any buffer:
the open nodes and the elements that they have. It is itself a sequence of calls, and each call that it
takes is written behind the others, so the calls that complete a draft are those of exactly one tree. -/

namespace Verbatim

namespace Element

theorem callsOf_append (first second : List Element) : callsOf (first ++ second) = callsOf first ++ callsOf second := by
  induction first with
  | nil => rfl
  | cons element rest ih => simp only [List.cons_append, callsOf, ih, List.append_assoc]

private theorem callsOf_concat (elements : List Element) (element : Element) :
    callsOf (elements ++ [element]) = callsOf elements ++ element.calls := by
  rw [callsOf_append]
  simp only [callsOf, List.append_nil]

end Element

/-- A node that is still open, with the elements below it so far. -/
structure Frame where
  name : String
  rule : RuleId
  below : List Element

namespace Frame

def add (frame : Frame) (element : Element) : Frame := { frame with below := frame.below ++ [element] }

/-- The node as it stands once nothing more is added. -/
def node (frame : Frame) : Element := .node frame.name frame.rule frame.below

def calls (frame : Frame) : List Call := .start frame.name frame.rule :: Element.callsOf frame.below

/-- The calls that led to open nodes, of which the innermost comes first. -/
def callsOf : List Frame → List Call
  | [] => []
  | frame :: outer => callsOf outer ++ frame.calls

@[simp] theorem calls_add (frame : Frame) (element : Element) :
    (frame.add element).calls = frame.calls ++ element.calls := by
  simp only [add, calls, Element.callsOf_concat, List.cons_append]

@[simp] theorem calls_node (frame : Frame) : frame.node.calls = frame.calls ++ [.finish] := by
  simp only [node, calls, Element.calls, List.cons_append]

end Frame

/-- What has been described: nothing, a part with open nodes, of which the innermost comes first, or a
whole tree. -/
inductive Draft where
  | blank
  | part (inner : Frame) (outer : List Frame)
  | whole (root : Frame)

namespace Draft

def depth : Draft → Nat
  | .blank | .whole _ => 0
  | .part _ outer => outer.length + 1

def calls : Draft → List Call
  | .blank => []
  | .part inner outer => Frame.callsOf (inner :: outer)
  | .whole root => root.node.calls

def call : Draft → Call → Option Draft
  | .blank, .start name rule => some (.part ⟨name, rule, []⟩ [])
  | .part inner outer, .start name rule => some (.part ⟨name, rule, []⟩ (inner :: outer))
  | .part inner outer, .token token => some (.part (inner.add (.token token)) outer)
  | .part inner (frame :: outer), .finish => some (.part (frame.add inner.node) outer)
  | .part inner [], .finish => some (.whole inner)
  | _, _ => none

def run (draft : Draft) : List Call → Option Draft
  | [] => some draft
  | call :: calls => (draft.call call).bind fun next => next.run calls

theorem run_append (draft : Draft) (first second : List Call) :
    draft.run (first ++ second) = (draft.run first).bind fun middle => middle.run second := by
  induction first generalizing draft with
  | nil => rfl
  | cons call calls ih =>
    simp only [List.cons_append, run]
    cases draft.call call with
    | none => rfl
    | some next => simpa only [Option.bind_some] using ih next

theorem calls_call {draft next : Draft} {call : Call} (taken : draft.call call = some next) :
    next.calls = draft.calls ++ [call] := by
  cases draft with
  | blank => cases call <;> cases taken; rfl
  | part inner outer =>
    cases call with
    | start name rule => cases taken; rfl
    | token token =>
      cases taken
      simp only [calls, Frame.callsOf, Frame.calls_add, Element.calls, List.append_assoc]
    | finish =>
      cases outer with
      | nil => cases taken; simp only [calls, Frame.callsOf, Frame.calls_node, List.nil_append]
      | cons frame outer =>
        cases taken
        simp only [calls, Frame.callsOf, Frame.calls_add, Frame.calls_node, List.append_assoc]
  | whole root => cases call <;> cases taken

theorem calls_run {draft last : Draft} {calls : List Call} (taken : draft.run calls = some last) :
    last.calls = draft.calls ++ calls := by
  induction calls generalizing draft with
  | nil => cases taken; simp
  | cons call rest ih =>
    obtain ⟨next, first, later⟩ := Option.bind_eq_some_iff.mp taken
    rw [ih later, calls_call first, List.append_assoc, List.singleton_append]

mutual

/-- The calls of an element put it behind the others in the innermost open node. -/
private theorem run_element (element : Element) (inner : Frame) (outer : List Frame) :
    (part inner outer).run element.calls = some (.part (inner.add element) outer) := by
  match element with
  | .token content => rfl
  | .node name rule children =>
    simp only [Element.calls, run, call, Option.bind_some, run_append, run_elements children]
    rfl

theorem run_elements (elements : List Element) (inner : Frame) (outer : List Frame) :
    (part inner outer).run (Element.callsOf elements) =
      some (.part { inner with below := inner.below ++ elements } outer) := by
  match elements with
  | [] => simp [Element.callsOf, run]
  | element :: rest =>
    rw [Element.callsOf, run_append, run_element element, Option.bind_some, run_elements rest]
    simp only [Frame.add, List.append_assoc, List.singleton_append]

end

theorem run_node (root : Frame) : blank.run root.node.calls = some (.whole root) := by
  rw [Frame.calls_node, Frame.calls, List.cons_append]
  simp only [run, call, Option.bind_some, run_append, run_elements, List.nil_append]

/-- The calls that make a whole tree from nothing are those that write it down. -/
theorem run_blank_iff {calls : List Call} {root : Frame} :
    blank.run calls = some (.whole root) ↔ root.node.calls = calls := by
  constructor
  · intro taken
    simpa only [Draft.calls, List.nil_append] using calls_run taken
  · rintro rfl
    exact run_node root

/-- No sequence of calls writes down two trees. -/
theorem calls_injective (first second : Frame) (same : first.node.calls = second.node.calls) : first = second := by
  have taken := run_node first
  rw [same, run_node] at taken
  cases taken
  rfl

end Draft

end Verbatim
