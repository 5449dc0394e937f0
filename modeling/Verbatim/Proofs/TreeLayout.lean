import Verbatim.Proofs.RecordBytes
import Verbatim.Proofs.TreeDraft

/-! Where the parts of a tree stand. The records of an element follow from the places of the names and
from where its bytes and its text begin; those of open nodes still lack their ends. Sizes are counted
over calls, each of which writes one record. -/

namespace Verbatim

namespace Call

def names : Call → List String
  | .start name _ => [name]
  | .token content => [content.kind]
  | .finish => []

def text : Call → String
  | .start _ _ | .finish => ""
  | .token content => content.text

def size : Call → Nat
  | .start _ _ => 18
  | .token _ => 26
  | .finish => 2

def namesOf (calls : List Call) : List String := calls.flatMap names

def textOf (calls : List Call) : String := String.join (calls.map text)

def sizeOf (calls : List Call) : Nat := (calls.map size).sum

@[simp] theorem namesOf_append (first second : List Call) :
    namesOf (first ++ second) = namesOf first ++ namesOf second := by
  simp [namesOf]

@[simp] theorem namesOf_cons (call : Call) (calls : List Call) :
    namesOf (call :: calls) = call.names ++ namesOf calls := by
  simp [namesOf]

@[simp] theorem namesOf_nil : namesOf [] = [] := rfl

@[simp] theorem textOf_append (first second : List Call) :
    textOf (first ++ second) = textOf first ++ textOf second := by
  simp [textOf, String.join_append]

@[simp] theorem textOf_cons (call : Call) (calls : List Call) : textOf (call :: calls) = call.text ++ textOf calls := by
  simp [textOf, String.join_cons]

@[simp] theorem textOf_nil : textOf [] = "" := by
  simp [textOf, String.join_nil]

@[simp] theorem sizeOf_append (first second : List Call) : sizeOf (first ++ second) = sizeOf first + sizeOf second := by
  simp [sizeOf]

@[simp] theorem sizeOf_cons (call : Call) (calls : List Call) : sizeOf (call :: calls) = call.size + sizeOf calls := by
  simp [sizeOf]

@[simp] theorem sizeOf_nil : sizeOf [] = 0 := rfl

end Call

namespace Element

mutual

/-- The records of an element whose own begins at `index` and whose text begins at `offset`. -/
def records (place : String → Nat) (index offset : Nat) : Element → List Record
  | .token content =>
    [.token ⟨place content.kind, content.channel, offset, offset + content.text.utf8ByteSize, content.span⟩]
  | .node name rule children =>
    let calls := callsOf children
    .start ⟨place name, rule, index + 18 + Call.sizeOf calls, offset, offset + (Call.textOf calls).utf8ByteSize⟩ ::
      (recordsOf place (index + 18) offset children ++ [.finish])

def recordsOf (place : String → Nat) (index offset : Nat) : List Element → List Record
  | [] => []
  | element :: rest =>
    element.records place index offset ++
      recordsOf place (index + Call.sizeOf element.calls) (offset + (Call.textOf element.calls).utf8ByteSize) rest

end

private theorem recordsOf_concat (place : String → Nat) (elements : List Element) (element : Element)
    (index offset : Nat) :
    recordsOf place index offset (elements ++ [element]) =
      recordsOf place index offset elements ++ element.records place (index + Call.sizeOf (callsOf elements))
        (offset + (Call.textOf (callsOf elements)).utf8ByteSize) := by
  induction elements generalizing index offset with
  | nil => simp [recordsOf, callsOf]
  | cons first rest ih =>
    simp only [List.cons_append, recordsOf, ih, callsOf, Call.sizeOf_append, Call.textOf_append,
      String.utf8ByteSize_append, List.append_assoc, Nat.add_assoc]

mutual

/-- Records depend on the places of the names that occur, not on the rest of the table. -/
theorem records_congr {place other : String → Nat} (element : Element)
    (same : ∀ name ∈ Call.namesOf element.calls, place name = other name) (index offset : Nat) :
    element.records place index offset = element.records other index offset := by
  match element with
  | .token content =>
    simp only [calls, Call.namesOf_cons, Call.names, Call.namesOf_nil, List.append_nil, List.mem_singleton,
      forall_eq] at same
    simp only [records, same]
  | .node name rule children =>
    simp only [calls, Call.namesOf_cons, Call.namesOf_append, Call.names, Call.namesOf_nil, List.append_nil,
      List.mem_append, List.mem_singleton] at same
    have below := recordsOf_congr children (fun name member => same name (.inr member)) (index + 18) offset
    simp only [records, below, same name (.inl rfl)]

private theorem recordsOf_congr {place other : String → Nat} (elements : List Element)
    (same : ∀ name ∈ Call.namesOf (callsOf elements), place name = other name) (index offset : Nat) :
    recordsOf place index offset elements = recordsOf other index offset elements := by
  match elements with
  | [] => rfl
  | element :: rest =>
    simp only [callsOf, Call.namesOf_append, List.mem_append] at same
    rw [recordsOf, recordsOf, records_congr element (fun name member => same name (.inl member)),
      recordsOf_congr rest (fun name member => same name (.inr member))]

end

end Element

def Record.bytesOf (records : List Record) : List UInt8 := records.flatMap bytes

namespace Record

@[simp] theorem bytesOf_nil : bytesOf [] = [] := rfl

@[simp] theorem bytesOf_cons (record : Record) (records : List Record) :
    bytesOf (record :: records) = record.bytes ++ bytesOf records := by
  simp [bytesOf]

@[simp] theorem bytesOf_append (first second : List Record) :
    bytesOf (first ++ second) = bytesOf first ++ bytesOf second := by
  simp [bytesOf]

end Record

namespace Element

mutual

theorem length_records (place : String → Nat) (element : Element) (index offset : Nat) :
    (Record.bytesOf (element.records place index offset)).length = Call.sizeOf element.calls := by
  match element with
  | .token content => simp [records, calls, Record.size, Call.size]
  | .node name rule children =>
    simp [records, calls, Record.size, Call.size, length_recordsOf place children]

theorem length_recordsOf (place : String → Nat) (elements : List Element) (index offset : Nat) :
    (Record.bytesOf (recordsOf place index offset elements)).length = Call.sizeOf (callsOf elements) := by
  match elements with
  | [] => rfl
  | element :: rest => simp [recordsOf, callsOf, length_records place element, length_recordsOf place rest]

end

end Element

namespace Frame

/-- The records of an open node, whose own does not know yet where the node ends. -/
def records (place : String → Nat) (index offset : Nat) (frame : Frame) : List Record :=
  .start ⟨place frame.name, frame.rule, 0, offset, offset⟩ :: Element.recordsOf place (index + 18) offset frame.below

def recordsOf (place : String → Nat) : List Frame → List Record
  | [] => []
  | frame :: outer =>
    recordsOf place outer ++
      frame.records place (Call.sizeOf (callsOf outer)) (Call.textOf (callsOf outer)).utf8ByteSize

def indexes : List Frame → List Nat
  | [] => []
  | _ :: outer => Call.sizeOf (callsOf outer) :: indexes outer

theorem records_add (place : String → Nat) (index offset : Nat) (frame : Frame) (element : Element) :
    (frame.add element).records place index offset =
      frame.records place index offset ++ element.records place (index + Call.sizeOf frame.calls)
        (offset + (Call.textOf frame.calls).utf8ByteSize) := by
  simp [records, add, Element.recordsOf_concat, calls, Call.size, Call.text, Nat.add_assoc]

theorem length_recordsOf (place : String → Nat) (frames : List Frame) :
    (Record.bytesOf (recordsOf place frames)).length = Call.sizeOf (callsOf frames) := by
  induction frames with
  | nil => rfl
  | cons frame outer ih =>
    simp [recordsOf, records, callsOf, calls, ih, Element.length_recordsOf, Record.size, Call.size]

private theorem recordsOf_congr {place other : String → Nat} (frames : List Frame)
    (same : ∀ name ∈ Call.namesOf (callsOf frames), place name = other name) :
    recordsOf place frames = recordsOf other frames := by
  induction frames with
  | nil => rfl
  | cons frame outer ih =>
    simp only [callsOf, calls, Call.namesOf_append, Call.namesOf_cons, Call.names, List.mem_append,
      List.mem_singleton] at same
    rw [recordsOf, recordsOf, ih (fun name member => same name (.inl member)), records, records,
      same frame.name (.inr (.inl rfl)),
      Element.recordsOf_congr frame.below (fun name member => same name (.inr (.inr member)))]

end Frame

namespace Draft

def records (place : String → Nat) : Draft → List Record
  | .blank => []
  | .part inner outer => Frame.recordsOf place (inner :: outer)
  | .whole root => root.node.records place 0 0

def indexes : Draft → List Nat
  | .blank | .whole _ => []
  | .part inner outer => Frame.indexes (inner :: outer)

theorem length_records (place : String → Nat) (draft : Draft) :
    (Record.bytesOf (draft.records place)).length = Call.sizeOf draft.calls := by
  cases draft with
  | blank => rfl
  | part inner outer => exact Frame.length_recordsOf place (inner :: outer)
  | whole root => exact Element.length_records place root.node 0 0

theorem records_congr {place other : String → Nat} (draft : Draft)
    (same : ∀ name ∈ Call.namesOf draft.calls, place name = other name) :
    draft.records place = draft.records other := by
  cases draft with
  | blank => rfl
  | part inner outer => exact Frame.recordsOf_congr (inner :: outer) same
  | whole root => exact Element.records_congr root.node same 0 0

end Draft

end Verbatim
