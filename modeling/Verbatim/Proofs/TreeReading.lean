import Verbatim.Proofs.TextBytes
import Verbatim.Proofs.TreeBuilding
import Verbatim.Tree.Walk

/-! Reading a buffer, step by step. The two ways through a buffer are relations in which each step is
backed by a record that could be read: the walk goes from record to record, and the way along the
children steps over whole nodes. Where the records of an element stand, both find that element. -/

namespace Verbatim

namespace SyntaxTree

/-- The walk from an index, inside of open nodes. It ends at `stop` with no node open, and every record
that it comes to can be read. -/
inductive Walks (tree : SyntaxTree) (stop : Nat) : (index : Nat) → (pending : List Node) → List Visit → Prop where
  | done : Walks tree stop stop [] []
  | enter {index pending record node visits} (inside : index < stop)
      (reads : Record.read? tree.data index = some (.start record)) (shows : tree.node? index record = some node)
      (more : Walks tree stop (index + (Record.start record).size) (node :: pending) visits) :
      Walks tree stop index pending (.enter node :: visits)
  | leaf {index pending record leaf visits} (inside : index < stop)
      (reads : Record.read? tree.data index = some (.token record)) (shows : tree.leaf? index record = some leaf)
      (more : Walks tree stop (index + (Record.token record).size) pending visits) :
      Walks tree stop index pending (.leaf leaf :: visits)
  | leave {index pending node visits} (inside : index < stop)
      (reads : Record.read? tree.data index = some .finish)
      (more : Walks tree stop (index + Record.finish.size) pending visits) :
      Walks tree stop index (node :: pending) (.leave node :: visits)

/-- The way along elements from an index, over all that lies inside of them. It ends exactly at `stop`
and comes to no record that finishes a node. -/
inductive Steps (tree : SyntaxTree) (stop : Nat) : (index : Nat) → List Item → Prop where
  | done : Steps tree stop stop []
  | node {index record node items} (inside : index < stop)
      (reads : Record.read? tree.data index = some (.start record)) (shows : tree.node? index record = some node)
      (more : Steps tree stop (node.finish + Record.finish.size) items) : Steps tree stop index (.node node :: items)
  | leaf {index record leaf items} (inside : index < stop)
      (reads : Record.read? tree.data index = some (.token record)) (shows : tree.leaf? index record = some leaf)
      (more : Steps tree stop (index + (Record.token record).size) items) : Steps tree stop index (.leaf leaf :: items)

variable {tree : SyntaxTree} {stop index : Nat}

theorem Walks.length_le {pending : List Node} {visits : List Visit} (walks : Walks tree stop index pending visits) :
    index + visits.length ≤ stop := by
  induction walks with
  | done => simp
  | enter inside reads shows more ih | leaf inside reads shows more ih | leave inside reads more ih =>
    simp only [List.length_cons, Record.size] at ih ⊢
    omega

theorem Walks.visitsFrom_eq {pending : List Node} {visits : List Visit} (walks : Walks tree stop index pending visits)
    {fuel : Nat} (enough : visits.length ≤ fuel) : tree.visitsFrom stop fuel index pending = visits := by
  induction walks generalizing fuel with
  | done => cases fuel <;> simp [visitsFrom]
  | enter inside reads shows more ih | leaf inside reads shows more ih | leave inside reads more ih =>
    obtain _ | fuel := fuel
    · simp at enough
    have rest := ih (Nat.le_of_succ_le_succ enough)
    simp [visitsFrom, Nat.not_le.mpr inside, *]

theorem Steps.childrenFrom_eq {items : List Item} (steps : Steps tree stop index items) {fuel : Nat}
    (enough : items.length ≤ fuel) : tree.childrenFrom stop fuel index = items := by
  induction steps generalizing fuel with
  | done => cases fuel <;> simp [childrenFrom]
  | node inside reads shows more ih | leaf inside reads shows more ih =>
    obtain _ | fuel := fuel
    · simp at enough
    have rest := ih (Nat.le_of_succ_le_succ enough)
    simp [childrenFrom, Nat.not_le.mpr inside, *]

end SyntaxTree

namespace Element

/-- The node whose record stands at `index` and whose text begins at `offset`. -/
def nodeAt (index offset : Nat) (name : String) (rule : RuleId) (children : List Element) : Node :=
  ⟨index, name, rule, index + 18 + Call.sizeOf (callsOf children), offset,
    offset + (Call.textOf (callsOf children)).utf8ByteSize⟩

def leafAt (index offset : Nat) (token : Token) : Leaf := ⟨index, token, offset, offset + token.text.utf8ByteSize⟩

def itemAt (index offset : Nat) : Element → Item
  | .token content => .leaf (leafAt index offset content)
  | .node name rule children => .node (nodeAt index offset name rule children)

/-- Elements one behind the other, without what is inside of them. -/
def itemsAt (index offset : Nat) : List Element → List Item
  | [] => []
  | element :: rest =>
    element.itemAt index offset ::
      itemsAt (index + Call.sizeOf element.calls) (offset + (Call.textOf element.calls).utf8ByteSize) rest

theorem length_itemsAt_le (elements : List Element) (index offset : Nat) :
    (itemsAt index offset elements).length ≤ Call.sizeOf (callsOf elements) := by
  induction elements generalizing index offset with
  | nil => exact Nat.zero_le _
  | cons element rest ih =>
    have positive : 0 < Call.sizeOf element.calls := by
      cases element <;> simp only [calls, Call.sizeOf_cons, Call.size] <;> omega
    have later := ih (index + Call.sizeOf element.calls) (offset + (Call.textOf element.calls).utf8ByteSize)
    rw [itemsAt, List.length_cons, callsOf, Call.sizeOf_append]
    omega

mutual

/-- The walk over an element whose record stands at `index` and whose text begins at `offset`. -/
def visits (index offset : Nat) : Element → List Visit
  | .token content => [.leaf (leafAt index offset content)]
  | .node name rule children =>
    .enter (nodeAt index offset name rule children) ::
      (visitsOf (index + 18) offset children ++ [.leave (nodeAt index offset name rule children)])

def visitsOf (index offset : Nat) : List Element → List Visit
  | [] => []
  | element :: rest =>
    element.visits index offset ++
      visitsOf (index + Call.sizeOf element.calls) (offset + (Call.textOf element.calls).utf8ByteSize) rest

end

mutual

theorem map_visits (element : Element) (index offset : Nat) :
    (element.visits index offset).map Visit.call = element.calls := by
  match element with
  | .token content => rfl
  | .node name rule children => simp [visits, calls, Visit.call, nodeAt, map_visitsOf children]

theorem map_visitsOf (elements : List Element) (index offset : Nat) :
    (visitsOf index offset elements).map Visit.call = callsOf elements := by
  match elements with
  | [] => rfl
  | element :: rest => simp [visitsOf, callsOf, map_visits element, map_visitsOf rest]

end

mutual

/-- The records of an element can be read from a tree, and say what the element is. -/
def StandsAt (tree : SyntaxTree) (index offset : Nat) : Element → Prop
  | .token content =>
    ∃ record, Record.read? tree.data index = some (.token record) ∧
      tree.leaf? index record = some (leafAt index offset content)
  | .node name rule children =>
    (∃ record, Record.read? tree.data index = some (.start record) ∧
      tree.node? index record = some (nodeAt index offset name rule children)) ∧
    Utf8.slice? tree.text offset (offset + (Call.textOf (callsOf children)).utf8ByteSize) =
      some (Call.textOf (callsOf children)) ∧
    StandAt tree (index + 18) offset children ∧
    Record.read? tree.data (index + 18 + Call.sizeOf (callsOf children)) = some .finish

def StandAt (tree : SyntaxTree) (index offset : Nat) : List Element → Prop
  | [] => True
  | element :: rest =>
    element.StandsAt tree index offset ∧
      StandAt tree (index + Call.sizeOf element.calls) (offset + (Call.textOf element.calls).utf8ByteSize) rest

end

variable {tree : SyntaxTree} {stop : Nat}

mutual

theorem StandsAt.walks {element : Element} {index offset : Nat} {pending : List Node} {rest : List Visit}
    (stands : element.StandsAt tree index offset) (inside : index + Call.sizeOf element.calls ≤ stop)
    (more : tree.Walks stop (index + Call.sizeOf element.calls) pending rest) :
    tree.Walks stop index pending (element.visits index offset ++ rest) := by
  match element with
  | .token content =>
    simp only [calls, Call.sizeOf_cons, Call.sizeOf_nil, Call.size] at inside more
    obtain ⟨record, reads, shows⟩ := stands
    exact .leaf (by omega) reads shows more
  | .node name rule children =>
    simp only [calls, Call.sizeOf_cons, Call.sizeOf_append, Call.sizeOf_nil, Call.size] at inside more
    obtain ⟨⟨record, reads, shows⟩, -, below, finishes⟩ := stands
    let node := nodeAt index offset name rule children
    have last : tree.Walks stop (index + 18 + Call.sizeOf (callsOf children)) (node :: pending) (.leave node :: rest) :=
      .leave (by omega) finishes (by simpa [Record.size, Nat.add_assoc] using more)
    have walked := StandAt.walks below (by omega) last
    rw [visits, List.cons_append, List.append_assoc]
    exact .enter (by omega) reads shows walked

theorem StandAt.walks {elements : List Element} {index offset : Nat} {pending : List Node} {rest : List Visit}
    (stand : StandAt tree index offset elements) (inside : index + Call.sizeOf (callsOf elements) ≤ stop)
    (more : tree.Walks stop (index + Call.sizeOf (callsOf elements)) pending rest) :
    tree.Walks stop index pending (visitsOf index offset elements ++ rest) := by
  match elements with
  | [] => simpa [callsOf, visitsOf] using more
  | element :: later =>
    simp only [callsOf, Call.sizeOf_append] at inside more
    obtain ⟨first, others⟩ := stand
    rw [visitsOf, List.append_assoc]
    refine StandsAt.walks first (by omega) (StandAt.walks others (by omega) ?_)
    simpa [Nat.add_assoc] using more

end

theorem StandAt.steps {elements : List Element} {index offset : Nat} (stand : StandAt tree index offset elements) :
    tree.Steps (index + Call.sizeOf (callsOf elements)) index (itemsAt index offset elements) := by
  induction elements generalizing index offset with
  | nil => exact .done
  | cons element rest ih =>
    obtain ⟨first, others⟩ := stand
    have later := ih others
    rw [callsOf, Call.sizeOf_append, ← Nat.add_assoc]
    match element with
    | .token content =>
      obtain ⟨record, reads, shows⟩ := first
      exact .leaf (by simp [calls, Call.size]; omega) reads shows later
    | .node name rule children =>
      obtain ⟨⟨record, reads, shows⟩, -, -, -⟩ := first
      refine .node (by simp [calls, Call.size]; omega) reads shows ?_
      simpa [calls, Call.size, Record.size, nodeAt, Nat.add_assoc] using later

/-- What a buffer must fulfil for the records in it to be read: names have their places, and all numbers
fit their fields. -/
structure Legible (tree : SyntaxTree) : Prop where
  few : tree.names.size ≤ Tag.nameLimit
  small : tree.data.size < UInt32.size
  short : tree.text.utf8ByteSize < UInt32.size

mutual

/-- An element stands where its bytes do, if its text stands where they say. -/
theorem standsAt_of_holds (legible : Legible tree) (element : Element) {index : Nat} (before behind : String)
    (known : ∀ name ∈ Call.namesOf element.calls, name ∈ tree.names)
    (text : tree.text = before ++ Call.textOf element.calls ++ behind)
    (holds : Word.Holds tree.data index (Record.bytesOf (element.records tree.names.place index before.utf8ByteSize))) :
    element.StandsAt tree index before.utf8ByteSize := by
  have width := legible.short
  rw [text, String.utf8ByteSize_append, String.utf8ByteSize_append] at width
  match element with
  | .token content =>
    simp only [calls, Call.namesOf_cons, Call.names, Call.namesOf_nil, List.append_nil, List.mem_singleton, forall_eq,
      Call.textOf_cons, Call.textOf_nil, Call.text, String.append_empty] at known text width
    obtain ⟨found, inside⟩ := Names.get_place known
    simp only [records, Record.bytesOf_cons, Record.bytesOf_nil, List.append_nil] at holds
    have first : before.utf8ByteSize < UInt32.size := by omega
    have last : before.utf8ByteSize + content.text.utf8ByteSize < UInt32.size := by omega
    refine ⟨_, Record.read_bytes holds ⟨inside.trans_le legible.few, first, last⟩, ?_⟩
    simp [SyntaxTree.leaf?, found, text, Utf8.slice?_middle, leafAt]
  | .node name rule children =>
    simp only [calls, Call.namesOf_cons, Call.namesOf_append, Call.names, Call.namesOf_nil, List.append_nil,
      List.mem_append, List.mem_singleton, Call.textOf_cons, Call.textOf_append, Call.textOf_nil, Call.text,
      String.append_empty, String.empty_append] at known text width
    obtain ⟨found, inside⟩ := Names.get_place (known name (.inl rfl))
    simp only [records, Record.bytesOf_cons, Record.bytesOf_append, Record.bytesOf_nil, List.append_nil] at holds
    have below := holds.back.front
    have finishes := holds.back.back
    simp only [Record.length_bytes, Record.size, length_recordsOf] at below finishes
    have covered := finishes.inside (by simp [Record.bytes, Word.split])
    have size := legible.small
    have finish : index + 18 + Call.sizeOf (callsOf children) < UInt32.size := by omega
    have first : before.utf8ByteSize < UInt32.size := by omega
    have last : before.utf8ByteSize + (Call.textOf (callsOf children)).utf8ByteSize < UInt32.size := by omega
    refine ⟨⟨_, Record.read_bytes holds.front ⟨inside.trans_le legible.few, finish, first, last⟩, ?_⟩,
      by rw [text]; exact Utf8.slice?_middle before _ behind,
      standAt_of_holds legible children before behind (fun name member => known name (.inr member)) text below,
      Record.read_bytes finishes trivial⟩
    simp [SyntaxTree.node?, found, nodeAt]

private theorem standAt_of_holds (legible : Legible tree) (elements : List Element) {index : Nat}
    (before behind : String)
    (known : ∀ name ∈ Call.namesOf (callsOf elements), name ∈ tree.names)
    (text : tree.text = before ++ Call.textOf (callsOf elements) ++ behind)
    (holds : Word.Holds tree.data index
      (Record.bytesOf (recordsOf tree.names.place index before.utf8ByteSize elements))) :
    StandAt tree index before.utf8ByteSize elements := by
  match elements with
  | [] => trivial
  | element :: rest =>
    simp only [callsOf, Call.namesOf_append, List.mem_append, Call.textOf_append] at known text
    simp only [recordsOf, Record.bytesOf_append] at holds
    have later := holds.back
    rw [length_records, ← String.utf8ByteSize_append] at later
    refine ⟨standsAt_of_holds legible element before (Call.textOf (callsOf rest) ++ behind)
      (fun name member => known name (.inl member)) (by simp only [text, String.append_assoc]) holds.front, ?_⟩
    rw [← String.utf8ByteSize_append]
    exact standAt_of_holds legible rest (before ++ Call.textOf element.calls) behind
      (fun name member => known name (.inr member)) (by simp only [text, String.append_assoc]) later

end

end Element

end Verbatim
