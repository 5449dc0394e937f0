import Mathlib.Data.Finset.Card
import Verbatim.Proofs.TreeLayout

/-! The buffer of a builder shows the draft of the calls made so far. A call is taken exactly when the
draft takes it and the limits on names, text and buffer still hold; the patches at the end of a node
turn the record of an open node into that of a finished one. -/

namespace Verbatim

theorem bind_eq_ok {first : Except ε α} {second : α → Except ε β} {result : β} :
    first.bind second = .ok result ↔ ∃ value, first = .ok value ∧ second value = .ok result := by
  cases first with
  | error problem => simp [Except.bind]
  | ok value => simp [Except.bind]

theorem map_eq_ok {result : Except ε α} {change : α → β} {value : β} :
    result.map change = .ok value ↔ ∃ first, result = .ok first ∧ change first = value := by
  cases result <;> simp [Except.map]

namespace Names

def place (names : Names) (name : String) : Nat := names.toList.idxOf name

theorem get_place {names : Names} {name : String} (member : name ∈ names) :
    names[names.place name]? = some name ∧ names.place name < names.size := by
  have listed : name ∈ names.toList := Array.mem_toList_iff.mpr member
  have inside : names.place name < names.toList.length := List.idxOf_lt_length_of_mem listed
  refine ⟨?_, by simpa using inside⟩
  rw [← Array.getElem?_toList, List.getElem?_eq_getElem inside]
  exact congrArg some (List.getElem_idxOf inside)

/-- What a table looks like once a name has a place in it. -/
structure Interned (names : Names) (name : String) (next : Names) (place : Nat) : Prop where
  member : ∀ other, other ∈ next ↔ other ∈ names ∨ other = name
  place : place = next.place name
  keeps : ∀ other ∈ names, next.place other = names.place other
  unique : names.toList.Nodup → next.toList.Nodup
  few : names.size ≤ Tag.nameLimit → next.size ≤ Tag.nameLimit

private theorem intern_eq {names next : Names} {name : String} {place : Nat}
    (taken : names.intern name = .ok (next, place)) :
    Interned names name next place := by
  unfold intern at taken
  split at taken
  next found search =>
    cases taken
    obtain ⟨names⟩ := names
    simp only [List.idxOf?_toArray] at search
    have known : name ∈ names := List.isSome_idxOf?.mp (by simp [search])
    refine ⟨?_, ?_, fun _ _ => rfl, id, id⟩
    · intro other
      refine ⟨.inl, ?_⟩
      rintro (old | rfl)
      · exact old
      · simpa using known
    · exact ((List.findIdx?_eq_some_iff_findIdx_eq.mp search).2).symm
  next search =>
    have fresh : name ∉ names := Array.idxOf?_eq_none_iff.mp search
    have unlisted : name ∉ names.toList := fun listed => fresh (Array.mem_toList_iff.mp listed)
    split at taken
    next room =>
      cases taken
      refine ⟨fun other => by simp, ?_, ?_, ?_, ?_⟩
      · simp [Names.place, List.idxOf_append, unlisted]
      · intro other known
        simp [Names.place, List.idxOf_append, known]
      · intro unique
        rw [Array.toList_push]
        refine List.nodup_append.mpr ⟨unique, by simp, ?_⟩
        intro other listed last single same
        exact unlisted ((same.trans (List.mem_singleton.mp single)) ▸ listed)
      · intro _
        rw [Array.size_push]
        exact room
    next => cases taken

/-- Interning fails only if the name is new and the table is full. -/
private theorem exists_intern {names : Names} {name : String} (room : name ∉ names → names.size < Tag.nameLimit) :
    ∃ next place, names.intern name = .ok (next, place) := by
  unfold intern
  split
  next found _ => exact ⟨_, _, rfl⟩
  next search =>
    rw [if_pos (room (Array.idxOf?_eq_none_iff.mp search))]
    exact ⟨_, _, rfl⟩

end Names

namespace Draft

private theorem records_start (place : String → Nat) {draft next : Draft} {name : String} {rule : RuleId}
    (taken : draft.call (.start name rule) = some next) :
    next.records place = draft.records place ++
      [.start ⟨place name, rule, 0, (Call.textOf draft.calls).utf8ByteSize, (Call.textOf draft.calls).utf8ByteSize⟩] ∧
    next.indexes = Call.sizeOf draft.calls :: draft.indexes := by
  cases draft with
  | blank =>
    cases taken
    simp [records, Frame.recordsOf, Frame.records, Element.recordsOf, calls, indexes, Frame.indexes, Frame.callsOf]
  | part inner outer =>
    cases taken
    simp [records, Frame.recordsOf, Frame.records, Element.recordsOf, calls, indexes, Frame.indexes, Frame.callsOf]
  | whole root => cases taken

private theorem records_token (place : String → Nat) {draft next : Draft} {token : Token}
    (taken : draft.call (.token token) = some next) :
    next.records place = draft.records place ++
      [.token ⟨place token.kind, token.channel, (Call.textOf draft.calls).utf8ByteSize,
        (Call.textOf draft.calls).utf8ByteSize + token.text.utf8ByteSize, token.span⟩] ∧
    next.indexes = draft.indexes := by
  cases draft with
  | blank => cases taken
  | part inner outer =>
    cases taken
    simp [records, Frame.recordsOf, Frame.records_add, Element.records, calls, indexes, Frame.indexes, Frame.callsOf]
  | whole root => cases taken

private theorem records_finish (place : String → Nat) {inner : Frame} {outer : List Frame} {next : Draft}
    (taken : (part inner outer).call .finish = some next) :
    next.records place = Frame.recordsOf place outer ++
      inner.node.records place (Call.sizeOf (Frame.callsOf outer)) (Call.textOf (Frame.callsOf outer)).utf8ByteSize ∧
    next.indexes = Frame.indexes outer := by
  cases outer with
  | nil =>
    cases taken
    simp [records, Frame.recordsOf, indexes, Frame.indexes, Frame.callsOf]
  | cons frame outer =>
    cases taken
    simp [records, Frame.recordsOf, Frame.records_add, indexes, Frame.indexes, Frame.callsOf]

end Draft

namespace Builder

/-- A builder whose buffer, text and names are what a draft says. -/
structure Shows (builder : Builder) (draft : Draft) : Prop where
  data : builder.data.toList = Record.bytesOf (draft.records builder.names.place)
  text : builder.text = Call.textOf draft.calls
  pending : builder.pending = draft.indexes
  known : ∀ name, name ∈ builder.names ↔ name ∈ Call.namesOf draft.calls
  unique : builder.names.toList.Nodup
  few : builder.names.size ≤ Tag.nameLimit
  short : (Call.textOf draft.calls).utf8ByteSize < wordLimit
  small : Call.sizeOf draft.calls + 1 < wordLimit

variable {builder next : Builder} {draft after : Draft}

theorem Shows.initial : Shows {} .blank where
  data := rfl
  text := Call.textOf_nil.symm
  pending := rfl
  known := by simp [Draft.calls, Array.empty]
  unique := List.nodup_nil
  few := Nat.zero_le _
  short := by simp [Draft.calls, wordLimit, UInt32.size]
  small := by simp [Draft.calls, wordLimit, UInt32.size]

theorem Shows.size (shows : Shows builder draft) : builder.data.size = Call.sizeOf draft.calls := by
  rw [← Array.length_toList, shows.data, Draft.length_records]

theorem Shows.nesting (shows : Shows builder draft) : builder.nesting = draft.depth := by
  have frames : ∀ frames : List Frame, (Frame.indexes frames).length = frames.length := by
    intro frames
    induction frames with
    | nil => rfl
    | cons frame outer ih => rw [Frame.indexes, List.length_cons, List.length_cons, ih]
  rw [Builder.nesting, shows.pending]
  cases draft with
  | blank | whole => rfl
  | part inner outer => exact frames (inner :: outer)

theorem hasRoot_iff_size (builder : Builder) : builder.hasRoot = true ↔ builder.data.size ≠ 0 := by
  rw [hasRoot, Bool.not_eq_true', ← Bool.not_eq_true, Array.isEmpty_iff_size_eq_zero]

theorem Shows.hasRoot_iff (shows : Shows builder draft) : builder.hasRoot = true ↔ draft ≠ .blank := by
  rw [hasRoot_iff_size, shows.size]
  cases draft with
  | blank => simp [Draft.calls]
  | part inner outer => simp [Draft.calls, Frame.callsOf, Frame.calls, Call.size]
  | whole root => simp [Draft.calls, Frame.calls, Call.size]

/-- A record behind the others shows the call that it stands for. -/
theorem Shows.write {names : Names} {name : String} {place : Nat} {call : Call} {record : Record}
    (shows : Shows builder draft) (taken : draft.call call = some after)
    (interned : Names.Interned builder.names name names place) (single : call.names = [name])
    (records : after.records names.place = draft.records names.place ++ [record])
    (short : (builder.text ++ call.text).utf8ByteSize < wordLimit)
    (small : builder.data.size + call.size + 1 < wordLimit) :
    Shows ⟨builder.data ++ record.bytes, builder.text ++ call.text, names, after.indexes⟩ after := by
  have calls := Draft.calls_call taken
  constructor
  · have old := Draft.records_congr draft (fun other member => interned.keeps other ((shows.known other).mpr member))
    rw [records, Record.bytesOf_append, old, ← shows.data]
    simp
  · simp [calls, shows.text]
  · rfl
  · intro other
    rw [interned.member, shows.known, calls]
    simp [single]
  · exact interned.unique shows.unique
  · exact interned.few shows.few
  · simpa [calls, shows.text] using short
  · simpa [calls, shows.size] using small

/-- The patches at the end of a node make its record that of a finished node. -/
private theorem Shows.close {inner : Frame} {outer : List Frame} (shows : Shows builder (.part inner outer))
    (taken : (Draft.part inner outer).call .finish = some after) (small : builder.data.size + 2 + 1 < wordLimit) :
    Shows
      ⟨Word.patch (Word.patch (builder.data ++ Record.finish.bytes)
            (Call.sizeOf (Frame.callsOf outer) + Record.finishField) (Word.split 4 builder.data.size))
          (Call.sizeOf (Frame.callsOf outer) + Record.lastField) (Word.split 4 builder.text.utf8ByteSize),
        builder.text, builder.names, after.indexes⟩ after := by
  have calls := Draft.calls_call taken
  have size := shows.size
  constructor
  · let place := builder.names.place
    let index := Call.sizeOf (Frame.callsOf outer)
    let offset := (Call.textOf (Frame.callsOf outer)).utf8ByteSize
    let below := Record.bytesOf (Element.recordsOf place (index + 18) offset inner.below)
    have split : (builder.data ++ Record.finish.bytes).toList = Record.bytesOf (Frame.recordsOf place outer) ++
        (Record.start ⟨place inner.name, inner.rule, 0, offset, offset⟩).bytes ++ (below ++ Record.finish.bytes) := by
      rw [Array.toList_appendList, shows.data]
      simp [Draft.records, Frame.recordsOf, Frame.records, place, index, offset, below]
    have patched := Record.toList_patch_start split builder.data.size builder.text.utf8ByteSize
    rw [Frame.length_recordsOf] at patched
    rw [patched, (Draft.records_finish place taken).1, size, shows.text]
    simp [Frame.node, Element.records, Draft.calls, Frame.callsOf, Frame.calls, Call.size, Call.text, place, index,
      offset, below, Nat.add_assoc]
  · simp [calls, shows.text, Call.text]
  · rfl
  · intro other
    simp [calls, shows.known, Call.names]
  · exact shows.unique
  · exact shows.few
  · simpa [calls, Call.text] using shows.short
  · simpa [calls, Call.size, size] using small

theorem append_eq_ok {record : Record} (done : builder.append record = .ok next) :
    builder.data.size + record.size + 1 < wordLimit ∧ next = { builder with data := builder.data ++ record.bytes } := by
  unfold append at done
  split at done
  next room => cases done; exact ⟨room, rfl⟩
  next => cases done

theorem isEmpty_pending (builder : Builder) : builder.pending.isEmpty = true ↔ builder.nesting = 0 := by
  rw [nesting, List.isEmpty_iff, List.length_eq_zero_iff]

private theorem Shows.pending_isEmpty (shows : Shows builder draft) :
    builder.pending.isEmpty = true ↔ draft.depth = 0 := by
  rw [isEmpty_pending, shows.nesting]

theorem Shows.start (shows : Shows builder draft) {name : String} {rule : RuleId}
    (made : builder.start name rule = .ok next) :
    ∃ after, draft.call (.start name rule) = some after ∧ Shows next after := by
  unfold Builder.start at made
  split at made
  · cases made
  next allowed =>
  obtain ⟨after, taken⟩ : ∃ after, draft.call (.start name rule) = some after := by
    cases draft with
    | blank | part => exact ⟨_, rfl⟩
    | whole root =>
      exact absurd (Bool.and_eq_true_iff.mpr ⟨shows.hasRoot_iff.mpr (by simp), shows.pending_isEmpty.mpr rfl⟩) allowed
  split at made
  · cases made
  next names place interning =>
  obtain ⟨room, rfl⟩ := append_eq_ok made
  have interned := Names.intern_eq interning
  obtain ⟨records, indexes⟩ := Draft.records_start names.place taken
  rw [← interned.place, ← shows.text] at records
  have shown := shows.write taken interned rfl records (by simpa [Call.text, shows.text] using shows.short) room
  refine ⟨after, taken, ?_⟩
  simpa [Call.text, indexes, shows.size, shows.pending] using shown

theorem Shows.token (shows : Shows builder draft) {token : Token} (made : builder.token token = .ok next) :
    ∃ after, draft.call (.token token) = some after ∧ Shows next after := by
  unfold Builder.token at made
  split at made
  · cases made
  next allowed =>
  obtain ⟨after, taken⟩ : ∃ after, draft.call (.token token) = some after := by
    cases draft with
    | part => exact ⟨_, rfl⟩
    | blank | whole => exact absurd (shows.pending_isEmpty.mpr rfl) allowed
  split at made
  · cases made
  next names place interning =>
  dsimp only at made
  split at made
  next short =>
    obtain ⟨room, rfl⟩ := append_eq_ok made
    have interned := Names.intern_eq interning
    obtain ⟨records, indexes⟩ := Draft.records_token names.place taken
    rw [← interned.place, ← shows.text] at records
    have shown := shows.write taken interned rfl records (by simpa [Call.text] using short) room
    refine ⟨after, taken, ?_⟩
    simpa [Call.text, indexes, shows.pending] using shown
  next => cases made

theorem Shows.finishNode (shows : Shows builder draft) (made : builder.finishNode = .ok next) :
    ∃ after, draft.call .finish = some after ∧ Shows next after := by
  unfold Builder.finishNode at made
  split at made
  · cases made
  next index outer pending =>
  have listed := shows.pending.symm.trans pending
  cases draft with
  | blank | whole => cases listed
  | part inner frames =>
    cases listed
    obtain ⟨after, taken⟩ : ∃ after, (Draft.part inner frames).call .finish = some after := by
      cases frames with
      | nil | cons => exact ⟨_, rfl⟩
    dsimp only at made
    split at made
    · cases made
    next closed appended =>
    obtain ⟨room, rfl⟩ := append_eq_ok appended
    have same := Except.ok.inj made
    have shown := shows.close taken room
    rw [(Draft.records_finish builder.names.place taken).2] at shown
    exact ⟨after, taken, same ▸ shown⟩

/-- Whatever a builder takes, the draft takes too. -/
theorem Shows.call (shows : Shows builder draft) {call : Call} (made : builder.call call = .ok next) :
    ∃ after, draft.call call = some after ∧ Shows next after := by
  cases call with
  | start name rule => exact shows.start made
  | token token => exact shows.token made
  | finish => exact shows.finishNode made

theorem Shows.run (shows : Shows builder draft) {calls : List Call} (made : builder.run calls = .ok next) :
    ∃ after, draft.run calls = some after ∧ Shows next after := by
  induction calls generalizing builder draft with
  | nil => cases made; exact ⟨draft, rfl, shows⟩
  | cons call rest ih =>
    obtain ⟨middle, first, rest⟩ := bind_eq_ok.mp made
    obtain ⟨between, taken, shown⟩ := shows.call first
    obtain ⟨after, later, last⟩ := ih shown rest
    exact ⟨after, by rw [Draft.run, taken, Option.bind_some, later], last⟩

/-- Calls that stay within the limits of a tree: the number of different names, and the sizes of text
and buffer. -/
structure Fits (calls : List Call) : Prop where
  names : (Call.namesOf calls).toFinset.card ≤ Tag.nameLimit
  text : (Call.textOf calls).utf8ByteSize < wordLimit
  buffer : Call.sizeOf calls + 1 < wordLimit

theorem Fits.ofLength {calls : List Call} (names : (Call.namesOf calls).length ≤ Tag.nameLimit)
    (text : (Call.textOf calls).utf8ByteSize < wordLimit) (buffer : Call.sizeOf calls + 1 < wordLimit) : Fits calls :=
  ⟨(List.toFinset_card_le _).trans names, text, buffer⟩

theorem Fits.front {first second : List Call} (fits : Fits (first ++ second)) : Fits first where
  names := by
    refine (Finset.card_le_card fun name member => ?_).trans fits.names
    rw [List.mem_toFinset] at member ⊢
    simp [member]
  text := by
    have bound := fits.text
    rw [Call.textOf_append, String.utf8ByteSize_append] at bound
    omega
  buffer := by
    have bound := fits.buffer
    rw [Call.sizeOf_append] at bound
    omega

theorem Shows.fits (shows : Shows builder draft) : Fits draft.calls where
  names := by
    refine le_trans (Finset.card_le_card fun name member => ?_) ((List.toFinset_card_le _).trans shows.few)
    exact List.mem_toFinset.mpr (Array.mem_toList_iff.mpr ((shows.known name).mpr (List.mem_toFinset.mp member)))
  text := shows.short
  buffer := shows.small

theorem Shows.room (shows : Shows builder draft) {name : String} {call : Call} (single : call.names = [name])
    (few : (Call.namesOf (draft.calls ++ [call])).toFinset.card ≤ Tag.nameLimit) (fresh : name ∉ builder.names) :
    builder.names.size < Tag.nameLimit := by
  have unlisted : name ∉ builder.names.toList := fun listed => fresh (Array.mem_toList_iff.mp listed)
  have distinct := List.toFinset_card_of_nodup (List.nodup_cons.mpr ⟨unlisted, shows.unique⟩)
  have bound : (name :: builder.names.toList).toFinset.card ≤ Tag.nameLimit := by
    refine (Finset.card_le_card fun other member => ?_).trans few
    rw [List.mem_toFinset, List.mem_cons] at member
    rw [List.mem_toFinset]
    rcases member with rfl | old
    · simp [single]
    · simp [(shows.known other).mp (Array.mem_toList_iff.mp old)]
  rw [distinct, List.length_cons, Array.length_toList] at bound
  exact bound

private theorem append_ok (builder : Builder) (record : Record)
    (room : builder.data.size + record.size + 1 < wordLimit) :
    builder.append record = .ok { builder with data := builder.data ++ record.bytes } :=
  if_pos room

theorem Shows.exists_call (shows : Shows builder draft) {call : Call} (taken : draft.call call = some after)
    (fits : Fits (draft.calls ++ [call])) : ∃ next, builder.call call = .ok next := by
  have room := fits.buffer
  rw [Call.sizeOf_append, Call.sizeOf_cons, Call.sizeOf_nil, ← shows.size] at room
  cases call with
  | start name rule =>
    obtain ⟨names, place, interning⟩ := Names.exists_intern (shows.room rfl fits.names)
    have allowed : ¬(builder.hasRoot && builder.pending.isEmpty) = true := by
      rw [Bool.and_eq_true, shows.hasRoot_iff, shows.pending_isEmpty]
      cases draft with
      | blank => simp
      | part inner outer => simp [Draft.depth]
      | whole root => cases taken
    simp only [Builder.call, Builder.start, if_neg allowed, interning]
    exact ⟨_, append_ok _ _ room⟩
  | token token =>
    obtain ⟨names, place, interning⟩ := Names.exists_intern (shows.room rfl fits.names)
    have allowed : ¬builder.pending.isEmpty = true := by
      rw [shows.pending_isEmpty]
      cases draft with
      | part inner outer => simp [Draft.depth]
      | blank | whole => cases taken
    have short := fits.text
    rw [Call.textOf_append, ← shows.text, Call.textOf_cons, Call.textOf_nil, String.append_empty, Call.text,
      String.utf8ByteSize_append] at short
    simp only [Builder.call, Builder.token, if_neg allowed, interning]
    rw [if_pos short]
    exact ⟨_, append_ok _ _ room⟩
  | finish =>
    cases draft with
    | part inner outer =>
      have pending : builder.pending = Call.sizeOf (Frame.callsOf outer) :: Frame.indexes outer := shows.pending
      have appended := append_ok { builder with pending := Frame.indexes outer } .finish room
      simp only [Builder.call, Builder.finishNode, pending, appended]
      exact ⟨_, rfl⟩
    | blank | whole => cases taken

theorem Shows.exists_run (shows : Shows builder draft) {calls : List Call} (taken : draft.run calls = some after)
    (fits : Fits (draft.calls ++ calls)) : ∃ next, builder.run calls = .ok next ∧ Shows next after := by
  induction calls generalizing builder draft with
  | nil => cases taken; exact ⟨builder, rfl, shows⟩
  | cons call rest ih =>
    obtain ⟨between, first, later⟩ := Option.bind_eq_some_iff.mp taken
    rw [← List.singleton_append, ← List.append_assoc] at fits
    obtain ⟨middle, made⟩ := shows.exists_call first fits.front
    obtain ⟨_, same, shown⟩ := shows.call made
    cases same.symm.trans first
    rw [← Draft.calls_call first] at fits
    obtain ⟨next, done, last⟩ := ih shown later fits
    exact ⟨next, bind_eq_ok.mpr ⟨middle, made, done⟩, last⟩

theorem finish_eq_ok {tree : SyntaxTree} (made : builder.finish = .ok tree) :
    builder.hasRoot = true ∧ builder.nesting = 0 ∧ tree = ⟨builder.data, builder.text, builder.names, 0⟩ := by
  unfold Builder.finish at made
  split at made
  · cases made
  next started =>
  split at made
  · cases made
  next closed =>
  cases made
  exact ⟨by simpa using started, not_not.mp closed, rfl⟩

/-- A tree that has been built shows the one tree that its calls write down. -/
theorem build_eq_ok {calls : List Call} {tree : SyntaxTree} (built : build calls = .ok tree) :
    ∃ root : Frame, root.node.calls = calls ∧ Shows ⟨tree.data, tree.text, tree.names, []⟩ (.whole root) := by
  obtain ⟨last, made, finished⟩ := bind_eq_ok.mp built
  obtain ⟨started, closed, rfl⟩ := finish_eq_ok finished
  obtain ⟨draft, taken, shown⟩ := Shows.initial.run made
  have depth := shown.nesting.symm.trans closed
  cases draft with
  | blank => exact absurd rfl (shown.hasRoot_iff.mp started)
  | part inner outer => cases depth
  | whole root =>
    refine ⟨root, Draft.run_blank_iff.mp taken, ?_⟩
    have pending : last.pending = [] := shown.pending
    rw [← pending]
    exact shown

theorem exists_build (root : Frame) (fits : Fits root.node.calls) : ∃ tree, build root.node.calls = .ok tree := by
  obtain ⟨last, made, shown⟩ := Shows.initial.exists_run (Draft.run_node root) fits
  have started : last.hasRoot = true := shown.hasRoot_iff.mpr (by simp)
  have closed : last.nesting = 0 := shown.nesting
  refine ⟨⟨last.data, last.text, last.names, 0⟩, bind_eq_ok.mpr ⟨last, made, ?_⟩⟩
  simp [Builder.finish, started, closed]

end Builder

end Verbatim
