import Verbatim.Proofs.DocumentRewriting
import Verbatim.Proofs.DocumentSize
import Verbatim.Proofs.TreeRefusals

/-! Which limits a document can exceed. The reader checks the place of each element before it makes a call, so the
only calls that a builder refuses are those for which it has no room: for another name, for another record, or for
more text than a document below the limit has. -/

namespace Verbatim

/-- The room in the buffer that a call takes up. The end of a node has its room from the start of the node. -/
def Call.room : Call → Nat
  | .start _ _ => 20
  | .token _ => 26
  | .finish => 0

namespace Xml

open String (utf8Len)

/-- What a document with some tags and a number of bytes has too much of. A record takes 26 bytes at most. -/
inductive Exceeds (tags : List TagText) (bytes : Nat) : Violation → Prop where
  | names (many : Tag.nameLimit < (tags.map TagText.name).toFinset.card) :
      Exceeds tags bytes (.tooManyNames Tag.nameLimit)
  | buffer (large : Builder.wordLimit ≤ 26 * tags.length + 1) : Exceeds tags bytes .treeTooLarge
  | text {long : Nat} (beyond : Builder.wordLimit ≤ long) (within : long ≤ bytes) :
      Exceeds tags bytes (.textTooLong long)

variable {tags more : List TagText} {space held bytes further : Nat} {violation : Violation}

theorem Exceeds.mono (exceeds : Exceeds tags bytes violation) (most : bytes ≤ further) :
    Exceeds (tags ++ more) further violation := by
  cases exceeds with
  | names many =>
    refine .names (many.trans_le (Finset.card_le_card ?_))
    rw [List.map_append, List.toFinset_append]
    exact Finset.subset_union_left
  | buffer large =>
    refine .buffer (large.trans ?_)
    rw [List.length_append]
    omega
  | text beyond within => exact .text beyond (within.trans most)

/-- The outcome of reading: a value, a malformed document, or one that exceeds a limit. -/
inductive Settled (tags : List TagText) (bytes : Nat) (goal : α → Prop) : Except Fault α → Prop where
  | taken {value : α} (reached : goal value) : Settled tags bytes goal (.ok value)
  | refused (cause : Cause) (offset : Nat) : Settled tags bytes goal (.error (Reader.malformed offset cause))
  | exceeded {violation : Violation} (exceeds : Exceeds tags bytes violation) :
      Settled tags bytes goal (.error (.violation violation))

namespace Settled

variable {result : Except Fault α} {goal : β → Prop} {between : α → Prop} {next : α → Except Fault β}

theorem mono (settled : Settled tags bytes between result) (most : bytes ≤ further) :
    Settled (tags ++ more) further between result := by
  cases settled with
  | taken reached => exact .taken reached
  | refused cause offset => exact .refused cause offset
  | exceeded exceeds => exact .exceeded (exceeds.mono most)

theorem bind (settled : Settled tags bytes between result)
    (later : ∀ value, result = .ok value → between value → Settled tags bytes goal (next value)) :
    Settled tags bytes goal (result.bind next) := by
  cases settled with
  | taken reached => exact later _ rfl reached
  | refused cause offset => exact .refused cause offset
  | exceeded exceeds => exact .exceeded exceeds

theorem map {change : α → β} (settled : Settled tags bytes between result)
    (later : ∀ value, between value → goal (change value)) : Settled tags bytes goal (result.map change) := by
  cases settled with
  | taken reached => exact .taken (later _ reached)
  | refused cause offset => exact .refused cause offset
  | exceeded exceeds => exact .exceeded exceeds

theorem imp {other : α → Prop} (settled : Settled tags bytes between result)
    (more : ∀ value, between value → other value) : Settled tags bytes other result := by
  cases settled with
  | taken reached => exact .taken (more _ reached)
  | refused cause offset => exact .refused cause offset
  | exceeded exceeds => exact .exceeded exceeds

end Settled

/-- A builder that has nothing but what some tags and texts gave it. -/
structure Holds (builder : Builder) (tags : List TagText) (space held : Nat) : Prop where
  shown : ∃ draft, builder.Shows draft
  named : ∀ name ∈ builder.names, name.toList ∈ tags.map TagText.name
  buffer : builder.data.size + 2 * builder.nesting ≤ space
  text : builder.text.utf8ByteSize ≤ held

variable {builder : Builder} {call : Call}

theorem Holds.initial : Holds {} [] 0 0 where
  shown := ⟨_, .initial⟩
  named := fun name inside => absurd inside (Array.not_mem_empty name)
  buffer := Nat.le_refl 0
  text := Nat.le_refl 0

theorem Holds.mono {space' held' : Nat} (holds : Holds builder tags space held) (wider : space ≤ space')
    (longer : held ≤ held') : Holds builder (tags ++ more) space' held' where
  shown := holds.shown
  named := by
    intro name inside
    rw [List.map_append]
    exact List.mem_append_left _ (holds.named name inside)
  buffer := holds.buffer.trans wider
  text := holds.text.trans longer

/-- What fits into a full table of names are these names only. -/
theorem Holds.many (holds : Holds builder tags space held) (full : Tag.nameLimit ≤ builder.names.size) {name : String}
    (fresh : name ∉ builder.names) (named : name.toList ∈ tags.map TagText.name) :
    Tag.nameLimit < (tags.map TagText.name).toFinset.card := by
  obtain ⟨draft, shown⟩ := holds.shown
  have unlisted : name ∉ builder.names.toList := fun listed => fresh (Array.mem_toList_iff.mp listed)
  have distinct : ((name :: builder.names.toList).map String.toList).Nodup :=
    (List.nodup_cons.mpr ⟨unlisted, shown.unique⟩).map fun _ _ same => String.toList_injective same
  have inside : ((name :: builder.names.toList).map String.toList).toFinset ⊆ (tags.map TagText.name).toFinset := by
    intro spelled member
    rw [List.mem_toFinset] at member ⊢
    obtain ⟨other, listed, rfl⟩ := List.mem_map.mp member
    rcases List.mem_cons.mp listed with rfl | old
    · exact named
    · exact holds.named other (Array.mem_toList_iff.mp old)
  have card := Finset.card_le_card inside
  rw [List.toFinset_card_of_nodup distinct, List.length_map, List.length_cons, Array.length_toList] at card
  omega

private theorem Holds.makes (holds : Holds builder tags space held)
    (placed : 0 < builder.nesting ∨ builder.hasRoot = false ∧ call.opens = 1)
    (named : ∀ name ∈ call.names, name.toList ∈ tags.map TagText.name) (wide : space + call.room ≤ 26 * tags.length)
    (short : held + call.text.utf8ByteSize ≤ bytes) (token : Option OpenToken) (rootFinished : Bool) :
    Settled tags bytes
      (fun reader => ∃ next, builder.call call = .ok next ∧ reader = ⟨next, token, rootFinished⟩ ∧
        Holds next tags (26 * tags.length) bytes)
      (Reader.call ⟨builder, token, rootFinished⟩ call) := by
  have buffer := holds.buffer
  have text := holds.text
  have size : builder.data.size + call.size ≤ 26 * tags.length := by
    cases call with
    | start | token =>
      simp only [Call.room, Call.size] at wide ⊢
      omega
    | finish =>
      have inside := placed.resolve_right fun first => Nat.zero_ne_one first.2
      simp only [Call.room, Call.size] at wide ⊢
      omega
  rw [Reader.call]
  cases made : builder.call call with
  | ok next =>
    obtain ⟨draft, shown⟩ := holds.shown
    obtain ⟨shown, written, spoken, listed⟩ := shown.grows made
    have nesting := (Builder.nesting_call made).2
    refine .taken ⟨next, rfl, rfl, shown, ?_, ?_, ?_⟩
    · intro name inside
      exact (listed name inside).elim (holds.named name) (named name)
    · cases call <;> simp only [Call.room, Call.size, Call.opens, Call.closes] at wide size nesting written <;> omega
    · rw [spoken, String.utf8ByteSize_append]
      omega
  | error violation =>
    refine .exceeded ?_
    cases Builder.refuses_of_call made with
    | secondRoot rooted closed => simp [closed, rooted] at placed
    | tokenBeforeNode outside | nothingToFinish outside => simp [outside, Call.opens] at placed
    | tooManyNames listed fresh full => exact .names (holds.many full fresh (named _ listed))
    | textTooLong long => exact .text long ((Nat.add_le_add_right text _).trans short)
    | treeTooLarge large => exact .buffer (large.trans (Nat.add_le_add_right size 1))

/-- A reader that has nothing but what some tags and texts gave it. An open token has not been written yet. -/
inductive Carries (tags : List TagText) (bytes : Nat) : Reader → Prop where
  | idle {builder : Builder} (holds : Holds builder tags (26 * tags.length) bytes) :
      Carries tags bytes (between builder)
  | token {builder : Builder} {token : OpenToken} {space held : Nat} (holds : Holds builder tags space held)
      (inside : builder.nesting ≠ 0) (named : token.kind.toList ∈ tags.map TagText.name)
      (wide : space + 26 ≤ 26 * tags.length) (short : held + utf8Len token.text ≤ bytes) :
      Carries tags bytes ⟨builder, some token, false⟩

namespace Carries

variable {reader : Reader} {tag : TagText} {text : List Char}

theorem addText (carries : Carries tags bytes reader) (short : bytes + utf8Len text ≤ further) (offset : Nat) :
    Settled tags further (Carries tags further) (reader.addText text offset) := by
  cases carries with
  | idle holds =>
    rw [between, Reader.addText]
    dsimp only
    split
    · have kept := @Holds.mono tags [] _ _ _ _ _ holds (Nat.le_refl _) ((Nat.le_add_right _ _).trans short)
      rw [List.append_nil] at kept
      exact .taken (.idle kept)
    · split <;> exact .refused _ _
  | token holds inside named wide within =>
    refine .taken (.token holds inside named wide ?_)
    rw [String.utf8Len_append]
    omega

theorem inside (holds : Holds builder tags (26 * tags.length) bytes) (inside : builder.nesting ≠ 0) :
    Carries tags bytes ⟨builder, none, false⟩ :=
  between_inside inside ▸ .idle holds

theorem startNode (holds : Holds builder tags space bytes) {name : String}
    (named : name.toList ∈ tags.map TagText.name) (wide : space + 20 ≤ 26 * tags.length) (rule : RuleId)
    (offset : Nat) : Settled tags bytes (Carries tags bytes) ((between builder).startNode name rule offset) := by
  rw [between, Reader.startNode]
  dsimp only
  split
  · exact .refused _ _
  next first =>
  rw [Bool.not_eq_true] at first
  have placed : 0 < builder.nesting ∨ builder.hasRoot = false ∧ Call.opens (.start name rule) = 1 := by
    rcases Bool.and_eq_false_iff.mp first with unrooted | inside
    · exact .inr ⟨unrooted, rfl⟩
    · exact .inl (Nat.pos_of_ne_zero (of_decide_eq_false inside))
  have listed : ∀ other ∈ Call.names (.start name rule), other.toList ∈ tags.map TagText.name := by
    intro other single
    rwa [List.mem_singleton.mp single]
  rw [first]
  refine (holds.makes placed listed wide (Nat.le_refl _) none false).imp ?_
  rintro reader ⟨next, made, rfl, holds⟩
  have deeper : next.nesting = builder.nesting + 1 := (Builder.nesting_call made).2
  exact inside holds (by omega)

theorem start (carries : Carries tags bytes reader) (offset : Nat) :
    Settled (tags ++ [tag]) bytes (Carries (tags ++ [tag]) bytes) (reader.step (.start tag) offset) := by
  rw [Reader.step]
  cases understood : tag.opening with
  | error cause => exact .refused _ _
  | ok opening =>
    have own := TagText.name_of_meaning? (TagText.opening_eq_ok_iff.mp understood).2.2
    have known : opening.name.toList ∈ (tags ++ [tag]).map TagText.name := by simp [own]
    have more : 26 * tags.length + 26 ≤ 26 * (tags ++ [tag]).length := by simp [Nat.mul_succ]
    cases carries with
    | token =>
      cases opening with
      | node name rule => exact .refused _ _
      | token kind channel span => exact .refused _ _
    | @idle builder holds =>
      have kept : Holds builder (tags ++ [tag]) (26 * tags.length) bytes := holds.mono (Nat.le_refl _) (Nat.le_refl _)
      cases opening with
      | node name rule => exact startNode kept known (by omega) rule offset
      | token kind channel span =>
        dsimp only
        rw [between, Reader.checkToken]
        dsimp only
        split
        · exact .refused _ _
        next inside =>
        have outside : decide (builder.nesting = 0) = false := decide_eq_false inside
        rw [outside, Bool.and_false]
        exact .taken (.token kept inside known more (Nat.le_refl _))

theorem finish (carries : Carries tags bytes reader) (opened : reader.level ≠ 0) (offset : Nat) :
    Settled tags bytes (Carries tags bytes) (reader.step .finish offset) := by
  rw [Reader.step]
  cases carries with
  | @idle builder holds =>
    have inside : builder.nesting ≠ 0 := opened
    have listed : ∀ name ∈ Call.names .finish, name.toList ∈ tags.map TagText.name := by simp [Call.names]
    rw [between_inside inside]
    refine (holds.makes (.inl (Nat.pos_of_ne_zero inside)) listed (Nat.le_refl _) (Nat.le_refl _) none false).map ?_
    rintro reader ⟨next, made, rfl, holds⟩
    have rooted := (Builder.nesting_call made).1
    have closed : between next = ⟨next, none, false || decide (next.nesting = 0)⟩ := by
      rw [between, rooted]
      rfl
    exact closed ▸ .idle holds
  | @token builder token space held holds inside named wide short =>
    have listed : ∀ other ∈ Call.names (.token ⟨token.kind, String.ofList token.text, token.channel, token.span⟩),
        other.toList ∈ tags.map TagText.name := by
      intro other single
      rwa [List.mem_singleton.mp single]
    rw [← String.utf8ByteSize_ofList] at short
    refine (holds.makes (.inl (Nat.pos_of_ne_zero inside)) listed wide short none false).imp ?_
    rintro reader ⟨next, made, rfl, holds⟩
    have same : next.nesting = builder.nesting := (Builder.nesting_call made).2
    exact .inside holds (same ▸ inside)

theorem step (carries : Carries tags bytes reader) (event : Event) (matched : event = .finish → reader.level ≠ 0)
    (offset : Nat) :
    Settled (tags ++ event.tag?.toList) (bytes + utf8Len event.raw)
      (Carries (tags ++ event.tag?.toList) (bytes + utf8Len event.raw)) (reader.step event offset) := by
  cases event with
  | text raw =>
    simp only [Event.tag?, Option.toList_none, List.append_nil, Event.raw]
    rw [Reader.step]
    cases resolved : unescape raw with
    | error fault => exact .refused _ _
    | ok text => exact carries.addText (Nat.add_le_add_left (utf8Len_unescape_le resolved) _) offset
  | cdata content =>
    simp only [Event.tag?, Option.toList_none, List.append_nil, Event.raw]
    exact carries.addText (Nat.le_refl _) offset
  | start tag => exact carries.start offset
  | empty tag =>
    rw [Reader.step_empty]
    refine (carries.start offset).bind ?_
    intro next started carries
    refine carries.finish ?_ offset
    rw [Reader.level_start started]
    exact Nat.succ_ne_zero _
  | finish =>
    simp only [Event.tag?, Option.toList_none, List.append_nil]
    exact carries.finish (matched rfl) offset

theorem ended (carries : Carries tags bytes reader) (offset : Nat) :
    Settled tags bytes (fun _ => True) (reader.finish offset) := by
  unfold Reader.finish
  split
  · exact .refused _ _
  next closed =>
  split
  · exact .refused _ _
  next rooted =>
  cases carries with
  | token => exact absurd rfl closed
  | @idle builder holds =>
    have nesting : builder.nesting = 0 := by
      by_contra inside
      exact closed (by simp [between, inside])
    have started : builder.hasRoot = true := by simpa [between, nesting] using rooted
    have finished : builder.finish = .ok ⟨builder.data, builder.text, builder.names, 0⟩ := by
      simp [Builder.finish, started, nesting]
    rw [between, finished]
    exact .taken trivial

end Carries

section Reading

variable {names after : List (List Char)} {reader : Reader} {contents : Contents}

private theorem settled_next {event : Event} {rest : Stream} (offset : Nat) (carries : Carries tags bytes reader)
    (opens : Opens names (some event) after) (same : names.length = contents.pending.length)
    (level : reader.level = contents.pending.length)
    (later : ∀ {reader : Reader} {tags : List TagText} {bytes : Nat} {contents : Contents}, Carries tags bytes reader →
      after.length = contents.pending.length → reader.level = contents.pending.length →
        Settled (tags ++ rest.tags) (bytes + utf8Len rest.raw) (fun _ => True) (reader.run rest)) :
    Settled (tags ++ (Stream.next event offset rest).tags) (bytes + utf8Len (Stream.next event offset rest).raw)
      (fun _ => True) (reader.run (.next event offset rest)) := by
  obtain ⟨matched, deep⟩ := Contents.level_take opens same
  have inside : event = .finish → reader.level ≠ 0 := by
    intro ended
    rw [level]
    exact mt List.length_eq_zero_iff.mp (matched ended)
  have tags_next : tags ++ (Stream.next event offset rest).tags = tags ++ event.tag?.toList ++ rest.tags := by
    rw [Stream.tags_eq, Stream.tags_eq, Stream.events, List.append_assoc, List.filterMap_cons]
    cases event.tag? <;> rfl
  have raw_next : bytes + utf8Len (Stream.next event offset rest).raw =
      bytes + utf8Len event.raw + utf8Len rest.raw := by
    rw [Stream.raw, String.utf8Len_append, Nat.add_assoc]
  rw [tags_next, raw_next, Reader.run]
  refine ((carries.step event inside offset).mono (Nat.le_add_right _ _)).bind ?_
  intro next taken carries
  exact later carries deep (Reader.level_step level taken)

private theorem settled_run {text : List Char} {stream : Stream} (scanned : Scanned names text stream)
    (carries : Carries tags bytes reader) (same : names.length = contents.pending.length)
    (level : reader.level = contents.pending.length) :
    Settled (tags ++ stream.tags) (bytes + utf8Len stream.raw) (fun _ => True) (reader.run stream) := by
  induction scanned generalizing reader tags bytes contents with
  | done offset =>
    rw [Reader.run]
    exact (carries.ended offset).mono (Nat.le_add_right _ _)
  | fault cause offset => exact .refused cause offset
  | skip found _ ih =>
    cases opens_of_scanMarkup found
    exact ih carries same level
  | markup found _ ih => exact settled_next _ carries (opens_of_scanMarkup found) same level ih
  | @text names text raw rest stream offset split _ ih => exact settled_next offset carries rfl same level ih

end Reading

private theorem settled_read (document : String) :
    Settled (scan document).tags document.utf8ByteSize (fun _ => True) (read document) := by
  obtain ⟨text, -, scanned⟩ := scanned_scan document
  have carries : Carries [] 0 {} := .idle .initial
  have settled := @settled_run [] 0 [] {} {} text _ scanned carries rfl rfl
  have longest : 0 + utf8Len (scan document).raw ≤ document.utf8ByteSize := by
    rw [Nat.zero_add]
    exact raw_scan_le document
  have whole := @Settled.mono _ (scan document).tags [] _ document.utf8ByteSize _ _ settled longest
  rwa [List.append_nil] at whole

private theorem few_names_of_read {document : String} {tree : SyntaxTree} (made : read document = .ok tree) :
    ((scan document).tags.map TagText.name).toFinset.card ≤ Tag.nameLimit := by
  obtain ⟨root, same, shown⟩ := Builder.build_eq_ok (described_of_read made).2.2.2
  have few : (Call.namesOf root.node.calls).toFinset.card ≤ Tag.nameLimit := shown.fits.names
  have spelled : Call.namesOf root.node.calls = ((scan document).tags.map TagText.name).map String.ofList := by
    rw [same, namesOf_read made, List.map_map]
    rfl
  have image : (((scan document).tags.map TagText.name).map String.ofList).toFinset =
      ((scan document).tags.map TagText.name).toFinset.image String.ofList := by
    ext name
    simp
  rwa [spelled, image, Finset.card_image_of_injective _ fun _ _ => String.ofList_injective] at few

/-- Reading a document gives a tree, or the document is malformed, or there is no room for its tree: it has too many
names, more than 165 million tags, or it is itself too long. No other contract of the tree is ever broken. -/
theorem contract_broken_only_when_full (document : String) :
    (∃ tree, read document = .ok tree ∧ ((scan document).tags.map TagText.name).toFinset.card ≤ Tag.nameLimit) ∨
      (∃ cause offset, read document = .error (.error (.malformedTree cause offset))) ∨
      (read document = .error (.violation (.tooManyNames Tag.nameLimit)) ∧
        Tag.nameLimit < ((scan document).tags.map TagText.name).toFinset.card) ∨
      (read document = .error (.violation .treeTooLarge) ∧
        Builder.wordLimit ≤ 26 * (scan document).tags.length + 1) ∨
      ∃ bytes, read document = .error (.violation (.textTooLong bytes)) ∧ Builder.wordLimit ≤ bytes ∧
        bytes ≤ document.utf8ByteSize := by
  have settled := settled_read document
  cases outcome : read document with
  | ok tree => exact .inl ⟨tree, rfl, few_names_of_read outcome⟩
  | error fault =>
    rw [outcome] at settled
    cases settled with
    | refused cause offset => exact .inr (.inl ⟨cause, offset, rfl⟩)
    | exceeded exceeds =>
      cases exceeds with
      | names many => exact .inr (.inr (.inl ⟨rfl, many⟩))
      | buffer large => exact .inr (.inr (.inr (.inl ⟨rfl, large⟩)))
      | text beyond within => exact .inr (.inr (.inr (.inr ⟨_, rfl, beyond, within⟩)))

def opening (name : String) : List Char := '<' :: (name.toList ++ assignments (nodePairs 1) ++ ['>'])

def unclosed (names : List String) : String := String.ofList (names.flatMap opening)

def starts (names : List String) : List Call := names.map fun name => .start name 1

section Unclosed

variable {names : List String}

private theorem namesOf_starts (names : List String) : Call.namesOf (starts names) = names := by
  induction names with
  | nil => rfl
  | cons name rest ih => rw [starts, List.map_cons, Call.namesOf_cons, ← starts, ih, Call.names, List.singleton_append]

private theorem sizeOf_starts (names : List String) : Call.sizeOf (starts names) = 18 * names.length := by
  induction names with
  | nil => rfl
  | cons name rest ih =>
    rw [starts, List.map_cons, Call.sizeOf_cons, ← starts, ih, Call.size, List.length_cons]
    omega

private theorem starts_refused (distinct : names.Nodup) (many : Tag.nameLimit < names.length)
    (small : 18 * names.length + 1 < Builder.wordLimit) :
    Builder.run {} (starts names) = .error (.tooManyNames Tag.nameLimit) := by
  cases ran : Builder.run {} (starts names) with
  | ok last =>
    obtain ⟨draft, taken, shown⟩ := Builder.Shows.initial.run ran
    have few := shown.fits.names
    have calls : draft.calls = starts names := Draft.calls_run taken
    rw [calls, namesOf_starts, List.toFinset_card_of_nodup distinct] at few
    omega
  | error violation =>
    obtain ⟨front, call, rest, middle, split, reached, refused⟩ := Builder.run_eq_error ran
    obtain ⟨before, behind, rfl, rfl, last⟩ := List.map_eq_append_iff.mp split
    obtain ⟨name, after, rfl, rfl, -⟩ := List.map_eq_cons_iff.mp last
    obtain ⟨draft, taken, shown⟩ := Builder.Shows.initial.run reached
    have calls : draft.calls = starts before := Draft.calls_run taken
    cases Builder.refuses_of_call refused with
    | tooManyNames => rfl
    | secondRoot rooted closed =>
      cases draft with
      | blank => exact absurd rfl (shown.hasRoot_iff.mp rooted)
      | part inner outer => cases shown.nesting.symm.trans closed
      | whole root =>
        have ended : .finish ∈ starts before := by simp [← calls, Draft.calls]
        obtain ⟨_, -, same⟩ := List.mem_map.mp ended
        cases same
    | treeTooLarge large =>
      rw [shown.size, calls, sizeOf_starts, Call.size] at large
      rw [List.length_append, List.length_cons] at small
      omega

/-- Each start tag of a document is read as the call that it stands for, and so what refuses the calls refuses the
document. -/
private theorem run_unclosed {builder : Builder} {violation : Violation}
    (named : ∀ name ∈ names, isName name.toList = true)
    (refused : builder.run (starts names) = .error violation) (fuel offset : Nat) (outer : List (List Char))
    (enough : (names.flatMap opening).length ≤ fuel) :
    Reader.run ⟨builder, none, false⟩ (scanFrom fuel offset outer (names.flatMap opening)) =
      .error (.violation violation) := by
  induction names generalizing builder fuel offset outer with
  | nil => cases refused
  | cons name rest ih =>
    obtain ⟨first, later⟩ := List.forall_mem_cons.mp named
    have split : (name :: rest).flatMap opening =
        '<' :: (name.toList ++ assignments (nodePairs 1) ++ '>' :: rest.flatMap opening) := by
      simp [opening]
    rw [split] at enough ⊢
    cases fuel with
    | zero => cases enough
    | succ fuel =>
      have filled : nodePairs 1 ≠ [] := List.cons_ne_nil _ _
      obtain ⟨behind, found⟩ := scanMarkup_start (offset + 1) outer (rest.flatMap opening) first filled plain_nodePairs
      rw [scanFrom, if_pos (by decide), found]
      simp only [Reader.run, Reader.step, opening_node, Reader.startNode, Reader.call, Bool.false_eq_true, ↓reduceIte]
      rw [starts, List.map_cons, Builder.run] at refused
      cases made : builder.call (.start name 1) with
      | error broken =>
        rw [made] at refused
        cases refused
        rfl
      | ok next =>
        rw [made] at refused
        refine ih later refused fuel behind _ ?_
        simp only [List.length_cons, List.length_append] at enough
        omega

/-- Too many names are refused before the end of the document shows that it describes no tree. -/
private theorem unclosed_refused (named : ∀ name ∈ names, isName name.toList = true) (distinct : names.Nodup)
    (many : Tag.nameLimit < names.length) (small : 18 * names.length + 1 < Builder.wordLimit) :
    read (unclosed names) = .error (.violation (.tooManyNames Tag.nameLimit)) := by
  have refused := starts_refused distinct many small
  have run := run_unclosed named refused _ 0 [] (Nat.le_refl _)
  obtain ⟨name, rest, rfl⟩ := List.exists_cons_of_length_pos (Nat.zero_lt_of_lt many)
  obtain ⟨body, spelled⟩ : ∃ body, (name :: rest).flatMap opening = '<' :: body := ⟨_, rfl⟩
  have scanned : scan (unclosed (name :: rest)) = scanFrom (body.length + 1) 0 [] ('<' :: body) := by
    rw [scan, unclosed, String.toList_ofList, spelled]
    rfl
  rw [spelled] at run
  rw [read, scanned]
  exact run

private theorem utf8Len_unclosed_le (short : ∀ name ∈ names, name.utf8ByteSize ≤ 4) :
    (unclosed names).utf8ByteSize ≤ 18 * names.length := by
  rw [unclosed, String.utf8ByteSize_ofList]
  induction names with
  | nil => exact Nat.le_refl 0
  | cons name rest ih =>
    obtain ⟨first, later⟩ := List.forall_mem_cons.mp short
    have below := ih later
    have rule : utf8Len (assignments (nodePairs 1)) = 12 := by decide +kernel
    rw [← String.utf8Len_toList] at first
    simp only [List.flatMap_cons, opening, String.utf8Len_append, String.utf8Len_cons, String.utf8Len_nil, rule,
      List.length_cons]
    have bracket : Char.utf8Size '<' = 1 ∧ Char.utf8Size '>' = 1 := by decide
    omega

end Unclosed

def numbered (number : Nat) : String := String.singleton (Char.ofNat (0x4E00 + number))

private theorem toNat_numbered {number : Nat} (below : number < 20000) :
    (Char.ofNat (0x4E00 + number)).toNat = 0x4E00 + number := by
  have valid : (0x4E00 + number).isValidChar := .inl (by omega)
  rw [Char.ofNat, dif_pos valid]
  rfl

private theorem isName_numbered {number : Nat} (below : number < 20000) : isName (numbered number).toList = true := by
  have inside : inRanges nameStartRanges (0x4E00 + number) = true := by
    refine List.any_eq_true.mpr ⟨(0x3001, 0xD7FF), by decide, ?_⟩
    simp only [Bool.and_eq_true, decide_eq_true_eq]
    omega
  simp only [numbered, String.toList_singleton, isName, isNameStart, toNat_numbered below, inside, List.all_nil,
    Bool.and_self]

private theorem numbered_injective {first second : Nat} (one : first < 20000) (other : second < 20000)
    (same : numbered first = numbered second) : first = second := by
  have chars : Char.ofNat (0x4E00 + first) = Char.ofNat (0x4E00 + second) := by
    simpa [numbered] using congrArg String.toList same
  have codes := congrArg Char.toNat chars
  rw [toNat_numbered one, toNat_numbered other] at codes
  omega

/-- A document far below the limit on texts breaks the contract of the names. It is neither read nor malformed. -/
theorem many_names_break_contract :
    (∃ document, document.utf8ByteSize < Builder.wordLimit ∧
      read document = .error (.violation (.tooManyNames Tag.nameLimit))) ∧
      ¬∀ document, document.utf8ByteSize < Builder.wordLimit →
        (∃ tree, read document = .ok tree) ∨
          ∃ cause offset, read document = .error (.error (.malformedTree cause offset)) := by
  let names := (List.range (Tag.nameLimit + 1)).map numbered
  have length : names.length = 16385 := by simp [names, Tag.nameLimit]
  have numbers {name : String} (inside : name ∈ names) : ∃ number < 20000, numbered number = name := by
    obtain ⟨number, listed, same⟩ := List.mem_map.mp inside
    rw [List.mem_range, Tag.nameLimit] at listed
    exact ⟨number, by omega, same⟩
  have refused : read (unclosed names) = .error (.violation (.tooManyNames Tag.nameLimit)) := by
    refine unclosed_refused ?_ ?_ (by rw [length]; decide) (by rw [length]; decide)
    · intro name inside
      obtain ⟨number, below, rfl⟩ := numbers inside
      exact isName_numbered below
    · refine List.Nodup.map_on ?_ List.nodup_range
      intro first one second other same
      rw [List.mem_range, Tag.nameLimit] at one other
      exact numbered_injective (by omega) (by omega) same
  have below : (unclosed names).utf8ByteSize < Builder.wordLimit := by
    refine (utf8Len_unclosed_le ?_).trans_lt (by rw [length]; decide)
    intro name inside
    obtain ⟨number, -, rfl⟩ := numbers inside
    rw [numbered, String.utf8ByteSize_singleton]
    exact Char.utf8Size_le_four _
  refine ⟨⟨_, below, refused⟩, fun always => ?_⟩
  rcases always _ below with ⟨tree, made⟩ | ⟨cause, offset, malformed⟩
  · cases refused.symm.trans made
  · cases refused.symm.trans malformed

end Xml

end Verbatim
