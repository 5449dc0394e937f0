import Mathlib.Data.List.Basic
import Verbatim.Proofs.EventCounts
import Verbatim.Proofs.MiniJavaEvents
import Verbatim.Proofs.MiniJavaReading
import Verbatim.Proofs.MiniJavaTokens

/-! The events of a parse as a stream. Rules are left only after they were entered, the visible tokens are
attached from the first one on, and the stream ends with the exit of the root behind the end of the
source, or with one error at the first token that was not attached. -/

namespace Verbatim

namespace MiniJava

open RuleEvent

/-- What is taken of a source: everything, if the parse succeeds, and else no end of the source. -/
private theorem parseKinds_takes {kinds front : List Kind} (ends : kinds = front ++ [.eof]) (inner : Kind.eof ∉ front) :
    ∃ taken, kinds = taken ++ (parseKinds kinds).rest ∧ (parseKinds kinds).marks.count .take = taken.length ∧
      ((parseKinds kinds).failure = none → taken = kinds ∧ Derives (.rule .compilationUnit) kinds) ∧
      ((parseKinds kinds).failure ≠ none → .eof ∉ taken) := by
  obtain ⟨limit, enough⟩ : ∃ limit, limit = kinds.length + 1 := ⟨_, rfl⟩
  have declarations : Reads limit (fun ahead => Look.not (.on .eof) ahead = true)
      ((level limit 255).rule .typeDeclaration 2) (.rule .typeDeclaration) :=
    ((reads_level limit 255).rule .typeDeclaration 2 (by decide)).weaken fun _ _ => trivial
  have short : kinds.length < limit := enough ▸ Nat.lt_succ_self _
  have whole : Reads limit anywhere _ (.many (.rule .typeDeclaration)) := .loop declarations limit
  obtain ⟨taken, split, marked, outer, word⟩ := whole kinds short trivial
  have stops := Reads.loop_stops declarations rfl (Nat.le_refl limit) short
  have unfolded : parseKinds kinds = Parser.enclosed Rule.compilationUnit.name 1
      (Parser.next (Parser.loop (.not (.on .eof)) ((level limit 255).rule .typeDeclaration 2) limit) .bump) kinds := by
    rw [enough]
    rfl
  rw [unfolded, Parser.enclosed, Parser.next]
  generalize Parser.loop _ _ limit kinds = looped at *
  obtain ⟨marks, rest, failure⟩ := looped
  dsimp only at *
  cases failure with
  | some wanted => exact ⟨taken, split, by simpa using marked, by simp, fun _ => outer⟩
  | none =>
    have stop : current rest = .eof := by simpa [Look.not, Look.on] using stops rfl
    have last : rest = [.eof] ∧ taken = front := by
      rw [ends] at split
      cases rest with
      | nil => exact absurd (by simp [← split] : .eof ∈ taken ++ []) (by simpa using outer)
      | cons kind more =>
        obtain rfl : kind = .eof := stop
        obtain ⟨same, -, rfl⟩ := (List.append_cons_inj_of_notMem inner List.not_mem_nil).mp split
        exact ⟨rfl, same.symm⟩
    obtain ⟨rfl, rfl⟩ := last
    refine ⟨kinds, ?_, ?_, fun _ => ⟨rfl, ?_⟩, fun failed => absurd rfl failed⟩
    · simp [Parser.bump]
    · simp [Parser.bump, marked, ends]
    · rw [ends]
      exact .rule (.cat (word rfl) (.among rfl))

/-- The marks that take a token are given the indexes in turn. -/
theorem attached_number (indexes : List Nat) (marks : List Mark) :
    attached (number indexes marks) = indexes.take (marks.count .take) := by
  fun_induction number indexes marks with
  | case1 => simp
  | case2 indexes name rule marks ih => simpa using ih
  | case3 indexes marks ih => simpa using ih
  | case4 index indexes marks ih => simpa using ih
  | case5 marks ih => simpa using ih

theorem number_append (indexes : List Nat) (first second : List Mark) :
    number indexes (first ++ second) =
      number indexes first ++ number (indexes.drop (first.count .take)) second := by
  fun_induction number indexes first with
  | case1 => simp
  | case2 indexes name rule marks ih => simpa [number] using ih
  | case3 indexes marks ih => simpa [number] using ih
  | case4 index indexes marks ih => simpa [number] using ih
  | case5 marks ih => simpa [number] using ih

theorem exists_of_prefix_number {indexes : List Nat} {marks : List Mark} {front : List RuleEvent}
    (first : front <+: number indexes marks) : ∃ taken, taken <+: marks ∧ front = number indexes taken := by
  fun_induction number indexes marks generalizing front with
  | case1 indexes => exact ⟨[], List.prefix_rfl, List.prefix_nil.mp first⟩
  | case2 indexes name rule marks ih =>
    rcases List.prefix_cons_iff.mp first with rfl | ⟨front, rfl, later⟩
    · exact ⟨[], List.nil_prefix, by rw [number]⟩
    · obtain ⟨taken, early, rfl⟩ := ih later
      exact ⟨.enter name rule :: taken, (List.prefix_cons_inj _).mpr early, rfl⟩
  | case3 indexes marks ih =>
    rcases List.prefix_cons_iff.mp first with rfl | ⟨front, rfl, later⟩
    · exact ⟨[], List.nil_prefix, by rw [number]⟩
    · obtain ⟨taken, early, rfl⟩ := ih later
      exact ⟨.exit :: taken, (List.prefix_cons_inj _).mpr early, rfl⟩
  | case4 index indexes marks ih =>
    rcases List.prefix_cons_iff.mp first with rfl | ⟨front, rfl, later⟩
    · exact ⟨[], List.nil_prefix, by rw [number]⟩
    · obtain ⟨taken, early, rfl⟩ := ih later
      exact ⟨.take :: taken, (List.prefix_cons_inj _).mpr early, rfl⟩
  | case5 marks ih =>
    obtain ⟨taken, early, rfl⟩ := ih first
    exact ⟨.take :: taken, (List.prefix_cons_inj _).mpr early, rfl⟩

theorem error_notMem_number (indexes : List Nat) (marks : List Mark) (diagnostic : Diagnostic) :
    .error diagnostic ∉ number indexes marks := by
  fun_induction number indexes marks <;> simp_all

theorem exits_number {depth last : Nat} {marks : List Mark} (climbs : climb depth marks = some last)
    (indexes : List Nat) : exits (number indexes marks) + last = depth + enters (number indexes marks) := by
  fun_induction number indexes marks generalizing depth with
  | case1 => simpa using (Option.some.inj climbs).symm
  | case2 indexes name rule marks ih =>
    have := ih climbs
    simp
    omega
  | case3 indexes marks ih =>
    cases depth with
    | zero => cases climbs
    | succ depth =>
      have := ih climbs
      simp
      omega
  | case4 index indexes marks ih => simpa using ih climbs
  | case5 marks ih => exact ih climbs

private theorem exits_le_of_prefix_number {depth last : Nat} {marks : List Mark}
    (climbs : climb depth marks = some last)
    {indexes : List Nat} {front : List RuleEvent} (first : front <+: number indexes marks) :
    exits front ≤ depth + enters front := by
  fun_induction number indexes marks generalizing depth front with
  | case1 => simp [List.prefix_nil.mp first]
  | case5 marks ih => exact ih climbs first
  | case2 indexes name rule marks ih =>
    rcases List.prefix_cons_iff.mp first with rfl | ⟨front, rfl, later⟩
    · simp
    · have := ih climbs later
      simp
      omega
  | case3 indexes marks ih =>
    rcases List.prefix_cons_iff.mp first with rfl | ⟨front, rfl, later⟩
    · simp
    · cases depth with
      | zero => cases climbs
      | succ depth =>
        have := ih climbs later
        simp
        omega
  | case4 index indexes marks ih =>
    rcases List.prefix_cons_iff.mp first with rfl | ⟨front, rfl, later⟩
    · simp
    · simpa using ih climbs later

/-- A parse that succeeded: every visible token is attached, the end of the source among them, and what
the root encloses is balanced, so that the last event is the exit of the root. -/
structure Completed (lexemes : List Lexeme) (events : List RuleEvent) : Prop where
  accepted : ∀ diagnostic, .error diagnostic ∉ events
  attached : attached events = visiblePlaces lexemes
  ended : ∃ index ∈ RuleEvent.attached events, ∃ lexeme, lexemes[index]? = some lexeme ∧ lexeme.kind = .eof
  balanced : exits events = enters events
  enclosed : ∃ inner, events = .enter Rule.compilationUnit.name 1 :: (inner ++ [.exit]) ∧ Nested inner ∧
    exits inner = enters inner

/-- A parse that failed: the last event is its only error, which is about the first visible token that is
not attached, and the end of the source is not attached. -/
structure Stopped (lexemes : List Lexeme) (events : List RuleEvent) (diagnostic : Diagnostic) (found : Lexeme) :
    Prop where
  reported : ∃ front, events = front ++ [.error diagnostic] ∧ ∀ other, .error other ∉ front
  unended : ∀ index ∈ attached events, ∀ lexeme, lexemes[index]? = some lexeme → lexeme.kind ≠ .eof
  next : (visiblePlaces lexemes)[(attached events).length]?.bind (lexemes[·]?) = some found
  position : diagnostic.position = found.start
  ending : "found end of input".toList <:+ diagnostic.message.toList ↔ found.kind = .eof
  naming : found.kind ≠ .eof → ∃ wanted, diagnostic.message = wanted ++ ", found `" ++ found.text ++ "`"

/-- The events of a parse of some tokens. -/
structure WellFormed (lexemes : List Lexeme) (events : List RuleEvent) : Prop where
  root : events.head? = some (.enter Rule.compilationUnit.name 1)
  nested : Nested events
  increasing : (attached events).Pairwise (· < ·)
  initial : attached events <+: visiblePlaces lexemes
  ending : Completed lexemes events ∨ ∃ diagnostic found, Stopped lexemes events diagnostic found

private theorem found_end_suffix_iff (wanted : String) (found : Lexeme) (last : Position) :
    "found end of input".toList <:+ (diagnose wanted (some found) last).message.toList ↔ found.kind = .eof := by
  by_cases ended : found.kind = .eof
  · simp only [diagnose, ended, beq_self_eq_true, if_true, iff_true]
    exact ⟨wanted.toList ++ [',', ' '], by simp⟩
  · simp only [diagnose, ended, beq_iff_eq, if_false, iff_false]
    rintro ⟨front, same⟩
    have quoted : (wanted ++ ", found " ++ ("`" ++ found.text ++ "`")).toList =
        (wanted.toList ++ ", found `".toList ++ found.text.toList) ++ ['`'] := by simp
    have different := congrArg List.getLast? (same.trans quoted)
    rw [List.getLast?_concat] at different
    simp at different

private theorem visible_append_eof {front : List Lexeme} {last : Lexeme} (ended : last.kind = .eof) :
    visible (front ++ [last]) = visible front ++ [(last, front.length)] := by
  simp [visible, List.zipIdx_append, ended, Kind.channel, Channel.isHidden]

theorem mem_visible {lexemes : List Lexeme} {lexeme : Lexeme} {index : Nat}
    (member : (lexeme, index) ∈ visible lexemes) : lexemes[index]? = some lexeme :=
  List.mem_zipIdx_iff_getElem?.mp (List.mem_filter.mp member).1

def visibleKinds (lexemes : List Lexeme) : List Kind := (visible lexemes).map fun entry => entry.1.kind

private theorem visibleKinds_append_eof {front : List Lexeme} {last : Lexeme} (ended : last.kind = .eof) :
    visibleKinds (front ++ [last]) = visibleKinds front ++ [Kind.eof] := by
  simp [visibleKinds, visible_append_eof ended, ended]

private theorem eof_notMem_visibleKinds {lexemes : List Lexeme} (inner : ∀ lexeme ∈ lexemes, lexeme.kind ≠ .eof) :
    .eof ∉ visibleKinds lexemes := by
  intro member
  obtain ⟨⟨lexeme, index⟩, inside, ended⟩ := List.mem_map.mp member
  exact inner lexeme (List.mem_of_getElem? (mem_visible inside)) ended

theorem events_of_success {lexemes : List Lexeme} {marks : List Mark} {rest : List Kind}
    (found : parseKinds (visibleKinds lexemes) = ⟨marks, rest, none⟩) :
    events lexemes = number ((visible lexemes).map Prod.snd) marks := by
  unfold visibleKinds at found
  simp only [events, found]

/-- An error is about the first token that was left. -/
theorem events_of_failure {lexemes : List Lexeme} {marks : List Mark} {rest : List Kind} {wanted : String}
    (found : parseKinds (visibleKinds lexemes) = ⟨marks, rest, some wanted⟩) :
    ∃ last, events lexemes = number ((visible lexemes).map Prod.snd) marks ++
      [.error (diagnose wanted ((visible lexemes)[(visible lexemes).length - rest.length]?.map Prod.fst) last)] := by
  unfold visibleKinds at found
  simp only [events, found, List.head?_drop]
  exact ⟨_, rfl⟩

private theorem attached_events (lexemes : List Lexeme) :
    attached (events lexemes) =
      ((visible lexemes).map Prod.snd).take ((parseKinds (visibleKinds lexemes)).marks.count .take) := by
  rcases found : parseKinds (visibleKinds lexemes) with ⟨marks, rest, failure⟩
  cases failure with
  | none => rw [events_of_success found, attached_number]
  | some wanted =>
    obtain ⟨last, same⟩ := events_of_failure found
    rw [same, attached_append, attached_number, attached_error, attached_nil, List.append_nil]

theorem visible_of_token {lexemes : List Lexeme} {index : Nat} (member : .token index ∈ events lexemes) :
    index ∈ (visible lexemes).map Prod.snd := by
  rw [← mem_attached_iff, attached_events] at member
  exact List.mem_of_mem_take member

private theorem nested_events (lexemes : List Lexeme) : Nested (events lexemes) := by
  obtain ⟨depth, marks, tail, course, same, ending⟩ := events_cases lexemes
  have total := exits_number (course.climbs 0) ((visible lexemes).map Prod.snd)
  intro front first
  rw [same] at first
  rcases List.prefix_cons_iff.mp first with rfl | ⟨front, rfl, later⟩
  · simp
  rw [exits_enter, enters_enter]
  have inner : front <+: number ((visible lexemes).map Prod.snd) marks → exits front ≤ 0 + enters front :=
    exits_le_of_prefix_number (course.climbs 0)
  rcases ending with ⟨rfl, rfl⟩ | ⟨diagnostic, rfl⟩ <;> rcases List.prefix_concat_iff.mp later with rfl | earlier
  · simp
    omega
  · have := inner earlier
    omega
  · simp
    omega
  · have := inner earlier
    omega

private theorem completed_events {lexemes : List Lexeme}
    (succeeded : (parseKinds (visibleKinds lexemes)).failure = none)
    (whole : attached (events lexemes) = (visible lexemes).map Prod.snd)
    (ended : ∃ entry ∈ visible lexemes, entry.1.kind = .eof) : Completed lexemes (events lexemes) := by
  obtain ⟨depth, marks, course, ⟨rest, rfl, found⟩ | ⟨rest, wanted, found⟩⟩ := parseKinds_cases (visibleKinds lexemes)
  · let inner := number ((visible lexemes).map Prod.snd) marks
    have same : events lexemes = .enter Rule.compilationUnit.name 1 :: (inner ++ [.exit]) := by
      rw [events_of_success found, number, number_append_exit]
    have balanced : exits inner + 0 = 0 + enters inner := exits_number (course.climbs 0) _
    constructor
    case attached => rw [whole, visible_eq_places]
    case ended =>
      obtain ⟨⟨lexeme, index⟩, member, ended⟩ := ended
      rw [whole]
      exact ⟨index, List.mem_map_of_mem member, lexeme, mem_visible member, ended⟩
    all_goals rw [same]
    case accepted => simp [inner, error_notMem_number]
    case balanced =>
      simp
      omega
    case enclosed =>
      refine ⟨inner, rfl, fun front first => ?_, by omega⟩
      have := exits_le_of_prefix_number (course.climbs 0) first
      omega
  · rw [found] at succeeded
    cases succeeded

private theorem stopped_events {lexemes : List Lexeme} {taken : List Kind}
    (split : visibleKinds lexemes = taken ++ (parseKinds (visibleKinds lexemes)).rest)
    (counted : (parseKinds (visibleKinds lexemes)).marks.count .take = taken.length)
    (failed : (parseKinds (visibleKinds lexemes)).failure ≠ none) (unended : .eof ∉ taken)
    (ended : .eof ∈ visibleKinds lexemes) :
    ∃ diagnostic found, Stopped lexemes (events lexemes) diagnostic found := by
  have indexes := attached_events lexemes
  rw [counted] at indexes
  rcases outcome : parseKinds (visibleKinds lexemes) with ⟨marks, rest, failure⟩
  rw [outcome] at split failed
  obtain ⟨wanted, rfl⟩ := Option.ne_none_iff_exists'.mp failed
  have size : (visible lexemes).length = taken.length + rest.length := by
    simpa [visibleKinds] using congrArg List.length split
  have left : taken.length < (visible lexemes).length := by
    have behind : .eof ∈ rest := (List.mem_append.mp (split ▸ ended)).resolve_left unended
    have := List.length_pos_of_mem behind
    omega
  have reached : (attached (events lexemes)).length = taken.length := by
    rw [indexes, List.length_take, List.length_map]
    omega
  obtain ⟨last, same⟩ := events_of_failure outcome
  rw [size, Nat.add_sub_cancel, List.getElem?_eq_getElem left, Option.map_some] at same
  refine ⟨_, (visible lexemes)[taken.length].1, ⟨_, same, error_notMem_number _ _⟩, ?_, ?_, rfl, ?_, ?_⟩
  · intro index member lexeme placed kind
    rw [indexes, ← List.map_take] at member
    obtain ⟨⟨other, index⟩, early, rfl⟩ := List.mem_map.mp member
    obtain rfl : other = lexeme := by simpa [mem_visible (List.mem_of_mem_take early)] using placed
    have front : taken = (visibleKinds lexemes).take taken.length := by simp [split]
    rw [front, visibleKinds, ← List.map_take] at unended
    exact unended (List.mem_map.mpr ⟨_, early, kind⟩)
  · rw [reached, ← visible_eq_places, List.getElem?_map, List.getElem?_eq_getElem left]
    exact mem_visible (List.getElem_mem left)
  · exact found_end_suffix_iff _ _ _
  · intro inner
    refine ⟨wanted, ?_⟩
    simp [diagnose, inner, ← String.toList_inj]

/-- All visible tokens of a source are taken if the parse succeeds, and the end of the source is left if it fails. -/
theorem visibleKinds_takes (source : String) :
    let kinds := visibleKinds (lex source)
    ∃ taken, kinds = taken ++ (parseKinds kinds).rest ∧ (parseKinds kinds).marks.count .take = taken.length ∧
      ((parseKinds kinds).failure = none → taken = kinds ∧ Derives (.rule .compilationUnit) kinds) ∧
      ((parseKinds kinds).failure ≠ none → .eof ∉ taken) := by
  obtain ⟨front, last, lexemes, ended, inner⟩ := lex_ends source
  rw [lexemes]
  exact parseKinds_takes (visibleKinds_append_eof ended) (eof_notMem_visibleKinds inner)

/-- Where nothing is wanted any more, every visible token is attached. -/
theorem attached_of_success {source : String} (succeeded : (parseKinds (visibleKinds (lex source))).failure = none) :
    attached (events (lex source)) = (visible (lex source)).map Prod.snd := by
  obtain ⟨taken, -, counted, success, -⟩ := visibleKinds_takes source
  rw [attached_events, counted, (success succeeded).1, visibleKinds, List.length_map]
  exact List.take_of_length_le (by simp)

/-- The events of every source are well-formed. -/
theorem events_wellFormed (source : String) : WellFormed (lex source) (parse source).events := by
  obtain ⟨front, last, lexemes, ended, -⟩ := lex_ends source
  have finishes : (last, front.length) ∈ visible (lex source) := by simp [lexemes, visible_append_eof ended]
  obtain ⟨taken, split, counted, -, failure⟩ := visibleKinds_takes source
  have indexes := attached_events (lex source)
  have initial : attached (events (lex source)) <+: visiblePlaces (lex source) := by
    rw [indexes, visible_eq_places]
    exact List.take_prefix _ _
  obtain ⟨depth, marks, tail, -, shape, -⟩ := events_cases (lex source)
  have parsed : (parse source).events = events (lex source) := by rw [parse]
  rw [parsed]
  refine ⟨by simp [shape], nested_events _, ?_, initial, ?_⟩
  · exact List.pairwise_lt_range.sublist (initial.sublist.trans List.filter_sublist)
  by_cases succeeded : (parseKinds (visibleKinds (lex source))).failure = none
  · exact .inl (completed_events succeeded (attached_of_success succeeded) ⟨_, finishes, ended⟩)
  · exact .inr (stopped_events split counted succeeded (failure succeeded) (List.mem_map.mpr ⟨_, finishes, ended⟩))

end MiniJava

end Verbatim
