import Verbatim.Proofs.RenderedText

/-! Tags as a document may have them. Attributes stand in any order, with any space and either kind of quotes,
and others may stand between them; what counts is the value of each key. -/

namespace Verbatim.Xml

/-- An attribute with the space in front of it and around its sign, and the value that stands in its quotes. -/
structure Assignment where
  lead : List Char
  key : String
  before : List Char
  behind : List Char
  quote : Char
  raw : List Char
  value : List Char

private theorem quiet_spaces {text : List Char} (spaces : ∀ c ∈ text, isSpace c = true) : Quiet text := by
  apply quiet_plain
  intro c inside
  rcases isSpace_cases (spaces c inside) with rfl | rfl | rfl | rfl <;> decide

namespace Assignment

def text (assignment : Assignment) : List Char :=
  assignment.lead ++ (assignment.key.toList ++ (assignment.before ++ '=' ::
    (assignment.behind ++ assignment.quote :: (assignment.raw ++ [assignment.quote]))))

structure Formed (assignment : Assignment) : Prop where
  apart : assignment.lead ≠ []
  spaces : ∀ c ∈ assignment.lead ++ assignment.before ++ assignment.behind, isSpace c = true
  key : isName assignment.key.toList = true
  quoted : isQuote assignment.quote = true
  closed : assignment.quote ∉ assignment.raw
  spelled : Spelled assignment.raw assignment.value

theorem Formed.quiet {assignment : Assignment} (formed : assignment.Formed) : Quiet assignment.text := by
  have spaces := formed.spaces
  simp only [List.forall_mem_append] at spaces
  have sign : Quiet ['='] := quiet_plain (List.forall_mem_singleton.mpr (by decide))
  have quoted := quiet_quoted formed.quoted formed.closed
  have parts : assignment.text = assignment.lead ++ (assignment.key.toList ++ (assignment.before ++ (['='] ++
      (assignment.behind ++ (assignment.quote :: assignment.raw ++ [assignment.quote]))))) := by simp [text]
  rw [parts]
  apply (quiet_spaces spaces.1.1).append
  apply (quiet_name formed.key).append
  apply (quiet_spaces spaces.1.2).append
  apply sign.append
  exact (quiet_spaces spaces.2).append quoted

end Assignment

/-- The inside of a tag: the name, the attributes, and space behind them. -/
structure RenderedTag where
  name : String
  assignments : List Assignment
  trail : List Char

namespace RenderedTag

def attributes (tag : RenderedTag) : List Char := tag.assignments.flatMap Assignment.text ++ tag.trail

def text (tag : RenderedTag) : List Char := tag.name.toList ++ tag.attributes

def scanned (tag : RenderedTag) : TagText := ⟨tag.name.toList, tag.attributes⟩

def value? (tag : RenderedTag) (key : String) : Option (List Char) :=
  (tag.assignments.find? (·.key = key)).map Assignment.value

structure Formed (tag : RenderedTag) : Prop where
  name : isName tag.name.toList = true
  each : ∀ assignment ∈ tag.assignments, assignment.Formed
  distinct : (tag.assignments.map Assignment.key).Nodup
  trail : ∀ c ∈ tag.trail, isSpace c = true

end RenderedTag

def knownKeys : List String := [ruleKey, firstLineKey, firstColumnKey, lastLineKey, lastColumnKey, hiddenKey]

namespace RenderedTag

/-- The tag of a node: of the keys that are known it has just that of the rule. -/
structure OfNode (tag : RenderedTag) (name : String) (rule : RuleId) : Prop where
  formed : tag.Formed
  name : tag.name = name
  rule : (tag.value? ruleKey).bind (Numeral.word? 10) = some rule
  others : ∀ assignment ∈ tag.assignments, assignment.key ∈ knownKeys → assignment.key = ruleKey

/-- The tag of a token: it has the span, and no rule. A visible token may say that it is not hidden. -/
structure OfToken (tag : RenderedTag) (token : Token) : Prop where
  formed : tag.Formed
  name : tag.name = token.kind
  firstLine : (tag.value? firstLineKey).bind (Numeral.word? 10) = some token.span.first.line
  firstColumn : (tag.value? firstColumnKey).bind Numeral.signedWord? = some token.span.first.column
  lastLine : (tag.value? lastLineKey).bind (Numeral.word? 10) = some token.span.last.line
  lastColumn : (tag.value? lastColumnKey).bind Numeral.signedWord? = some token.span.last.column
  hidden : token.channel = .hidden → tag.value? hiddenKey = some "true".toList
  visible : token.channel = .visible → tag.value? hiddenKey ∈ [none, some "false".toList]
  others : ∀ assignment ∈ tag.assignments, assignment.key ≠ ruleKey

variable {tag : RenderedTag}

theorem quiet_assignments {assignments : List Assignment} (each : ∀ assignment ∈ assignments, assignment.Formed) :
    Quiet (assignments.flatMap Assignment.text) := by
  induction assignments with
  | nil => exact fun _ _ => rfl
  | cons assignment rest ih =>
    obtain ⟨first, later⟩ := List.forall_mem_cons.mp each
    rw [List.flatMap_cons]
    exact first.quiet.append (ih later)

theorem Formed.quiet (formed : tag.Formed) : Quiet tag.text :=
  (quiet_name formed.name).append ((quiet_assignments formed.each).append (quiet_spaces formed.trail))

/-- The attributes that are scanned are those of the tag, one by one. -/
def listed : List Assignment → Attributes
  | [] => .done
  | assignment :: rest => .next assignment.key.toList assignment.raw (listed rest)

theorem attributesFrom_assignments {assignments : List Assignment} {trail : List Char} (fuel offset : Nat)
    (seen : List (List Char × Nat)) (each : ∀ assignment ∈ assignments, assignment.Formed)
    (distinct : (assignments.map Assignment.key).Nodup)
    (fresh : ∀ assignment ∈ assignments, seen.lookup assignment.key.toList = none)
    (spaces : ∀ c ∈ trail, isSpace c = true) (enough : assignments.length < fuel) :
    attributesFrom fuel offset seen (assignments.flatMap Assignment.text ++ trail) = listed assignments := by
  induction assignments generalizing fuel offset seen with
  | nil =>
    cases fuel with
    | zero => cases enough
    | succ fuel =>
      have empty : trail.dropWhile isSpace = [] := List.dropWhile_eq_nil_iff.mpr spaces
      rw [List.flatMap_nil, List.nil_append, attributesFrom, skipSpace, empty]
      rfl
  | cons assignment rest ih =>
    cases fuel with
    | zero => cases enough
    | succ fuel =>
      obtain ⟨first, later⟩ := List.forall_mem_cons.mp each
      obtain ⟨unlisted, distinct⟩ := List.nodup_cons.mp distinct
      obtain ⟨free, frees⟩ := List.forall_mem_cons.mp fresh
      have spelled : (assignment :: rest).flatMap Assignment.text ++ trail =
          assignment.lead ++ (assignment.key.toList ++ (assignment.before ++ '=' :: (assignment.behind ++
            assignment.quote :: (assignment.raw ++ assignment.quote ::
              (rest.flatMap Assignment.text ++ trail))))) := by
        simp [Assignment.text]
      obtain ⟨behind, start, read⟩ := attributesFrom_quoted fuel offset seen first.spaces first.key first.quoted
        first.closed free (rest.flatMap Assignment.text ++ trail)
      have others : ∀ other ∈ rest,
          ((assignment.key.toList, start) :: seen).lookup other.key.toList = none := by
        intro other inside
        have apart : (other.key.toList == assignment.key.toList) = false := by
          rw [beq_eq_false_iff_ne]
          intro same
          exact unlisted (String.toList_injective same ▸ List.mem_map_of_mem inside)
        rw [List.lookup_cons, apart]
        exact frees other inside
      rw [spelled, read, listed, ih fuel behind _ later distinct others (Nat.lt_of_succ_lt_succ enough)]

private theorem length_le_attributes (tag : RenderedTag) : tag.assignments.length ≤ tag.attributes.length := by
  rw [attributes, List.length_append]
  generalize tag.assignments = assignments
  induction assignments with
  | nil => exact Nat.zero_le _
  | cons assignment rest ih =>
    have filled : 0 < assignment.text.length := by
      simp only [Assignment.text, List.length_append, List.length_cons]
      omega
    rw [List.flatMap_cons, List.length_append, List.length_cons]
    omega

private theorem Formed.read_scanned (formed : tag.Formed) : tag.scanned.read = listed tag.assignments :=
  attributesFrom_assignments _ _ [] formed.each formed.distinct (fun _ _ => rfl) formed.trail
    (Nat.lt_succ_of_le tag.length_le_attributes)

private theorem pairs_listed (assignments : List Assignment) :
    (listed assignments).pairs = assignments.map fun assignment => (assignment.key.toList, assignment.raw) := by
  induction assignments with
  | nil => rfl
  | cons assignment rest ih => exact congrArg (_ :: ·) ih

private theorem whole_listed (assignments : List Assignment) : (listed assignments).Whole := by
  induction assignments with
  | nil => exact trivial
  | cons assignment rest ih => exact ih

theorem Formed.whole_scanned (formed : tag.Formed) : tag.scanned.read.Whole := by
  rw [formed.read_scanned]
  exact whole_listed tag.assignments

private theorem Formed.value?_scanned (formed : tag.Formed) (key : String) :
    tag.scanned.value? key = tag.value? key := by
  rw [TagText.value?, formed.read_scanned, pairs_listed, value?]
  have each := formed.each
  generalize tag.assignments = assignments at each
  induction assignments with
  | nil => rfl
  | cons assignment rest ih =>
    obtain ⟨first, later⟩ := List.forall_mem_cons.mp each
    rw [List.map_cons, List.lookup_cons, List.find?_cons]
    by_cases same : assignment.key = key
    · subst same
      rw [beq_self_eq_true, decide_eq_true rfl]
      exact decoded?_eq_some_iff.mpr first.spelled.unescape_eq
    · have apart : (key.toList == assignment.key.toList) = false := by
        rw [beq_eq_false_iff_ne]
        exact fun equal => same (String.toList_injective equal).symm
      rw [apart, decide_eq_false same]
      exact ih later

private theorem Formed.has_scanned (formed : tag.Formed) {key : String} :
    tag.scanned.Has key ↔ ∃ assignment ∈ tag.assignments, assignment.key = key := by
  rw [TagText.Has, formed.read_scanned, pairs_listed, List.map_map, List.mem_map]
  refine exists_congr fun assignment => and_congr_right fun _ => ?_
  exact ⟨fun same => String.toList_injective same, fun same => congrArg String.toList same⟩

private theorem Formed.references_scanned (formed : tag.Formed) :
    ∀ pair ∈ tag.scanned.read.pairs, ∃ value, unescape pair.2 = .ok value := by
  rw [formed.read_scanned, pairs_listed]
  intro pair inside
  obtain ⟨assignment, member, rfl⟩ := List.mem_map.mp inside
  exact ⟨assignment.value, (formed.each assignment member).spelled.unescape_eq⟩

theorem getLast?_assignments {assignments : List Assignment} (each : ∀ assignment ∈ assignments, assignment.Formed)
    (filled : assignments ≠ []) : ∃ quote, isQuote quote = true ∧
      (assignments.flatMap Assignment.text).getLast? = some quote := by
  obtain ⟨front, last, rfl⟩ := List.eq_nil_or_concat assignments |>.resolve_left filled
  have formed := each last (by simp)
  refine ⟨last.quote, formed.quoted, ?_⟩
  have ends : last.text = last.lead ++ (last.key.toList ++ (last.before ++ '=' ::
      (last.behind ++ last.quote :: last.raw))) ++ [last.quote] := by simp [Assignment.text]
  rw [List.concat_eq_append, List.flatMap_append, List.flatMap_singleton, ends, ← List.append_assoc,
    List.getLast?_concat]

/-- A tag does not end like that of an empty element. -/
private theorem Formed.getLast?_ne (formed : tag.Formed) : tag.text.getLast? ≠ some '/' := by
  rw [text, attributes, ← List.append_assoc]
  intro slash
  by_cases trailed : tag.trail = []
  · rw [trailed, List.append_nil] at slash
    by_cases bare : tag.assignments = []
    · rw [bare, List.flatMap_nil, List.append_nil] at slash
      exact not_mem_name formed.name (by decide) (List.mem_of_getLast? slash)
    · obtain ⟨quote, quoted, last⟩ := getLast?_assignments formed.each bare
      rw [List.getLast?_append, last, Option.some_or] at slash
      cases slash
      cases quoted
  · obtain ⟨front, last, split⟩ := List.eq_nil_or_concat tag.trail |>.resolve_left trailed
    rw [split, List.concat_eq_append, ← List.append_assoc, List.getLast?_concat] at slash
    cases slash
    cases formed.trail '/' (by simp [split])

private theorem Formed.attributes_cases (formed : tag.Formed) :
    tag.attributes = [] ∨ ∃ c more, tag.attributes = c :: more ∧ isSpace c = true := by
  have leading (text : List Char) (spaces : ∀ c ∈ text, isSpace c = true) (filled : text ≠ []) (rest : List Char) :
      ∃ c more, text ++ rest = c :: more ∧ isSpace c = true := by
    obtain ⟨c, more, rfl⟩ := List.exists_cons_of_ne_nil filled
    exact ⟨c, more ++ rest, rfl, spaces c List.mem_cons_self⟩
  rw [attributes]
  cases listed : tag.assignments with
  | nil =>
    rw [List.flatMap_nil, List.nil_append]
    by_cases empty : tag.trail = []
    · exact .inl empty
    · have spaced := leading tag.trail formed.trail empty []
      rw [List.append_nil] at spaced
      exact .inr spaced
  | cons assignment rest =>
    have first := formed.each assignment (by simp [listed])
    have spaces : ∀ c ∈ assignment.lead, isSpace c = true := fun c inside => first.spaces c (by simp [inside])
    rw [List.flatMap_cons, Assignment.text, List.append_assoc, List.append_assoc]
    exact .inr (leading assignment.lead spaces first.apart _)

private theorem Formed.ofBody_eq (formed : tag.Formed) : TagText.ofBody tag.text = tag.scanned := by
  have dark : ∀ d ∈ tag.name.toList, (!isSpace d) = true := by
    intro d inside
    rw [isSpace_of_mem_name formed.name inside]
    rfl
  rw [TagText.ofBody, scanned, text]
  obtain empty | ⟨c, more, spelled, space⟩ := formed.attributes_cases
  · rw [empty, List.append_nil, List.takeWhile_eq_self_iff.mpr dark, List.dropWhile_eq_nil_iff.mpr dark]
  · obtain ⟨front, back⟩ := split_at more dark (c := c) (by rw [space]; rfl)
    rw [spelled, front, back]

theorem Formed.scanMarkup_start (formed : tag.Formed) (offset : Nat) (names : List (List Char)) (rest : List Char) :
    ∃ behind, scanMarkup offset names (tag.text ++ '>' :: rest) =
      .piece (some (.start tag.scanned)) behind (tag.name.toList :: names) rest := by
  have split := formed.quiet.splitTag? rest
  have unslashed : (tag.text.getLast? == some '/') = false := beq_eq_false_iff_ne.mpr formed.getLast?_ne
  rw [text, List.append_assoc, scanMarkup_name offset names _ formed.name, ← List.append_assoc, ← text, scanTag, split]
  simp only [unslashed, formed.ofBody_eq, Bool.false_eq_true, ↓reduceIte]
  exact ⟨_, rfl⟩

theorem Formed.scanMarkup_empty (formed : tag.Formed) (offset : Nat) (names : List (List Char)) (rest : List Char) :
    ∃ behind, scanMarkup offset names (tag.text ++ '/' :: '>' :: rest) =
      .piece (some (.empty tag.scanned)) behind names rest := by
  have slash : Quiet ['/'] := quiet_plain (List.forall_mem_singleton.mpr (by decide))
  have split := (formed.quiet.append slash).splitTag? rest
  have slashed : ((tag.text ++ ['/']).getLast? == some '/') = true := by rw [List.getLast?_concat, beq_self_eq_true]
  have body : tag.text ++ '/' :: '>' :: rest = tag.text ++ ['/'] ++ '>' :: rest := by simp
  have named : scanMarkup offset names (tag.text ++ ['/'] ++ '>' :: rest) =
      scanTag offset names (tag.text ++ ['/'] ++ '>' :: rest) := by
    rw [text, List.append_assoc, List.append_assoc, scanMarkup_name offset names _ formed.name]
  rw [body, named, scanTag, split]
  simp only [slashed, List.dropLast_concat, formed.ofBody_eq, ↓reduceIte]
  exact ⟨_, rfl⟩

private theorem Formed.word?_scanned (formed : tag.Formed) (key : String) :
    tag.scanned.word? key = (tag.value? key).bind (Numeral.word? 10) := by
  rw [TagText.word?, formed.value?_scanned]

private theorem Formed.signed?_scanned (formed : tag.Formed) (key : String) :
    tag.scanned.signed? key = (tag.value? key).bind Numeral.signedWord? := by
  rw [TagText.signed?, formed.value?_scanned]

namespace OfNode

variable {name : String} {rule : RuleId}

private theorem word?_rule (node : tag.OfNode name rule) : tag.scanned.word? ruleKey = some rule := by
  rw [node.formed.word?_scanned, node.rule]

theorem ruled (node : tag.OfNode name rule) : tag.scanned.Has ruleKey := by
  apply TagText.has_of_bind
  exact Option.isSome_of_eq_some node.word?_rule

theorem meaningful (node : tag.OfNode name rule) : tag.scanned.Meaningful := by
  have only (key : String) (known : key ∈ knownKeys) (present : tag.scanned.Has key) : key = ruleKey := by
    obtain ⟨assignment, member, rfl⟩ := node.formed.has_scanned.mp present
    exact node.others assignment member known
  refine ⟨node.formed.references_scanned, ?_, ?_, .inl node.ruled⟩
  · intro key counts present
    have known : key ∈ knownKeys := (by decide : wordKeys ⊆ knownKeys) counts
    rw [only key known present, node.word?_rule]
    rfl
  · intro key counts present
    have known : key ∈ knownKeys := (by decide : columnKeys ⊆ knownKeys) counts
    rw [only key known present] at counts
    exact absurd counts (by decide)

theorem meaning?_eq (node : tag.OfNode name rule) : tag.scanned.meaning? = some (.node name rule) := by
  have same : String.ofList tag.scanned.name = name := by rw [scanned, String.ofList_toList, node.name]
  rw [TagText.meaning?, node.word?_rule, same]

end OfNode

namespace OfToken

variable {token : Token}

theorem unruled (starts : tag.OfToken token) : ¬tag.scanned.Has ruleKey := by
  intro present
  obtain ⟨assignment, member, same⟩ := starts.formed.has_scanned.mp present
  exact starts.others assignment member same

theorem numbers (starts : tag.OfToken token) :
    (tag.scanned.word? firstLineKey = some token.span.first.line ∧
      tag.scanned.signed? firstColumnKey = some token.span.first.column) ∧
    tag.scanned.word? lastLineKey = some token.span.last.line ∧
      tag.scanned.signed? lastColumnKey = some token.span.last.column := by
  have formed := starts.formed
  rw [formed.word?_scanned, formed.word?_scanned, formed.signed?_scanned, formed.signed?_scanned]
  exact ⟨⟨starts.firstLine, starts.firstColumn⟩, starts.lastLine, starts.lastColumn⟩

private theorem hidden_eq (starts : tag.OfToken token) :
    tag.scanned.value? hiddenKey ∈ [none, some "true".toList, some "false".toList] ∧
      (if tag.scanned.value? hiddenKey = some "true".toList then Channel.hidden else .visible) = token.channel := by
  rw [starts.formed.value?_scanned]
  cases way : token.channel with
  | hidden =>
    rw [starts.hidden way]
    decide
  | visible =>
    rcases List.mem_cons.mp (starts.visible way) with same | same
    · rw [same]
      decide
    · rw [List.mem_singleton.mp same]
      decide

theorem meaningful (starts : tag.OfToken token) : tag.scanned.Meaningful := by
  obtain ⟨⟨firstLine, firstColumn⟩, lastLine, lastColumn⟩ := starts.numbers
  have present {α : Type} {read? : List Char → Option α} {key : String} {number : α}
      (found : (tag.scanned.value? key).bind read? = some number) : tag.scanned.Has key :=
    TagText.has_of_bind (Option.isSome_of_eq_some found)
  refine ⟨starts.formed.references_scanned, ?_, ?_, .inr ⟨?_, starts.hidden_eq.1⟩⟩
  · intro key counts has
    simp only [wordKeys, List.mem_cons, List.not_mem_nil, or_false] at counts
    rcases counts with rfl | rfl | rfl
    · exact absurd has starts.unruled
    · rw [firstLine]; rfl
    · rw [lastLine]; rfl
  · intro key counts _
    simp only [columnKeys, List.mem_cons, List.not_mem_nil, or_false] at counts
    rcases counts with rfl | rfl
    · rw [firstColumn]; rfl
    · rw [lastColumn]; rfl
  · simp only [List.forall_mem_cons, List.not_mem_nil, false_implies, implies_true, and_true]
    exact ⟨present firstLine, present firstColumn, present lastLine, present lastColumn⟩

theorem meaning?_eq (starts : tag.OfToken token) :
    tag.scanned.meaning? = some (.token token.kind token.channel token.span) := by
  obtain ⟨⟨firstLine, firstColumn⟩, lastLine, lastColumn⟩ := starts.numbers
  have same : String.ofList tag.scanned.name = token.kind := by rw [scanned, String.ofList_toList, starts.name]
  have rule : tag.scanned.word? ruleKey = none := by
    rw [← Option.not_isSome_iff_eq_none]
    exact fun found => starts.unruled (TagText.has_of_bind found)
  rw [TagText.meaning?, rule, firstLine, firstColumn, lastLine, lastColumn, same]
  dsimp only
  rw [starts.hidden_eq.2]

end OfToken

end RenderedTag

end Verbatim.Xml
