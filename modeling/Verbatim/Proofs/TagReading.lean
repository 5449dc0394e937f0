import Verbatim.Proofs.EscapeReading
import Verbatim.Xml.Reader

/-! The tags of a document. Names have no character that could end them, values stand in quotes and
have none themselves, so each tag is scanned as one piece and says what was written into it. -/

namespace Verbatim.Xml

variable {name value text first second : List Char} {c : Char}

theorem split_at (rest : List Char) {holds : Char → Bool} (all : ∀ d ∈ text, holds d = true) (stop : holds c = false) :
    (text ++ c :: rest).takeWhile holds = text ∧ (text ++ c :: rest).dropWhile holds = c :: rest := by
  rw [List.takeWhile_append_of_pos all, List.dropWhile_append_of_pos all, List.takeWhile_cons, List.dropWhile_cons,
    stop]
  simp

theorem isNameChar_of_mem (named : isName name = true) (inside : c ∈ name) : isNameChar c = true := by
  cases name with
  | nil => cases inside
  | cons start more =>
    rw [isName, Bool.and_eq_true] at named
    cases inside with
    | head => rw [isNameChar, named.1, Bool.true_or]
    | tail _ inside => exact List.all_eq_true.mp named.2 c inside

theorem not_mem_name (named : isName name = true) (other : isNameChar c = false) : c ∉ name := by
  intro inside
  rw [isNameChar_of_mem named inside] at other
  cases other

theorem isSpace_cases (space : isSpace c = true) : c = ' ' ∨ c = '\t' ∨ c = '\r' ∨ c = '\n' := by
  simpa [isSpace, or_assoc] using space

theorem isSpace_of_mem_name (named : isName name = true) (inside : c ∈ name) : isSpace c = false := by
  rw [← Bool.not_eq_true]
  intro space
  have other : isNameChar c = false := by
    rcases isSpace_cases space with rfl | rfl | rfl | rfl <;> decide
  exact not_mem_name named other inside

def mark : Char := Char.ofNat 34

/-- Text in which no tag ends: quotes are closed, and there is no bracket outside of them. -/
def Quiet (text : List Char) : Prop :=
  ∀ seen rest, splitTag? none seen (text ++ rest) = splitTag? none (text.reverse ++ seen) rest

theorem Quiet.append (front : Quiet first) (back : Quiet second) : Quiet (first ++ second) := by
  intro seen rest
  rw [List.append_assoc, front, back, List.reverse_append, List.append_assoc]

theorem Quiet.splitTag? (quiet : Quiet text) (rest : List Char) :
    splitTag? none [] (text ++ '>' :: rest) = some (text, rest) := by
  rw [quiet, Xml.splitTag?, if_pos (beq_self_eq_true _), List.append_nil, List.reverse_reverse]

theorem quiet_plain (plain : ∀ c ∈ text, c ≠ '>' ∧ c.toNat ≠ 34 ∧ c.toNat ≠ 39) : Quiet text := by
  induction text with
  | nil => exact fun _ _ => rfl
  | cons c more ih =>
    intro seen rest
    obtain ⟨bracket, double, single⟩ := plain c List.mem_cons_self
    rw [List.cons_append, splitTag?, if_neg (by simpa using bracket), if_neg (by simp [double, single]),
      ih (fun d inside => plain d (List.mem_cons_of_mem c inside)), List.reverse_cons, List.append_assoc]
    rfl

theorem quiet_name (named : isName name = true) : Quiet name := by
  apply quiet_plain
  intro c inside
  refine ⟨?_, ?_, ?_⟩
  · rintro rfl
    exact not_mem_name named (by decide) inside
  · intro double
    obtain rfl : c = mark := Char.toNat_inj.mp double
    exact not_mem_name named (by decide) inside
  · intro single
    obtain rfl : c = Char.ofNat 39 := Char.toNat_inj.mp single
    exact not_mem_name named (by decide) inside

def isQuote (c : Char) : Bool := c.toNat = 34 || c.toNat = 39

private theorem isQuote_mark : isQuote mark = true := by decide

private theorem ne_of_isQuote {quote : Char} (quoted : isQuote quote = true) (other : isQuote c = false) :
    c ≠ quote := by
  intro same
  rw [same, quoted] at other
  cases other

private theorem isSpace_of_isQuote {quote : Char} (quoted : isQuote quote = true) : isSpace quote = false := by
  rw [← Bool.not_eq_true]
  intro space
  rcases isSpace_cases space with rfl | rfl | rfl | rfl <;> cases quoted

theorem quiet_quoted {quote : Char} (quoted : isQuote quote = true) (closed : quote ∉ value) :
    Quiet (quote :: value ++ [quote]) := by
  have within : ∀ seen rest, splitTag? (some quote) seen (value ++ quote :: rest) =
      splitTag? none (quote :: value.reverse ++ seen) rest := by
    induction value with
    | nil => exact fun _ _ => by rw [List.nil_append, splitTag?, if_pos rfl]; rfl
    | cons c more ih =>
      intro seen rest
      simp only [List.mem_cons, not_or] at closed
      rw [List.cons_append, splitTag?, if_neg (Ne.symm closed.1), ih closed.2]
      simp
  intro seen rest
  have bracket : (quote == '>') = false := beq_eq_false_iff_ne.mpr (ne_of_isQuote quoted (by decide)).symm
  have opens : quote.toNat = 34 ∨ quote.toNat = 39 := by simpa [isQuote] using quoted
  rw [List.cons_append, List.cons_append, List.append_assoc, splitTag?, bracket, if_neg Bool.false_ne_true,
    if_pos (by simpa using opens), List.singleton_append, within]
  simp

structure Plain (pair : String × String) : Prop where
  key : isName pair.1.toList = true
  closed : mark ∉ pair.2.toList
  whole : '&' ∉ pair.2.toList

def assignments (pairs : List (String × String)) : List Char :=
  pairs.flatMap fun pair => (assignment pair.1 pair.2).toList

def Attributes.ofList : List (String × String) → Attributes
  | [] => .done
  | pair :: rest => .next pair.1.toList pair.2.toList (ofList rest)

theorem toList_assignment (key value : String) :
    (assignment key value).toList = ' ' :: key.toList ++ '=' :: mark :: value.toList ++ [mark] := by
  simp [assignment, mark]

theorem quiet_assignments {pairs : List (String × String)} (plain : ∀ pair ∈ pairs, Plain pair) :
    Quiet (assignments pairs) := by
  induction pairs with
  | nil => exact fun _ _ => rfl
  | cons pair rest ih =>
    have front := plain pair List.mem_cons_self
    have parts : (assignment pair.1 pair.2).toList =
        [' '] ++ pair.1.toList ++ ['='] ++ (mark :: pair.2.toList ++ [mark]) := by
      simp [toList_assignment]
    rw [assignments, List.flatMap_cons, parts]
    refine Quiet.append ?_ (ih fun other inside => plain other (List.mem_cons_of_mem _ inside))
    refine Quiet.append (Quiet.append (Quiet.append ?_ (quiet_name front.key)) ?_)
      (quiet_quoted isQuote_mark front.closed)
    · exact quiet_plain (by simp)
    · exact quiet_plain (by simp)

private theorem skipSpace_append {space : List Char} (spaces : ∀ d ∈ space, isSpace d = true) (dark : isSpace c = false)
    (rest : List Char) : skipSpace (space ++ c :: rest) = (space.length, c :: rest) := by
  obtain ⟨front, back⟩ := split_at rest spaces dark
  rw [skipSpace, front, back]

private theorem splitKey_name (named : isName name = true) (stop : (isSpace c || c == '=') = true) (rest : List Char) :
    splitKey (name ++ c :: rest) = (name, c :: rest) := by
  cases name with
  | nil => cases named
  | cons start more =>
    have inner : ∀ d ∈ more, (!(isSpace d || d == '=')) = true := by
      intro d inside
      have member := List.mem_cons_of_mem start inside
      have other : d ≠ '=' := by
        rintro rfl
        exact not_mem_name named (by decide) member
      simp [isSpace_of_mem_name named member, other]
    obtain ⟨front, back⟩ := split_at rest inner (c := c) (by rw [stop]; rfl)
    rw [List.cons_append, splitKey, front, back]

/-- An attribute is read as its key and value, whatever space there is and whichever quotes. -/
theorem attributesFrom_quoted (fuel offset : Nat) (seen : List (List Char × Nat)) {lead key before behind : List Char}
    {quote : Char} (spaces : ∀ d ∈ lead ++ before ++ behind, isSpace d = true) (named : isName key = true)
    (quoted : isQuote quote = true) (closed : quote ∉ value) (fresh : seen.lookup key = none) (rest : List Char) :
    ∃ later start, attributesFrom (fuel + 1) offset seen
        (lead ++ (key ++ (before ++ '=' :: (behind ++ quote :: (value ++ quote :: rest))))) =
      .next key value (attributesFrom fuel later ((key, start) :: seen) rest) := by
  obtain ⟨⟨leads, befores⟩, behinds⟩ := (List.forall_mem_append.trans (and_congr_left' List.forall_mem_append)).mp spaces
  obtain ⟨first, more, rfl⟩ : ∃ first more, key = first :: more := by
    cases key with
    | nil => cases named
    | cons first more => exact ⟨first, more, rfl⟩
  have dark : isSpace first = false := isSpace_of_mem_name named List.mem_cons_self
  have stop : ∃ d behind', before ++ '=' :: (behind ++ quote :: (value ++ quote :: rest)) = d :: behind' ∧
      (isSpace d || d == '=') = true := by
    cases before with
    | nil => exact ⟨'=', _, rfl, by decide⟩
    | cons d inner => exact ⟨d, _, rfl, by rw [befores d List.mem_cons_self]; rfl⟩
  have inner : ∀ d ∈ value, (d != quote) = true := by
    intro d inside
    rw [bne_iff_ne]
    exact fun same => closed (same ▸ inside)
  obtain ⟨front, back⟩ := split_at rest inner (c := quote) (by simp)
  obtain ⟨d, text, spelled, stops⟩ := stop
  have equals := skipSpace_append befores (by decide : isSpace '=' = false) (behind ++ quote :: (value ++ quote :: rest))
  rw [spelled] at equals
  rw [attributesFrom, spelled, List.cons_append, skipSpace_append leads dark]
  simp only [List.isEmpty_cons, Bool.false_eq_true, ↓reduceIte]
  rw [← List.cons_append, splitKey_name named stops, equals]
  simp only [fresh, skipSpace_append behinds (isSpace_of_isQuote quoted), front, back]
  exact ⟨_, _, if_pos (by simpa [isQuote] using quoted)⟩

private theorem attributesFrom_cons (fuel offset : Nat) (seen : List (List Char × Nat)) (pair : String × String)
    (rest : List Char) (plain : Plain pair) (fresh : seen.lookup pair.1.toList = none) :
    ∃ behind start, attributesFrom (fuel + 1) offset seen ((assignment pair.1 pair.2).toList ++ rest) =
      .next pair.1.toList pair.2.toList (attributesFrom fuel behind ((pair.1.toList, start) :: seen) rest) := by
  have text : (assignment pair.1 pair.2).toList ++ rest =
      [' '] ++ (pair.1.toList ++ ([] ++ '=' :: ([] ++ mark :: (pair.2.toList ++ mark :: rest)))) := by
    simp [toList_assignment]
  have spaces : ∀ d ∈ [' '] ++ [] ++ [], isSpace d = true := List.forall_mem_singleton.mpr rfl
  rw [text]
  exact attributesFrom_quoted fuel offset seen spaces plain.key isQuote_mark plain.closed fresh rest

theorem attributesFrom_assignments {pairs : List (String × String)} (fuel offset : Nat) (seen : List (List Char × Nat))
    (plain : ∀ pair ∈ pairs, Plain pair) (distinct : (pairs.map Prod.fst).Nodup)
    (fresh : ∀ pair ∈ pairs, seen.lookup pair.1.toList = none) (enough : pairs.length < fuel) :
    attributesFrom fuel offset seen (assignments pairs) = .ofList pairs := by
  induction pairs generalizing fuel offset seen with
  | nil =>
    cases fuel with
    | zero => cases enough
    | succ fuel => rfl
  | cons pair rest ih =>
    cases fuel with
    | zero => cases enough
    | succ fuel =>
      obtain ⟨other, distinct⟩ := List.nodup_cons.mp distinct
      obtain ⟨behind, start, read⟩ := attributesFrom_cons fuel offset seen pair (assignments rest)
        (plain pair List.mem_cons_self) (fresh pair List.mem_cons_self)
      have later : ∀ more ∈ rest, ((pair.1.toList, start) :: seen).lookup more.1.toList = none := by
        intro more inside
        have apart : (more.1.toList == pair.1.toList) = false := by
          rw [beq_eq_false_iff_ne]
          intro same
          exact other (String.toList_injective same ▸ List.mem_map_of_mem inside)
        rw [List.lookup_cons, apart]
        exact fresh more (List.mem_cons_of_mem pair inside)
      rw [assignments, List.flatMap_cons, ← assignments, read, Attributes.ofList,
        ih fuel behind _ (fun more inside => plain more (List.mem_cons_of_mem pair inside)) distinct later
          (Nat.lt_of_succ_lt_succ enough)]

private theorem length_le_assignments (pairs : List (String × String)) : pairs.length ≤ (assignments pairs).length := by
  induction pairs with
  | nil => exact Nat.le_refl 0
  | cons pair rest ih =>
    rw [assignments, List.flatMap_cons, ← assignments, List.length_append, toList_assignment, List.length_cons]
    simp only [List.length_append, List.length_cons]
    omega

private theorem read_assignments (name : List Char) {pairs : List (String × String)}
    (plain : ∀ pair ∈ pairs, Plain pair)
    (distinct : (pairs.map Prod.fst).Nodup) : TagText.read ⟨name, assignments pairs⟩ = .ofList pairs := by
  apply attributesFrom_assignments _ _ [] plain distinct
  · intro pair _
    rfl
  · exact Nat.lt_succ_of_le (length_le_assignments pairs)

def nodePairs (rule : RuleId) : List (String × String) := [(ruleKey, Numeral.decimal rule.toNat)]

def spanPairs (span : Span) : List (String × String) :=
  [(firstLineKey, Numeral.decimal span.first.line.toNat), (firstColumnKey, Numeral.signed span.first.column.toInt),
    (lastLineKey, Numeral.decimal span.last.line.toNat), (lastColumnKey, Numeral.signed span.last.column.toInt)]

def tokenPairs (token : Token) : List (String × String) :=
  spanPairs token.span ++ if token.channel.isHidden then [(hiddenKey, "true")] else []

private theorem plain_signed {key : String} (named : isName key.toList = true) (number : Int) :
    Plain (key, Numeral.signed number) := by
  have free : ∀ d, d ≠ '-' → Numeral.digit? 10 d = none → d ∉ (Numeral.signed number).toList := by
    intro d sign none inside
    cases Numeral.mem_signed inside with
    | inl same => exact sign same
    | inr digit => rw [none] at digit; cases digit
  exact ⟨named, free mark (by decide) (by decide), free '&' (by decide) (by decide)⟩

private theorem plain_decimal {key : String} (named : isName key.toList = true) (number : Nat) :
    Plain (key, Numeral.decimal number) :=
  plain_signed named (.ofNat number)

theorem plain_nodePairs {rule : RuleId} : ∀ pair ∈ nodePairs rule, Plain pair := by
  intro pair inside
  cases List.mem_singleton.mp inside
  exact plain_decimal (by decide) _

theorem plain_tokenPairs (token : Token) : ∀ pair ∈ tokenPairs token, Plain pair := by
  have hidden : Plain (hiddenKey, "true") := ⟨by decide, by decide, by decide⟩
  intro pair inside
  simp only [tokenPairs, spanPairs, List.mem_append, List.mem_cons, List.not_mem_nil, or_false] at inside
  rcases inside with (rfl | rfl | rfl | rfl) | inside
  · exact plain_decimal (by decide) _
  · exact plain_signed (by decide) _
  · exact plain_decimal (by decide) _
  · exact plain_signed (by decide) _
  · split at inside
    next => cases List.mem_singleton.mp inside; exact hidden
    next => cases inside

private theorem distinct_tokenPairs (token : Token) : ((tokenPairs token).map Prod.fst).Nodup := by
  have all : [firstLineKey, firstColumnKey, lastLineKey, lastColumnKey, hiddenKey].Nodup := by decide
  unfold tokenPairs
  split
  · exact all
  · exact all.sublist (List.sublist_append_left [firstLineKey, firstColumnKey, lastLineKey, lastColumnKey] [hiddenKey])

theorem toList_tokenTag (token : Token) :
    (tokenTag token).toList = token.kind.toList ++ assignments (tokenPairs token) := by
  unfold tokenTag tokenPairs spanPairs assignments
  split <;> simp

private theorem Fields.read_cons (fields : Fields) (element : String) {pair : String × String}
    (rest : List (String × String))
    (plain : Plain pair) : fields.read element (.ofList (pair :: rest)) =
      (fields.set element pair.1 pair.2.toList).bind fun fields => fields.read element (.ofList rest) := by
  rw [Attributes.ofList, Fields.read, unescape, unescapeFrom_plain _ plain.whole]
  simp only [String.ofList_toList]

theorem opening_node (name : String) (rule : RuleId) :
    TagText.opening ⟨name.toList, assignments (nodePairs rule)⟩ = .ok (.node name rule) := by
  have distinct : ((nodePairs rule).map Prod.fst).Nodup := List.pairwise_singleton _ ruleKey
  rw [TagText.opening, read_assignments _ plain_nodePairs distinct, nodePairs,
    Fields.read_cons _ _ _ (plain_decimal (by decide) _)]
  simp [Fields.set, number, Numeral.word?_decimal, Attributes.ofList, Fields.read, Fields.opening, Except.map,
    Except.bind]

private theorem Fields.read_span (element : String) (span : Span) (more : List (String × String)) :
    Fields.read {} element (.ofList (spanPairs span ++ more)) =
      Fields.read ⟨none, some span.first.line, some span.first.column, some span.last.line, some span.last.column, none⟩
        element (.ofList more) := by
  have firstLine (fields : Fields) : fields.set element firstLineKey (Numeral.decimal span.first.line.toNat).toList =
      .ok { fields with firstLine := some span.first.line } := by
    rw [set, if_neg (by decide), if_pos rfl, number, Numeral.word?_decimal]
    rfl
  have firstColumn (fields : Fields) :
      fields.set element firstColumnKey (Numeral.signed span.first.column.toInt).toList =
      .ok { fields with firstColumn := some span.first.column } := by
    rw [set, if_neg (by decide), if_neg (by decide), if_pos rfl, number, Numeral.signedWord?_signed]
    rfl
  have lastLine (fields : Fields) : fields.set element lastLineKey (Numeral.decimal span.last.line.toNat).toList =
      .ok { fields with lastLine := some span.last.line } := by
    rw [set, if_neg (by decide), if_neg (by decide), if_neg (by decide), if_pos rfl, number, Numeral.word?_decimal]
    rfl
  have lastColumn (fields : Fields) : fields.set element lastColumnKey (Numeral.signed span.last.column.toInt).toList =
      .ok { fields with lastColumn := some span.last.column } := by
    rw [set, if_neg (by decide), if_neg (by decide), if_neg (by decide), if_neg (by decide), if_pos rfl, number,
      Numeral.signedWord?_signed]
    rfl
  simp only [spanPairs, List.cons_append, List.nil_append]
  rw [read_cons _ _ _ (plain_decimal (by decide) _), firstLine, Except.bind,
    read_cons _ _ _ (plain_signed (by decide) _), firstColumn, Except.bind,
    read_cons _ _ _ (plain_decimal (by decide) _), lastLine, Except.bind,
    read_cons _ _ _ (plain_signed (by decide) _), lastColumn, Except.bind]

theorem opening_token (token : Token) :
    TagText.opening ⟨token.kind.toList, assignments (tokenPairs token)⟩ =
      .ok (.token token.kind token.channel token.span) := by
  rw [TagText.opening, read_assignments _ (plain_tokenPairs token) (distinct_tokenPairs token), tokenPairs,
    Fields.read_span]
  cases token.channel with
  | visible => simp [Channel.isHidden, Attributes.ofList, Fields.read, Fields.opening, channel, Except.map, Except.bind]
  | hidden =>
    rw [Channel.isHidden, if_pos rfl, Fields.read_cons _ _ _ ⟨by decide, by decide, by decide⟩, Fields.set,
      if_neg (by decide), if_neg (by decide), if_neg (by decide), if_neg (by decide), if_neg (by decide), if_pos rfl]
    simp [Attributes.ofList, Fields.read, Fields.opening, channel, Except.map, Except.bind]

theorem scanMarkup_name (offset : Nat) (names : List (List Char)) (rest : List Char) (named : isName name = true) :
    scanMarkup offset names (name ++ rest) = scanTag offset names (name ++ rest) := by
  cases name with
  | nil => cases named
  | cons start more =>
    have apart : ∀ d, isNameChar d = false → (start == d) = false := by
      intro d other
      rw [beq_eq_false_iff_ne]
      rintro rfl
      exact not_mem_name named other List.mem_cons_self
    rw [List.cons_append, scanMarkup, apart '!' (by decide), apart '?' (by decide), apart '/' (by decide)]
    rfl

private theorem assignments_cons (pair : String × String) (rest : List (String × String)) :
    ∃ more, assignments (pair :: rest) = ' ' :: more := by
  rw [assignments, List.flatMap_cons, toList_assignment]
  exact ⟨_, rfl⟩

theorem getLast?_assignments {pairs : List (String × String)} (filled : pairs ≠ []) :
    (assignments pairs).getLast? = some mark := by
  obtain ⟨front, pair, rfl⟩ := List.eq_nil_or_concat pairs |>.resolve_left filled
  rw [assignments, List.concat_eq_append, List.flatMap_append, List.flatMap_singleton, toList_assignment,
    ← List.append_assoc, List.getLast?_concat]

private theorem ofBody_assignments (named : isName name = true) {pairs : List (String × String)} (filled : pairs ≠ []) :
    TagText.ofBody (name ++ assignments pairs) = ⟨name, assignments pairs⟩ := by
  obtain ⟨pair, rest, rfl⟩ := List.exists_cons_of_ne_nil filled
  obtain ⟨more, spelled⟩ := assignments_cons pair rest
  have dark : ∀ d ∈ name, (!isSpace d) = true := by
    intro d inside
    rw [isSpace_of_mem_name named inside]
    rfl
  obtain ⟨front, back⟩ := split_at more dark (c := ' ') (by decide)
  rw [TagText.ofBody, spelled, front, back]

/-- The start tag of an element is one piece, and the element is open behind it. -/
theorem scanMarkup_start (offset : Nat) (names : List (List Char)) (rest : List Char) (named : isName name = true)
    {pairs : List (String × String)} (filled : pairs ≠ []) (plain : ∀ pair ∈ pairs, Plain pair) :
    ∃ behind, scanMarkup offset names (name ++ assignments pairs ++ '>' :: rest) =
      .piece (some (.start ⟨name, assignments pairs⟩)) behind (name :: names) rest := by
  have quiet := Quiet.append (quiet_name named) (quiet_assignments plain)
  have last : (name ++ assignments pairs).getLast? = some mark := by
    rw [List.getLast?_append, getLast?_assignments filled]
    rfl
  rw [List.append_assoc, scanMarkup_name offset names _ named, ← List.append_assoc, scanTag, quiet.splitTag?]
  simp only [last, ofBody_assignments named filled]
  exact ⟨_, rfl⟩

theorem scanMarkup_empty (offset : Nat) (names : List (List Char)) (rest : List Char) (named : isName name = true)
    {pairs : List (String × String)} (filled : pairs ≠ []) (plain : ∀ pair ∈ pairs, Plain pair) :
    ∃ behind, scanMarkup offset names (name ++ assignments pairs ++ '/' :: '>' :: rest) =
      .piece (some (.empty ⟨name, assignments pairs⟩)) behind names rest := by
  have slash : Quiet ['/'] := quiet_plain (by simp)
  have quiet := Quiet.append (Quiet.append (quiet_name named) (quiet_assignments plain)) slash
  have text : name ++ assignments pairs ++ '/' :: '>' :: rest = name ++ assignments pairs ++ ['/'] ++ '>' :: rest := by
    simp
  rw [List.append_assoc, scanMarkup_name offset names _ named, ← List.append_assoc, text, scanTag, quiet.splitTag?]
  simp only [List.getLast?_concat, List.dropLast_concat, ofBody_assignments named filled]
  exact ⟨_, rfl⟩

private theorem trimName_append {space : List Char} (named : isName name = true)
    (spaces : ∀ d ∈ space, isSpace d = true) :
    trimName (name ++ space) = name := by
  have dark : (name ++ space).reverse.dropWhile isSpace = name.reverse := by
    rw [List.reverse_append, List.dropWhile_append_of_pos fun d inside => spaces d (List.mem_reverse.mp inside)]
    cases spelled : name.reverse with
    | nil => rfl
    | cons last front =>
      have inside : last ∈ name := List.mem_reverse.mp (spelled ▸ List.mem_cons_self)
      rw [List.dropWhile_cons, isSpace_of_mem_name named inside]
      rfl
  have filled : name.isEmpty = false := by
    cases name with
    | nil => cases named
    | cons => rfl
  simp only [trimName, dark, List.reverse_reverse, filled, Bool.false_eq_true, ↓reduceIte]

theorem scanMarkup_finish (offset : Nat) (names : List (List Char)) (rest : List Char) (named : isName name = true)
    {space : List Char} (spaces : ∀ d ∈ space, isSpace d = true) :
    ∃ behind, scanMarkup offset (name :: names) ('/' :: (name ++ space) ++ '>' :: rest) =
      .piece (some .finish) behind names rest := by
  have inner : ∀ d ∈ '/' :: (name ++ space), (d != '>') = true := by
    intro d inside
    rw [bne_iff_ne]
    rintro rfl
    cases inside with
    | tail _ inside =>
      rcases List.mem_append.mp inside with inside | inside
      · exact not_mem_name named (by decide) inside
      · cases spaces _ inside
  obtain ⟨front, back⟩ := split_at rest inner (c := '>') (by decide)
  rw [List.cons_append, scanMarkup, if_neg (by decide), if_neg (by decide), if_pos (by decide), scanEnd, splitLoose,
    ← List.cons_append, front, back]
  simp only [List.drop_one, List.tail_cons, trimName_append named spaces, ↓reduceIte]
  exact ⟨_, rfl⟩

theorem scanMarkup_end (offset : Nat) (names : List (List Char)) (rest : List Char) (named : isName name = true) :
    ∃ behind, scanMarkup offset (name :: names) ('/' :: name ++ '>' :: rest) =
      .piece (some .finish) behind names rest := by
  have found := @scanMarkup_finish name offset names rest named [] nofun
  rwa [List.append_nil] at found

end Verbatim.Xml
