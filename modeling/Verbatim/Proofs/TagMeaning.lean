import Mathlib.Logic.Function.Basic
import Verbatim.Proofs.TreeBuilding
import Verbatim.Xml.Reader

/-! What a tag says. Its attributes have different keys, so each key has one value and their order has no
meaning. A tag says something if its references and numbers can be read, and it has a rule or else all of a
span; then it is read as just that. -/

namespace Verbatim.Xml

namespace Attributes

/-- The keys with the values as they are written, up to the end or to the first fault. -/
def pairs : Attributes → List (List Char × List Char)
  | .done | .fault _ => []
  | .next key value rest => (key, value) :: rest.pairs

def Whole : Attributes → Prop
  | .done => True
  | .fault _ => False
  | .next _ _ rest => rest.Whole

instance decideWhole : (attributes : Attributes) → Decidable attributes.Whole
  | .done => .isTrue trivial
  | .fault _ => .isFalse id
  | .next _ _ rest => decideWhole rest

end Attributes

/-- No key occurs twice, or again behind those that were seen before. -/
private theorem distinct_attributesFrom (fuel offset : Nat) (seen : List (List Char × Nat)) (text : List Char) :
    ((attributesFrom fuel offset seen text).pairs.map Prod.fst).Nodup ∧
      ∀ pair ∈ (attributesFrom fuel offset seen text).pairs, seen.lookup pair.1 = none := by
  induction fuel generalizing offset seen text with
  | zero => simp [attributesFrom, Attributes.pairs]
  | succ fuel ih =>
    have none (attributes : Attributes) (empty : attributes.pairs = []) :
        (attributes.pairs.map Prod.fst).Nodup ∧ ∀ pair ∈ attributes.pairs, seen.lookup pair.1 = none := by
      rw [empty]
      simp
    rw [attributesFrom]
    dsimp only
    split
    · exact none _ rfl
    split
    · split
      · exact none _ rfl
      next fresh =>
      split
      · exact none _ rfl
      split
      · split
        · exact none _ rfl
        next rest _ =>
        rw [Attributes.pairs, List.map_cons, List.nodup_cons, List.forall_mem_cons]
        generalize behind : (_ :: seen) = known
        generalize place : _ + 1 = start
        obtain ⟨distinct, later⟩ := ih start known rest
        subst behind
        refine ⟨⟨?_, distinct⟩, fresh, fun pair member => ?_⟩
        · intro member
          obtain ⟨pair, inside, same⟩ := List.mem_map.mp member
          have absent := later pair inside
          rw [same, List.lookup_cons, beq_self_eq_true] at absent
          cases absent
        · have absent := later pair member
          rw [List.lookup_cons] at absent
          split at absent
          · cases absent
          · exact absent
      · exact none _ rfl
    · exact none _ rfl

def decoded? (raw : List Char) : Option (List Char) := (unescape raw).toOption

theorem decoded?_eq_some_iff {raw value : List Char} : decoded? raw = some value ↔ unescape raw = .ok value := by
  unfold decoded?
  cases unescape raw <;> simp [Except.toOption]

def wordKeys : List String := [ruleKey, firstLineKey, lastLineKey]

def columnKeys : List String := [firstColumnKey, lastColumnKey]

/-- A value that its key may have. Keys without meaning may have any. -/
structure Suits (key : String) (value : List Char) : Prop where
  word : key ∈ wordKeys → (Numeral.word? 10 value).isSome
  column : key ∈ columnKeys → (Numeral.signedWord? value).isSome

/-- The fields with one attribute taken into account, which is passed over where it has no meaning. -/
def Fields.take (fields : Fields) (key : String) (value : Option (List Char)) : Fields where
  rule := if key = ruleKey then value.bind (Numeral.word? 10) else fields.rule
  firstLine := if key = firstLineKey then value.bind (Numeral.word? 10) else fields.firstLine
  firstColumn := if key = firstColumnKey then value.bind Numeral.signedWord? else fields.firstColumn
  lastLine := if key = lastLineKey then value.bind (Numeral.word? 10) else fields.lastLine
  lastColumn := if key = lastColumnKey then value.bind Numeral.signedWord? else fields.lastColumn
  hidden := if key = hiddenKey then value else fields.hidden

private theorem suits_word {key : String} {value : List Char} (listed : key ∈ wordKeys) (apart : key ∉ columnKeys) :
    Suits key value ↔ (Numeral.word? 10 value).isSome :=
  ⟨fun suits => suits.word listed, fun read => ⟨fun _ => read, fun column => absurd column apart⟩⟩

private theorem suits_column {key : String} {value : List Char} (listed : key ∈ columnKeys) (apart : key ∉ wordKeys) :
    Suits key value ↔ (Numeral.signedWord? value).isSome :=
  ⟨fun suits => suits.column listed, fun read => ⟨fun word => absurd word apart, fun _ => read⟩⟩

private theorem suits_other {key : String} {value : List Char} (apart : key ∉ wordKeys) (other : key ∉ columnKeys) :
    Suits key value :=
  ⟨fun word => absurd word apart, fun column => absurd column other⟩

private theorem map_number_eq_ok_iff {element key : String} {value : List Char} {read? : List Char → Option α}
    {next : Fields}
    (change : Option α → Fields) (suits : Suits key value ↔ (read? value).isSome) :
    (number element key value read?).map (fun result => change (some result)) = .ok next ↔
      Suits key value ∧ next = change (read? value) := by
  rw [suits, number]
  cases read? value with
  | none => simp [Except.map]
  | some result => simp [Except.map, eq_comm]

private theorem Fields.set_eq_ok_iff {fields next : Fields} {element key : String} {value : List Char} :
    fields.set element key value = .ok next ↔ Suits key value ∧ next = fields.take key (some value) := by
  unfold set
  split
  next same =>
    subst same
    exact map_number_eq_ok_iff (fun rule => { fields with rule := rule }) (suits_word (by decide) (by decide))
  split
  next same =>
    subst same
    exact map_number_eq_ok_iff (fun line => { fields with firstLine := line }) (suits_word (by decide) (by decide))
  split
  next same =>
    subst same
    exact map_number_eq_ok_iff (fun column => { fields with firstColumn := column })
      (suits_column (by decide) (by decide))
  split
  next same =>
    subst same
    exact map_number_eq_ok_iff (fun line => { fields with lastLine := line }) (suits_word (by decide) (by decide))
  split
  next same =>
    subst same
    exact map_number_eq_ok_iff (fun column => { fields with lastColumn := column })
      (suits_column (by decide) (by decide))
  split
  next same =>
    subst same
    rw [Except.ok.injEq, and_iff_right (suits_other (by decide) (by decide)), eq_comm]
    rfl
  next =>
    have apart : key ∉ wordKeys := by simp [wordKeys, *]
    have other : key ∉ columnKeys := by simp [columnKeys, *]
    have unchanged : fields.take key (some value) = fields := by simp [take, *]
    rw [Except.ok.injEq, and_iff_right (suits_other apart other), unchanged, eq_comm]

def Fields.ofValues (value? : String → Option (List Char)) : Fields where
  rule := (value? ruleKey).bind (Numeral.word? 10)
  firstLine := (value? firstLineKey).bind (Numeral.word? 10)
  firstColumn := (value? firstColumnKey).bind Numeral.signedWord?
  lastLine := (value? lastLineKey).bind (Numeral.word? 10)
  lastColumn := (value? lastColumnKey).bind Numeral.signedWord?
  hidden := value? hiddenKey

private theorem Fields.take_ofValues (value? : String → Option (List Char)) (key : String)
    (value : Option (List Char)) :
    (ofValues value?).take key value = ofValues (Function.update value? key value) := by
  simp only [take, ofValues, Function.update_apply, @eq_comm _ key]
  congr 1 <;> split <;> rfl

/-- What the attributes give for each key if they come behind those that gave `value?`. -/
def valuesFrom (value? : String → Option (List Char)) (pairs : List (List Char × List Char)) :
    String → Option (List Char) :=
  pairs.foldl (fun value? pair => Function.update value? (String.ofList pair.1) (decoded? pair.2)) value?

def Readable (pair : List Char × List Char) : Prop :=
  ∃ value, unescape pair.2 = .ok value ∧ Suits (String.ofList pair.1) value

/-- Attributes are read exactly if each of them is, and then each counts for its key. -/
private theorem Fields.read_eq_ok_iff {element : String} {attributes : Attributes}
    {value? : String → Option (List Char)}
    {next : Fields} : (ofValues value?).read element attributes = .ok next ↔
      attributes.Whole ∧ (∀ pair ∈ attributes.pairs, Readable pair) ∧
        next = ofValues (valuesFrom value? attributes.pairs) := by
  induction attributes generalizing value? with
  | done => simp [read, Attributes.Whole, Attributes.pairs, valuesFrom, eq_comm]
  | fault fault => simp [read, Attributes.Whole]
  | next key raw rest ih =>
    rw [read, Attributes.Whole, Attributes.pairs, List.forall_mem_cons]
    cases resolved : unescape raw with
    | error fault => simp [Readable, resolved]
    | ok value =>
      have known : decoded? raw = some value := decoded?_eq_some_iff.mpr resolved
      have first : Readable (key, raw) ↔ Suits (String.ofList key) value := by simp [Readable, resolved]
      have later : valuesFrom value? ((key, raw) :: rest.pairs) =
          valuesFrom (Function.update value? (String.ofList key) (some value)) rest.pairs := by
        rw [valuesFrom, List.foldl_cons, known, ← valuesFrom]
      rw [first, later]
      dsimp only
      rw [bind_eq_ok]
      constructor
      · rintro ⟨fields, taken, behind⟩
        obtain ⟨suits, rfl⟩ := set_eq_ok_iff.mp taken
        rw [take_ofValues, ih] at behind
        exact ⟨behind.1, ⟨suits, behind.2.1⟩, behind.2.2⟩
      · rintro ⟨whole, ⟨suits, readable⟩, same⟩
        refine ⟨_, set_eq_ok_iff.mpr ⟨suits, rfl⟩, ?_⟩
        rw [take_ofValues, ih]
        exact ⟨whole, readable, same⟩

private theorem lookup_of_mem {pairs : List (List Char × List Char)} {pair : List Char × List Char}
    (distinct : (pairs.map Prod.fst).Nodup) (inside : pair ∈ pairs) : pairs.lookup pair.1 = some pair.2 := by
  induction pairs with
  | nil => cases inside
  | cons first rest ih =>
    obtain ⟨unlisted, distinct⟩ := List.nodup_cons.mp distinct
    rw [List.lookup_cons]
    cases inside with
    | head => rw [beq_self_eq_true]
    | tail _ later =>
      have apart : (pair.1 == first.1) = false := by
        rw [beq_eq_false_iff_ne]
        exact fun same => unlisted (same ▸ List.mem_map_of_mem later)
      rw [apart]
      exact ih distinct later

private theorem valuesFrom_apply {pairs : List (List Char × List Char)} (distinct : (pairs.map Prod.fst).Nodup)
    (value? : String → Option (List Char)) (key : String) :
    valuesFrom value? pairs key =
      match pairs.lookup key.toList with
      | some raw => decoded? raw
      | none => value? key := by
  induction pairs generalizing value? with
  | nil => rfl
  | cons pair rest ih =>
    obtain ⟨unlisted, distinct⟩ := List.nodup_cons.mp distinct
    rw [valuesFrom, List.foldl_cons, ← valuesFrom, ih distinct, List.lookup_cons]
    by_cases same : key.toList = pair.1
    · have absent : rest.lookup key.toList = none := by
        rw [List.lookup_eq_none_iff]
        intro other inside
        rw [bne_iff_ne, same]
        exact fun again => unlisted (List.mem_map.mpr ⟨other, inside, again.symm⟩)
      rw [absent, ← same, beq_self_eq_true, String.ofList_toList, Function.update_self]
    · have apart : key ≠ String.ofList pair.1 := by
        rintro rfl
        exact same (String.toList_ofList)
      rw [beq_eq_false_iff_ne.mpr same, Function.update_of_ne apart]

def Opening.name : Opening → String
  | .node name _ => name
  | .token kind _ _ => kind

namespace TagText

/-- The attribute of a key is there, whatever its value. -/
def Has (tag : TagText) (key : String) : Prop := key.toList ∈ tag.read.pairs.map Prod.fst

def value? (tag : TagText) (key : String) : Option (List Char) := (tag.read.pairs.lookup key.toList).bind decoded?

def word? (tag : TagText) (key : String) : Option UInt32 := (tag.value? key).bind (Numeral.word? 10)

def signed? (tag : TagText) (key : String) : Option Int32 := (tag.value? key).bind Numeral.signedWord?

/-- A tag of an element that a tree can have. -/
structure Meaningful (tag : TagText) : Prop where
  references : ∀ pair ∈ tag.read.pairs, ∃ value, unescape pair.2 = .ok value
  words : ∀ key ∈ wordKeys, tag.Has key → (tag.word? key).isSome
  columns : ∀ key ∈ columnKeys, tag.Has key → (tag.signed? key).isSome
  sort : tag.Has ruleKey ∨ (∀ key ∈ [firstLineKey, firstColumnKey, lastLineKey, lastColumnKey], tag.Has key) ∧
    tag.value? hiddenKey ∈ [none, some "true".toList, some "false".toList]

/-- The element that a tag starts: a node by its rule, or a token by its span. -/
def meaning? (tag : TagText) : Option Opening :=
  let name := String.ofList tag.name
  match tag.word? ruleKey with
  | some rule => some (.node name rule)
  | none =>
    match tag.word? firstLineKey, tag.signed? firstColumnKey, tag.word? lastLineKey, tag.signed? lastColumnKey with
    | some firstLine, some firstColumn, some lastLine, some lastColumn =>
      let channel := if tag.value? hiddenKey = some "true".toList then .hidden else .visible
      some (.token name channel ⟨⟨firstLine, firstColumn⟩, ⟨lastLine, lastColumn⟩⟩)
    | _, _, _, _ => none

theorem distinct (tag : TagText) : (tag.read.pairs.map Prod.fst).Nodup := (distinct_attributesFrom _ _ _ _).1

private theorem valuesFrom_pairs (tag : TagText) : valuesFrom (fun _ => none) tag.read.pairs = tag.value? := by
  funext key
  rw [valuesFrom_apply tag.distinct, value?]
  cases tag.read.pairs.lookup key.toList <;> rfl

private theorem value?_of_mem {tag : TagText} {pair : List Char × List Char} (inside : pair ∈ tag.read.pairs) :
    tag.value? (String.ofList pair.1) = decoded? pair.2 := by
  rw [value?, String.toList_ofList, lookup_of_mem tag.distinct inside, Option.bind_some]

private theorem has_iff {tag : TagText} {key : String} :
    tag.Has key ↔ ∃ pair ∈ tag.read.pairs, String.ofList pair.1 = key := by
  rw [Has, List.mem_map]
  refine exists_congr fun pair => and_congr_right fun _ => ?_
  constructor
  · intro same
    rw [same, String.ofList_toList]
  · rintro rfl
    exact String.toList_ofList.symm

private theorem readable_iff (tag : TagText) : (∀ pair ∈ tag.read.pairs, Readable pair) ↔
    (∀ pair ∈ tag.read.pairs, ∃ value, unescape pair.2 = .ok value) ∧
      (∀ key ∈ wordKeys, tag.Has key → (tag.word? key).isSome) ∧
      ∀ key ∈ columnKeys, tag.Has key → (tag.signed? key).isSome := by
  constructor
  · intro readable
    refine ⟨fun pair inside => (readable pair inside).imp fun _ both => both.1, ?_, ?_⟩
    · intro key listed present
      obtain ⟨pair, inside, rfl⟩ := has_iff.mp present
      obtain ⟨value, resolved, suits⟩ := readable pair inside
      rw [word?, value?_of_mem inside, decoded?_eq_some_iff.mpr resolved]
      exact suits.word listed
    · intro key listed present
      obtain ⟨pair, inside, rfl⟩ := has_iff.mp present
      obtain ⟨value, resolved, suits⟩ := readable pair inside
      rw [signed?, value?_of_mem inside, decoded?_eq_some_iff.mpr resolved]
      exact suits.column listed
  · rintro ⟨references, words, columns⟩ pair inside
    obtain ⟨value, resolved⟩ := references pair inside
    have found : tag.value? (String.ofList pair.1) = some value := by
      rw [value?_of_mem inside, decoded?_eq_some_iff.mpr resolved]
    have present : tag.Has (String.ofList pair.1) := has_iff.mpr ⟨pair, inside, rfl⟩
    refine ⟨value, resolved, fun listed => ?_, fun listed => ?_⟩
    · simpa [word?, found] using words _ listed present
    · simpa [signed?, found] using columns _ listed present

theorem has_of_bind {tag : TagText} {key : String} {read? : List Char → Option α}
    (found : ((tag.value? key).bind read?).isSome) : tag.Has key := by
  rw [value?, Option.bind_assoc, Option.isSome_bind, Option.any_eq_true] at found
  obtain ⟨raw, listed, -⟩ := found
  obtain ⟨before, behind, split, -⟩ := List.lookup_eq_some_iff.mp listed
  rw [Has, split, List.map_append]
  exact List.mem_append_right _ List.mem_cons_self

private theorem word?_isSome_iff {tag : TagText} {key : String} (all : tag.Has key → (tag.word? key).isSome) :
    (tag.word? key).isSome ↔ tag.Has key :=
  ⟨has_of_bind, all⟩

private theorem signed?_isSome_iff {tag : TagText} {key : String} (all : tag.Has key → (tag.signed? key).isSome) :
    (tag.signed? key).isSome ↔ tag.Has key :=
  ⟨has_of_bind, all⟩

private theorem channel_eq_ok_iff {element : String} {value : Option (List Char)} {found : Channel} :
    channel element value = .ok found ↔ value ∈ [none, some "true".toList, some "false".toList] ∧
      found = if value = some "true".toList then .hidden else .visible := by
  cases value with
  | none => simp [channel, eq_comm]
  | some value =>
    rw [channel]
    split
    next same => simp [same, eq_comm]
    split
    next same => simp [same, eq_comm]
    next notFalse notTrue =>
      refine iff_of_false (by simp) fun both => ?_
      rcases List.mem_cons.mp both.1 with none | listed
      · cases none
      rcases List.mem_cons.mp listed with same | listed
      · exact notTrue (Option.some.inj same)
      · exact notFalse (Option.some.inj (List.mem_singleton.mp listed))

private theorem opening_ofValues {tag : TagText} {opening : Opening}
    (words : ∀ key ∈ wordKeys, tag.Has key → (tag.word? key).isSome)
    (columns : ∀ key ∈ columnKeys, tag.Has key → (tag.signed? key).isSome) :
    (Fields.ofValues tag.value?).opening (String.ofList tag.name) = .ok opening ↔
      (tag.Has ruleKey ∨ (∀ key ∈ [firstLineKey, firstColumnKey, lastLineKey, lastColumnKey], tag.Has key) ∧
        tag.value? hiddenKey ∈ [none, some "true".toList, some "false".toList]) ∧ tag.meaning? = some opening := by
  have fields : Fields.ofValues tag.value? = ⟨tag.word? ruleKey, tag.word? firstLineKey, tag.signed? firstColumnKey,
    tag.word? lastLineKey, tag.signed? lastColumnKey, tag.value? hiddenKey⟩ := rfl
  rw [fields, Fields.opening, meaning?, ← word?_isSome_iff (words ruleKey (by decide))]
  rw [List.forall_mem_cons, List.forall_mem_cons, List.forall_mem_cons, List.forall_mem_singleton]
  rw [← word?_isSome_iff (words firstLineKey (by decide)), ← word?_isSome_iff (words lastLineKey (by decide)),
    ← signed?_isSome_iff (columns firstColumnKey (by decide)), ← signed?_isSome_iff (columns lastColumnKey (by decide))]
  cases tag.word? ruleKey with
  | some rule => simp
  | none =>
    cases tag.word? firstLineKey <;> cases tag.signed? firstColumnKey <;> cases tag.word? lastLineKey <;>
      cases tag.signed? lastColumnKey <;> simp [map_eq_ok, channel_eq_ok_iff]

theorem Meaningful.meaning?_node {tag : TagText} (meaningful : tag.Meaningful) (ruled : tag.Has ruleKey) :
    ∃ rule, tag.meaning? = some (.node (String.ofList tag.name) rule) := by
  obtain ⟨rule, found⟩ := Option.isSome_iff_exists.mp (meaningful.words ruleKey (by decide) ruled)
  exact ⟨rule, by rw [meaning?, found]⟩

theorem Meaningful.meaning?_token {tag : TagText} (meaningful : tag.Meaningful) (unruled : ¬tag.Has ruleKey) :
    ∃ channel span, tag.meaning? = some (.token (String.ofList tag.name) channel span) := by
  obtain ⟨all, -⟩ := meaningful.sort.resolve_left unruled
  have rule : tag.word? ruleKey = none := by
    rw [← Option.not_isSome_iff_eq_none, word?_isSome_iff (meaningful.words ruleKey (by decide))]
    exact unruled
  have word (key : String) (counts : key ∈ wordKeys) (present : tag.Has key) : ∃ value, tag.word? key = some value :=
    Option.isSome_iff_exists.mp (meaningful.words key counts present)
  have column (key : String) (counts : key ∈ columnKeys) (present : tag.Has key) :
      ∃ value, tag.signed? key = some value :=
    Option.isSome_iff_exists.mp (meaningful.columns key counts present)
  obtain ⟨firstLine, first⟩ := word firstLineKey (by decide) (all _ (by decide))
  obtain ⟨firstColumn, second⟩ := column firstColumnKey (by decide) (all _ (by decide))
  obtain ⟨lastLine, third⟩ := word lastLineKey (by decide) (all _ (by decide))
  obtain ⟨lastColumn, fourth⟩ := column lastColumnKey (by decide) (all _ (by decide))
  rw [meaning?, rule, first, second, third, fourth]
  exact ⟨_, _, rfl⟩

theorem name_of_meaning? {tag : TagText} {opening : Opening} (meaning : tag.meaning? = some opening) :
    opening.name = String.ofList tag.name := by
  rw [meaning?] at meaning
  dsimp only at meaning
  split at meaning
  · cases meaning; rfl
  split at meaning
  · cases meaning; rfl
  · cases meaning

/-- A tag is understood exactly if it can be read and has a meaning, and then in that meaning. -/
theorem opening_eq_ok_iff {tag : TagText} {opening : Opening} :
    tag.opening = .ok opening ↔ tag.read.Whole ∧ tag.Meaningful ∧ tag.meaning? = some opening := by
  have fields : Fields.read {} (String.ofList tag.name) tag.read =
      (Fields.ofValues fun _ => none).read (String.ofList tag.name) tag.read := rfl
  rw [TagText.opening, fields, bind_eq_ok]
  simp only [Fields.read_eq_ok_iff, valuesFrom_pairs, readable_iff]
  constructor
  · rintro ⟨_, ⟨whole, ⟨references, words, columns⟩, rfl⟩, understood⟩
    obtain ⟨sort, meaning⟩ := (opening_ofValues words columns).mp understood
    exact ⟨whole, ⟨references, words, columns, sort⟩, meaning⟩
  · rintro ⟨whole, ⟨references, words, columns, sort⟩, meaning⟩
    exact ⟨_, ⟨whole, ⟨references, words, columns⟩, rfl⟩, (opening_ofValues words columns).mpr ⟨sort, meaning⟩⟩

end TagText

end Verbatim.Xml
