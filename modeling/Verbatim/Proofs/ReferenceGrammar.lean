import Verbatim.Proofs.RenderedText

/-! Which text is resolved. Every ampersand that no reference holds must begin one; numbers may have a plus sign,
which no document grammar knows. Reading looks for the next semicolon, and no reference has one inside. -/

namespace Verbatim

theorem isAlphanum_iff {c : Char} : c.isAlphanum = true ↔
    (65 ≤ c.toNat ∧ c.toNat ≤ 90 ∨ 97 ≤ c.toNat ∧ c.toNat ≤ 122) ∨ 48 ≤ c.toNat ∧ c.toNat ≤ 57 := by
  have codes : c.isAlphanum = ((decide (65 ≤ c.val ∧ c.val ≤ 90) || (97 ≤ c.val && c.val ≤ 122)) ||
      (48 ≤ c.val && c.val ≤ 57)) := rfl
  rw [codes]
  simp [UInt32.le_iff_toNat_le]

namespace Numeral

variable {base value : Nat} {text : List Char} {c : Char}

/-- A character that is the digit for a value, in either case. -/
def IsDigit (base : Nat) (c : Char) (value : Nat) : Prop :=
  value < base ∧ (c = value.digitChar ∨ c = value.digitChar.toUpper)

/-- At least one digit, and the number that the digits spell. -/
inductive Digits (base : Nat) : List Char → Nat → Prop
  | one {c : Char} {value : Nat} (digit : IsDigit base c value) : Digits base [c] value
  | more {front : List Char} {c : Char} {high value : Nat} (leading : Digits base front high)
    (digit : IsDigit base c value) : Digits base (front ++ [c]) (high * base + value)

theorem isAlphanum_of_digit? (digit : (digit? base c).isSome) : c.isAlphanum = true := by
  rw [isAlphanum_iff]
  unfold digit? at digit
  dsimp only at digit
  split at digit
  next decimal => simp at decimal; omega
  next =>
    split at digit
    next upper => simp at upper; omega
    next =>
      split at digit
      next lower => simp at lower; omega
      next => cases digit

private theorem digit?_eq_some_iff (small : base ≤ 16) : digit? base c = some value ↔ IsDigit base c value := by
  have spelled : ∀ value < 16, digit? 16 value.digitChar = some value ∧
      digit? 16 value.digitChar.toUpper = some value := by decide
  have known : ∀ code < 128, ∀ value < 16, digit? 16 (Char.ofNat code) = some value →
      Char.ofNat code = value.digitChar ∨ Char.ofNat code = value.digitChar.toUpper := by decide +kernel
  have larger : digit? base c = some value ↔ digit? 16 c = some value ∧ value < base := by
    unfold digit?
    simp only [Option.filter_eq_some_iff, decide_eq_true_eq]
    constructor
    · intro ⟨found, inside⟩
      exact ⟨⟨found, by omega⟩, inside⟩
    · intro ⟨⟨found, _⟩, inside⟩
      exact ⟨found, inside⟩
  rw [larger, IsDigit]
  constructor
  · intro ⟨found, inside⟩
    have letter := isAlphanum_iff.mp (isAlphanum_of_digit? (by rw [found]; rfl))
    have same := known c.toNat (by omega) value (by omega)
    rw [Char.ofNat_toNat] at same
    exact ⟨inside, same found⟩
  · intro ⟨inside, written⟩
    have both := spelled value (by omega)
    rcases written with lower | upper
    · rw [lower]
      exact ⟨both.1, inside⟩
    · rw [upper]
      exact ⟨both.2, inside⟩

private theorem magnitude?_concat_iff (small : base ≤ 16) (front : List Char) :
    magnitude? base (front ++ [c]) = some value ↔
      ∃ high digit, digits? base 0 front = some high ∧ IsDigit base c digit ∧ value = high * base + digit := by
  rw [magnitude?, if_neg (by simp), digits?_append, Option.bind_eq_some_iff]
  constructor
  · intro spelled
    obtain ⟨high, leading, read⟩ := spelled
    rw [digits?] at read
    split at read
    next digit found =>
      cases read
      exact ⟨high, digit, leading, (digit?_eq_some_iff small).mp found, rfl⟩
    next => cases read
  · intro spelled
    obtain ⟨high, digit, leading, found, same⟩ := spelled
    refine ⟨high, leading, ?_⟩
    rw [digits?, (digit?_eq_some_iff small).mpr found, same]
    rfl

theorem magnitude?_eq_some_iff (small : base ≤ 16) : magnitude? base text = some value ↔ Digits base text value := by
  constructor
  · intro read
    induction text using List.reverseRecOn generalizing value with
    | nil => cases read
    | append_singleton front c ih =>
      obtain ⟨high, digit, leading, found, same⟩ := (magnitude?_concat_iff small front).mp read
      rw [same]
      cases front with
      | nil =>
        cases leading
        rw [Nat.zero_mul, Nat.zero_add]
        exact .one found
      | cons first rest => exact .more (ih leading) found
  · intro digits
    induction digits with
    | one digit => exact (magnitude?_concat_iff small []).mpr ⟨0, _, rfl, digit, by simp⟩
    | @more front c high value leading digit ih =>
      apply (magnitude?_concat_iff small front).mpr
      cases front with
      | nil => cases ih
      | cons first rest => exact ⟨high, value, ih, digit, rfl⟩

private theorem unsigned?_eq_some_iff :
    unsigned? base text = some value ↔
      ∃ sign digits, (sign = [] ∨ sign = ['+']) ∧ text = sign ++ digits ∧ magnitude? base digits = some value := by
  constructor
  · intro read
    unfold unsigned? at read
    split at read
    next more => exact ⟨['+'], more, .inr rfl, rfl, read⟩
    next => exact ⟨[], text, .inl rfl, rfl, read⟩
  · intro ⟨sign, digits, signed, same, read⟩
    rw [same]
    rcases signed with none | plus
    · rw [none]
      exact unsigned?_of_magnitude? read
    · rw [plus]
      exact read

end Numeral

namespace Xml

variable {reference seen raw text rest : List Char} {c : Char} {signs : List Char → Prop}

def entities : List (List Char × Char) :=
  [("amp".toList, '&'), ("lt".toList, '<'), ("gt".toList, '>'), ("quot".toList, Char.ofNat 34),
   ("apos".toList, Char.ofNat 39)]

/-- What stands between ampersand and semicolon: the name of a character, or its number behind a mark for the
base and a sign. -/
inductive Denotes (signs : List Char → Prop) : List Char → Char → Prop
  | name {name : List Char} {c : Char} (known : (name, c) ∈ entities) : Denotes signs name c
  | decimal {sign digits : List Char} {c : Char} (signed : signs sign) (spelled : Numeral.Digits 10 digits c.toNat) :
    Denotes signs ('#' :: (sign ++ digits)) c
  | hexadecimal {sign digits : List Char} {c : Char} (signed : signs sign)
    (spelled : Numeral.Digits 16 digits c.toNat) : Denotes signs ('#' :: 'x' :: (sign ++ digits)) c

/-- Text in which every ampersand outside of a reference begins one, and what it stands for: each reference
for its character and everything else for itself. -/
inductive Resolves (refers : List Char → Char → Prop) : List Char → List Char → Prop
  | nil : Resolves refers [] []
  | char {c : Char} {raw text : List Char} (unmarked : c ≠ '&') (later : Resolves refers raw text) :
    Resolves refers (c :: raw) (c :: text)
  | reference {reference raw text : List Char} {c : Char} (found : refers reference c)
    (later : Resolves refers raw text) : Resolves refers ('&' :: reference ++ ';' :: raw) (c :: text)

/-- The numbers of documents have no sign. -/
abbrev Unsigned (sign : List Char) : Prop := sign = []

/-- Reading numbers passes over a plus sign. -/
abbrev MaybePlus (sign : List Char) : Prop := sign = [] ∨ sign = ['+']

namespace Denotes

theorem mem (denotes : Denotes signs reference c) {d : Char} (inside : d ∈ reference) :
    d = '#' ∨ d.isAlphanum = true ∨ ∃ sign, signs sign ∧ d ∈ sign := by
  have spelled {base : Nat} {digits : List Char} (small : base ≤ 16) (digit : Numeral.Digits base digits c.toNat)
      (inside : d ∈ digits) : d.isAlphanum = true :=
    Numeral.isAlphanum_of_digit? (Numeral.digit?_of_magnitude? ((Numeral.magnitude?_eq_some_iff small).mpr digit) inside)
  cases denotes with
  | name known =>
    have letters : ∀ entity ∈ entities, entity.1.all Char.isAlphanum = true := by decide
    exact .inr (.inl (List.all_eq_true.mp (letters _ known) d inside))
  | decimal signed digits =>
    rcases List.mem_cons.mp inside with mark | inside
    · exact .inl mark
    rcases List.mem_append.mp inside with sign | digit
    · exact .inr (.inr ⟨_, signed, sign⟩)
    · exact .inr (.inl (spelled (by decide) digits digit))
  | hexadecimal signed digits =>
    rcases List.mem_cons.mp inside with mark | inside
    · exact .inl mark
    rcases List.mem_cons.mp inside with letter | inside
    · exact .inr (.inl (by rw [letter]; rfl))
    rcases List.mem_append.mp inside with sign | digit
    · exact .inr (.inr ⟨_, signed, sign⟩)
    · exact .inr (.inl (spelled (by decide) digits digit))

theorem mem_unsigned (denotes : Denotes Unsigned reference c) {d : Char} (inside : d ∈ reference) :
    d = '#' ∨ d.isAlphanum = true := by
  rcases denotes.mem inside with mark | letter | ⟨sign, none, inside⟩
  · exact .inl mark
  · exact .inr letter
  · rw [none] at inside
    cases inside

private theorem mem_maybePlus (denotes : Denotes MaybePlus reference c) {d : Char} (inside : d ∈ reference) :
    d = '#' ∨ d.isAlphanum = true ∨ d = '+' := by
  rcases denotes.mem inside with mark | letter | ⟨sign, none | plus, inside⟩
  · exact .inl mark
  · exact .inr (.inl letter)
  · rw [none] at inside
    cases inside
  · rw [plus] at inside
    exact .inr (.inr (List.mem_singleton.mp inside))

end Denotes

/-- The references of a document that is rendered are those without a sign. -/
private theorem reference_iff : Reference reference c ↔ Denotes Unsigned reference c := by
  constructor
  · intro refers
    cases refers with
    | ampersand | less | greater | quote | apostrophe => exact .name (by decide)
    | decimal read => exact @Denotes.decimal _ [] _ _ rfl ((Numeral.magnitude?_eq_some_iff (by decide)).mp read)
    | hexadecimal read => exact @Denotes.hexadecimal _ [] _ _ rfl ((Numeral.magnitude?_eq_some_iff (by decide)).mp read)
  · intro denotes
    cases denotes with
    | name known =>
      simp only [entities, List.mem_cons, List.not_mem_nil, or_false, Prod.mk.injEq] at known
      rcases known with ⟨rfl, rfl⟩ | ⟨rfl, rfl⟩ | ⟨rfl, rfl⟩ | ⟨rfl, rfl⟩ | ⟨rfl, rfl⟩
      · exact .ampersand
      · exact .less
      · exact .greater
      · exact .quote
      · exact .apostrophe
    | decimal none spelled =>
      rw [none, List.nil_append]
      exact .decimal ((Numeral.magnitude?_eq_some_iff (by decide)).mpr spelled)
    | hexadecimal none spelled =>
      rw [none, List.nil_append]
      exact .hexadecimal ((Numeral.magnitude?_eq_some_iff (by decide)).mpr spelled)

section

variable {base value : Nat} {digits : List Char}

/-- Neither the word that stores a number nor the gap in the codes takes the code of a character away. -/
private theorem word?_scalar?_iff :
    (Numeral.word? base digits).bind scalar? = some c ↔ Numeral.unsigned? base digits = some c.toNat := by
  constructor
  · intro found
    obtain ⟨code, read, valid⟩ := Option.bind_eq_some_iff.mp found
    obtain ⟨value, spelled, fits⟩ := Option.bind_eq_some_iff.mp read
    split at fits
    next small =>
      cases fits
      have word : (UInt32.ofNat value).toNat = value := UInt32.toNat_ofNat_of_lt' small
      rw [scalar?, word] at valid
      split at valid
      next known =>
        cases valid
        rw [spelled, Char.ofNat, dif_pos known]
        rfl
      next => cases valid
    next => cases fits
  · intro read
    have fits : c.toNat < UInt32.size := c.val.toNat_lt
    rw [Numeral.word?, read, Option.bind_some, if_pos fits, Option.bind_some, scalar?_ofNat]

private theorem word?_scalar?_eq_some_iff (small : base ≤ 16) :
    (Numeral.word? base digits).bind scalar? = some c ↔
      ∃ sign more, MaybePlus sign ∧ digits = sign ++ more ∧ Numeral.Digits base more c.toNat := by
  rw [word?_scalar?_iff, Numeral.unsigned?_eq_some_iff]
  constructor
  · intro ⟨sign, more, signed, same, read⟩
    exact ⟨sign, more, signed, same, (Numeral.magnitude?_eq_some_iff small).mp read⟩
  · intro ⟨sign, more, signed, same, spelled⟩
    exact ⟨sign, more, signed, same, (Numeral.magnitude?_eq_some_iff small).mpr spelled⟩

end

private theorem denotes_of_resolve (found : resolve reference = .ok c) : Denotes MaybePlus reference c := by
  unfold resolve at found
  iterate 5
    split at found
    next same =>
      cases found
      exact .name (by rw [same]; decide)
  dsimp only at found
  split at found
  · cases found
  next code numeral =>
    split at found
    next known =>
      cases found
      split at numeral
      next digits =>
        cases numeral
        obtain ⟨sign, more, signed, same, spelled⟩ := (word?_scalar?_eq_some_iff (by decide)).mp known
        rw [same]
        exact .hexadecimal signed spelled
      next digits _ =>
        cases numeral
        obtain ⟨sign, more, signed, same, spelled⟩ := (word?_scalar?_eq_some_iff (by decide)).mp known
        rw [same]
        exact .decimal signed spelled
      next => cases numeral
    next => cases found

private theorem resolve_of_denotes (denotes : Denotes MaybePlus reference c) : resolve reference = .ok c := by
  cases denotes with
  | name known => exact (reference_iff.mpr (.name known)).resolve_eq
  | @decimal sign digits _ signed spelled =>
    refine Reference.resolve_decimal ?_ ((word?_scalar?_eq_some_iff (by decide)).mpr ⟨sign, digits, signed, rfl, spelled⟩)
    intro marked
    rcases List.mem_append.mp marked with inside | inside
    · rcases signed with none | plus
      · simp [none] at inside
      · simp [plus] at inside
    · have digit := Numeral.digit?_of_magnitude? ((Numeral.magnitude?_eq_some_iff (by decide)).mpr spelled) inside
      cases digit
  | @hexadecimal sign digits _ signed spelled =>
    exact Reference.resolve_hexadecimal
      ((word?_scalar?_eq_some_iff (by decide)).mpr ⟨sign, digits, signed, rfl, spelled⟩)

private theorem resolve_eq_ok_iff : resolve reference = .ok c ↔ Denotes MaybePlus reference c :=
  ⟨denotes_of_resolve, resolve_of_denotes⟩

theorem Denotes.unended (denotes : Denotes MaybePlus reference c) : ';' ∉ reference := by
  intro inside
  rcases denotes.mem_maybePlus inside with mark | letter | plus
  · cases mark
  · cases letter
  · cases plus

private theorem unescapeFrom_inside {whole : List Char} (found : unescapeFrom whole (some seen) raw = .ok text) :
    ∃ reference rest c more, raw = reference ++ ';' :: rest ∧ resolve (seen.reverse ++ reference) = .ok c ∧
      unescapeFrom whole none rest = .ok more ∧ text = c :: more := by
  induction raw generalizing seen with
  | nil => cases found
  | cons d rest ih =>
    rw [unescapeFrom] at found
    split at found
    next ends =>
      split at found
      next c known =>
        obtain ⟨more, later, same⟩ := map_eq_ok.mp found
        exact ⟨[], rest, c, more, by rw [eq_of_beq ends]; rfl, by rw [List.append_nil]; exact known, later, same.symm⟩
      next => cases found
    next =>
      obtain ⟨reference, behind, c, more, split, known, later, same⟩ := ih found
      refine ⟨d :: reference, behind, c, more, by rw [split]; rfl, ?_, later, same⟩
      rw [List.reverse_cons, List.append_assoc] at known
      exact known

-- Reading a reference takes several characters at once, so the induction is on the length.
private theorem resolves_of_unescapeFrom {whole : List Char} (found : unescapeFrom whole none raw = .ok text) :
    Resolves (Denotes MaybePlus) raw text := by
  induction length : raw.length using Nat.strongRecOn generalizing raw text with
  | ind size ih =>
    cases raw with
    | nil =>
      cases found
      exact .nil
    | cons c rest =>
      rw [unescapeFrom] at found
      rw [List.length_cons] at length
      split at found
      next marked =>
        obtain ⟨reference, behind, d, more, split, known, later, same⟩ := unescapeFrom_inside found
        have shorter : behind.length < size := by
          rw [split, List.length_append, List.length_cons] at length
          omega
        rw [eq_of_beq marked, split, same]
        exact .reference (resolve_eq_ok_iff.mp known) (ih _ shorter later rfl)
      next plain =>
        obtain ⟨more, later, same⟩ := map_eq_ok.mp found
        rw [← same]
        exact .char (by simpa using plain) (ih _ (by omega) later rfl)

private theorem Resolves.unescapeFrom_eq (resolves : Resolves (Denotes MaybePlus) raw text) (whole : List Char) :
    unescapeFrom whole none raw = .ok text := by
  induction resolves with
  | nil => rfl
  | char unmarked _ ih =>
    rw [← List.singleton_append, standsFor_self unmarked, ih]
    rfl
  | @reference reference raw text c found _ ih =>
    have split : '&' :: reference ++ ';' :: raw = '&' :: reference ++ [';'] ++ raw := by simp
    rw [split, standsFor_reference found.unended (resolve_eq_ok_iff.mpr found), ih]
    rfl

/-- Text is resolved exactly if each of its ampersands begins a reference or stands in one, and then it is the
text with each reference replaced by its character. -/
theorem unescape_eq_ok_iff (raw text : List Char) :
    unescape raw = .ok text ↔ Resolves (Denotes MaybePlus) raw text :=
  ⟨resolves_of_unescapeFrom, fun resolves => resolves.unescapeFrom_eq raw⟩

/-- A number with a plus sign is no reference of a document, but it is resolved. -/
theorem plus_sign_resolved :
    let raw := ['&', '#', '+', '6', '5', ';']
    ¬((∃ text, unescape raw = .ok text) ↔ ∃ text, Resolves (Denotes Unsigned) raw text) := by
  intro raw same
  have read : unescape raw = .ok ['A'] := by decide +kernel
  obtain ⟨text, resolves⟩ : ∃ text, Resolves (Denotes Unsigned) ['&', '#', '+', '6', '5', ';'] text :=
    same.mp ⟨_, read⟩
  generalize whole : ['&', '#', '+', '6', '5', ';'] = raw at resolves
  cases resolves with
  | nil => cases whole
  | char unmarked =>
    cases whole
    exact unmarked rfl
  | @reference reference _ _ c found _ =>
    have unsigned : '+' ∉ reference := by
      intro inside
      rcases found.mem_unsigned inside with mark | letter
      · cases mark
      · cases letter
    obtain ⟨-, split⟩ := List.cons.inj whole
    cases reference with
    | nil => cases split
    | cons first reference =>
      obtain ⟨-, split⟩ := List.cons.inj split
      cases reference with
      | nil => cases split
      | cons second reference =>
        obtain ⟨sign, -⟩ := List.cons.inj split
        apply unsigned
        rw [sign]
        exact List.mem_cons_of_mem _ List.mem_cons_self

end Xml

end Verbatim
