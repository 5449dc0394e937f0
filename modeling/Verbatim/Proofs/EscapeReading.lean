import Verbatim.Proofs.NumeralReading
import Verbatim.Xml.Escape

/-! Text that is escaped is read as itself, and it has no bracket that could open markup. Reading goes
from left to right and keeps no state between two characters, so it is enough to read one. -/

namespace Verbatim.Xml

variable {reference seen : List Char} {c : Char}

/-- Text that reading takes for one character, whatever follows. -/
def StandsFor (text : List Char) (c : Char) : Prop :=
  ∀ whole rest, unescapeFrom whole none (text ++ rest) = (unescapeFrom whole none rest).map (c :: ·)

private theorem unescapeFrom_reference (whole rest : List Char) (unended : ';' ∉ reference)
    (found : resolve (seen.reverse ++ reference) = .ok c) :
    unescapeFrom whole (some seen) (reference ++ ';' :: rest) = (unescapeFrom whole none rest).map (c :: ·) := by
  induction reference generalizing seen with
  | nil =>
    rw [List.append_nil] at found
    simp [unescapeFrom, found]
  | cons first more ih =>
    simp only [List.mem_cons, not_or] at unended
    rw [List.cons_append, unescapeFrom, if_neg (by simpa using Ne.symm unended.1)]
    apply ih unended.2
    rw [List.reverse_cons, List.append_assoc]
    exact found

theorem standsFor_reference (unended : ';' ∉ reference) (found : resolve reference = .ok c) :
    StandsFor ('&' :: reference ++ [';']) c := by
  intro whole rest
  rw [List.append_assoc, List.cons_append, unescapeFrom, if_pos (beq_self_eq_true _)]
  exact unescapeFrom_reference whole rest unended found

theorem standsFor_self (other : c ≠ '&') : StandsFor [c] c := by
  intro whole rest
  rw [List.singleton_append, unescapeFrom, if_neg (by simpa using other)]

theorem scalar?_ofNat (c : Char) : scalar? (UInt32.ofNat c.toNat) = some c := by
  have same : (UInt32.ofNat c.toNat).toNat = c.toNat := UInt32.toNat_ofNat_of_lt c.val.toNat_lt
  have valid : c.toNat.isValidChar := c.valid
  rw [scalar?, same, if_pos valid, Char.ofNat_toNat]

private theorem resolve_hexUpper (c : Char) : resolve ('#' :: 'x' :: (Numeral.hexUpper c.toNat).toList) = .ok c := by
  have fits : c.toNat < UInt32.size := c.val.toNat_lt
  unfold resolve
  rw [if_neg (by simp), if_neg (by simp), if_neg (by simp), if_neg (by simp), if_neg (by simp)]
  simp only [Numeral.word?_hexUpper _ fits, Option.bind_some, scalar?_ofNat]

private theorem digit?_of_mem_hexUpper {value : Nat} (inside : c ∈ (Numeral.hexUpper value).toList) :
    (Numeral.digit? 16 c).isSome := by
  rw [Numeral.hexUpper, String.toList_ofList] at inside
  exact Numeral.digit?_of_magnitude? (Numeral.magnitude?_toDigits (by decide) Numeral.spells_hexadecimal value) inside

private theorem escapeChar_cases (c : Char) :
    (c ≠ '&' ∧ c ≠ '<' ∧ escapeChar c = [c]) ∨
    ∃ reference, escapeChar c = '&' :: reference ++ [';'] ∧ resolve reference = .ok c ∧ ';' ∉ reference ∧
      '<' ∉ reference := by
  unfold escapeChar
  split
  next same => exact .inr ⟨"amp".toList, by decide, by rw [eq_of_beq same]; rfl, by decide, by decide⟩
  next ampersand =>
  split
  next same => exact .inr ⟨"lt".toList, by decide, by rw [eq_of_beq same]; rfl, by decide, by decide⟩
  next less =>
  split
  next same => exact .inr ⟨"gt".toList, by decide, by rw [eq_of_beq same]; rfl, by decide, by decide⟩
  next =>
  split
  next =>
    have free : ∀ d, d ≠ '#' → d ≠ 'x' → Numeral.digit? 16 d = none →
        d ∉ '#' :: 'x' :: (Numeral.hexUpper c.toNat).toList := by
      intro d hash mark none inside
      rcases List.mem_cons.mp inside with same | inside
      · exact hash same
      rcases List.mem_cons.mp inside with same | inside
      · exact mark same
      exact absurd (digit?_of_mem_hexUpper inside) (by simp [none])
    exact .inr ⟨'#' :: 'x' :: (Numeral.hexUpper c.toNat).toList, by simp, resolve_hexUpper c,
      free ';' (by decide) (by decide) (by decide), free '<' (by decide) (by decide) (by decide)⟩
  next => exact .inl ⟨by simpa using ampersand, by simpa using less, rfl⟩

private theorem standsFor_escapeChar (c : Char) : StandsFor (escapeChar c) c := by
  rcases escapeChar_cases c with ⟨other, -, same⟩ | ⟨reference, same, found, unended, -⟩
  · rw [same]
    exact standsFor_self other
  · rw [same]
    exact standsFor_reference unended found

private theorem unescapeFrom_escape (whole text : List Char) : unescapeFrom whole none (escape text) = .ok text := by
  induction text with
  | nil => rfl
  | cons c rest ih =>
    have front : escape (c :: rest) = escapeChar c ++ escape rest := by rw [escape, List.flatMap_cons, escape]
    rw [front, standsFor_escapeChar c, ih]
    rfl

theorem unescape_escape (text : List Char) : unescape (escape text) = .ok text := unescapeFrom_escape _ text

theorem unescapeFrom_plain (whole : List Char) {text : List Char} (plain : '&' ∉ text) :
    unescapeFrom whole none text = .ok text := by
  induction text with
  | nil => rfl
  | cons c rest ih =>
    simp only [List.mem_cons, not_or] at plain
    rw [unescapeFrom, if_neg (by simpa using Ne.symm plain.1), ih plain.2]
    rfl

theorem mem_escape_ne {text : List Char} (inside : c ∈ escape text) : c ≠ '<' := by
  obtain ⟨d, -, inside⟩ := List.mem_flatMap.mp inside
  rintro rfl
  rcases escapeChar_cases d with ⟨-, other, same⟩ | ⟨reference, same, -, -, free⟩
  · rw [same, List.mem_singleton] at inside
    exact other inside.symm
  · simp [same, free] at inside

theorem escape_eq_nil_iff {text : List Char} : escape text = [] ↔ text = [] := by
  constructor
  · intro empty
    have read := unescape_escape text
    rw [empty] at read
    exact (Except.ok.inj read).symm
  · rintro rfl
    rfl

end Verbatim.Xml
