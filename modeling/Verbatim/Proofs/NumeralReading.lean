import Verbatim.Text.Numeral

/-! Numbers that are written are read again. Digits are read from the left, so what stands in front of
the last digit is a number of its own; the induction is on the number and takes its last digit off. -/

namespace Verbatim.Numeral

variable {base high value : Nat} {text : List Char}

theorem digits?_append (first second : List Char) :
    digits? base high (first ++ second) = (digits? base high first).bind fun front => digits? base front second := by
  induction first generalizing high with
  | nil => rfl
  | cons c rest ih =>
    simp only [List.cons_append, digits?]
    cases digit? base c with
    | none => rfl
    | some value => exact ih

private theorem digit?_of_digits? (read : digits? base high text = some value) {c : Char} (inside : c ∈ text) :
    (digit? base c).isSome := by
  induction text generalizing high with
  | nil => cases inside
  | cons first rest ih =>
    rw [digits?] at read
    split at read
    next worth found =>
      cases inside with
      | head => rw [found]; rfl
      | tail _ inside => exact ih read inside
    next => cases read

/-- A spelling of the digits of a base that reading understands. -/
def Spells (base : Nat) (spell : Char → Char) : Prop := ∀ value < base, digit? base (spell value.digitChar) = some value

private theorem spells_decimal : Spells 10 id := by unfold Spells; decide

theorem spells_hexadecimal : Spells 16 Char.toUpper := by unfold Spells; decide

private theorem digits?_toDigits {spell : Char → Char} (large : 1 < base) (spells : Spells base spell) (value : Nat) :
    digits? base 0 ((Nat.toDigits base value).map spell) = some value := by
  induction value using Nat.strongRecOn with
  | ind value ih =>
    rw [Nat.toDigits_eq_if large]
    split
    next small => simp [digits?, spells value small]
    next big =>
      have front : value / base < value := Nat.div_lt_self (by omega) large
      have last : value % base < base := Nat.mod_lt value (by omega)
      rw [List.map_append, digits?_append, ih _ front]
      simp only [Option.bind_some, List.map_singleton, digits?, spells _ last, Nat.div_add_mod']

theorem magnitude?_toDigits {spell : Char → Char} (large : 1 < base) (spells : Spells base spell) (value : Nat) :
    magnitude? base ((Nat.toDigits base value).map spell) = some value := by
  rw [magnitude?, if_neg (by simp), digits?_toDigits large spells]

theorem digit?_of_magnitude? (read : magnitude? base text = some value) {c : Char} (inside : c ∈ text) :
    (digit? base c).isSome := by
  unfold magnitude? at read
  split at read
  · cases read
  · exact digit?_of_digits? read inside

/-- Digits alone are read without a look at the sign. -/
theorem unsigned?_of_magnitude? (read : magnitude? base text = some value) : unsigned? base text = some value := by
  unfold unsigned?
  split
  next rest =>
    have sign := digit?_of_magnitude? read (List.mem_cons_self)
    exact absurd sign (by simp [digit?])
  next => exact read

private theorem signed?_of_magnitude? (read : magnitude? 10 text = some value) : signed? text = some (value : Int) := by
  unfold signed?
  split
  next rest =>
    have sign := digit?_of_magnitude? read (List.mem_cons_self)
    exact absurd sign (by decide)
  next => rw [unsigned?_of_magnitude? read]; rfl

private theorem magnitude?_decimal (value : Nat) : magnitude? 10 (decimal value).toList = some value := by
  have read := magnitude?_toDigits (by decide) spells_decimal value
  rw [List.map_id] at read
  rw [decimal, String.toList_ofList, read]

theorem word?_of_magnitude? (read : magnitude? base text = some value) (fits : value < UInt32.size) :
    word? base text = some (UInt32.ofNat value) := by
  rw [word?, unsigned?_of_magnitude? read, Option.bind_some, if_pos fits]

theorem word?_decimal (value : UInt32) : word? 10 (decimal value.toNat).toList = some value := by
  rw [word?_of_magnitude? (magnitude?_decimal _) value.toNat_lt, UInt32.ofNat_toNat]

theorem word?_hexUpper (value : Nat) (fits : value < UInt32.size) :
    word? 16 (hexUpper value).toList = some (UInt32.ofNat value) := by
  rw [hexUpper, String.toList_ofList]
  exact word?_of_magnitude? (magnitude?_toDigits (by decide) spells_hexadecimal value) fits

private theorem signed?_signed (value : Int) : signed? (signed value).toList = some value := by
  cases value with
  | ofNat size => exact signed?_of_magnitude? (magnitude?_decimal size)
  | negSucc size =>
    have sign : "-".toList = ['-'] := by decide
    rw [signed, String.toList_append, sign, List.singleton_append, signed?, magnitude?_decimal]
    rfl

theorem signedWord?_signed (value : Int32) : signedWord? (signed value.toInt).toList = some value := by
  rw [signedWord?, signed?_signed, Option.bind_some, if_pos ⟨value.minValue_le_toInt, value.toInt_le⟩,
    Int32.ofInt_toInt]

private theorem digit?_of_mem_decimal {c : Char} (inside : c ∈ (decimal value).toList) : (digit? 10 c).isSome :=
  digit?_of_magnitude? (magnitude?_decimal value) inside

theorem mem_signed {number : Int} {c : Char} (inside : c ∈ (signed number).toList) :
    c = '-' ∨ (digit? 10 c).isSome := by
  cases number with
  | ofNat size => exact .inr (digit?_of_mem_decimal inside)
  | negSucc size =>
    rw [signed, String.toList_append, List.mem_append] at inside
    cases inside with
    | inl sign => exact .inl (by simpa using sign)
    | inr digit => exact .inr (digit?_of_mem_decimal digit)

end Verbatim.Numeral
