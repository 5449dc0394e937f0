import Verbatim.Proofs.TextBytes
import Verbatim.Verify

/-! Where two texts part. It is behind the longest text that both begin with: they go on with different
characters there, or one of them ends. Either way a character of both texts begins there or a text ends, so
the common text can be cut out of the expected one, and its newlines give the line that a mismatch reports. -/

namespace Verbatim.Mismatch

/-- What is left of two texts has no first character in common. -/
def Apart : List Char → List Char → Prop
  | a :: _, b :: _ => a ≠ b
  | _, _ => True

/-- The longest text with which both texts begin, in whole characters. -/
structure LongestCommon (common expected actual : List Char) : Prop where
  begins : common <+: expected
  shared : common <+: actual
  longest : ∀ other, other <+: expected → other <+: actual → other <+: common

private theorem exists_apart (expected : List Char) : ∀ actual : List Char, ∃ common rest more,
    expected = common ++ rest ∧ actual = common ++ more ∧ Apart rest more := by
  induction expected with
  | nil => exact fun actual => ⟨[], [], actual, rfl, rfl, trivial⟩
  | cons a expected ih =>
    intro actual
    cases actual with
    | nil => exact ⟨[], a :: expected, [], rfl, rfl, trivial⟩
    | cons b actual =>
      by_cases same : a = b
      · subst same
        obtain ⟨common, rest, more, rfl, rfl, apart⟩ := ih actual
        exact ⟨a :: common, rest, more, rfl, rfl, apart⟩
      · exact ⟨[], a :: expected, b :: actual, rfl, rfl, same⟩

variable {common rest more : List Char}

theorem Apart.longest (apart : Apart rest more) : LongestCommon common (common ++ rest) (common ++ more) := by
  refine ⟨common.prefix_append rest, common.prefix_append more, fun other first second => ?_⟩
  obtain within | ⟨beyond, rfl⟩ := List.prefix_or_prefix_of_prefix first (common.prefix_append rest)
  · exact within
  rw [List.prefix_append_right_inj] at first second
  cases beyond with
  | nil => simp
  | cons c beyond =>
    obtain ⟨_, rfl⟩ := first
    obtain ⟨_, rfl⟩ := second
    exact absurd rfl apart

private theorem differenceFrom_append (offset : Nat) (rest more : List Char) : ∀ common : List Char,
    differenceFrom offset (common ++ rest) (common ++ more) = differenceFrom (offset + Utf8.size common) rest more
  | [] => rfl
  | c :: common => by
    have later := differenceFrom_append (offset + c.utf8Size) rest more common
    rw [List.cons_append, List.cons_append, differenceFrom, if_pos rfl, later, Nat.add_assoc]
    rfl

/-- The offset is that of the first different character, or the size of the text that ends first. -/
theorem Apart.differenceOffset (apart : Apart rest more) :
    differenceOffset (String.ofList (common ++ rest)) (String.ofList (common ++ more)) = Utf8.size common := by
  rw [Mismatch.differenceOffset, String.toList_ofList, String.toList_ofList, differenceFrom_append, Nat.zero_add,
    ← Utf8.size_eq, ← Utf8.size_eq, Utf8.size_append, Utf8.size_append]
  cases rest with
  | nil => exact Nat.min_eq_left (Nat.le_add_right ..)
  | cons a rest =>
    cases more with
    | nil => exact Nat.min_eq_right (Nat.le_add_right ..)
    | cons b more => rw [differenceFrom, if_neg apart, Option.getD_some]

private theorem slice?_front (front behind : String) :
    Utf8.slice? (front ++ behind) 0 front.utf8ByteSize = some front := by
  simpa using Utf8.slice?_middle "" front behind

theorem Apart.line (apart : Apart rest more) :
    line (String.ofList (common ++ rest)) (String.ofList (common ++ more)) = common.count '\n' + 1 := by
  rw [Mismatch.line, apart.differenceOffset, Utf8.size_eq, String.ofList_append, slice?_front]
  exact congrArg (List.count '\n' · + 1) String.toList_ofList

/-- The texts of a mismatch part behind the longest text in whole characters with which both begin. Its size is
the offset, which a character of the expected text or its end stands at, and its newlines are counted in the
line of the message. -/
theorem parts_behind_longest_common (expected actual : String) :
    ∃ common : String, LongestCommon common.toList expected.toList actual.toList ∧
      differenceOffset expected actual = common.utf8ByteSize ∧
      differenceOffset expected actual ≤ expected.utf8ByteSize ∧
      String.Pos.Raw.IsValid expected ⟨differenceOffset expected actual⟩ ∧
      Utf8.slice? expected 0 (differenceOffset expected actual) = some common ∧
      line expected actual = common.toList.count '\n' + 1 ∧
      ∀ stage, message ⟨stage, expected, actual⟩ =
        stage.render ++ " mismatch on line " ++ Numeral.decimal (common.toList.count '\n' + 1) ++
          ": expected " ++ Quoted.quote expected ++ ", found " ++ Quoted.quote actual := by
  obtain ⟨common, rest, more, first, second, apart⟩ := exists_apart expected.toList actual.toList
  obtain rfl : expected = String.ofList (common ++ rest) := by rw [← first, String.ofList_toList]
  obtain rfl : actual = String.ofList (common ++ more) := by rw [← second, String.ofList_toList]
  have offset : differenceOffset (String.ofList (common ++ rest)) (String.ofList (common ++ more)) =
      (String.ofList common).utf8ByteSize := by rw [apart.differenceOffset, Utf8.size_eq]
  have located : line (String.ofList (common ++ rest)) (String.ofList (common ++ more)) =
      common.count '\n' + 1 := apart.line
  have valid : String.Pos.Raw.IsValid (String.ofList (common ++ rest)) ⟨(String.ofList common).utf8ByteSize⟩ :=
    String.Pos.Raw.isValid_iff_exists_append.mpr ⟨_, _, String.ofList_append, rfl⟩
  refine ⟨String.ofList common, ?_, offset, ?_, ?_, ?_, ?_, fun stage => ?_⟩
  · rw [String.toList_ofList, String.toList_ofList, String.toList_ofList]
    exact apart.longest
  · rw [offset]
    exact valid.le_rawEndPos
  · rwa [offset]
  · rw [offset, String.ofList_append, slice?_front]
  · rw [located, String.toList_ofList]
  · rw [message, located, String.toList_ofList]

/-- The characters in which the texts part take two bytes and one. -/
example : differenceOffset "a\nμé" "a\nμe" = 4 ∧ line "a\nμé" "a\nμe" = 2 := by decide +kernel

end Verbatim.Mismatch
