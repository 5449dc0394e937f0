import Verbatim.Text.Utf8

/-! Text in bytes. What stands between two characters of a text is cut out of its bytes whole, and texts are in
the order of their bytes. -/

namespace Verbatim.Utf8

theorem size_eq (text : List Char) : size text = (String.ofList text).utf8ByteSize := by
  induction text with
  | nil => rfl
  | cons c rest ih =>
    rw [String.ofList_cons, String.utf8ByteSize_append, String.utf8ByteSize_singleton, ← ih]
    rfl

theorem size_append (front back : List Char) : size (front ++ back) = size front + size back := by
  rw [size_eq, String.ofList_append, String.utf8ByteSize_append, size_eq, size_eq]

theorem slice?_middle (before content behind : String) :
    slice? (before ++ content ++ behind) before.utf8ByteSize (before.utf8ByteSize + content.utf8ByteSize) =
      some content := by
  have bounds : (decide (before.utf8ByteSize ≤ before.utf8ByteSize + content.utf8ByteSize) &&
      decide (before.utf8ByteSize + content.utf8ByteSize ≤ (before ++ content ++ behind).utf8ByteSize)) = true := by
    simp only [String.utf8ByteSize_append, Bool.and_eq_true, decide_eq_true_eq]
    omega
  have bytes : (before ++ content ++ behind).toUTF8.extract before.utf8ByteSize
      (before.utf8ByteSize + content.utf8ByteSize) = content.toByteArray := by
    have inner := ByteArray.extract_append_size_add (a := before.toByteArray)
      (b := content.toByteArray ++ behind.toByteArray) (i := 0) (j := content.utf8ByteSize)
    rw [String.toUTF8_eq_toByteArray, String.toByteArray_append, String.toByteArray_append, ByteArray.append_assoc]
    exact inner.trans (ByteArray.extract_append_eq_left rfl)
  rw [slice?, if_pos bounds, bytes, String.fromUTF8?, dif_pos content.isValidUTF8]
  rfl

def bytes (text : String) : List UInt8 := text.toUTF8.data.toList

private theorem bytes_eq (text : String) : bytes text = text.toList.flatMap String.utf8EncodeChar := by
  rw [bytes, String.toUTF8_eq_toByteArray, ← String.utf8Encode_toList, List.utf8Encode, List.data_toByteArray]

/-- Bytes are compared from the front, and what follows a byte counts where that byte is the same. -/
private theorem cons_lt_cons {x y : Nat} {rest more : List UInt8} (small : y < 256) (order : x ≤ y)
    (tie : x = y → rest < more) : UInt8.ofNat x :: rest < UInt8.ofNat y :: more := by
  rw [List.cons_lt_cons_iff, UInt8.lt_iff_toNat_lt, UInt8.toNat_ofNat_of_lt' small,
    UInt8.toNat_ofNat_of_lt' (Nat.lt_of_le_of_lt order small)]
  rcases Nat.eq_or_lt_of_le order with same | less
  · exact .inr ⟨congrArg _ same, tie same⟩
  · exact .inl less

/-- Characters are in the order of their bytes, whatever follows them. -/
private theorem encodeChar_lt {a b : Char} (less : a < b) (rest more : List UInt8) :
    String.utf8EncodeChar a ++ rest < String.utf8EncodeChar b ++ more := by
  have order : a.val.toNat < b.val.toNat := less
  have high : b.val.toNat < 0x110000 := by
    have valid := b.valid
    rw [UInt32.isValidChar, Nat.isValidChar] at valid
    omega
  unfold String.utf8EncodeChar
  dsimp only
  generalize a.val.toNat = x at order
  generalize b.val.toNat = y at order high
  -- the first byte tells the length, so characters of different lengths differ in it
  split
  next =>
    split
    next => exact cons_lt_cons (by omega) (by omega) (by omega)
    next =>
    split
    next => exact cons_lt_cons (by omega) (by omega) (by omega)
    next =>
    split
    next => exact cons_lt_cons (by omega) (by omega) (by omega)
    next => exact cons_lt_cons (by omega) (by omega) (by omega)
  next =>
  rw [if_neg (by omega : ¬y ≤ 0x7f)]
  split
  next =>
    split
    next => exact cons_lt_cons (by omega) (by omega) fun _ => cons_lt_cons (by omega) (by omega) (by omega)
    next =>
    split
    next => exact cons_lt_cons (by omega) (by omega) (by omega)
    next => exact cons_lt_cons (by omega) (by omega) (by omega)
  next =>
  rw [if_neg (by omega : ¬y ≤ 0x7ff)]
  split
  next =>
    split
    next =>
      exact cons_lt_cons (by omega) (by omega) fun _ => cons_lt_cons (by omega) (by omega) fun _ =>
        cons_lt_cons (by omega) (by omega) (by omega)
    next => exact cons_lt_cons (by omega) (by omega) (by omega)
  next =>
    rw [if_neg (by omega : ¬y ≤ 0xffff)]
    exact cons_lt_cons (by omega) (by omega) fun _ => cons_lt_cons (by omega) (by omega) fun _ =>
      cons_lt_cons (by omega) (by omega) fun _ => cons_lt_cons (by omega) (by omega) (by omega)

theorem bytes_lt {one other : String} (less : one < other) : bytes one < bytes other := by
  rw [bytes_eq, bytes_eq]
  rw [String.lt_iff] at less
  generalize one.toList = first at less ⊢
  generalize other.toList = second at less ⊢
  induction less with
  | @nil c rest =>
    obtain ⟨byte, others, same⟩ := List.exists_cons_of_ne_nil (String.utf8EncodeChar_ne_nil (c := c))
    rw [List.flatMap_cons, same, List.cons_append]
    exact List.nil_lt_cons ..
  | rel order => exact encodeChar_lt order _ _
  | cons _ later => exact List.append_left_lt later

end Verbatim.Utf8
