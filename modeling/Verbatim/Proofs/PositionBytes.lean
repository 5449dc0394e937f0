import Verbatim.Proofs.PositionPlaces
import Verbatim.Proofs.TextBytes

/-! Places in bytes. The places behind the beginnings of a source are found again as the numbers of bytes that the
beginnings take, and cutting out what a span covers by bytes or by characters comes to the same. -/

namespace Verbatim

namespace Position

private theorem byteOffset?_eq_some_iff {source : List Char} {here : Position} {bytes : Nat} :
    byteOffset? source here = some bytes ↔
      ∃ front rest, source = front ++ rest ∧ Utf8.size front = bytes ∧ LeadsTo front here := by
  rw [byteOffset?, Option.map_eq_some_iff]
  constructor
  · rintro ⟨count, found, rfl⟩
    obtain ⟨front, rest, rfl, rfl, leads⟩ := offset?_eq_some_iff.mp found
    exact ⟨front, rest, rfl, by rw [List.take_left], leads⟩
  · rintro ⟨front, rest, rfl, rfl, leads⟩
    exact ⟨front.length, offset?_eq_some_iff.mpr ⟨front, rest, rfl, rfl, leads⟩, by rw [List.take_left]⟩

/-- Texts act on places: an empty one leads nowhere, two lead where both together lead, and what is left of a text
ends where the text ends. Lines and columns are exact where they fit their words; there the place behind the
beginning of a source is found again as the number of its bytes. -/
theorem advance_acts :
    (∀ here : Position, here.advance [] = here) ∧
    (∀ (here : Position) (front back : List Char), here.advance (front ++ back) = (here.advance front).advance back ∧
      here.endOf (front ++ back) = (here.advance front).endOf back) ∧
    (∀ (here : Position) (text : List Char), Room here text →
      (here.advance text).line.toNat = here.line.toNat + text.count '\n' ∧
        (here.advance text).column.toInt =
          if '\n' ∈ text then ↑(lastLineLength text) else here.column.toInt + text.length) ∧
    ∀ front rest : String, Room start front.toList →
      byteOffset? (front ++ rest).toList (start.advance front.toList) = some front.utf8ByteSize := by
  refine ⟨advance_nil, ?_, fun here text room => room.advance, ?_⟩
  · intro here front back
    exact ⟨advance_append here front back, endOf_append here front back⟩
  · intro front rest room
    have leads := leadsTo_behind room.fits
    have size : Utf8.size front.toList = front.utf8ByteSize := by rw [Utf8.size_eq, String.ofList_toList]
    rw [advance_start]
    exact byteOffset?_eq_some_iff.mpr ⟨front.toList, rest.toList, String.toList_append, size, leads⟩

/-- Right behind the last newline, with characters of several bytes before it. -/
theorem line_start_acts :
    let here : Position := ⟨7, -1⟩
    let front := "é\r\n"
    Room here front.toList ∧ Room start front.toList ∧
      ((here.advance front.toList).line.toNat = 8 ∧ (here.advance front.toList).column.toInt = 0) ∧
      byteOffset? (front ++ "ß").toList (start.advance front.toList) = some 4 := by
  intro here front
  obtain ⟨-, -, counted, found⟩ := advance_acts
  have room : Room here front.toList := ⟨by decide, by decide, by decide⟩
  have begun : Room start front.toList := ⟨by decide, by decide, by decide⟩
  obtain ⟨line, column⟩ := counted here front.toList room
  exact ⟨room, begun, ⟨line.trans (by decide), column.trans (by decide)⟩, found front "ß" begun⟩

end Position

namespace Span

open Position (LeadsTo)

/-- A span cuts out what lies between the bytes that its places stand for. -/
theorem slice?_eq_bytes (span : Span) (source : String) :
    (span.slice? source.toList).map String.ofList =
      (span.first.byteOffset? source.toList).bind fun first =>
        (Position.byteOffset? source.toList span.next).bind fun behind => Utf8.slice? source first behind := by
  unfold slice? Position.byteOffset? next Position.next
  cases started : span.first.offset? source.toList with
  | none => rfl
  | some first =>
  cases ended : Position.offset? source.toList ⟨span.last.line, span.last.column + 1⟩ with
  | none => rfl
  | some behind =>
  obtain ⟨front, rest, split, rfl, -⟩ := Position.offset?_eq_some_iff.mp started
  obtain ⟨longer, after, again, rfl, -⟩ := Position.offset?_eq_some_iff.mp ended
  simp only [Option.map_some, Option.bind_some]
  rw [split, List.take_left, ← split, again, List.take_left]
  have first : front <+: longer ++ after := ⟨rest, split.symm.trans again⟩
  by_cases ordered : front.length ≤ longer.length
  · obtain ⟨middle, rfl⟩ := List.prefix_of_prefix_length_le first (List.prefix_append _ _) ordered
    have whole : source = String.ofList front ++ String.ofList middle ++ String.ofList after := by
      rw [← String.ofList_append, ← String.ofList_append, ← again, String.ofList_toList]
    rw [if_pos ordered, Utf8.size_append, Utf8.size_eq, Utf8.size_eq, whole, Utf8.slice?_middle, List.append_assoc,
      List.drop_left, List.length_append, Nat.add_sub_cancel_left, List.take_left, Option.map_some]
  · -- crossed places are crossed in bytes as well
    obtain ⟨middle, rfl⟩ :=
      List.prefix_of_prefix_length_le (List.prefix_append longer after) first (Nat.le_of_not_le ordered)
    have filled : 0 < Utf8.size middle := by
      cases middle with
      | nil => exact absurd (Nat.le_of_eq (by rw [List.append_nil])) ordered
      | cons c more => exact Nat.lt_of_lt_of_le c.utf8Size_pos (Nat.le_add_right _ _)
    have crossed : ¬Utf8.size (longer ++ middle) ≤ Utf8.size longer := by
      rw [Utf8.size_append]
      omega
    rw [if_neg ordered, Utf8.slice?, decide_eq_false crossed]
    rfl

end Span

end Verbatim
