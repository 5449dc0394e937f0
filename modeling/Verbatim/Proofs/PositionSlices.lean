import Verbatim.Position.Slice
import Verbatim.Proofs.PositionAdvancing

/-! From places back to text. Where the line and the column behind some text fit their words, they lead back to
the length of the text, and the span of what stands there covers it. -/

namespace Verbatim

namespace Position

theorem lineBelow_eq_iff {line : Nat} {c : Char} {text : List Char} :
    (if c = '\n' then line + 1 else line + 2) = text.count '\n' + 1 ↔ line + 2 = (c :: text).count '\n' + 1 := by
  rw [List.count_cons]
  by_cases newline : c = '\n'
  · simp only [newline, beq_self_eq_true, if_true]
    exact (Nat.succ_inj).symm
  · simp only [beq_iff_eq, newline, if_false, Nat.add_zero]

/-- A line starts where the last line of the text before it ends. -/
theorem lineOffset?_append (text rest : List Char) :
    lineOffset? (text.count '\n' + 1) (text ++ rest) = some (text.length - lastLineLength text) := by
  induction text with
  | nil => simp [lineOffset?]
  | cons c text ih =>
    by_cases broken : '\n' ∈ c :: text
    · obtain ⟨line, lines⟩ : ∃ line, (c :: text).count '\n' = line + 1 :=
        Nat.exists_eq_succ_of_ne_zero (Nat.ne_of_gt (List.count_pos_iff.mpr broken))
      have later := lineBelow_eq_iff.mpr (congrArg Nat.succ lines.symm)
      have columns := lastLineLength_le text
      rw [lines, List.cons_append, lineOffset?, later, ih, lastLineLength_cons broken, Option.map_some,
        List.length_cons, Nat.sub_add_comm columns]
    · have single := lastLineLength_append_of_notMem [] broken
      rw [List.nil_append] at single
      rw [List.count_eq_zero.mpr broken, single]
      simp [lineOffset?, lastLineLength]

theorem reaches_iff (count : Nat) (source : List Char) : reaches count source = true ↔ count ≤ source.length := by
  fun_induction reaches count source with
  | case1 source => simp
  | case2 count => simp
  | case3 count c source ih => simpa using ih

theorem Fits.of_short {text rest : List Char} (short : (text ++ rest).length < 2 ^ 31) : Fits text := by
  have lines : text.count '\n' ≤ text.length := List.count_le_length
  have columns := lastLineLength_le text
  have words : UInt32.size = 2 ^ 32 := rfl
  rw [List.length_append] at short
  exact ⟨by omega, by omega⟩

private theorem offset?_behind {text : List Char} (fits : Fits text) (rest : List Char) :
    offset? (text ++ rest) (behind text) = some text.length := by
  have columns := lastLineLength_le text
  have inside : ¬ (behind text).column < 0 := by
    rw [Int32.lt_iff_toInt_lt, column_behind fits, Int32.toInt_zero]
    omega
  have place : text.length - lastLineLength text + lastLineLength text = text.length := Nat.sub_add_cancel columns
  rw [offset?, if_neg inside]
  simp only [line_behind fits, column_behind fits, lineOffset?_append, Int.toNat_natCast, place]
  rw [if_pos ((reaches_iff _ _).mpr (by simp))]

end Position

namespace Span

theorem slice?_eq_some {source : List Char} (span : Span) {first behind : Nat} (ordered : first ≤ behind)
    (found : span.first.offset? source = some first)
    (ended : Position.offset? source ⟨span.last.line, span.last.column + 1⟩ = some behind) :
    span.slice? source = some ((source.drop first).take (behind - first)) := by
  simp only [slice?, found, ended, if_pos ordered]

/-- A span from the end of one text to the end of the next covers that next text. -/
theorem slice?_between {span : Span} {front middle : List Char} (starts : span.first = .behind front)
    (ends : (⟨span.last.line, span.last.column + 1⟩ : Position) = .behind (front ++ middle))
    (fitsFirst : Position.Fits front) (fitsLast : Position.Fits (front ++ middle)) (rest : List Char) :
    span.slice? (front ++ middle ++ rest) = some middle := by
  have found : span.first.offset? (front ++ middle ++ rest) = some front.length := by
    rw [starts, List.append_assoc]
    exact Position.offset?_behind fitsFirst _
  have ended : Position.offset? (front ++ middle ++ rest) ⟨span.last.line, span.last.column + 1⟩ =
      some (front ++ middle).length := by
    rw [ends]
    exact Position.offset?_behind fitsLast _
  have ordered : front.length ≤ (front ++ middle).length := by simp
  rw [slice?_eq_some span ordered found ended]
  simp

theorem slice?_of {front rest : List Char} {text : String} (short : (front ++ text.toList ++ rest).length < 2 ^ 31) :
    (Span.of (.behind front) text).slice? (front ++ text.toList ++ rest) = some text.toList := by
  have fitsFirst : Position.Fits front := by
    rw [List.append_assoc] at short
    exact .of_short short
  exact slice?_between rfl (Position.advance_behind front text.toList) fitsFirst (.of_short short) rest

theorem slice?_empty {front rest : List Char} (short : (front ++ rest).length < 2 ^ 31) :
    (Span.of (.behind front) "").slice? (front ++ rest) = some "".toList := by
  have whole : front ++ "".toList ++ rest = front ++ rest := by simp
  rw [← whole] at short ⊢
  exact slice?_of short

end Span

end Verbatim
