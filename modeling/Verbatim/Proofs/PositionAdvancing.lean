import Mathlib.Algebra.GroupWithZero.Nat
import Mathlib.Algebra.Ring.Int.Defs
import Verbatim.Position

/-! Places are where texts end. Advancing over a text does not depend on how the text is cut into pieces, and it
counts lines and columns exactly as long as they fit their words. -/

namespace Verbatim.Position

theorem lastLineLength_le (text : List Char) : lastLineLength text ≤ text.length := by
  rw [← List.length_reverse]
  exact (List.takeWhile_sublist _).length_le

theorem lastLineLength_append_of_notMem (front : List Char) {back : List Char} (single : '\n' ∉ back) :
    lastLineLength (front ++ back) = lastLineLength front + back.length := by
  have inside : ∀ c ∈ back.reverse, (c != '\n') = true := by
    intro c member
    simpa using fun same : c = '\n' => single (same ▸ List.mem_reverse.mp member)
  rw [lastLineLength, List.reverse_append, List.takeWhile_append_of_pos inside, List.length_append, List.length_reverse,
    Nat.add_comm, lastLineLength]

theorem lastLineLength_newline (front : List Char) : lastLineLength (front ++ ['\n']) = 0 := by
  simp [lastLineLength]

private theorem lastLineLength_append_of_mem (front : List Char) {back : List Char} (broken : '\n' ∈ back) :
    lastLineLength (front ++ back) = lastLineLength back := by
  obtain ⟨last, first, reversed, single⟩ := List.eq_append_cons_of_mem (List.mem_reverse.mpr broken)
  have split : back = first.reverse ++ ['\n'] ++ last.reverse := by
    rw [← List.reverse_reverse back, reversed]
    simp
  have final : '\n' ∉ last.reverse := by simpa using single
  rw [split, ← List.append_assoc, ← List.append_assoc, lastLineLength_append_of_notMem _ final,
    lastLineLength_append_of_notMem _ final, lastLineLength_newline, lastLineLength_newline]

/-- The first character does not matter either, if it is not on the last line. -/
theorem lastLineLength_cons {c : Char} {text : List Char} (broken : '\n' ∈ c :: text) :
    lastLineLength (c :: text) = lastLineLength text := by
  by_cases later : '\n' ∈ text
  · exact lastLineLength_append_of_mem [c] later
  · obtain rfl : '\n' = c := (List.mem_cons.mp broken).resolve_right later
    have whole := lastLineLength_append_of_notMem [] later
    have split := lastLineLength_append_of_notMem ['\n'] later
    exact split.trans whole.symm

def next (here : Position) : Position := ⟨here.line, here.column + 1⟩

theorem next_inj {here there : Position} : here.next = there.next ↔ here = there := by
  constructor
  · intro same
    obtain ⟨line, column⟩ := Position.mk.inj same
    exact congrArg₂ Position.mk line ((Int32.add_left_inj 1).mp column)
  · exact congrArg next

theorem advance_eq_next (here : Position) (text : List Char) : here.advance text = (here.endOf text).next := rfl

/-- Text within a line leads to a later column, and text that ends lines to a column that counts from the last one. -/
private theorem advance_eq (here : Position) (text : List Char) :
    here.advance text =
      if '\n' ∈ text then ⟨here.line + UInt32.ofNat (text.count '\n'), Int32.ofNat (lastLineLength text)⟩
      else ⟨here.line, here.column + Int32.ofNat text.length⟩ := by
  unfold advance endOf columnAfter
  by_cases broken : '\n' ∈ text
  · have lines : text.count '\n' ≠ 0 := Nat.ne_of_gt (List.count_pos_iff.mpr broken)
    rw [if_pos broken, if_neg lines]
    dsimp only
    rw [Int32.zero_add, Int32.sub_add_cancel]
  · rw [if_neg broken, if_pos (List.count_eq_zero.mpr broken)]
    dsimp only
    rw [Int32.sub_add_cancel]

theorem advance_nil (here : Position) : here.advance [] = here := by
  rw [advance_eq, if_neg List.not_mem_nil, List.length_nil]
  exact congrArg (Position.mk here.line) (Int32.add_zero _)

/-- Only newlines and what is behind the last of them count, so a cut between two pieces does not show. -/
theorem advance_append (here : Position) (front back : List Char) :
    here.advance (front ++ back) = (here.advance front).advance back := by
  by_cases later : '\n' ∈ back
  · rw [advance_eq here (front ++ back), advance_eq _ back, if_pos later, if_pos (List.mem_append_right _ later),
      lastLineLength_append_of_mem front later, List.count_append]
    congr 1
    by_cases earlier : '\n' ∈ front
    · rw [advance_eq, if_pos earlier, UInt32.ofNat_add, UInt32.add_assoc]
    · rw [advance_eq, if_neg earlier, List.count_eq_zero.mpr earlier, Nat.zero_add]
  · rw [advance_eq _ back, if_neg later]
    by_cases earlier : '\n' ∈ front
    · rw [advance_eq, advance_eq, if_pos earlier, if_pos (List.mem_append_left _ earlier), List.count_append,
        List.count_eq_zero.mpr later, lastLineLength_append_of_notMem front later, Int32.ofNat_add, Nat.add_zero]
    · have single : '\n' ∉ front ++ back := by simp [earlier, later]
      rw [advance_eq, advance_eq, if_neg earlier, if_neg single, List.length_append, Int32.ofNat_add, Int32.add_assoc]

theorem endOf_append (here : Position) (front back : List Char) :
    here.endOf (front ++ back) = (here.advance front).endOf back :=
  next_inj.mp (advance_append here front back)

/-- The place behind a text at the start of a source. -/
def behind (text : List Char) : Position := ⟨1 + UInt32.ofNat (text.count '\n'), Int32.ofNat (lastLineLength text)⟩

theorem start_eq_behind : start = behind [] := rfl

theorem advance_start (text : List Char) : start.advance text = behind text := by
  rw [advance_eq, behind]
  split
  · rfl
  next single =>
    have whole := lastLineLength_append_of_notMem [] single
    rw [List.nil_append] at whole
    rw [List.count_eq_zero.mpr single, whole]
    exact congrArg₂ Position.mk rfl (Int32.ofNat_add 0 text.length).symm

theorem advance_behind (front back : List Char) : (behind front).advance back = behind (front ++ back) := by
  rw [← advance_start, ← advance_append, advance_start]

/-- Text that can be laid out from a place: counted without bounds, the line and the column behind it fit their words. -/
structure Room (here : Position) (text : List Char) : Prop where
  line : here.line.toNat + text.count '\n' < UInt32.size
  column : '\n' ∉ text → here.column.toInt + text.length < 2 ^ 31
  last : '\n' ∈ text → lastLineLength text < 2 ^ 31

/-- Where a text has room, its newlines and its columns are counted exactly. -/
theorem Room.advance {here : Position} {text : List Char} (room : Room here text) :
    (here.advance text).line.toNat = here.line.toNat + text.count '\n' ∧
      (here.advance text).column.toInt =
        if '\n' ∈ text then ↑(lastLineLength text) else here.column.toInt + text.length := by
  obtain ⟨line, column, last⟩ := room
  have words : UInt32.size = 2 ^ 32 := rfl
  rw [advance_eq]
  split
  next broken =>
    refine ⟨?_, Int32.toInt_ofNat_of_lt (last broken)⟩
    rw [UInt32.toNat_add, UInt32.toNat_ofNat_of_lt' (by omega), Nat.mod_eq_of_lt (by omega)]
  next single =>
    rw [List.count_eq_zero.mpr single, Nat.add_zero]
    refine ⟨rfl, ?_⟩
    have low := here.column.le_toInt
    have right := column single
    have size : (Int32.ofNat text.length).toInt = (text.length : Int).bmod (2 ^ 32) := Int32.toInt_ofNat' ..
    rw [Int32.toInt_add, size, Int.add_bmod_bmod, Int.bmod_eq_of_le (by omega) (by omega)]

/-- Text whose end is a place: counted without bounds, the line and the column behind it fit their words. -/
structure Fits (text : List Char) : Prop where
  line : text.count '\n' + 1 < UInt32.size
  column : lastLineLength text < 2 ^ 31

theorem Fits.room {text : List Char} (fits : Fits text) : Room start text := by
  have columns (single : '\n' ∉ text) := lastLineLength_append_of_notMem [] single
  obtain ⟨line, column⟩ := fits
  refine ⟨?_, ?_, fun _ => column⟩
  · rw [Nat.add_comm]
    exact line
  · intro single
    have whole := columns single
    have first : start.column.toInt = 0 := rfl
    rw [List.nil_append] at whole
    rw [first]
    omega

theorem Room.fits {text : List Char} (room : Room start text) : Fits text := by
  obtain ⟨line, column, last⟩ := room
  have first : start.line.toNat = 1 := rfl
  have zero : start.column.toInt = 0 := rfl
  refine ⟨by omega, ?_⟩
  by_cases broken : '\n' ∈ text
  · exact last broken
  · have short := column broken
    have columns := lastLineLength_le text
    omega

theorem line_behind {text : List Char} (fits : Fits text) : (behind text).line.toNat = text.count '\n' + 1 := by
  rw [← advance_start, fits.room.advance.1, Nat.add_comm]
  rfl

theorem column_behind {text : List Char} (fits : Fits text) : (behind text).column.toInt = lastLineLength text :=
  Int32.toInt_ofNat_of_lt fits.column

end Verbatim.Position
