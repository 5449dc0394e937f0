import Mathlib.Data.List.TakeWhile
import Verbatim.Proofs.PositionSlices

/-! Which text a place stands for. A place is found behind so many lines and so many characters more, which may
reach into later lines. Where they do not, the place is the end of the text before it, and a span cuts out
nothing but text that really stands where the span says. -/

namespace Verbatim

namespace Position

/-- The way to a place: whole lines, as many as are above it, and then as many characters as its column says. -/
def LeadsTo (front : List Char) (here : Position) : Prop :=
  ∃ lines columns, front = lines ++ columns ∧ lastLineLength lines = 0 ∧ here.line.toNat = lines.count '\n' + 1 ∧
    here.column.toInt = columns.length

/-- A place whose column is no further than the end of its line, if the source has that line. -/
def OnLine (source : List Char) (here : Position) : Prop :=
  ∀ lines rest, source = lines ++ rest → lastLineLength lines = 0 → here.line.toNat = lines.count '\n' + 1 →
    here.column.toInt ≤ (rest.takeWhile (· != '\n')).length

private theorem lineOffset?_eq_some_iff {line begin : Nat} {source : List Char} :
    lineOffset? line source = some begin ↔
      ∃ lines rest, source = lines ++ rest ∧ lines.length = begin ∧ lastLineLength lines = 0 ∧
        line = lines.count '\n' + 1 := by
  constructor
  · intro found
    fun_induction lineOffset? line source generalizing begin with
    | case1 | case3 => cases found
    | case2 source =>
      cases found
      exact ⟨[], source, rfl, rfl, rfl, rfl⟩
    | case4 line c source ih =>
      obtain ⟨before, later, rfl⟩ := Option.map_eq_some_iff.mp found
      obtain ⟨lines, rest, rfl, rfl, whole, counted⟩ := ih later
      have lineCount := lineBelow_eq_iff.mp counted
      have broken : '\n' ∈ c :: lines := List.count_pos_iff.mp (by omega)
      exact ⟨c :: lines, rest, rfl, rfl, (lastLineLength_cons broken).trans whole, lineCount⟩
  · rintro ⟨lines, rest, rfl, rfl, whole, rfl⟩
    rw [lineOffset?_append, whole, Nat.sub_zero]

/-- A place is found behind the text that leads to it. -/
theorem offset?_eq_some_iff {source : List Char} {here : Position} {place : Nat} :
    offset? source here = some place ↔
      ∃ front rest, source = front ++ rest ∧ front.length = place ∧ LeadsTo front here := by
  constructor
  · intro found
    unfold offset? at found
    split at found
    · cases found
    next inside =>
    have column : 0 ≤ here.column.toInt := by
      rwa [Int32.lt_iff_toInt_lt, Int32.toInt_zero, Int.not_lt] at inside
    split at found
    · cases found
    next begin started =>
    obtain ⟨lines, rest, rfl, rfl, whole, line⟩ := lineOffset?_eq_some_iff.mp started
    dsimp only at found
    split at found
    next reached =>
      cases found
      rw [reaches_iff, List.length_append] at reached
      have size : (rest.take here.column.toInt.toNat).length = here.column.toInt.toNat :=
        List.length_take_of_le (by omega)
      refine ⟨lines ++ rest.take here.column.toInt.toNat, rest.drop here.column.toInt.toNat, ?_, ?_, lines, _, rfl,
        whole, line, ?_⟩
      · rw [List.append_assoc, List.take_append_drop]
      · rw [List.length_append, size]
      · rw [size, Int.toNat_of_nonneg column]
    · cases found
  · rintro ⟨front, rest, rfl, rfl, lines, columns, rfl, whole, line, column⟩
    have inside : ¬ here.column < 0 := by
      rw [Int32.lt_iff_toInt_lt, column, Int32.toInt_zero]
      omega
    have started : lineOffset? here.line.toNat (lines ++ columns ++ rest) = some lines.length :=
      lineOffset?_eq_some_iff.mpr ⟨lines, columns ++ rest, List.append_assoc .., rfl, whole, line⟩
    have place : lines.length + here.column.toInt.toNat = (lines ++ columns).length := by
      rw [column, Int.toNat_natCast, List.length_append]
    simp only [offset?, if_neg inside, started, place]
    rw [if_pos ((reaches_iff _ _).mpr (by simp))]

private theorem notMem_of_le_takeWhile {columns rest : List Char}
    (short : columns.length ≤ ((columns ++ rest).takeWhile (· != '\n')).length) : '\n' ∉ columns := by
  have front : columns <+: (columns ++ rest).takeWhile (· != '\n') :=
    List.prefix_of_prefix_length_le (List.prefix_append _ _) (List.takeWhile_prefix _) short
  intro inside
  simpa using List.mem_takeWhile_imp (front.subset inside)

theorem LeadsTo.ends {front rest : List Char} {here : Position} (leads : LeadsTo front here)
    (within : OnLine (front ++ rest) here) : here = behind front ∧ Fits front := by
  obtain ⟨lines, columns, rfl, whole, line, column⟩ := leads
  have short := within lines (columns ++ rest) (List.append_assoc ..) whole line
  rw [column, Int.ofNat_le] at short
  have single := notMem_of_le_takeWhile short
  have lineCount : (lines ++ columns).count '\n' = lines.count '\n' := by
    rw [List.count_append, List.count_eq_zero.mpr single, Nat.add_zero]
  have length : lastLineLength (lines ++ columns) = columns.length := by
    rw [lastLineLength_append_of_notMem _ single, whole, Nat.zero_add]
  have few := here.line.toNat_lt
  have narrow := here.column.toInt_lt
  have fits : Fits (lines ++ columns) :=
    ⟨by rw [lineCount, ← line]; exact few, by rw [length]; omega⟩
  have sameLine : here.line = 1 + UInt32.ofNat ((lines ++ columns).count '\n') := by
    have room := fits.line
    rw [← UInt32.toNat_inj, line, ← lineCount, ← UInt32.ofNat_one, ← UInt32.ofNat_add, UInt32.toNat_ofNat_of_lt'] <;> omega
  have sameColumn : here.column = Int32.ofNat (lastLineLength (lines ++ columns)) := by
    rw [← Int32.toInt_inj, Int32.toInt_ofNat_of_lt fits.column, length, column]
  exact ⟨by rw [behind, ← sameLine, ← sameColumn], fits⟩

theorem exists_lines (front : List Char) :
    ∃ lines columns, front = lines ++ columns ∧ lastLineLength lines = 0 ∧ '\n' ∉ columns := by
  by_cases broken : '\n' ∈ front
  · obtain ⟨last, first, reversed, single⟩ := List.eq_append_cons_of_mem (List.mem_reverse.mpr broken)
    refine ⟨first.reverse ++ ['\n'], last.reverse, ?_, lastLineLength_newline _, by simpa using single⟩
    rw [← List.reverse_reverse front, reversed]
    simp
  · exact ⟨[], front, rfl, rfl, broken⟩

/-- A text leads to its end, on the line that it has begun. -/
theorem leadsTo_behind {front : List Char} (fits : Fits front) : LeadsTo front (behind front) := by
  obtain ⟨lines, columns, rfl, whole, single⟩ := exists_lines front
  refine ⟨lines, columns, rfl, whole, ?_, ?_⟩
  · rw [line_behind fits, List.count_append, List.count_eq_zero.mpr single, Nat.add_zero]
  · rw [column_behind fits, lastLineLength_append_of_notMem _ single, whole, Nat.zero_add]

private theorem onLine_behind {front : List Char} (fits : Fits front) (rest : List Char) :
    OnLine (front ++ rest) (behind front) := by
  intro lines later split whole line
  obtain ⟨begun, columns, rfl, also, single⟩ := exists_lines front
  rw [line_behind fits, List.count_append, List.count_eq_zero.mpr single, Nat.add_zero] at line
  -- a source has no two places where one line begins
  have here : lineOffset? (lines.count '\n' + 1) (lines ++ later) = some lines.length :=
    lineOffset?_eq_some_iff.mpr ⟨lines, later, rfl, rfl, whole, rfl⟩
  rw [← split, List.append_assoc, ← line, lineOffset?_append, also, Nat.sub_zero, Option.some_inj] at here
  rw [List.append_assoc] at split
  obtain ⟨-, rfl⟩ := List.append_inj split here
  have inside : ∀ c ∈ columns, (c != '\n') = true := by
    intro c member
    simpa using fun same : c = '\n' => single (same ▸ member)
  rw [column_behind fits, lastLineLength_append_of_notMem _ single, also, Nat.zero_add, Int.ofNat_le,
    List.takeWhile_append_of_pos inside, List.length_append]
  exact Nat.le_add_right _ _

end Position

namespace Span

open Position (Fits LeadsTo OnLine behind)

def next (span : Span) : Position := span.last.next

theorem slice?_eq_some_iff {source text : List Char} {span : Span} :
    span.slice? source = some text ↔
      ∃ front rest, source = front ++ text ++ rest ∧ LeadsTo front span.first ∧ LeadsTo (front ++ text) span.next := by
  constructor
  · intro found
    unfold slice? at found
    split at found
    next first behind started ended =>
      obtain ⟨front, rest, rfl, rfl, leads⟩ := Position.offset?_eq_some_iff.mp started
      obtain ⟨longer, after, split, rfl, also⟩ := Position.offset?_eq_some_iff.mp ended
      split at found
      next ordered =>
        obtain ⟨middle, rfl⟩ : front <+: longer :=
          List.prefix_of_prefix_length_le (split ▸ List.prefix_append _ _) (List.prefix_append _ _) ordered
        rw [split, List.append_assoc, List.drop_left, List.length_append, Nat.add_sub_cancel_left, List.take_left] at found
        cases found
        exact ⟨front, after, split, leads, also⟩
      next => cases found
    next => cases found
  · rintro ⟨front, rest, rfl, leads, also⟩
    have started : span.first.offset? (front ++ text ++ rest) = some front.length :=
      Position.offset?_eq_some_iff.mpr ⟨front, text ++ rest, List.append_assoc .., rfl, leads⟩
    have ended : Position.offset? (front ++ text ++ rest) span.next = some (front ++ text).length :=
      Position.offset?_eq_some_iff.mpr ⟨front ++ text, rest, rfl, rfl, also⟩
    rw [slice?_eq_some span (by simp) started ended]
    simp

/-- A span that records where a text stands in a source: from the end of what is before it to its own end. -/
def Records (span : Span) (source text : List Char) : Prop :=
  ∃ front rest, source = front ++ text ++ rest ∧ Fits front ∧ Fits (front ++ text) ∧
    span.first = Position.start.advance front ∧ span.last = span.first.endOf text

/-- A span whose two columns are no further than the ends of their lines. -/
structure OnLines (span : Span) (source : List Char) : Prop where
  first : OnLine source span.first
  last : OnLine source span.next

/-- A span ends where its text does if the place behind it is the one behind the text. -/
private theorem last_eq_endOf_iff {span : Span} {front text : List Char} (starts : span.first = behind front) :
    span.last = span.first.endOf text ↔ span.next = behind (front ++ text) := by
  rw [← Position.advance_behind, ← starts, next, Position.advance_eq_next, Position.next_inj]

theorem records_iff {span : Span} {source text : List Char} :
    span.Records source text ↔ span.slice? source = some text ∧ span.OnLines source := by
  constructor
  · rintro ⟨front, rest, rfl, fitsFirst, fitsLast, starts, ends⟩
    rw [Position.advance_start] at starts
    rw [last_eq_endOf_iff starts] at ends
    refine ⟨slice?_between starts ends fitsFirst fitsLast rest, ?_, ?_⟩
    · rw [starts, List.append_assoc]
      exact Position.onLine_behind fitsFirst _
    · rw [ends]
      exact Position.onLine_behind fitsLast rest
  · rintro ⟨found, within⟩
    obtain ⟨front, rest, rfl, leads, also⟩ := slice?_eq_some_iff.mp found
    obtain ⟨starts, fitsFirst⟩ := leads.ends (List.append_assoc .. ▸ within.first)
    obtain ⟨ends, fitsLast⟩ := also.ends within.last
    refine ⟨front, rest, rfl, fitsFirst, fitsLast, ?_, (last_eq_endOf_iff starts).mpr ends⟩
    rw [starts, Position.advance_start]

end Span

end Verbatim
