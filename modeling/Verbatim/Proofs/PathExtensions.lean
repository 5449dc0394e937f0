import Mathlib.Data.List.TakeWhile
import Verbatim.Path

/-! What the extension of a path is. A path is a row of parts with slashes between them, and its file name is the
last part that is neither empty nor a single point. The extension is all of the file name behind its last point,
as long as that point does not stand first. -/

namespace Verbatim.Path

def FileName (path name : List Char) : Prop :=
  ∃ front tail, path = ['/'].intercalate (front ++ name :: tail) ∧ (∀ part ∈ front ++ name :: tail, '/' ∉ part) ∧
    (∀ part ∈ tail, part = [] ∨ part = ['.']) ∧ name ≠ [] ∧ name ≠ ['.'] ∧ name ≠ ['.', '.']

def Extension (path extension : List Char) : Prop :=
  ∃ stem, FileName path (stem ++ '.' :: extension) ∧ stem ≠ [] ∧ '.' ∉ extension

private theorem parts_eq_splitOn (path : List Char) : parts path = path.splitOn '/' := by
  induction path with
  | nil => rfl
  | cons c rest ih =>
    rw [parts, ih, List.splitOn, List.splitOn, List.splitOnP_cons_eq_if_modifyHead]
    cases same : List.splitOnP (· == '/') rest with
    | nil => exact absurd same (List.splitOnP_ne_nil _ _)
    | cons part more => rfl

private theorem slash_notMem (path : List Char) : ∀ part ∈ parts path, '/' ∉ part := by
  induction path with
  | nil => simp [parts]
  | cons c rest ih =>
    rw [parts]
    split
    next part more found =>
      rw [found] at ih
      split
      · exact List.forall_mem_cons.mpr ⟨List.not_mem_nil, ih⟩
      next other =>
        obtain ⟨first, later⟩ := List.forall_mem_cons.mp ih
        have different : '/' ≠ c := fun same => other (beq_iff_eq.mpr same.symm)
        exact List.forall_mem_cons.mpr ⟨List.not_mem_cons_of_ne_of_not_mem different first, later⟩
    next none => simp [parts_eq_splitOn, List.splitOn_ne_nil] at none

/-- The parts of a path are the row of texts without a slash that it is made of. -/
private theorem parts_eq_iff {path : List Char} {row : List (List Char)} (some : row ≠ []) :
    parts path = row ↔ path = ['/'].intercalate row ∧ ∀ part ∈ row, '/' ∉ part := by
  constructor
  · rintro rfl
    refine ⟨?_, slash_notMem path⟩
    rw [parts_eq_splitOn, List.intercalate_splitOn]
  · rintro ⟨rfl, inner⟩
    rw [parts_eq_splitOn, List.splitOn_intercalate _ inner some]

private theorem last_eq_some_iff {row : List (List Char)} {name : List Char} :
    (row.filter fun part => part != [] && part != ['.']).getLast? = some name ↔
      ∃ front tail, row = front ++ name :: tail ∧ (∀ part ∈ tail, part = [] ∨ part = ['.']) ∧ name ≠ [] ∧
        name ≠ ['.'] := by
  have kept (part : List Char) : (part != [] && part != ['.']) = true ↔ part ≠ [] ∧ part ≠ ['.'] := by simp
  have passed (part : List Char) : (!(part != [] && part != ['.'])) = true ↔ part = [] ∨ part = ['.'] := by
    simp
  rw [List.getLast?_filter, List.find?_eq_some_iff_append]
  simp only [kept, passed]
  constructor
  · rintro ⟨filled, tail, front, split, others⟩
    refine ⟨front.reverse, tail.reverse, ?_, fun part member => others part (List.mem_reverse.mp member), filled⟩
    simpa using congrArg List.reverse split
  · rintro ⟨front, tail, rfl, others, filled⟩
    exact ⟨filled, tail.reverse, front.reverse, by simp, fun part member => others part (List.mem_reverse.mp member)⟩

private theorem fileName?_eq_some_iff {path name : List Char} : fileName? path = some name ↔ FileName path name := by
  have named : fileName? path = some name ↔
      ((parts path).filter fun part => part != [] && part != ['.']).getLast? = some name ∧ name ≠ ['.', '.'] := by
    rw [fileName?]
    split
    next last found =>
      rw [found, Option.some_inj]
      split
      next up => exact ⟨nofun, fun ⟨same, inner⟩ => absurd (same.symm.trans up) inner⟩
      next inner =>
        constructor
        · rintro ⟨⟩
          exact ⟨rfl, inner⟩
        · rintro ⟨rfl, -⟩
          rfl
    next none => simp [none]
  rw [named, last_eq_some_iff]
  constructor
  · rintro ⟨⟨front, tail, row, passed, filled, single⟩, inner⟩
    obtain ⟨joined, free⟩ := (parts_eq_iff (by simp)).mp row
    exact ⟨front, tail, joined, free, passed, filled, single, inner⟩
  · rintro ⟨front, tail, joined, free, passed, filled, single, inner⟩
    exact ⟨⟨front, tail, (parts_eq_iff (by simp)).mpr ⟨joined, free⟩, passed, filled, single⟩, inner⟩

private def behindLast (name : List Char) : List Char := (name.reverse.takeWhile (· != '.')).reverse

private theorem every_other {name : List Char} (free : '.' ∉ name) : ∀ c ∈ name.reverse, (c != '.') = true := by
  intro c member
  exact bne_iff_ne.mpr fun same => free (same ▸ List.mem_reverse.mp member)

private theorem behindLast_of_notMem {name : List Char} (free : '.' ∉ name) : behindLast name = name := by
  rw [behindLast, List.takeWhile_eq_self_iff.mpr (every_other free), List.reverse_reverse]

private theorem behindLast_append {stem behind : List Char} (free : '.' ∉ behind) :
    behindLast (stem ++ '.' :: behind) = behind := by
  rw [behindLast, List.reverse_append, List.reverse_cons, List.append_assoc,
    List.takeWhile_append_of_pos (every_other free)]
  simp

private theorem exists_split {name : List Char} (member : '.' ∈ name) :
    ∃ stem behind, name = stem ++ '.' :: behind ∧ '.' ∉ behind := by
  obtain ⟨behind, stem, split, free⟩ := List.eq_append_cons_of_mem (List.mem_reverse.mpr member)
  refine ⟨stem.reverse, behind.reverse, ?_, by simpa using free⟩
  simpa using congrArg List.reverse split

private theorem behindLast_eq_iff {name extension : List Char} :
    (if (behindLast name).length + 1 < name.length then some (behindLast name) else none) = some extension ↔
      ∃ stem, name = stem ++ '.' :: extension ∧ stem ≠ [] ∧ '.' ∉ extension := by
  constructor
  · intro found
    split at found
    next long =>
      obtain rfl := Option.some.inj found
      have member : '.' ∈ name := by
        by_contra free
        rw [behindLast_of_notMem free] at long
        omega
      obtain ⟨stem, behind, rfl, free⟩ := exists_split member
      rw [behindLast_append free] at long ⊢
      refine ⟨stem, rfl, ?_, free⟩
      rintro rfl
      simp at long
    next => cases found
  · rintro ⟨stem, rfl, some, free⟩
    have := List.length_pos_iff.mpr some
    rw [behindLast_append free, if_pos]
    simp
    omega

theorem extension?_eq_some_iff {path extension : List Char} :
    extension? path = some extension ↔ Extension path extension := by
  rw [extension?]
  split
  next none =>
    refine ⟨nofun, fun ⟨stem, named, _⟩ => ?_⟩
    rw [fileName?_eq_some_iff.mpr named] at none
    cases none
  next name found =>
    refine behindLast_eq_iff.trans ?_
    simp only [Extension, ← fileName?_eq_some_iff, found, Option.some_inj]

end Verbatim.Path
