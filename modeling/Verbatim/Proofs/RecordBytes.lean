import Mathlib.Algebra.GroupWithZero.Nat
import Verbatim.Tree.Record

/-! Words and records survive their bytes. Whatever stands at an index of a buffer is read back as it
was written, and patching a field gives the buffer in which the field had that value from the start. -/

namespace Verbatim

namespace Word

@[simp] theorem length_split (width value : Nat) : (split width value).length = width := by
  induction width generalizing value with
  | zero => rfl
  | succ width ih => simp only [split, List.length_cons, ih]

private theorem join_split {width value : Nat} (fits : value < 256 ^ width) : join (split width value) = value := by
  induction width generalizing value with
  | zero => simp_all [split, join]
  | succ width ih =>
    have high : value / 256 < 256 ^ width := by
      apply Nat.div_lt_of_lt_mul
      rwa [Nat.pow_succ'] at fits
    have low : (UInt8.ofNat value).toNat = value % 256 := by simp
    rw [split, join, ih high, low]
    exact Nat.mod_add_div value 256

/-- The bytes that stand in a buffer from an index on. -/
def Holds (data : Array UInt8) (index : Nat) (bytes : List UInt8) : Prop := bytes <+: data.toList.drop index

theorem Holds.front {data : Array UInt8} {index : Nat} {front back : List UInt8}
    (holds : Holds data index (front ++ back)) :
    Holds data index front :=
  (List.prefix_append front back).trans holds

theorem Holds.back {data : Array UInt8} {index : Nat} {front back : List UInt8}
    (holds : Holds data index (front ++ back)) :
    Holds data (index + front.length) back := by
  obtain ⟨rest, split⟩ := holds
  refine ⟨rest, ?_⟩
  rw [← List.drop_drop, ← split, List.append_assoc, List.drop_left]

theorem Holds.inside {data : Array UInt8} {index : Nat} {bytes : List UInt8} (holds : Holds data index bytes)
    (some : bytes ≠ []) : index + bytes.length ≤ data.size := by
  have short := holds.length_le
  have positive := List.length_pos_iff.mpr some
  have size : data.toList.length = data.size := Array.length_toList
  rw [List.length_drop, size] at short
  omega

theorem Holds.read? {data : Array UInt8} {index width value : Nat} (holds : Holds data index (split (width + 1) value))
    (fits : value < 256 ^ (width + 1)) : read? data (width + 1) index = some value := by
  have inside := holds.inside (by simp [split])
  rw [length_split] at inside
  have word : (data.extract index (index + (width + 1))).toList = split (width + 1) value := by
    rw [Array.toList_extract, List.extract_eq_drop_take', List.drop_take]
    have equal := List.prefix_iff_eq_take.mp holds
    rw [length_split] at equal
    rw [equal]
    congr 1
    omega
  rw [Word.read?, if_pos inside, word, join_split fits]

@[simp] theorem size_patch (data : Array UInt8) (index : Nat) (bytes : List UInt8) :
    (patch data index bytes).size = data.size := by
  induction bytes generalizing data index with
  | nil => rfl
  | cons byte bytes ih => rw [patch, ih, Array.size_setIfInBounds]

private theorem toList_patch {data : Array UInt8} {before old behind : List UInt8}
    (split : data.toList = before ++ old ++ behind)
    (bytes : List UInt8) (same : bytes.length = old.length) :
    (patch data before.length bytes).toList = before ++ bytes ++ behind := by
  induction bytes generalizing data before old with
  | nil =>
    have empty : old = [] := List.eq_nil_of_length_eq_zero same.symm
    rw [patch, split, empty]
  | cons byte bytes ih =>
    obtain _ | ⟨head, old⟩ := old
    · simp at same
    have stored : (data.setIfInBounds before.length byte).toList = (before ++ [byte]) ++ old ++ behind := by
      rw [Array.toList_setIfInBounds, split]
      simp
    have rest := ih stored (by simpa using same)
    rw [List.length_append, List.length_singleton] at rest
    rw [patch, rest]
    simp

end Word

namespace Tag

/-- A tag that leaves the fourteen bits of its name as they are. -/
def Fits : Tag → Prop
  | .start name => name < nameLimit
  | .token kind _ => kind < nameLimit
  | .finish => True

private theorem code_lt (tag : Tag) (fits : tag.Fits) : tag.code < 256 ^ 2 := by
  cases tag with
  | start name => simp only [Fits, nameLimit] at fits; simp only [code, nameLimit]; omega
  | token kind channel =>
    cases channel <;> simp only [Fits, nameLimit] at fits <;> simp only [code, nameLimit] <;> omega
  | finish => decide

/-- The largest tag of a node stays below the mark of all bits, so the three kinds are told apart. -/
private theorem ofCode_code (tag : Tag) (fits : tag.Fits) : ofCode tag.code = tag := by
  cases tag with
  | start name =>
    simp only [Fits, nameLimit] at fits
    have other : ¬2 * 16384 + name = 65535 := by omega
    have high : 2 * 16384 ≤ 2 * 16384 + name := by omega
    have rest : (2 * 16384 + name) % 16384 = name := by omega
    simp only [code, ofCode, nameLimit, if_neg other, if_pos high, rest]
  | token kind channel =>
    simp only [Fits, nameLimit] at fits
    cases channel with
    | visible =>
      have other : ¬kind = 65535 := by omega
      have low : ¬2 * 16384 ≤ kind := by omega
      have bit : ¬16384 ≤ kind := by omega
      simp [code, ofCode, nameLimit, other, low, bit, Nat.mod_eq_of_lt fits]
    | hidden =>
      have other : ¬16384 + kind = 65535 := by omega
      have low : ¬2 * 16384 ≤ 16384 + kind := by omega
      have rest : (16384 + kind) % 16384 = kind := by omega
      simp [code, ofCode, nameLimit, other, low, rest]
  | finish => rfl

end Tag

namespace Record

/-- A record whose numbers fit the fields that it has for them. -/
def Fits : Record → Prop
  | .start record =>
    record.name < Tag.nameLimit ∧ record.finish < UInt32.size ∧ record.first < UInt32.size ∧ record.last < UInt32.size
  | .token record => record.kind < Tag.nameLimit ∧ record.first < UInt32.size ∧ record.last < UInt32.size
  | .finish => True

@[simp] theorem length_bytes (record : Record) : record.bytes.length = record.size := by
  cases record <;> simp [bytes, size, positionBytes]

private theorem read_position {data : Array UInt8} {index : Nat} {place : Position}
    (holds : Word.Holds data index (positionBytes place)) : position? data index = some place := by
  have line := holds.front.read? place.line.toNat_lt
  have column := holds.back.read? place.column.toUInt32.toNat_lt
  rw [Word.length_split] at column
  simp only [position?, line, column, Option.bind_eq_bind, Option.bind_some, Option.pure_def, UInt32.ofNat_toNat,
    Int32.toInt32_toUInt32]

/-- A record is read back from its bytes, wherever they stand. -/
theorem read_bytes {data : Array UInt8} {index : Nat} {record : Record} (holds : Word.Holds data index record.bytes)
    (fits : record.Fits) : read? data index = some record := by
  cases record with
  | start record =>
    obtain ⟨name, finish, first, last⟩ := fits
    simp only [bytes] at holds
    have tag := holds.front.front.front.front.read? (Tag.code_lt (.start record.name) name)
    have rule := holds.front.front.front.back.read? record.rule.toNat_lt
    have finishes := holds.front.front.back.read? finish
    have starts := holds.front.back.read? first
    have ends := holds.back.read? last
    simp only [List.length_append, Word.length_split] at rule finishes starts ends
    simp only [read?, tag, rule, finishes, starts, ends, finishField, lastField, Option.bind_eq_bind, Option.bind_some,
      Tag.ofCode_code (.start record.name) name, UInt32.ofNat_toNat, Option.pure_def]
  | token record =>
    obtain ⟨kind, first, last⟩ := fits
    simp only [bytes] at holds
    have tag := holds.front.front.front.front.read? (Tag.code_lt (.token record.kind record.channel) kind)
    have starts := holds.front.front.front.back.read? first
    have ends := holds.front.front.back.read? last
    have start := read_position holds.front.back
    have stop := read_position holds.back
    simp only [List.length_append, Word.length_split, positionBytes] at starts ends start stop
    simp only [read?, tag, starts, ends, start, stop, Option.bind_eq_bind, Option.bind_some,
      Tag.ofCode_code (.token record.kind record.channel) kind, Option.pure_def]
  | finish =>
    have tag := holds.read? (Tag.code_lt .finish trivial)
    simp [read?, tag, Tag.ofCode_code .finish trivial]

/-- Patching the two fields that are not known when a node starts gives the record that knows them. -/
theorem toList_patch_start {data : Array UInt8} {before behind : List UInt8} {record : StartRecord}
    (split : data.toList = before ++ (Record.start record).bytes ++ behind) (finish last : Nat) :
    (Word.patch (Word.patch data (before.length + finishField) (Word.split 4 finish)) (before.length + lastField)
      (Word.split 4 last)).toList =
      before ++ (Record.start { record with finish := finish, last := last }).bytes ++ behind := by
  let head := Word.split 2 (Tag.code (.start record.name)) ++ Word.split 4 record.rule.toNat
  have finishes : data.toList = (before ++ head) ++ Word.split 4 record.finish ++
      (Word.split 4 record.first ++ Word.split 4 record.last ++ behind) := by
    simp only [split, bytes, head, List.append_assoc]
  have once := Word.toList_patch finishes (Word.split 4 finish) (by simp)
  have ends : (Word.patch data (before ++ head).length (Word.split 4 finish)).toList =
      (before ++ head ++ Word.split 4 finish ++ Word.split 4 record.first) ++ Word.split 4 record.last ++ behind := by
    simp only [once, List.append_assoc]
  have twice := Word.toList_patch ends (Word.split 4 last) (by simp)
  simp only [List.length_append, Word.length_split, head, Nat.add_assoc, Nat.reduceAdd] at twice
  rw [finishField, lastField, twice]
  simp only [bytes, List.append_assoc]

end Record

end Verbatim
