import Verbatim.Tree.Record
import Verbatim.Violation

/-!
The names of a tree. Rule names and token kinds share one table, in the order of their first use; a
record holds a name's place in the table.
-/

namespace Verbatim

abbrev Names := Array String

namespace Names

/-- The place of a name, which is added behind the others if it is new. -/
def intern (names : Names) (name : String) : Except Violation (Names × Nat) :=
  match names.idxOf? name with
  | some place => .ok (names, place)
  | none =>
    if names.size < Tag.nameLimit then .ok (names.push name, names.size)
    else .error (.tooManyNames Tag.nameLimit)

end Names

end Verbatim
