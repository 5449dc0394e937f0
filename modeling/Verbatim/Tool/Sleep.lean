import Verbatim.Tool.Number
import Verbatim.Tool.Options
import Verbatim.Tool.Quoting

/-!
Waiting for a time, which may have a fraction and a unit.
-/

namespace Verbatim.Tool.Sleep

/-- A time without an end is not a number of milliseconds. -/
inductive Time where
  | milliseconds (count : Nat)
  | forever

/-- A time such as `5`, `0.25` or `2m`, rounded up. -/
def time? (text : Bytes) : Option Time :=
  match quantityAhead? text with
  | none | some (.undefined _, _) | some (.infinite true, _) => none
  | some (quantity, unit) =>
    let factor : Option Nat :=
      match unit with
      | [] | ['s'] => some 1
      | ['m'] => some 60
      | ['h'] => some 3600
      | ['d'] => some 86400
      | _ => none
    match quantity, factor with
    | .finite negative numerator denominator, some factor =>
      if negative && numerator != 0 then none
      else some (.milliseconds ((numerator * factor * 1000 + denominator - 1) / denominator))
    | _, some _ => some .forever
    | _, none => none

def total : List Time → Option Nat
  | [] => some 0
  | .milliseconds count :: rest => (total rest).map (count + ·)
  | .forever :: _ => none

def sleep : Program := fun call =>
  match Options.scan {} call.arguments with
  | .error message => call.misused message
  | .ok given =>
    let bad := given.operands.filter fun operand => (time? operand).isNone
    if call.arguments.isEmpty then call.misused (bytesOf "missing operand")
    else if bad.isEmpty then
      { unread := call.input, duration := (total (given.operands.filterMap time?)).map (1 + ·) }
    else
      call.fails ((bad.map fun operand => call.complaint (bytesOf "invalid time interval " ++ quotedArgument operand)) ++
        [call.hint])

end Verbatim.Tool.Sleep
