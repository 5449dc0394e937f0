/-!
Words in a byte buffer, least significant byte first. Reading a word needs all of its bytes to lie in
the buffer; patching replaces bytes in place and leaves the size as it is.
-/

namespace Verbatim.Word

/-- The low `width` bytes of a number. -/
def split : (width value : Nat) → List UInt8
  | 0, _ => []
  | width + 1, value => UInt8.ofNat value :: split width (value / 256)

def join : List UInt8 → Nat
  | [] => 0
  | byte :: bytes => byte.toNat + 256 * join bytes

def read? (data : Array UInt8) (width index : Nat) : Option Nat :=
  if index + width ≤ data.size then some (join (data.extract index (index + width)).toList) else none

/-- Replaces the bytes from an index on. -/
def patch (data : Array UInt8) (index : Nat) : List UInt8 → Array UInt8
  | [] => data
  | byte :: bytes => patch (data.setIfInBounds index byte) (index + 1) bytes

end Verbatim.Word
