import Verbatim.Token
import Verbatim.Tree.Word

/-!
The records of a tree's buffer. A record starts with a tag of two bytes, which holds what it is and
the number of its name; words of four bytes follow. The record of a node also says where the record
that finishes it stands, so that a reader can step over the node.
-/

namespace Verbatim

/-- What the first two bytes of a record say. -/
inductive Tag where
  | start (name : Nat)
  | token (kind : Nat) (channel : Channel)
  | finish
deriving DecidableEq

namespace Tag

/-- How many names the fourteen bits that a tag leaves for them can tell apart. -/
def nameLimit : Nat := 16384

/-- The highest bit marks the start of a node, the one below it a hidden token, and all bits together
the end of a node. -/
def code : Tag → Nat
  | .start name => 2 * nameLimit + name
  | .token kind .visible => kind
  | .token kind .hidden => nameLimit + kind
  | .finish => 65535

def ofCode (code : Nat) : Tag :=
  if code = 65535 then .finish
  else if 2 * nameLimit ≤ code then .start (code % nameLimit)
  else .token (code % nameLimit) (if nameLimit ≤ code then .hidden else .visible)

end Tag

/-- The start of a node: its name and rule, the index of the record that finishes it, and the bytes of
the text that it covers. -/
structure StartRecord where
  name : Nat
  rule : RuleId
  finish : Nat
  first : Nat
  last : Nat
deriving DecidableEq

/-- A token: its kind and channel, the bytes of its text, and its span in the source. -/
structure TokenRecord where
  kind : Nat
  channel : Channel
  first : Nat
  last : Nat
  span : Span
deriving DecidableEq

inductive Record where
  | start (record : StartRecord)
  | token (record : TokenRecord)
  | finish
deriving DecidableEq

namespace Record

def size : Record → Nat
  | .start _ => 18
  | .token _ => 26
  | .finish => 2

/-- Where the index of the finishing record stands in the record of a node. -/
def finishField : Nat := 6

/-- Where the end of the text stands in the record of a node. -/
def lastField : Nat := 14

/-- A place as two words, the column in two's complement. -/
def positionBytes (place : Position) : List UInt8 :=
  Word.split 4 place.line.toNat ++ Word.split 4 place.column.toUInt32.toNat

def bytes : Record → List UInt8
  | .start record =>
    Word.split 2 (Tag.code (.start record.name)) ++ Word.split 4 record.rule.toNat ++
      Word.split 4 record.finish ++ Word.split 4 record.first ++ Word.split 4 record.last
  | .token record =>
    Word.split 2 (Tag.code (.token record.kind record.channel)) ++ Word.split 4 record.first ++
      Word.split 4 record.last ++ positionBytes record.span.first ++ positionBytes record.span.last
  | .finish => Word.split 2 (Tag.code .finish)

def position? (data : Array UInt8) (index : Nat) : Option Position := do
  let line ← Word.read? data 4 index
  let column ← Word.read? data 4 (index + 4)
  return ⟨UInt32.ofNat line, (UInt32.ofNat column).toInt32⟩

/-- The record at an index, if all of it lies in the buffer. -/
def read? (data : Array UInt8) (index : Nat) : Option Record := do
  match Tag.ofCode (← Word.read? data 2 index) with
  | .finish => return .finish
  | .start name =>
    let rule ← Word.read? data 4 (index + 2)
    let finish ← Word.read? data 4 (index + finishField)
    let first ← Word.read? data 4 (index + 10)
    let last ← Word.read? data 4 (index + lastField)
    return .start ⟨name, UInt32.ofNat rule, finish, first, last⟩
  | .token kind channel =>
    let first ← Word.read? data 4 (index + 2)
    let last ← Word.read? data 4 (index + 6)
    let start ← position? data (index + 10)
    let stop ← position? data (index + 18)
    return .token ⟨kind, channel, first, last, ⟨start, stop⟩⟩

end Record

end Verbatim
