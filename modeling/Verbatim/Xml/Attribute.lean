import Verbatim.Xml.Event

/-!
The attributes of a tag, one after another. A value stands in either kind of quotes and ends at the
same quote; no space is needed behind it. A key may not occur twice.
-/

namespace Verbatim.Xml

/-- Attributes as far as they can be read. -/
inductive Attributes where
  | done
  | fault (fault : AttributeFault)
  | next (key value : List Char) (rest : Attributes)
deriving DecidableEq

def skipSpace (text : List Char) : Nat × List Char :=
  ((text.takeWhile isSpace).length, text.dropWhile isSpace)

/-- Splits a key off. Its first character is taken whatever it is. -/
def splitKey : List Char → List Char × List Char
  | [] => ([], [])
  | first :: rest =>
    (first :: rest.takeWhile fun c => !(isSpace c || c == '='), rest.dropWhile fun c => !(isSpace c || c == '='))

/-- Reads at most `fuel` attributes from `offset` on. The keys seen so far have their offsets. -/
def attributesFrom : (fuel offset : Nat) → (seen : List (List Char × Nat)) → List Char → Attributes
  | 0, _, _, _ => .done
  | fuel + 1, offset, seen, text =>
    let (space, text) := skipSpace text
    let start := offset + space
    if text.isEmpty then .done
    else
      let (key, text) := splitKey text
      let (space, text) := skipSpace text
      let sign := start + Utf8.size key + space
      match text with
      | '=' :: text =>
        match seen.lookup key with
        | some earlier => .fault (.duplicate start earlier)
        | none =>
          let (space, text) := skipSpace text
          let place := sign + 1 + space
          match text with
          | [] => .fault (.valueMissing place)
          | mark :: text =>
            if mark.toNat = 34 || mark.toNat = 39 then
              let value := text.takeWhile (· != mark)
              let behind := place + 1 + Utf8.size value
              match text.dropWhile (· != mark) with
              | [] => .fault (.valueUnclosed behind mark)
              | _ :: text => .next key value (attributesFrom fuel (behind + 1) ((key, start) :: seen) text)
            else .fault (.valueUnquoted place)
      | _ => .fault (.keyWithoutEquals sign)

/-- The attributes of a tag. Their offsets count from the start of the tag's name. -/
def TagText.read (tag : TagText) : Attributes :=
  attributesFrom (tag.attributes.length + 1) (Utf8.size tag.name) [] tag.attributes

end Verbatim.Xml
