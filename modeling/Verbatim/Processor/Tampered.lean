import Verbatim.Processor

/-!
A processor with seeded faults, to try checks on. It changes the sources that it restores and the
documents that it reads, and may spoil the n-th source that it restores.
-/

namespace Verbatim

/-- Replaces a text wherever it occurs, from left to right and without overlap. The next `skip`
characters belong to an occurrence that has been replaced. An empty text occurs between all characters. -/
def replaceFrom (old new : List Char) : (skip : Nat) → List Char → List Char
  | 0, [] => if old.isEmpty then new else []
  | _ + 1, [] => []
  | skip + 1, _ :: rest => replaceFrom old new skip rest
  | 0, c :: rest =>
    if old.isEmpty then new ++ c :: replaceFrom old new 0 rest
    else if old.isPrefixOf (c :: rest) then new ++ replaceFrom old new (old.length - 1) rest
    else c :: replaceFrom old new 0 rest

structure Replacement where
  old : String
  new : String

def Replacement.apply (change : Option Replacement) (text : String) : String :=
  match change with
  | some change => String.ofList (replaceFrom change.old.toList change.new.toList 0 text.toList)
  | none => text

/-- The faults: replacements in restored sources and in documents, and a text that is added to the
source with a number, counted from one. -/
structure Faults where
  source : Option Replacement := none
  document : Option Replacement := none
  addition : Option (Nat × String) := none

namespace Processor

/-- The state counts the sources restored so far. -/
def tampered (grammar : Grammar) (faults : Faults) : Processor (StateM Nat) where
  language := "tampered"
  treeFromSource := fun source mode => settle (grammar.tree source mode)
  sourceFromTree := fun tree => do
    let count ← modifyGet fun count => (count + 1, count + 1)
    let source := Replacement.apply faults.source tree.generate
    match faults.addition with
    | some (number, text) => return if number = count then source ++ text else source
    | none => return source
  treeFromXml := fun xml => settle (Xml.read (Replacement.apply faults.document xml))

end Processor

end Verbatim
