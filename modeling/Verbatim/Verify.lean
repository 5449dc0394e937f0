import Verbatim.Position.Slice
import Verbatim.Processor

/-!
Checks of processors: that a source is restored exactly and survives the way through a document, that
parsing restored sources changes nothing any more, and that tokens stand where their spans say.
-/

namespace Verbatim

inductive Stage where
  | sourceFromTree
  | xmlRoundTrip
  | reparse
  | tokenPosition
deriving DecidableEq

def Stage.render : Stage → String
  | .sourceFromTree => "source from tree"
  | .xmlRoundTrip => "XML round trip"
  | .reparse => "re-parse"
  | .tokenPosition => "token position"

structure Mismatch where
  stage : Stage
  expected : String
  actual : String
deriving DecidableEq

namespace Mismatch

/-- The offset of the first character in which two texts differ, where both have one. -/
def differenceFrom (offset : Nat) : List Char → List Char → Option Nat
  | a :: expected, b :: actual => if a = b then differenceFrom (offset + a.utf8Size) expected actual else some offset
  | _, _ => none

/-- Where two texts part, in bytes. If one continues the other it is where the shorter one ends. -/
def differenceOffset (expected actual : String) : Nat :=
  (differenceFrom 0 expected.toList actual.toList).getD (min expected.utf8ByteSize actual.utf8ByteSize)

def line (expected actual : String) : Nat :=
  match Utf8.slice? expected 0 (differenceOffset expected actual) with
  | some common => common.toList.count '\n' + 1
  | none => 1

def message (mismatch : Mismatch) : String :=
  mismatch.stage.render ++ " mismatch on line " ++ Numeral.decimal (line mismatch.expected mismatch.actual) ++
    ": expected " ++ Quoted.quote mismatch.expected ++ ", found " ++ Quoted.quote mismatch.actual

end Mismatch

inductive VerifyError where
  | processor (fault : Fault)
  | mismatch (mismatch : Mismatch)
  | unstableTree
deriving DecidableEq

namespace Verify

/-- The first token of a list whose span does not cover its text in the source. -/
def leafPositions (source : List Char) : List Leaf → Except Mismatch Unit
  | [] => .ok ()
  | leaf :: rest =>
    let found := leaf.token.span.slice? source
    if found = some leaf.token.text.toList then leafPositions source rest
    else .error ⟨.tokenPosition, leaf.token.text, String.ofList (found.getD [])⟩

/-- Checks that every token stands in the source where its span says. -/
def positions (tree : SyntaxTree) (source : String) : Except Mismatch Unit :=
  match tree.root? with
  | some root => leafPositions source.toList (tree.leaves root)
  | none => .ok ()

variable {m : Type → Type} [Monad m]

def convert (conversion : ExceptT Fault m α) : ExceptT VerifyError m α := conversion.adapt .processor

def fail (stage : Stage) (expected actual : String) : ExceptT VerifyError m α :=
  throw (.mismatch ⟨stage, expected, actual⟩)

/-- Parses a source strictly and checks that it is restored, that the tree survives the way through a
document, and that all tokens have their places. -/
def restoring (processor : Processor m) (source : String) : ExceptT VerifyError m SyntaxTree := do
  let tree ← convert (processor.treeFromSource source .strict)
  let restored ← convert (processor.sourceFromTree tree)
  if restored ≠ source then fail .sourceFromTree source restored
  let xml ← convert (processor.xmlFromTree tree)
  let again ← convert (processor.treeFromXml xml)
  if again != tree then
    let actual ← convert (processor.xmlFromTree again)
    fail .xmlRoundTrip xml actual
  match positions tree source with
  | .ok () => return tree
  | .error mismatch => throw (.mismatch mismatch)

/-- Parses and restores a source three times; the second and the third time must agree. -/
def interConverting (processor : Processor m) (source : String) : ExceptT VerifyError m Unit := do
  let tree ← convert (processor.treeFromSource source .strict)
  let first ← convert (processor.sourceFromTree tree)
  let second ← convert (processor.treeFromSource first .strict)
  let restored ← convert (processor.sourceFromTree second)
  let third ← convert (processor.treeFromSource restored .strict)
  let last ← convert (processor.sourceFromTree third)
  if second != third then throw .unstableTree
  if restored ≠ last then fail .reparse restored last

def linesOf : List Char → List (List Char)
  | [] => []
  | c :: rest =>
    if c == '\n' then [c] :: linesOf rest
    else
      match linesOf rest with
      | [] => [[c]]
      | line :: more => (c :: line) :: more

/-- Tries the first `count` lines, then one less, and so on. -/
def maxLineFrom (processor : Processor m) (lines : List (List Char)) : (count : Nat) → ExceptT Violation m Nat
  | 0 => return 0
  | count + 1 => do
    let source := String.ofList (lines.take (count + 1)).flatten
    match ← (restoring processor source).run with
    | .ok _ => return count + 1
    | .error (.processor (.violation violation)) => throw violation
    | .error _ => maxLineFrom processor lines count

/-- How many leading lines of a source are restored together. -/
def maxLine (processor : Processor m) (source : String) : ExceptT Violation m Nat :=
  let lines := linesOf source.toList
  maxLineFrom processor lines lines.length

end Verify

namespace VerifyError

def message : VerifyError → String
  | .processor (.error problem) => problem.message
  | .processor (.violation broken) => broken.message
  | .mismatch found => found.message
  | .unstableTree => "tree changed after re-parsing generated source"

end VerifyError

end Verbatim
