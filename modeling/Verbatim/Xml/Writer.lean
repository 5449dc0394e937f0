import Verbatim.Error
import Verbatim.Tree.Dump
import Verbatim.Xml.Escape
import Verbatim.Xml.Name

/-!
Trees as documents. A node is an element with its rule as an attribute; a token is an element with its
span, a mark if it is hidden, and its exact text. Every element starts a line of its own, indented by
depth; the text of a token is never broken or padded.
-/

namespace Verbatim.Xml

def ruleKey : String := "rule-id"

def firstLineKey : String := "start-line"

def firstColumnKey : String := "start-col"

def lastLineKey : String := "end-line"

def lastColumnKey : String := "end-col"

def hiddenKey : String := "hidden"

def checkName (name : String) : Except Error String :=
  if isName name.toList then .ok name else .error (.invalidXmlName name)

/-- An attribute behind a space. The values that are written need no escaping. -/
def assignment (key value : String) : String := " " ++ key ++ "=\"" ++ value ++ "\""

def tokenTag (token : Token) : String :=
  token.kind ++
    assignment firstLineKey (Numeral.decimal token.span.first.line.toNat) ++
    assignment firstColumnKey (Numeral.signed token.span.first.column.toInt) ++
    assignment lastLineKey (Numeral.decimal token.span.last.line.toNat) ++
    assignment lastColumnKey (Numeral.signed token.span.last.column.toInt) ++
    (if token.channel.isHidden then assignment hiddenKey "true" else "")

def tokenElement (token : Token) : String :=
  if token.text.isEmpty then "<" ++ tokenTag token ++ "/>"
  else
    "<" ++ tokenTag token ++ ">" ++ String.ofList (escape token.text.toList) ++ "</" ++ token.kind ++ ">"

def lines : (depth : Nat) → List Call → (pending : List String) → Except Error (List String)
  | _, [], _ => .ok []
  | depth, .start name rule :: rest, pending => do
    let name ← checkName name
    let tag := "<" ++ name ++ assignment ruleKey (Numeral.decimal rule.toNat) ++ ">"
    let more ← lines (depth + 1) rest (name :: pending)
    return (SyntaxTree.indentation depth ++ tag) :: more
  | depth, .token token :: rest, pending => do
    let _ ← checkName token.kind
    let more ← lines depth rest pending
    return (SyntaxTree.indentation depth ++ tokenElement token) :: more
  | depth, .finish :: rest, pending => do
    let more ← lines (depth - 1) rest (pending.drop 1)
    return (SyntaxTree.indentation (depth - 1) ++ "</" ++ pending.headD "" ++ ">") :: more

/-- The document of a tree. It fails with the first name that cannot be written. -/
def write (tree : SyntaxTree) : Except Error String := do
  let lines ← lines 0 tree.calls []
  return String.join (lines.map (· ++ "\n"))

end Verbatim.Xml
