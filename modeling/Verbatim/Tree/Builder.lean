import Verbatim.Tree.Names

/-!
Building a tree call by call. Nodes are started and finished, and tokens go into the innermost open
node. The record of a node is written when it starts; where it finishes and where its text ends is
patched in when it does.
-/

namespace Verbatim

/-- One step of building a tree. A finished tree is the sequence of steps that built it. -/
inductive Call where
  | start (name : String) (rule : RuleId)
  | token (token : Token)
  | finish
deriving DecidableEq

/-- A finished tree: the records, the texts of all tokens one behind the other, and the names. Handles
into a tree carry its stamp, which no comparison of trees looks at. -/
structure SyntaxTree where
  data : Array UInt8
  text : String
  names : Names
  stamp : Nat := 0

/-- A tree under construction, with the start records of the open nodes, innermost first. -/
structure Builder where
  data : Array UInt8 := .empty
  text : String := ""
  names : Names := .empty
  pending : List Nat := []

namespace Builder

/-- The sizes of text and buffer stay below the limits of one word. -/
def wordLimit : Nat := UInt32.size

def nesting (builder : Builder) : Nat := builder.pending.length

/-- Whether the root has been started, which writes the first record. -/
def hasRoot (builder : Builder) : Bool := !builder.data.isEmpty

/-- Appends a record if the buffer can still be indexed by a word then. -/
def append (builder : Builder) (record : Record) : Except Violation Builder :=
  if builder.data.size + record.size + 1 < wordLimit then .ok { builder with data := builder.data ++ record.bytes }
  else .error .treeTooLarge

/-- Opens a node. A second root is refused. -/
def start (builder : Builder) (name : String) (rule : RuleId) : Except Violation Builder :=
  if builder.hasRoot && builder.pending.isEmpty then .error .secondRoot
  else
    match builder.names.intern name with
    | .error violation => .error violation
    | .ok (names, place) =>
      let offset := builder.text.utf8ByteSize
      append { builder with names := names, pending := builder.data.size :: builder.pending }
        (.start ⟨place, rule, 0, offset, offset⟩)

def token (builder : Builder) (token : Token) : Except Violation Builder :=
  if builder.pending.isEmpty then .error .tokenBeforeNode
  else
    match builder.names.intern token.kind with
    | .error violation => .error violation
    | .ok (names, place) =>
      let first := builder.text.utf8ByteSize
      let last := first + token.text.utf8ByteSize
      if last < wordLimit then
        append { builder with names := names, text := builder.text ++ token.text }
          (.token ⟨place, token.channel, first, last, token.span⟩)
      else .error (.textTooLong last)

def finishNode (builder : Builder) : Except Violation Builder :=
  match builder.pending with
  | [] => .error .nothingToFinish
  | index :: outer =>
    let finish := builder.data.size
    let last := builder.text.utf8ByteSize
    match append { builder with pending := outer } .finish with
    | .error violation => .error violation
    | .ok closed =>
      let data := Word.patch closed.data (index + Record.finishField) (Word.split 4 finish)
      .ok { closed with data := Word.patch data (index + Record.lastField) (Word.split 4 last) }

def call (builder : Builder) : Call → Except Violation Builder
  | .start name rule => builder.start name rule
  | .token token => builder.token token
  | .finish => builder.finishNode

def run (builder : Builder) : List Call → Except Violation Builder
  | [] => .ok builder
  | call :: calls => (builder.call call).bind fun next => next.run calls

/-- The tree, once its root has been started and finished. -/
def finish (builder : Builder) : Except Violation SyntaxTree :=
  if !builder.hasRoot then .error .noNodes
  else if builder.nesting ≠ 0 then .error (.unfinishedNodes builder.nesting)
  else .ok { data := builder.data, text := builder.text, names := builder.names }

def build (calls : List Call) : Except Violation SyntaxTree :=
  (run {} calls).bind fun builder => builder.finish

end Builder

end Verbatim
