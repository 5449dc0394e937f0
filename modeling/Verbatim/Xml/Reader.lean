import Verbatim.Xml.Attribute
import Verbatim.Xml.Writer

/-!
Documents as trees. What an element is shows in its attributes: one with a rule is a node, one with a
span a token. Text belongs to tokens; between elements only blank text may stand. Anything else makes
the document malformed, at the offset of the piece that shows it.
-/

namespace Verbatim.Xml

structure Fields where
  rule : Option RuleId := none
  firstLine : Option UInt32 := none
  firstColumn : Option Int32 := none
  lastLine : Option UInt32 := none
  lastColumn : Option Int32 := none
  hidden : Option (List Char) := none

def number (element key : String) (value : List Char) (read? : List Char → Option α) : Except Cause α :=
  match read? value with
  | some number => .ok number
  | none => .error (.invalidNumber key element (String.ofList value))

/-- Takes one attribute into account. Keys without meaning are passed over. -/
def Fields.set (fields : Fields) (element key : String) (value : List Char) : Except Cause Fields :=
  if key = ruleKey then
    (number element key value (Numeral.word? 10)).map fun rule => { fields with rule := some rule }
  else if key = firstLineKey then
    (number element key value (Numeral.word? 10)).map fun line => { fields with firstLine := some line }
  else if key = firstColumnKey then
    (number element key value Numeral.signedWord?).map fun column => { fields with firstColumn := some column }
  else if key = lastLineKey then
    (number element key value (Numeral.word? 10)).map fun line => { fields with lastLine := some line }
  else if key = lastColumnKey then
    (number element key value Numeral.signedWord?).map fun column => { fields with lastColumn := some column }
  else if key = hiddenKey then .ok { fields with hidden := some value }
  else .ok fields

/-- Reads attributes from left to right up to the first fault. -/
def Fields.read (fields : Fields) (element : String) : Attributes → Except Cause Fields
  | .done => .ok fields
  | .fault fault => .error (.badAttribute fault)
  | .next key value rest =>
    match unescape value with
    | .error fault => .error (.badReference fault)
    | .ok value => (fields.set element (String.ofList key) value).bind fun fields => fields.read element rest

/-- An element by its start tag; the text of a token follows. -/
inductive Opening where
  | node (name : String) (rule : RuleId)
  | token (kind : String) (channel : Channel) (span : Span)
deriving DecidableEq

def channel (element : String) : Option (List Char) → Except Cause Channel
  | none => .ok .visible
  | some value =>
    if value = "false".toList then .ok .visible
    else if value = "true".toList then .ok .hidden
    else .error (.invalidHidden (String.ofList value) element)

/-- A rule makes an element a node; else it needs all of a span. -/
def Fields.opening (fields : Fields) (element : String) : Except Cause Opening :=
  match fields.rule with
  | some rule => .ok (.node element rule)
  | none =>
    match fields.firstLine, fields.firstColumn, fields.lastLine, fields.lastColumn with
    | some firstLine, some firstColumn, some lastLine, some lastColumn =>
      (channel element fields.hidden).map fun channel =>
        .token element channel ⟨⟨firstLine, firstColumn⟩, ⟨lastLine, lastColumn⟩⟩
    | none, none, none, none => .error (.noPosition element)
    | _, _, _, _ => .error (.partialPosition element)

def TagText.opening (tag : TagText) : Except Cause Opening :=
  let element := String.ofList tag.name
  (Fields.read {} element tag.read).bind fun fields => fields.opening element

/-- A token whose end tag is still to come, with its text so far. -/
structure OpenToken where
  kind : String
  channel : Channel
  span : Span
  text : List Char := []

structure Reader where
  builder : Builder := {}
  token : Option OpenToken := none
  rootFinished : Bool := false

namespace Reader

def malformed (offset : Nat) (cause : Cause) : Fault := .error (.malformedTree cause offset)

def call (reader : Reader) (call : Call) : Except Fault Reader :=
  match reader with
  | ⟨builder, token, rootFinished⟩ =>
    match builder.call call with
    | .ok builder => .ok ⟨builder, token, rootFinished⟩
    | .error violation => .error (.violation violation)

def startNode (reader : Reader) (name : String) (rule : RuleId) (offset : Nat) : Except Fault Reader :=
  match reader.token with
  | some token => .error (malformed offset (.elementInToken name token.kind))
  | none =>
    if reader.rootFinished then .error (malformed offset (.secondRoot name))
    else reader.call (.start name rule)

/-- A token may stand neither inside of a token nor outside of all nodes. -/
def checkToken (reader : Reader) (kind : String) (offset : Nat) : Except Fault Unit :=
  match reader.token with
  | some token => .error (malformed offset (.elementInToken kind token.kind))
  | none => if reader.builder.nesting = 0 then .error (malformed offset (.tokenOutsideNode kind)) else .ok ()

def addToken (reader : Reader) (token : OpenToken) : Except Fault Reader :=
  { reader with token := none }.call (.token ⟨token.kind, String.ofList token.text, token.channel, token.span⟩)

def finishNode (reader : Reader) : Except Fault Reader :=
  (reader.call .finish).map fun reader =>
    { reader with rootFinished := reader.rootFinished || reader.builder.nesting = 0 }

/-- Text is kept inside of tokens; elsewhere it must be blank. -/
def addText (reader : Reader) (text : List Char) (offset : Nat) : Except Fault Reader :=
  match reader.token with
  | some token => .ok { reader with token := some { token with text := token.text ++ text } }
  | none =>
    if text.all isBlank then .ok reader
    else if reader.builder.nesting = 0 then .error (malformed offset .textOutsideRoot)
    else .error (malformed offset (.textInNode (String.ofList text)))

def step (reader : Reader) (event : Event) (offset : Nat) : Except Fault Reader :=
  match event with
  | .start tag =>
    match tag.opening with
    | .error cause => .error (malformed offset cause)
    | .ok (.node name rule) => reader.startNode name rule offset
    | .ok (.token kind channel span) =>
      (reader.checkToken kind offset).map fun _ => { reader with token := some { kind, channel, span } }
  | .empty tag =>
    match tag.opening with
    | .error cause => .error (malformed offset cause)
    | .ok (.node name rule) => (reader.startNode name rule offset).bind finishNode
    | .ok (.token kind channel span) =>
      (reader.checkToken kind offset).bind fun _ => reader.addToken { kind, channel, span }
  | .finish =>
    match reader.token with
    | some token => reader.addToken token
    | none => reader.finishNode
  | .text raw =>
    match unescape raw with
    | .error fault => .error (malformed offset (.badReference fault))
    | .ok text => reader.addText text offset
  | .cdata content => reader.addText content offset

/-- At the end everything must be closed, and there must have been a root. -/
def finish (reader : Reader) (offset : Nat) : Except Fault SyntaxTree :=
  if reader.token.isSome || reader.builder.nesting ≠ 0 then .error (malformed offset .unclosedElement)
  else if !reader.rootFinished then .error (malformed offset .noRoot)
  else Fault.ofViolation reader.builder.finish

def run (reader : Reader) : Stream → Except Fault SyntaxTree
  | .done offset => reader.finish offset
  | .fault cause offset => .error (malformed offset cause)
  | .next event offset rest => (reader.step event offset).bind fun reader => reader.run rest

end Reader

def read (document : String) : Except Fault SyntaxTree := Reader.run {} (scan document)

end Verbatim.Xml
