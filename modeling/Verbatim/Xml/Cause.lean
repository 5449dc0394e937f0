import Verbatim.Text.Quoted

/-!
Why a document describes no tree. Causes concern the markup itself, attributes, references, or what
the elements say.
-/

namespace Verbatim.Xml

inductive Construct where
  | bang
  | comment
  | cdata
  | doctype
  | declaration
  | element
deriving DecidableEq

def Construct.name : Construct → String
  | .bang => "Bang"
  | .comment => "Comment"
  | .cdata => "CData"
  | .doctype => "DOCTYPE"
  | .declaration => "XmlDecl"
  | .element => "Element"

/-- A fault in the attributes of a tag. Offsets count the bytes of the tag behind its bracket. -/
inductive AttributeFault where
  | keyWithoutEquals (offset : Nat)
  | duplicate (offset earlier : Nat)
  | valueMissing (offset : Nat)
  | valueUnquoted (offset : Nat)
  | valueUnclosed (offset : Nat) (quote : Char)
deriving DecidableEq

open Numeral in
def AttributeFault.message : AttributeFault → String
  | .keyWithoutEquals offset => s!"position {decimal offset}: attribute key must be directly followed by `=` or space"
  | .duplicate offset earlier =>
    s!"position {decimal offset}: duplicated attribute, previous declaration at position {decimal earlier}"
  | .valueMissing offset => s!"position {decimal offset}: `=` must be followed by an attribute value"
  | .valueUnquoted offset => s!"position {decimal offset}: attribute value must be enclosed in `\"` or `'`"
  | .valueUnclosed offset quote =>
    s!"position {decimal offset}: missing closing quote `{quote}` in attribute value"

inductive ReferenceFault where
  | unterminated (text : String)
  | unknownEntity (reference : String)
  | invalidCharacter (reference : String)
deriving DecidableEq

def ReferenceFault.message : ReferenceFault → String
  | .unterminated text => "unterminated reference in " ++ Quoted.quote text
  | .unknownEntity reference => "unknown entity `&" ++ reference ++ ";`"
  | .invalidCharacter reference => "invalid character reference `&" ++ reference ++ ";`"

inductive Cause where
  | unexpectedEnd (construct : Construct)
  | unknownBang (symbol : Char)
  | emptyDoctype
  | mismatchedEnd (expected found : String)
  | badAttribute (fault : AttributeFault)
  | badReference (fault : ReferenceFault)
  | invalidNumber (key element value : String)
  | noPosition (element : String)
  | partialPosition (element : String)
  | invalidHidden (value element : String)
  | elementInToken (element token : String)
  | secondRoot (element : String)
  | tokenOutsideNode (kind : String)
  | textOutsideRoot
  | textInNode (text : String)
  | unclosedElement
  | noRoot
deriving DecidableEq

def Cause.message : Cause → String
  | .unexpectedEnd construct => "Unexpected EOF during reading " ++ construct.name
  | .unknownBang symbol =>
    "Only Comment (`--`), CDATA (`[CDATA[`) and DOCTYPE (`DOCTYPE`) nodes can start with a '!', but symbol `" ++
      symbol.toString ++ "` found"
  | .emptyDoctype => "DOCTYPE declaration must not be empty"
  | .mismatchedEnd expected found => "Expecting </" ++ expected ++ "> found </" ++ found ++ ">"
  | .badAttribute fault => fault.message
  | .badReference fault => fault.message
  | .invalidNumber key element value =>
    "`" ++ key ++ "` of `" ++ element ++ "` is not a valid number: " ++ Quoted.quote value
  | .noPosition element => "element `" ++ element ++ "` has neither a `rule-id` nor position attributes"
  | .partialPosition element => "token `" ++ element ++ "` is missing a position attribute"
  | .invalidHidden value element => "invalid `hidden` value " ++ Quoted.quote value ++ " on `" ++ element ++ "`"
  | .elementInToken element token => "element `" ++ element ++ "` inside token `" ++ token ++ "`"
  | .secondRoot element => "second root element `" ++ element ++ "`"
  | .tokenOutsideNode kind => "token `" ++ kind ++ "` outside of any node"
  | .textOutsideRoot => "text outside of the root element"
  | .textInNode text => "text " ++ Quoted.quote text ++ " directly inside a node"
  | .unclosedElement => "unexpected end of document inside an element"
  | .noRoot => "document has no root element"

end Verbatim.Xml
