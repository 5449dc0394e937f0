import Verbatim.Grammar
import Verbatim.Lex.Pattern
import Verbatim.MiniJava.Kind

/-!
From MiniJava source to tokens. At each place the longest text that some pattern matches is taken; a
comment then runs on to its closing mark. What no pattern matches becomes stray tokens. Together the
texts are the source, and an empty token marks its end.
-/

namespace Verbatim.MiniJava

open Verbatim.Lex (Pattern)

structure Lexeme where
  kind : Kind
  text : String
  start : Position
deriving DecidableEq

def Lexeme.raw (lexeme : Lexeme) : RawToken :=
  ⟨lexeme.kind.name, lexeme.text, lexeme.kind.channel, lexeme.start⟩

def fixedTexts : List (Kind × String) :=
  [(.blockComment, "/*"),
   (.abstractWord, "abstract"), (.booleanWord, "boolean"), (.breakWord, "break"), (.byteWord, "byte"),
   (.charWord, "char"), (.classWord, "class"), (.continueWord, "continue"), (.doWord, "do"),
   (.doubleWord, "double"), (.elseWord, "else"), (.extendsWord, "extends"), (.finalWord, "final"),
   (.floatWord, "float"), (.forWord, "for"), (.ifWord, "if"), (.intWord, "int"), (.longWord, "long"),
   (.newWord, "new"), (.privateWord, "private"), (.protectedWord, "protected"), (.publicWord, "public"),
   (.returnWord, "return"), (.shortWord, "short"), (.staticWord, "static"), (.thisWord, "this"),
   (.voidWord, "void"), (.whileWord, "while"),
   (.boolLiteral, "true"), (.boolLiteral, "false"), (.nullLiteral, "null"),
   (.leftParen, "("), (.rightParen, ")"), (.leftBrace, "\x7b"), (.rightBrace, "\x7d"), (.leftBracket, "["),
   (.rightBracket, "]"), (.semicolon, ";"), (.comma, ","), (.dot, "."),
   (.assign, "="), (.greater, ">"), (.less, "<"), (.bang, "!"), (.tilde, "~"), (.question, "?"), (.colon, ":"),
   (.equal, "=="), (.lessEqual, "<="), (.greaterEqual, ">="), (.notEqual, "!="), (.andAnd, "&&"), (.orOr, "||"),
   (.increment, "++"), (.decrement, "--"), (.add, "+"), (.subtract, "-"), (.multiply, "*"), (.divide, "/"),
   (.bitAnd, "&"), (.bitOr, "|"), (.caret, "^"), (.modulo, "%"),
   (.addAssign, "+="), (.subtractAssign, "-="), (.multiplyAssign, "*="), (.divideAssign, "/=")]

def chars (text : String) : List (Char × Char) := text.toList.map fun c => (c, c)

def digit : List (Char × Char) := [('0', '9')]

def hexDigit : List (Char × Char) := [('0', '9'), ('a', 'f'), ('A', 'F')]

def letter : List (Char × Char) := [('a', 'z'), ('A', 'Z')] ++ chars "_$"

/-- A character of a literal in the given quotes, or a backslash and the character it escapes. A literal
stays in its line. -/
def quotedChar (quote : String) : Pattern :=
  .alt (.noneOf (chars (quote ++ "\\\n"))) (.cat (.oneOf (chars "\\")) (.noneOf (chars "\n")))

/-- A string literal without its closing quote. -/
def openString : Pattern := .cat (.oneOf (chars "\"")) (.star (quotedChar "\""))

/-- Kinds whose texts vary. Identifiers come last, so that keywords win over them. -/
def variedTexts : List (Kind × Pattern) :=
  [(.whitespace, .plus (.oneOf (chars " \t\r\n\x0c"))),
   (.lineComment, .sequence
     [.text ['/', '/'], .star (.noneOf (chars "\n")), .optional (.oneOf (chars "\n"))]),
   (.decimalLiteral, .sequence
     [.oneOf digit, .star (.oneOf (digit ++ chars "_")), .optional (.oneOf (chars "lL"))]),
   (.hexLiteral, .sequence
     [.oneOf (chars "0"), .oneOf (chars "xX"), .oneOf hexDigit, .star (.oneOf (hexDigit ++ chars "_")),
      .optional (.oneOf (chars "lL"))]),
   (.floatLiteral, .sequence
     [.plus (.oneOf digit), .oneOf (chars "."), .star (.oneOf digit),
      .optional (.sequence [.oneOf (chars "eE"), .optional (.oneOf (chars "+-")), .plus (.oneOf digit)]),
      .optional (.oneOf (chars "fFdD"))]),
   (.charLiteral, .sequence [.oneOf (chars "'"), quotedChar "'", .oneOf (chars "'")]),
   (.stringLiteral, .cat openString (.oneOf (chars "\""))),
   (.identifier, .cat (.oneOf letter) (.star (.oneOf (letter ++ digit))))]

def lexicon : List (Kind × Pattern) :=
  fixedTexts.map (fun (kind, text) => (kind, .text text.toList)) ++ variedTexts

/-- Text that starts no token is taken one character at a time, except for a string that is not closed,
which is taken up to the place where it fails. -/
def strayTexts : List (Kind × Pattern) := [(.stray, .noneOf []), (.stray, openString)]

/-- The number of characters of a comment behind its opening mark: through the first closing mark, or
all there are. -/
def commentLength : List Char → Nat
  | [] => 0
  | '*' :: '/' :: _ => 2
  | _ :: rest => commentLength rest + 1

def frontToken (input : List Char) : Kind × Nat :=
  match Lex.longest? lexicon input with
  | some (.blockComment, length) => (.blockComment, length + commentLength (input.drop length))
  | some found => found
  | none => (Lex.longest? strayTexts input).getD (.stray, 1)

/-- Cuts at most `fuel` tokens off the front. -/
def lexFrom : (fuel : Nat) → (start : Position) → List Char → List Lexeme
  | 0, start, _ | _ + 1, start, [] => [⟨.eof, "", start⟩]
  | fuel + 1, start, c :: rest =>
    let (kind, length) := frontToken (c :: rest)
    let text := (c :: rest).take length
    ⟨kind, String.ofList text, start⟩ :: lexFrom fuel (start.advance text) ((c :: rest).drop length)

/-- All tokens of a source; each takes at least one character. -/
def lex (source : String) : List Lexeme := lexFrom source.length .start source.toList

end Verbatim.MiniJava
