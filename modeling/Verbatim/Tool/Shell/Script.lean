import Verbatim.Tool.Program

/-!
Scripts as data. A word is a list of parts, some of which have to be expanded; commands are simple or
made of commands. A script is read and run command by command.
-/

namespace Verbatim.Tool.Shell

/-- What stands in for a parameter without a value, and what else depends on whether it has one. -/
inductive Fallback where
  | useWord
  | assignWord
  | complain
  | alternative
deriving DecidableEq

inductive Opening where
  | read
  | write
  | append
deriving DecidableEq

mutual

/-- A part of a word. Expansions in double quotes are not split. -/
inductive Part where
  | literal (text : Bytes)
  | quoted (text : Bytes)
  | parameter (quoted : Bool) (name : Bytes) (use : Use)
  | substitution (quoted : Bool) (commands : List Command)
  | arithmetic (quoted : Bool) (expression : List Part)

inductive Use where
  | value
  | length
  /-- `orEmpty` treats a parameter with an empty value like one without a value. -/
  | fallback (kind : Fallback) (orEmpty : Bool) (word : List Part)
  | trim (atEnd longest : Bool) (pattern : List Part)
  | unknown

inductive Redirection where
  | file (descriptor : Nat) (opening : Opening) (name : List Part)
  | copy (descriptor : Nat) (source : List Part)
  /-- A document that stands behind the command, by its number. -/
  | document (descriptor number : Nat)

inductive Command where
  | simple (line : Nat) (assignments : List (Bytes × List Part)) (words : List (List Part))
      (redirections : List Redirection)
  | pipeline (stages : List Command)
  | negated (command : Command)
  | both (first second : Command)
  | either (first second : Command)
  | sequence (first second : Command)
  | background (command : Command)
  | redirected (line : Nat) (command : Command) (redirections : List Redirection)
  | subshell (line : Nat) (command : Command) (redirections : List Redirection)
  | branch (condition yes : Command) (no : Option Command)
  /-- Runs as long as the condition succeeds, or as long as it fails. -/
  | loop (inverted : Bool) (condition body : Command)
  | each (line : Nat) (name : Bytes) (words : Option (List (List Part))) (body : Command)
  | choose (line : Nat) (word : List Part) (arms : List (List (List Part) × Option Command))
  | define (name : Bytes) (body : Command)

end

abbrev Word := List Part

def isNameStart (c : Char) : Bool := c.isAlpha || c == '_'

def isNameByte (c : Char) : Bool := c.isAlphanum || c == '_'

def isName : Bytes → Bool
  | [] => false
  | c :: rest => isNameStart c && rest.all isNameByte

def reserved : List String :=
  ["!", "case", "do", "done", "elif", "else", "esac", "fi", "for", "if", "in", "then", "until", "while", "\x7b", "\x7d"]

end Verbatim.Tool.Shell
