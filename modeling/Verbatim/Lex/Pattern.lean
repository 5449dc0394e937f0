/-!
Patterns of lexical grammars: the texts that they match, and a matcher that works by derivatives. The
derivative of a pattern by a character matches what may follow that character.
-/

namespace Verbatim.Lex

/-- A set of characters, given by ranges that include their ends, or by those of the characters that it
leaves out. -/
inductive CharSet where
  | oneOf (ranges : List (Char × Char))
  | noneOf (ranges : List (Char × Char))
deriving DecidableEq

namespace CharSet

def contains (c : Char) : CharSet → Bool
  | .oneOf ranges => ranges.any fun (low, high) => low ≤ c && c ≤ high
  | .noneOf ranges => !(ranges.any fun (low, high) => low ≤ c && c ≤ high)

end CharSet

inductive Pattern where
  | fail
  | empty
  | one (set : CharSet)
  | cat (first second : Pattern)
  | alt (left right : Pattern)
  | star (body : Pattern)
deriving DecidableEq

namespace Pattern

/-- The texts that a pattern describes. -/
inductive Matches : Pattern → List Char → Prop where
  | empty : Matches .empty []
  | one {set c} (member : set.contains c = true) : Matches (.one set) [c]
  | cat {first second front back} (left : Matches first front) (right : Matches second back) :
      Matches (.cat first second) (front ++ back)
  | left {left right text} (found : Matches left text) : Matches (.alt left right) text
  | right {left right text} (found : Matches right text) : Matches (.alt left right) text
  | done {body} : Matches (.star body) []
  | more {body front back} (once : Matches body front) (again : Matches (.star body) back) :
      Matches (.star body) (front ++ back)

def text : List Char → Pattern
  | [] => .empty
  | c :: rest => .cat (.one (.oneOf [(c, c)])) (text rest)

def oneOf (ranges : List (Char × Char)) : Pattern := .one (.oneOf ranges)

def noneOf (ranges : List (Char × Char)) : Pattern := .one (.noneOf ranges)

def optional (body : Pattern) : Pattern := .alt body .empty

def plus (body : Pattern) : Pattern := .cat body (.star body)

def sequence : List Pattern → Pattern
  | [] => .empty
  | [last] => last
  | first :: rest => .cat first (sequence rest)

def nullable : Pattern → Bool
  | .fail => false
  | .empty => true
  | .one _ => false
  | .cat first second => first.nullable && second.nullable
  | .alt left right => left.nullable || right.nullable
  | .star _ => true

/-- Concatenation, simplified where one side is trivial. -/
def join : Pattern → Pattern → Pattern
  | .fail, _ => .fail
  | .empty, second => second
  | first, second => .cat first second

def either : Pattern → Pattern → Pattern
  | .fail, right => right
  | left, .fail => left
  | left, right => .alt left right

/-- What may follow a character. -/
def derive (c : Char) : Pattern → Pattern
  | .fail => .fail
  | .empty => .fail
  | .one set => if set.contains c then .empty else .fail
  | .cat first second =>
    let through := join (first.derive c) second
    if first.nullable then either through (second.derive c) else through
  | .alt left right => either (left.derive c) (right.derive c)
  | .star body => join (body.derive c) (.star body)

end Pattern

/-- What is left of the named patterns behind a character. -/
def advance (c : Char) (live : List (α × Pattern)) : List (α × Pattern) :=
  live.filterMap fun (name, pattern) =>
    match pattern.derive c with
    | .fail => none
    | rest => some (name, rest)

/-- The name of the first pattern that may end here. -/
def accepted? (live : List (α × Pattern)) : Option α :=
  (live.find? fun (_, pattern) => pattern.nullable).map Prod.fst

/-- Goes on reading while some pattern is still alive. The answer is the last place where one was
complete, and the first one that was. -/
def longestFrom (live : List (α × Pattern)) (taken : Nat) (best : Option (α × Nat)) :
    List Char → Option (α × Nat)
  | [] => best
  | c :: rest =>
    match advance c live with
    | [] => best
    | live =>
      let best := ((accepted? live).map fun name => (name, taken + 1)).or best
      longestFrom live (taken + 1) best rest

/-- The longest nonempty text at the front that one of the patterns matches, by its length. Of two
patterns that match it the one that stands first in the table wins. -/
def longest? (table : List (α × Pattern)) (input : List Char) : Option (α × Nat) := longestFrom table 0 none input

end Verbatim.Lex
