import Verbatim.Grammar

/-!
A grammar of words: runs of spaces are hidden, everything else is a word, and all words belong to one
rule. A word that is a single exclamation mark is a syntax error.
-/

namespace Verbatim.Words

def runs : List Char → List (List Char)
  | [] => []
  | c :: rest =>
    match runs rest with
    | (d :: run) :: more => if (c == ' ') == (d == ' ') then (c :: d :: run) :: more else [c] :: (d :: run) :: more
    | more => [c] :: more

def classify (run : List Char) : String × String × Channel :=
  if run.head? == some ' ' then ("WS", String.ofList run, .hidden) else ("WORD", String.ofList run, .visible)

/-- Attaches the words up to the first exclamation mark, which is reported; else leaves the rule. -/
def eventsFrom : (index : Nat) → List RawToken → List RuleEvent
  | _, [] => [.exit]
  | index, token :: rest =>
    if token.text == "!" then [.error ⟨"bang", token.start⟩]
    else
      match token.channel with
      | .visible => .token index :: eventsFrom (index + 1) rest
      | .hidden => eventsFrom (index + 1) rest

def parse (source : String) : ParseOutput :=
  let tokens := RawToken.layout .start ((runs source.toList).map classify)
  ⟨tokens, .enter "words" 1 :: eventsFrom 0 tokens⟩

def grammar : Grammar := ⟨"words", parse⟩

end Verbatim.Words
