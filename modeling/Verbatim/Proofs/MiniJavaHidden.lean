import Verbatim.Proofs.AssemblyBare
import Verbatim.Proofs.MiniJavaCursor
import Verbatim.Proofs.MiniJavaVerification

/-! Hidden tokens do not influence a parse. Sources with the same visible tokens have the same events, once
tokens are named by their places among the visible ones, and the same errors but for where they are. Their
trees differ in nothing but groups and spans. -/

namespace Verbatim

namespace MiniJava

open RuleEvent (relabel attached)

/-- What a parse may depend on: the kinds and texts of the visible tokens. -/
def looks (lexemes : List Lexeme) : List (Kind × String) :=
  (visible lexemes).map fun entry => (entry.1.kind, entry.1.text)

def ordinal (lexemes : List Lexeme) (index : Nat) : Nat :=
  (lexemes.take index).countP fun lexeme => !lexeme.kind.channel.isHidden

private theorem ordinals_shown (front rest : List Lexeme) :
    (shown rest front.length).map (fun entry => ordinal (front ++ rest) entry.2) =
      List.range' (front.countP fun lexeme => !lexeme.kind.channel.isHidden) (shown rest front.length).length := by
  induction rest generalizing front with
  | nil => rfl
  | cons lexeme rest ih =>
    have later := ih (front ++ [lexeme])
    rw [List.append_assoc, List.singleton_append, List.length_append, List.length_singleton, List.countP_append,
      List.countP_singleton] at later
    have here : ordinal (front ++ lexeme :: rest) front.length =
        front.countP fun lexeme => !lexeme.kind.channel.isHidden := by
      rw [ordinal, List.take_left]
    rw [shown_cons]
    cases concealed : lexeme.kind.channel.isHidden with
    | true => simpa [concealed] using later
    | false => simpa [concealed, List.range'_succ, here] using later

private theorem ordinals_visible (lexemes : List Lexeme) :
    ((visible lexemes).map Prod.snd).map (ordinal lexemes) = List.range (visible lexemes).length := by
  rw [List.range_eq_range', List.map_map]
  exact ordinals_shown [] lexemes

private theorem visible_ordinal {lexemes : List Lexeme} {lexeme : Lexeme} {index : Nat}
    (member : (lexeme, index) ∈ visible lexemes) : (visible lexemes)[ordinal lexemes index]? = some (lexeme, index) := by
  obtain ⟨place, inside, same⟩ := List.getElem_of_mem member
  have counted := congrArg (fun places => places[place]?) (ordinals_visible lexemes)
  simp [same, inside] at counted
  rw [counted, List.getElem?_eq_getElem inside, same]

private theorem number_relabel (lexemes : List Lexeme) (indexes : List Nat) (marks : List Mark) :
    (number indexes marks).map (relabel (ordinal lexemes)) = number (indexes.map (ordinal lexemes)) marks := by
  fun_induction number indexes marks with
  | case1 => rfl
  | case2 indexes name rule marks ih => exact congrArg _ ih
  | case3 indexes marks ih => exact congrArg _ ih
  | case4 index indexes marks ih => exact congrArg _ ih
  | case5 marks ih => exact ih

def remark (wanted : String) (found : Option (Kind × String)) : String :=
  match found with
  | none => wanted ++ ", found end of input"
  | some (kind, text) => wanted ++ ", found " ++ if kind == .eof then "end of input" else "`" ++ text ++ "`"

def courseOf (looks : List (Kind × String)) : List RuleEvent :=
  let outcome := parseKinds (looks.map Prod.fst)
  number (List.range looks.length) outcome.marks ++
    (outcome.failure.map fun wanted =>
      .error ⟨remark wanted (looks.drop (looks.length - outcome.rest.length)).head?, .start⟩).toList

private theorem diagnose_remark (wanted : String) (found : Option Lexeme) (last : Position) :
    (diagnose wanted found last).message = remark wanted (found.map fun lexeme => (lexeme.kind, lexeme.text)) := by
  cases found with
  | none => rfl
  | some lexeme => rfl

private theorem events_relabel (lexemes : List Lexeme) :
    (events lexemes).map (relabel (ordinal lexemes)) = courseOf (looks lexemes) := by
  have kinds : (looks lexemes).map Prod.fst = visibleKinds lexemes := by
    rw [looks, List.map_map]
    rfl
  have size : (looks lexemes).length = (visible lexemes).length := List.length_map _
  rw [courseOf, kinds, size]
  rcases outcome : parseKinds (visibleKinds lexemes) with ⟨marks, rest, failure⟩
  dsimp only
  cases failure with
  | none =>
    rw [events_of_success outcome, number_relabel, ordinals_visible]
    exact (List.append_nil _).symm
  | some wanted =>
    obtain ⟨last, same⟩ := events_of_failure outcome
    rw [same, List.map_append, number_relabel, ordinals_visible, List.map_singleton, relabel, diagnose_remark,
      List.head?_drop, looks, List.getElem?_map, Option.map_map]
    rfl

/-- What a visible token stands for in a tree without spans. -/
def lookOf (looks : List (Kind × String)) (place : Nat) : List Element :=
  looks[place]?.toList.map fun (kind, text) => Element.unplaced ⟨kind.name, text, kind.channel, ⟨.start, .start⟩⟩

/-- Attached tokens are visible ones, and no more of them is left in a tree without spans. -/
private theorem lookOf_ordinal {lexemes : List Lexeme} {index : Nat} (member : .token index ∈ events lexemes) :
    lookOf (looks lexemes) (ordinal lexemes index) = contentOf (lexemes.map Lexeme.raw) index := by
  obtain ⟨⟨lexeme, index⟩, seen, rfl⟩ := List.mem_map.mp (visible_of_token member)
  rw [lookOf, looks, List.getElem?_map, visible_ordinal seen, contentOf, List.getElem?_map, mem_visible seen]
  rfl

private theorem ne_groupName_of_spoken {name : String} (spoken : Spoken name) : name ≠ groupName := by
  rcases spoken with rfl | ⟨rule, rfl⟩
  · decide
  · cases rule <;> decide

private theorem outline_of_build {source : String} {tree : SyntaxTree}
    (built : Builder.build (calls source) = .ok tree) :
    ∃ (element : Element) (outline : Outline), tree.calls = element.calls ∧
      outline.DescribedBy ((events (lex source)).map (relabel (ordinal (lex source)))) ∧
      element.bare = outline.filled (lookOf (looks (lex source))) := by
  have consistent := consistent_parse source
  rw [calls] at built
  rw [events_parse, tokens_parse] at built consistent
  have entered : ∃ name rule, .enter name rule ∈ events (lex source) := by
    obtain ⟨depth, marks, tail, -, same, -⟩ := events_cases (lex source)
    exact ⟨_, _, same ▸ List.mem_cons_self⟩
  obtain ⟨element, outline, same, described, bare⟩ := Assembly.bare_of_build consistent built entered
    fun name rule member => ne_groupName_of_spoken (spoken_events member)
  refine ⟨element, outline.renamed (ordinal (lex source)), same, described.renamed _, ?_⟩
  rw [bare, Outline.filled_renamed]
  intro index member
  exact lookOf_ordinal (described.mem member (by simp))

private theorem sameBare_of_build {one other : String} {first second : SyntaxTree}
    (same : looks (lex one) = looks (lex other))
    (built : Builder.build (calls one) = .ok first) (also : Builder.build (calls other) = .ok second) :
    first.SameBare second := by
  obtain ⟨element, outline, calls, described, bare⟩ := outline_of_build built
  obtain ⟨another, sketch, more, written, left⟩ := outline_of_build also
  rw [events_relabel] at described written
  rw [same] at described bare
  obtain rfl := described.unique written
  exact ⟨element, another, calls, more, bare.trans left.symm⟩

private theorem error_unique {lexemes : List Lexeme} {first second : Diagnostic} (one : .error first ∈ events lexemes)
    (other : .error second ∈ events lexemes) : first = second := by
  rcases outcome : parseKinds (visibleKinds lexemes) with ⟨marks, rest, failure⟩
  cases failure with
  | none =>
    rw [events_of_success outcome] at one
    exact absurd one (error_notMem_number _ _ _)
  | some wanted =>
    obtain ⟨last, same⟩ := events_of_failure outcome
    have only {diagnostic : Diagnostic} (member : .error diagnostic ∈ events lexemes) := by
      rw [same] at member
      exact (List.mem_append.mp member).resolve_left (error_notMem_number _ _ _)
    cases List.mem_singleton.mp (only one)
    cases List.mem_singleton.mp (only other)
    rfl

private theorem exists_tree {source : String} (fits : ¬Oversized source) :
    ∃ tree, grammar.tree source .lenient = .ok tree := by
  rw [Oversized, not_or, Nat.not_le, Nat.not_le] at fits
  exact (exists_tree_iff source).mpr fits

private theorem strict_cases {source : String} (fits : ¬Oversized source) :
    (∃ tree, grammar.tree source .strict = .ok tree ∧ ∀ diagnostic, .error diagnostic ∉ events (lex source)) ∨
      ∃ diagnostic, grammar.tree source .strict = .error (.error (.parse diagnostic)) ∧
        .error diagnostic ∈ events (lex source) := by
  obtain ⟨tree, parsed⟩ := exists_tree fits
  rw [tree_eq_build] at parsed
  rw [tree_eq_build, ← events_parse]
  rcases Assembly.build_strict parsed with built | ⟨diagnostic, stopped⟩
  · exact .inl ⟨tree, built, Assembly.accepted_of_consistent (Assembly.build_eq_ok_iff.mp built).1⟩
  · exact .inr ⟨diagnostic, stopped, Assembly.build_eq_parse stopped⟩

/-- An error is found again among events that differ in names of tokens and places of errors only. -/
private theorem error_of_relabel {front back : List RuleEvent} {place other : Nat → Nat} {diagnostic : Diagnostic}
    (same : front.map (relabel place) = back.map (relabel other)) (member : .error diagnostic ∈ front) :
    ∃ found, .error found ∈ back ∧ found.message = diagnostic.message := by
  have moved : relabel place (.error diagnostic) ∈ back.map (relabel other) := same ▸ List.mem_map_of_mem member
  obtain ⟨event, inside, equal⟩ := List.mem_map.mp moved
  cases event with
  | error found =>
    cases found
    cases equal
    exact ⟨_, inside, rfl⟩
  | enter | token | exit => cases equal

/-- Two runs of the parser that only hidden tokens tell apart. -/
structure Alike (one other : String) : Prop where
  /-- Both are what the cursor makes of all tokens. -/
  cursor : Routine.events (lex one) = (parse one).events ∧ Routine.events (lex other) = (parse other).events
  events :
    (parse one).events.map (relabel (ordinal (lex one))) = (parse other).events.map (relabel (ordinal (lex other)))
  trees : ∀ mode, Oversized one ∨ Oversized other ∨
    (∃ first second, grammar.tree one mode = .ok first ∧ grammar.tree other mode = .ok second ∧ first.SameBare second) ∨
    ∃ message here there, grammar.tree one mode = .error (.error (.parse ⟨message, here⟩)) ∧
      grammar.tree other mode = .error (.error (.parse ⟨message, there⟩))

/-- Whatever white space and comments stand between them, the same visible tokens are parsed alike. -/
theorem hidden_tokens_ignored (one other : String) (same : looks (lex one) = looks (lex other)) : Alike one other := by
  have relabelled : (events (lex one)).map (relabel (ordinal (lex one))) =
      (events (lex other)).map (relabel (ordinal (lex other))) := by
    rw [events_relabel, events_relabel, same]
  constructor
  case cursor =>
    rw [events_parse, events_parse, cursor_events, cursor_events]
    exact ⟨rfl, rfl⟩
  case events => rwa [events_parse, events_parse]
  case trees =>
    intro mode
    by_cases small : Oversized one
    · exact .inl small
    by_cases fits : Oversized other
    · exact .inr (.inl fits)
    refine .inr (.inr ?_)
    cases mode with
    | lenient =>
      obtain ⟨first, parsed⟩ := exists_tree small
      obtain ⟨second, also⟩ := exists_tree fits
      exact .inl ⟨first, second, parsed, also,
        sameBare_of_build same ((tree_eq_ok_iff one first).mp parsed) ((tree_eq_ok_iff other second).mp also)⟩
    | strict =>
      -- an error of one run has its like in the other, so both stop or none does
      rcases strict_cases small with ⟨first, parsed, accepted⟩ | ⟨⟨message, here⟩, stopped, reported⟩ <;>
        rcases strict_cases fits with ⟨second, also, clean⟩ | ⟨⟨wanted, there⟩, refused, told⟩
      · exact .inl ⟨first, second, parsed, also, sameBare_of_build same (build_of_strict parsed) (build_of_strict also)⟩
      · obtain ⟨found, member, -⟩ := error_of_relabel relabelled.symm told
        exact absurd member (accepted found)
      · obtain ⟨found, member, -⟩ := error_of_relabel relabelled reported
        exact absurd member (clean found)
      · obtain ⟨found, member, rfl⟩ := error_of_relabel relabelled reported
        cases error_unique member told
        exact .inr ⟨_, here, there, stopped, refused⟩

/-- A comment and line ends more, and an error behind them at another place. -/
theorem commented_error_alike :
    let one := "class A\x7bint a=;"
    let other := "/* é */ class A \x7b\n  int a =\n ; //"
    looks (lex one) = looks (lex other) ∧ Alike one other := by
  intro one other
  have same : looks (lex one) = looks (lex other) := by decide +kernel
  exact ⟨same, hidden_tokens_ignored one other same⟩

end MiniJava

end Verbatim
