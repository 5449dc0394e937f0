import Verbatim.MiniJava.Parser
import Verbatim.Proofs.MiniJavaTokens
import Verbatim.Proofs.PatternMatching
import Verbatim.Proofs.TreeSpans

/-! Tokens are longest matches. The table decides what stands in front of a text, except that a comment runs on
behind its opening mark. No other pattern matches a text that starts with that mark, so a comment is longer
than anything else that could stand there. -/

namespace Verbatim.MiniJava

open Verbatim.Lex (Pattern FirstMatch Unmatched)
open Verbatim.RawToken (Consecutive)

variable {text rest input inner body : List Char} {kind : Kind}

/-- A comment and what follows it: it runs through the first closing mark behind its opening mark, or to the
end of the source. -/
def IsComment (text rest : List Char) : Prop :=
  ∃ body, text = '/' :: '*' :: body ∧
    ((∃ inner, body = inner ++ ['*', '/'] ∧ ¬['*', '/'] <:+: inner ++ ['*']) ∨ ¬['*', '/'] <:+: body ∧ rest = [])

/-- Whether a text in front of some other text is a token of a kind, as the pattern of the kind says. -/
def Describes (kind : Kind) (text rest : List Char) : Prop :=
  if kind = .blockComment then IsComment text rest else ∃ pattern, (kind, pattern) ∈ lexicon ∧ pattern.Matches text

/-- The token of a kind stands in front: its text is described, nothing longer is, and a kind with fixed texts
wins if its text is the same. -/
structure Prevails (ahead : List Char) (kind : Kind) (text : List Char) : Prop where
  described : ∃ rest, ahead = text ++ rest ∧ Describes kind text rest
  longest : ∀ other longer rest, ahead = longer ++ rest → Describes other longer rest → longer.length ≤ text.length
  preferred : ∀ entry ∈ fixedTexts, entry.2.toList = text → entry.1 = kind

/-- No kind describes any text in front. -/
def Undescribed (ahead : List Char) : Prop :=
  ∀ kind front rest, ahead = front ++ rest → front ≠ [] → ¬Describes kind front rest

private theorem closing_of_prefix {c : Char} (first : ['*', '/'] <+: c :: text) :
    c = '*' ∧ ∃ more, text = '/' :: more := by
  obtain ⟨more, same⟩ := first
  obtain ⟨star, later⟩ := List.cons.inj same
  exact ⟨star.symm, more, later.symm⟩

private theorem commentLength_cases (input : List Char) :
    (∃ inner rest, input = inner ++ '*' :: '/' :: rest ∧ ¬['*', '/'] <:+: inner ++ ['*'] ∧
      commentLength input = inner.length + 2) ∨
      ¬['*', '/'] <:+: input ∧ commentLength input = input.length := by
  fun_induction commentLength input with
  | case1 => exact .inr ⟨by simp, rfl⟩
  | case2 rest => exact .inl ⟨[], rest, rfl, by decide, rfl⟩
  | case3 c rest unclosed ih =>
    rcases ih with ⟨inner, behind, split, free, counted⟩ | ⟨free, counted⟩
    · refine .inl ⟨c :: inner, behind, by rw [split]; rfl, ?_, by rw [counted]; rfl⟩
      rw [List.cons_append, List.infix_cons_iff]
      intro closed
      rcases closed with first | later
      · obtain ⟨star, more, same⟩ := closing_of_prefix first
        cases inner with
        | nil => cases same
        | cons d inner => exact unclosed _ star (by rw [split, (List.cons.inj same).1]; rfl)
      · exact free later
    · refine .inr ⟨?_, by rw [counted]; rfl⟩
      rw [List.infix_cons_iff]
      intro closed
      rcases closed with first | later
      · obtain ⟨star, more, same⟩ := closing_of_prefix first
        exact unclosed more star same
      · exact free later

private theorem isComment_take (input : List Char) :
    IsComment ('/' :: '*' :: input.take (commentLength input)) (input.drop (commentLength input)) := by
  rcases commentLength_cases input with ⟨inner, rest, split, free, counted⟩ | ⟨free, counted⟩
  · have closed : input = (inner ++ ['*', '/']) ++ rest := by rw [split]; simp
    have ends : commentLength input = (inner ++ ['*', '/']).length := by rw [counted]; simp
    refine ⟨inner ++ ['*', '/'], ?_, .inl ⟨inner, rfl, free⟩⟩
    rw [ends, closed, List.take_left]
  · refine ⟨input, by rw [counted, List.take_length], .inr ⟨free, by rw [counted, List.drop_length]⟩⟩

/-- Of two closing marks in one text only the first one ends the comment. -/
theorem IsComment.length_le {longer behind : List Char} (comment : IsComment text rest)
    (other : IsComment longer behind) (same : text ++ rest = longer ++ behind) : longer.length ≤ text.length := by
  obtain ⟨body, whole, ending⟩ := comment
  obtain ⟨more, wider, later⟩ := other
  subst whole wider
  simp only [List.cons_append, List.cons.injEq, true_and] at same
  simp only [List.length_cons, Nat.add_le_add_iff_right]
  rcases ending with ⟨inner, closed, -⟩ | ⟨-, ended⟩
  · by_contra shorter
    have front : body <+: more := List.prefix_of_prefix_length_le ⟨rest, same⟩ ⟨behind, rfl⟩ (by omega)
    have inside : ['*', '/'] <:+: body := by rw [closed]; exact ⟨inner, [], by simp⟩
    rcases later with ⟨outer, reclosed, free⟩ | ⟨free, -⟩
    · -- the mark of the shorter one stands in front of the last character of the longer one
      apply free
      have short : body <+: outer ++ ['*'] := by
        have outside : outer ++ ['*'] <+: more := ⟨['/'], by simp [reclosed]⟩
        apply List.prefix_of_prefix_length_le front outside
        have := congrArg List.length reclosed
        simp at this ⊢
        omega
      exact inside.trans short.isInfix
    · exact free (inside.trans front.isInfix)
  · rw [ended, List.append_nil] at same
    rw [same]
    simp

private theorem describes_comment : Describes .blockComment text rest ↔ IsComment text rest := by
  rw [Describes, if_pos rfl]

private theorem describes_other (other : kind ≠ .blockComment) :
    Describes kind text rest ↔ ∃ pattern, (kind, pattern) ∈ lexicon ∧ pattern.Matches text := by
  rw [Describes, if_neg other]

/-- Behind the opening mark of a comment nothing but that mark is alive. -/
private theorem longest?_comment (rest : List Char) :
    Lex.longest? lexicon ('/' :: '*' :: rest) = some (.blockComment, 2) := by
  cases rest <;> rfl

private theorem exists_entry {other : Kind} {front : List Char}
    (none : ∀ length, Lex.longest? lexicon input ≠ some (.blockComment, length)) (split : input = front ++ rest)
    (described : Describes other front rest) : ∃ entry ∈ lexicon, entry.2.Matches front := by
  by_cases comment : other = .blockComment
  · rw [comment, describes_comment] at described
    obtain ⟨body, opened, -⟩ := described
    rw [split, opened] at none
    exact absurd (longest?_comment _) (none 2)
  · obtain ⟨pattern, member, found⟩ := (describes_other comment).mp described
    exact ⟨(other, pattern), member, found⟩

private theorem length_le_of_unmatched {front longer : List Char} (bound : Unmatched lexicon input (front.length + 1))
    (split : input = longer ++ rest) (found : ∃ entry ∈ lexicon, entry.2.Matches longer) :
    longer.length ≤ front.length := by
  obtain ⟨entry, member, found⟩ := found
  by_contra longest
  exact bound longer rest split (by omega) entry member found

/-- If texts come first in a table and each of them stands there once, each of them has a name of its own. -/
private theorem first_text {words : List (Kind × String)} {others : List (Kind × Pattern)}
    (distinct : (words.map Prod.snd).Nodup)
    (first : FirstMatch text kind (words.map (fun (kind, word) => (kind, .text word.toList)) ++ others)) :
    ∀ entry ∈ words, entry.2.toList = text → entry.1 = kind := by
  induction words with
  | nil => nofun
  | cons head more ih =>
    obtain ⟨name, word⟩ := head
    obtain ⟨once, apart⟩ := List.nodup_cons.mp distinct
    rw [List.map_cons, List.cons_append] at first
    intro entry member same
    cases first with
    | here found =>
      rw [Pattern.matches_text_iff] at found
      rcases List.mem_cons.mp member with here | later
      · rw [here]
      · have again : entry.2 = word := String.toList_inj.mp (same.trans found)
        exact absurd (List.mem_map.mpr ⟨entry, later, again⟩) once
    | later missed first =>
      rcases List.mem_cons.mp member with here | later
      · rw [here] at same
        exact absurd (Pattern.matches_text_iff.mpr same.symm) missed
      · exact ih apart first entry later same

private theorem first_fixed (first : FirstMatch text kind lexicon) :
    ∀ entry ∈ fixedTexts, entry.2.toList = text → entry.1 = kind :=
  first_text (by decide +kernel) first

private theorem comment_prevails (rest : List Char) :
    Prevails ('/' :: '*' :: rest) .blockComment ('/' :: '*' :: rest.take (commentLength rest)) := by
  have comment := isComment_take rest
  have whole : '/' :: '*' :: rest =
      ('/' :: '*' :: rest.take (commentLength rest)) ++ rest.drop (commentLength rest) := by simp
  constructor
  case described => exact ⟨_, whole, describes_comment.mpr comment⟩
  case preferred =>
    have marks : ∀ entry ∈ fixedTexts, ['/', '*'] <+: entry.2.toList → entry.1 = .blockComment := by decide
    intro entry member same
    apply marks entry member
    rw [same]
    exact ⟨_, rfl⟩
  case longest =>
    intro other longer behind split described
    by_cases alike : other = .blockComment
    · rw [alike, describes_comment] at described
      exact comment.length_le described (whole.symm.trans split)
    · obtain ⟨pattern, member, found⟩ := (describes_other alike).mp described
      rcases Lex.longest?_spec lexicon ('/' :: '*' :: rest) with ⟨front, _, _, _, _, _, bound, known⟩ | ⟨_, none⟩
      · have two : front.length = 2 := by
          rw [longest?_comment] at known
          exact (congrArg Prod.snd (Option.some.inj known)).symm
        have short := length_le_of_unmatched bound split ⟨_, member, found⟩
        simp only [List.length_cons]
        omega
      · rw [longest?_comment] at none
        cases none

private theorem frontToken_spec (input : List Char) :
    ((frontToken input).1 ≠ .stray → Prevails input (frontToken input).1 (input.take (frontToken input).2)) ∧
      ((frontToken input).1 = .stray → Undescribed input) := by
  have solid : ∀ entry ∈ lexicon, entry.1 ≠ .stray := by decide +kernel
  have opening : ∀ entry ∈ lexicon, entry.1 = .blockComment → entry.2 = .text ['/', '*'] := by decide +kernel
  rcases Lex.longest?_spec lexicon input with ⟨front, rest, kind, split, _, first, bound, found⟩ | ⟨bound, none⟩
  · obtain ⟨pattern, member, matched⟩ := first.mem
    by_cases comment : kind = .blockComment
    · have opened : front = ['/', '*'] := by
        rw [show pattern = .text ['/', '*'] from opening _ member comment] at matched
        exact Pattern.matches_text_iff.mp matched
      have taken : frontToken input = (.blockComment, 2 + commentLength rest) := by
        rw [comment, opened] at found
        rw [frontToken, found, split, opened]
        rfl
      have ahead : input = '/' :: '*' :: rest := by rw [split, opened]; rfl
      rw [taken]
      refine ⟨fun _ => ?_, nofun⟩
      rw [ahead, Nat.add_comm, List.take_succ_cons, List.take_succ_cons]
      exact comment_prevails rest
    · have taken : frontToken input = (kind, front.length) := by
        rw [frontToken, found]
        split
        next same => exact absurd (congrArg Prod.fst (Option.some.inj same)) comment
        next same => exact (Option.some.inj same).symm
        next same => cases same
      rw [taken]
      refine ⟨fun _ => ?_, fun stray => absurd stray (solid _ member)⟩
      rw [split, List.take_left, ← split]
      constructor
      case described => exact ⟨rest, split, (describes_other comment).mpr ⟨pattern, member, matched⟩⟩
      case preferred => exact first_fixed first
      case longest =>
        intro other longer behind wider described
        apply length_le_of_unmatched bound wider
        apply exists_entry _ wider described
        intro length same
        rw [found] at same
        exact comment (congrArg Prod.fst (Option.some.inj same))
  · have taken : (frontToken input).1 = .stray := by
      rw [frontToken, none]
      cases other : Lex.longest? strayTexts input with
      | none => rfl
      | some stray => exact Lex.longest?_name (· = .stray) (by decide) other
    refine ⟨fun known => absurd taken known, fun _ => ?_⟩
    intro kind front behind split nonempty described
    obtain ⟨entry, member, matched⟩ := exists_entry (by simp [none]) split described
    exact bound front behind split (List.length_pos_iff.mpr nonempty) entry member matched

def textOf (lexemes : List Lexeme) : List Char := lexemes.flatMap fun lexeme => lexeme.text.toList

private theorem lexFrom_cons (fuel : Nat) (start : Position) (c : Char) (rest : List Char) :
    lexFrom (fuel + 1) start (c :: rest) =
      ⟨(frontToken (c :: rest)).1, String.ofList ((c :: rest).take (frontToken (c :: rest)).2), start⟩ ::
        lexFrom fuel (start.advance ((c :: rest).take (frontToken (c :: rest)).2))
          ((c :: rest).drop (frontToken (c :: rest)).2) := by
  rw [lexFrom]

private theorem eof_of_split {last lexeme : Lexeme} {front back : List Lexeme}
    (split : [last] = front ++ lexeme :: back) :
    lexeme = last := by
  have member : lexeme ∈ [last] := by rw [split]; simp
  exact List.mem_singleton.mp member

private theorem lexFrom_longest {fuel : Nat} {text : List Char} (enough : text.length ≤ fuel) {start : Position}
    {front back : List Lexeme} {lexeme : Lexeme} (split : lexFrom fuel start text = front ++ lexeme :: back)
    (inner : lexeme.kind ≠ .eof) :
    ∃ ahead, text = textOf front ++ ahead ∧
      (lexeme.kind ≠ .stray → Prevails ahead lexeme.kind lexeme.text.toList) ∧
        (lexeme.kind = .stray → Undescribed ahead) := by
  induction fuel generalizing start text front with
  | zero =>
    rw [lexFrom] at split
    rw [eof_of_split split] at inner
    exact absurd rfl inner
  | succ fuel ih =>
    cases text with
    | nil =>
      rw [lexFrom] at split
      rw [eof_of_split split] at inner
      exact absurd rfl inner
    | cons c rest =>
      rw [lexFrom_cons] at split
      have spec := frontToken_spec (c :: rest)
      have cut := frontToken_pos (c :: rest)
      generalize frontToken (c :: rest) = token at split spec cut
      cases front with
      | nil =>
        obtain ⟨same, -⟩ := List.cons.inj split
        refine ⟨c :: rest, rfl, ?_⟩
        rw [← same, String.toList_ofList]
        exact spec
      | cons first front =>
        obtain ⟨same, later⟩ := List.cons.inj split
        have shorter : ((c :: rest).drop token.2).length ≤ fuel := by
          rw [List.length_drop]
          omega
        obtain ⟨ahead, behind, found⟩ := ih shorter later
        refine ⟨ahead, ?_, found⟩
        rw [textOf, List.flatMap_cons, ← textOf, ← same, String.toList_ofList, List.append_assoc, ← behind,
          List.take_append_drop]

private theorem lexFrom_consecutive (fuel : Nat) (start : Position) (text : List Char) :
    Consecutive start ((lexFrom fuel start text).map Lexeme.raw) := by
  induction fuel generalizing start text with
  | zero => exact ⟨rfl, trivial⟩
  | succ fuel ih =>
    cases text with
    | nil => exact ⟨rfl, trivial⟩
    | cons c rest =>
      rw [lexFrom_cons, List.map_cons]
      refine ⟨rfl, ?_⟩
      rw [Lexeme.raw, String.toList_ofList]
      exact ih _ _

/-- Every token before the end of the source is the longest match where it stands, or nothing matches there.
The tokens stand one behind the other, and their names and channels are those of their kinds. -/
theorem tokens_are_longest_matches (source : String) :
    (∀ front lexeme back, lex source = front ++ lexeme :: back → lexeme.kind ≠ .eof →
      ∃ ahead, source.toList = textOf front ++ ahead ∧
        (lexeme.kind ≠ .stray → Prevails ahead lexeme.kind lexeme.text.toList) ∧
          (lexeme.kind = .stray → Undescribed ahead)) ∧
      (∃ front last, lex source = front ++ [last] ∧ last.kind = .eof ∧ ∀ lexeme ∈ front, lexeme.kind ≠ .eof) ∧
      Consecutive .start (parse source).tokens ∧
      (parse source).tokens.length = ((lex source).map Lexeme.kind).length ∧
      ∀ (index : Nat) (token : RawToken) (kind : Kind), (parse source).tokens[index]? = some token →
        ((lex source).map Lexeme.kind)[index]? = some kind → token.kind = kind.name ∧ token.channel = kind.channel := by
  have tokens : (parse source).tokens = (lex source).map Lexeme.raw := by rw [parse]
  rw [tokens]
  refine ⟨?_, lex_ends source, lexFrom_consecutive _ _ _, by simp, ?_⟩
  · intro front lexeme back split inner
    exact lexFrom_longest (Nat.le_of_eq String.length_toList) split inner
  · intro index token kind found known
    rw [List.getElem?_map] at found known
    obtain ⟨lexeme, here, same⟩ := Option.map_eq_some_iff.mp found
    rw [here] at known
    cases known
    rw [← same]
    exact ⟨rfl, rfl⟩

/-- A float is cut off in front of an exponent without digits, and its letter is an identifier although a plus
sign follows. -/
theorem broken_exponent_longest :
    let source := "1.5e+null/*é*"
    ∃ front lexeme back, lex source = front ++ lexeme :: back ∧ lexeme.kind ≠ .eof ∧ lexeme.kind = .identifier ∧
      ∃ ahead, source.toList = textOf front ++ ahead ∧ Prevails ahead .identifier ['e'] := by
  intro source
  have split : lex source = [⟨.floatLiteral, "1.5", ⟨1, 0⟩⟩] ++ ⟨.identifier, "e", ⟨1, 3⟩⟩ ::
      [⟨.add, "+", ⟨1, 4⟩⟩, ⟨.nullLiteral, "null", ⟨1, 5⟩⟩, ⟨.blockComment, "/*é*", ⟨1, 9⟩⟩, ⟨.eof, "", ⟨1, 13⟩⟩] := by
    decide +kernel
  obtain ⟨ahead, whole, prevails, -⟩ := (tokens_are_longest_matches source).1 _ _ _ split (by decide)
  exact ⟨_, _, _, split, by decide, rfl, ahead, whole, prevails (by decide)⟩

end Verbatim.MiniJava
