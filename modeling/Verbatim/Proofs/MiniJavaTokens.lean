import Verbatim.MiniJava.Lexeme

/-! Tokens cut a source into pieces. A match is never empty, so each token takes characters off the
front until none are left, and together the tokens are the source. -/

namespace Verbatim

namespace Lex

variable {α : Type}

/-- What is found behind some characters is longer than they are, unless it was found before. -/
private theorem longestFrom_cases {live : List (α × Pattern)} {taken length : Nat} {best : Option (α × Nat)}
    {input : List Char} {name : α} (found : longestFrom live taken best input = some (name, length)) :
    best = some (name, length) ∨ taken < length := by
  induction input generalizing live taken best with
  | nil => exact .inl found
  | cons c rest ih =>
    rw [longestFrom] at found
    split at found
    · exact .inl found
    next =>
      rcases ih found with later | longer
      · cases accepted : accepted? (advance c live) with
        | none => rw [accepted] at later; exact .inl later
        | some first => rw [accepted] at later; cases later; exact .inr (Nat.lt_succ_self taken)
      · exact .inr (Nat.lt_of_succ_lt longer)

private theorem longest?_pos {table : List (α × Pattern)} {input : List Char} {name : α} {length : Nat}
    (found : longest? table input = some (name, length)) : 0 < length := by
  rcases longestFrom_cases found with none | longer
  · cases none
  · exact longer

private theorem longestFrom_name {holds : α → Prop} {live : List (α × Pattern)} {taken : Nat} {best : Option (α × Nat)}
    {input : List Char} {result : α × Nat} (named : ∀ entry ∈ live, holds entry.1)
    (before : ∀ earlier, best = some earlier → holds earlier.1)
    (found : longestFrom live taken best input = some result) : holds result.1 := by
  induction input generalizing live taken best with
  | nil => exact before result found
  | cons c rest ih =>
    have still : ∀ entry ∈ advance c live, holds entry.1 := by
      intro entry member
      obtain ⟨⟨name, pattern⟩, inside, kept⟩ := List.mem_filterMap.mp member
      dsimp only at kept
      split at kept
      · cases kept
      · cases kept
        exact named (name, pattern) inside
    rw [longestFrom] at found
    split at found
    · exact before result found
    next =>
      refine ih still ?_ found
      intro earlier chosen
      cases accepted : accepted? (advance c live) with
      | none => rw [accepted] at chosen; exact before earlier chosen
      | some name =>
        rw [accepted] at chosen
        cases chosen
        obtain ⟨entry, first, rfl⟩ := Option.map_eq_some_iff.mp accepted
        exact still entry (List.mem_of_find?_eq_some first)

theorem longest?_name (holds : α → Prop) {table : List (α × Pattern)} {input : List Char} {result : α × Nat}
    (named : ∀ entry ∈ table, holds entry.1) (found : longest? table input = some result) : holds result.1 :=
  longestFrom_name named (by simp) found

end Lex

namespace MiniJava

theorem frontToken_pos (input : List Char) : 0 < (frontToken input).2 := by
  unfold frontToken
  split
  next length found => exact Nat.lt_of_lt_of_le (Lex.longest?_pos found) (Nat.le_add_right _ _)
  next found _ matched => exact Lex.longest?_pos matched
  next =>
    cases stray : Lex.longest? strayTexts input with
    | none => exact Nat.one_pos
    | some found => exact Lex.longest?_pos stray

private theorem lexFrom_texts {fuel : Nat} {text : List Char} (enough : text.length ≤ fuel) (start : Position) :
    (lexFrom fuel start text).flatMap (fun lexeme => lexeme.text.toList) = text := by
  induction fuel generalizing start text with
  | zero =>
    cases text with
    | nil => rfl
    | cons c rest => cases enough
  | succ fuel ih =>
    cases text with
    | nil => rfl
    | cons c rest =>
      have cut := frontToken_pos (c :: rest)
      have shorter : ((c :: rest).drop (frontToken (c :: rest)).2).length ≤ fuel := by
        rw [List.length_drop]
        omega
      rw [lexFrom, List.flatMap_cons, ih shorter, String.toList_ofList, List.take_append_drop]

theorem join_lex (source : String) : String.join ((lex source).map Lexeme.text) = source := by
  have texts : (lex source).flatMap (fun lexeme => lexeme.text.toList) = source.toList :=
    lexFrom_texts (Nat.le_of_eq String.length_toList) .start
  rw [← String.toList_inj, String.toList_join, List.flatMap_map, texts]

private theorem frontToken_ne_eof (input : List Char) : (frontToken input).1 ≠ .eof := by
  have lexical : ∀ entry ∈ lexicon, entry.1 ≠ .eof := by decide
  unfold frontToken
  split
  next => nofun
  next found _ matched => exact Lex.longest?_name (· ≠ .eof) lexical matched
  next =>
    cases stray : Lex.longest? strayTexts input with
    | none => nofun
    | some found => exact Lex.longest?_name (· ≠ .eof) (by decide) stray

/-- The end of the source is the last token and no other one. -/
private theorem lexFrom_ends (fuel : Nat) (start : Position) (text : List Char) :
    ∃ (front : List Lexeme) (last : Lexeme), lexFrom fuel start text = front ++ [last] ∧ last.kind = .eof ∧
      ∀ lexeme ∈ front, lexeme.kind ≠ .eof := by
  induction fuel generalizing start text with
  | zero => exact ⟨[], ⟨.eof, "", start⟩, by rw [lexFrom]; rfl, rfl, by simp⟩
  | succ fuel ih =>
    cases text with
    | nil => exact ⟨[], ⟨.eof, "", start⟩, by rw [lexFrom]; rfl, rfl, by simp⟩
    | cons c rest =>
      have first := frontToken_ne_eof (c :: rest)
      rw [lexFrom]
      generalize frontToken (c :: rest) = found at first ⊢
      obtain ⟨front, last, same, ended, inner⟩ :=
        ih (start.advance ((c :: rest).take found.2)) ((c :: rest).drop found.2)
      exact ⟨_ :: front, last, congrArg (_ :: ·) same, ended, List.forall_mem_cons.mpr ⟨first, inner⟩⟩

theorem lex_ends (source : String) :
    ∃ (front : List Lexeme) (last : Lexeme), lex source = front ++ [last] ∧ last.kind = .eof ∧
      ∀ lexeme ∈ front, lexeme.kind ≠ .eof := lexFrom_ends source.length .start source.toList

end MiniJava

end Verbatim
