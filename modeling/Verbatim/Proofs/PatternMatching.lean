import Verbatim.Lex.Pattern

/-! What is found at the front of a text by derivatives. Behind each character the table shrinks to what is left
of the patterns that are still alive, in their order, so that the first entry which matches a text can be
told from what is left behind the first character of it. -/

namespace Verbatim.Lex

namespace Pattern

variable {first second left right body pattern : Pattern} {c : Char} {text : List Char}

private theorem matches_empty_iff : Matches .empty text ↔ text = [] := by
  constructor
  · intro found
    cases found
    rfl
  · intro none
    subst none
    exact .empty

private theorem matches_one_iff {set : CharSet} :
    Matches (.one set) text ↔ ∃ c, set.contains c = true ∧ text = [c] := by
  constructor
  · intro found
    cases found with
    | one member => exact ⟨_, member, rfl⟩
  · intro ⟨c, member, same⟩
    subst same
    exact .one member

private theorem matches_cat_iff :
    Matches (.cat first second) text ↔
      ∃ front back, Matches first front ∧ Matches second back ∧ text = front ++ back := by
  constructor
  · intro found
    cases found with
    | cat left right => exact ⟨_, _, left, right, rfl⟩
  · intro ⟨front, back, left, right, same⟩
    subst same
    exact .cat left right

private theorem matches_alt_iff : Matches (.alt left right) text ↔ Matches left text ∨ Matches right text := by
  constructor
  · intro found
    cases found with
    | left found => exact .inl found
    | right found => exact .inr found
  · intro found
    cases found with
    | inl found => exact .left found
    | inr found => exact .right found

theorem matches_text_iff {word : List Char} : Matches (.text word) text ↔ text = word := by
  induction word generalizing text with
  | nil => exact matches_empty_iff
  | cons c rest ih =>
    simp only [Pattern.text, matches_cat_iff, matches_one_iff, ih, CharSet.contains, List.any_cons, List.any_nil,
      Bool.or_false, Bool.and_eq_true, decide_eq_true_eq]
    constructor
    · intro ⟨front, back, ⟨d, member, single⟩, same, whole⟩
      subst single same whole
      rw [Char.le_antisymm member.2 member.1, List.singleton_append]
    · intro same
      exact ⟨[c], rest, ⟨c, ⟨Char.le_refl c, Char.le_refl c⟩, rfl⟩, rfl, same⟩

private theorem matches_star_cons_iff :
    Matches (.star body) (c :: text) ↔
      ∃ front back, Matches body (c :: front) ∧ Matches (.star body) back ∧ text = front ++ back := by
  constructor
  · intro found
    generalize starred : Pattern.star body = pattern at found
    generalize whole : c :: text = input at found
    induction found with
    | empty | one | cat | left | right => cases starred
    | done => cases whole
    | @more _ front back once again _ ih =>
      cases starred
      cases front with
      | nil => exact ih rfl whole
      | cons d front =>
        obtain ⟨same, rest⟩ := List.cons.inj whole
        subst same
        exact ⟨front, back, once, again, rest⟩
  · intro ⟨front, back, once, again, same⟩
    subst same
    exact .more once again

private theorem nullable_iff : pattern.nullable = true ↔ Matches pattern [] := by
  induction pattern with
  | fail => simp only [nullable, Bool.false_eq_true, false_iff]; nofun
  | empty => simp [nullable, matches_empty_iff]
  | one set => simp [nullable, matches_one_iff]
  | cat first second front back => simp [nullable, matches_cat_iff, front, back]
  | alt left right front back => simp [nullable, matches_alt_iff, front, back]
  | star body => simp only [nullable, true_iff]; exact .done

private theorem matches_join_iff : Matches (join first second) text ↔ Matches (.cat first second) text := by
  unfold join
  split
  · simp only [matches_cat_iff]
    constructor
    · intro found
      cases found
    · intro ⟨_, _, found, _⟩
      cases found
  · simp [matches_cat_iff, matches_empty_iff]
  · rfl

private theorem matches_either_iff : Matches (either left right) text ↔ Matches left text ∨ Matches right text := by
  have dead : ¬Matches .fail text := nofun
  unfold either
  split
  · simp [dead]
  · simp [dead]
  · exact matches_alt_iff

/-- What may follow a character is what a text goes on with that starts with it. -/
private theorem matches_derive_iff : Matches (pattern.derive c) text ↔ Matches pattern (c :: text) := by
  induction pattern generalizing text with
  | fail => exact ⟨nofun, nofun⟩
  | empty => exact ⟨nofun, nofun⟩
  | one set =>
    rw [derive, matches_one_iff]
    split
    next member =>
      rw [matches_empty_iff]
      constructor
      · intro none
        exact ⟨c, member, by rw [none]⟩
      · intro ⟨d, _, same⟩
        exact (List.cons.inj same).2
    next other =>
      constructor
      · nofun
      · intro ⟨d, member, same⟩
        rw [← (List.cons.inj same).1] at member
        exact absurd member other
  | cat first second front back =>
    have through : Matches (join (first.derive c) second) text ↔
        ∃ start rest, Matches first (c :: start) ∧ Matches second rest ∧ text = start ++ rest := by
      simp only [matches_join_iff, matches_cat_iff, front]
    have parts : Matches (.cat first second) (c :: text) ↔
        (Matches first [] ∧ Matches second (c :: text)) ∨
          ∃ start rest, Matches first (c :: start) ∧ Matches second rest ∧ text = start ++ rest := by
      rw [matches_cat_iff]
      constructor
      · intro ⟨start, rest, left, right, same⟩
        cases start with
        | nil =>
          rw [List.nil_append] at same
          exact .inl ⟨left, same ▸ right⟩
        | cons d start =>
          obtain ⟨here, later⟩ := List.cons.inj same
          exact .inr ⟨start, rest, here ▸ left, right, later⟩
      · intro cases
        rcases cases with ⟨left, right⟩ | ⟨start, rest, left, right, same⟩
        · exact ⟨[], _, left, right, rfl⟩
        · exact ⟨c :: start, rest, left, right, by rw [same, List.cons_append]⟩
    rw [derive, parts, ← nullable_iff]
    split
    next empty => rw [matches_either_iff, through, back, Or.comm]; simp [empty]
    next solid => rw [through]; simp [solid]
  | alt left right front back => rw [derive, matches_either_iff, matches_alt_iff, front, back]
  | star body inner => rw [derive, matches_join_iff, matches_cat_iff, matches_star_cons_iff]; simp only [inner]

end Pattern

open Pattern

section

variable {α : Type} {live table : List (α × Pattern)} {name : α} {c : Char} {text input : List Char}

/-- The first entry whose pattern matches a text has this name. -/
inductive FirstMatch (text : List Char) (name : α) : List (α × Pattern) → Prop
  | here {pattern : Pattern} {rest : List (α × Pattern)} (found : Matches pattern text) :
    FirstMatch text name ((name, pattern) :: rest)
  | later {entry : α × Pattern} {rest : List (α × Pattern)} (missed : ¬Matches entry.2 text)
    (first : FirstMatch text name rest) : FirstMatch text name (entry :: rest)

/-- No entry has a pattern that matches a text of this length or more at the front. -/
def Unmatched (table : List (α × Pattern)) (input : List Char) (least : Nat) : Prop :=
  ∀ front back, input = front ++ back → least ≤ front.length → ∀ entry ∈ table, ¬Matches entry.2 front

theorem FirstMatch.mem (first : FirstMatch text name table) :
    ∃ pattern, (name, pattern) ∈ table ∧ Matches pattern text := by
  induction first with
  | here found => exact ⟨_, List.mem_cons_self, found⟩
  | later _ _ ih =>
    obtain ⟨pattern, member, found⟩ := ih
    exact ⟨pattern, List.mem_cons_of_mem _ member, found⟩

theorem FirstMatch.unique {other : α} (first : FirstMatch text name table) (second : FirstMatch text other table) :
    name = other := by
  induction first with
  | here found =>
    cases second with
    | here => rfl
    | later missed => exact absurd found missed
  | later missed _ ih =>
    cases second with
    | here found => exact absurd found missed
    | later _ second => exact ih second

private theorem exists_first {entry : α × Pattern} (member : entry ∈ table) (found : Matches entry.2 text) :
    ∃ name, FirstMatch text name table := by
  induction table with
  | nil => cases member
  | cons head rest ih =>
    by_cases now : Matches head.2 text
    · exact ⟨head.1, .here now⟩
    · cases member with
      | head => exact absurd found now
      | tail _ inside =>
        obtain ⟨name, first⟩ := ih inside
        exact ⟨name, .later now first⟩

private theorem first_advance_iff : FirstMatch text name (advance c table) ↔ FirstMatch (c :: text) name table := by
  induction table with
  | nil => exact ⟨nofun, nofun⟩
  | cons entry rest ih =>
    obtain ⟨other, pattern⟩ := entry
    have ended : pattern.derive c = .fail → ¬Matches pattern (c :: text) := by
      intro dead found
      rw [← matches_derive_iff, dead] at found
      cases found
    rw [advance, List.filterMap_cons]
    dsimp only
    split
    next gone =>
      split at gone
      next dead =>
        rw [← advance, ih]
        constructor
        · intro first
          exact .later (ended dead) first
        · intro first
          cases first with
          | here found => exact absurd found (ended dead)
          | later _ first => exact first
      next => cases gone
    next left kept =>
      split at kept
      next => cases kept
      next =>
        cases kept
        rw [← advance]
        constructor
        · intro first
          cases first with
          | here found => exact .here (matches_derive_iff.mp found)
          | later missed first => exact .later (mt matches_derive_iff.mpr missed) (ih.mp first)
        · intro first
          cases first with
          | here found => exact .here (matches_derive_iff.mpr found)
          | later missed first => exact .later (mt matches_derive_iff.mp missed) (ih.mpr first)

private theorem exists_advance_iff :
    (∃ entry ∈ advance c table, Matches entry.2 text) ↔ ∃ entry ∈ table, Matches entry.2 (c :: text) := by
  constructor
  · intro ⟨entry, member, found⟩
    obtain ⟨name, first⟩ := exists_first member found
    obtain ⟨pattern, inside, whole⟩ := (first_advance_iff.mp first).mem
    exact ⟨_, inside, whole⟩
  · intro ⟨entry, member, found⟩
    obtain ⟨name, first⟩ := exists_first member found
    obtain ⟨pattern, inside, rest⟩ := (first_advance_iff.mpr first).mem
    exact ⟨_, inside, rest⟩

private theorem accepted?_cons {pattern : Pattern} :
    accepted? ((name, pattern) :: live) = if pattern.nullable then some name else accepted? live := by
  rw [accepted?, List.find?_cons]
  dsimp only
  split
  next empty => rw [if_pos empty]; rfl
  next solid => rw [if_neg (by simp [solid]), accepted?]

private theorem accepted?_eq_some_iff : accepted? live = some name ↔ FirstMatch [] name live := by
  induction live with
  | nil => exact ⟨nofun, nofun⟩
  | cons entry rest ih =>
    obtain ⟨other, pattern⟩ := entry
    rw [accepted?_cons]
    split
    next empty =>
      rw [nullable_iff] at empty
      constructor
      · intro same
        cases same
        exact .here empty
      · intro first
        rw [first.unique (.here empty)]
    next solid =>
      rw [nullable_iff] at solid
      rw [ih]
      constructor
      · intro first
        exact .later solid first
      · intro first
        cases first with
        | here found => exact absurd found solid
        | later _ first => exact first

theorem Unmatched.cons {least : Nat} (behind : Unmatched (advance c table) input least) :
    Unmatched table (c :: input) (least + 1) := by
  intro front back split long entry member found
  cases front with
  | nil => cases long
  | cons d front =>
    obtain ⟨same, rest⟩ := List.cons.inj split
    subst same
    obtain ⟨left, kept, later⟩ := exists_advance_iff.mpr ⟨entry, member, found⟩
    exact behind front back rest (Nat.le_of_succ_le_succ long) left kept later

/-- Either the longest text at the front that some pattern matches is found, with the first of the entries
that match it, or no pattern matches any text there and the answer is what was found before. -/
private theorem longestFrom_spec (live : List (α × Pattern)) (taken : Nat) (best : Option (α × Nat))
    (input : List Char) :
    (∃ front back name, input = front ++ back ∧ front ≠ [] ∧ FirstMatch front name live ∧
      Unmatched live input (front.length + 1) ∧
        longestFrom live taken best input = some (name, taken + front.length)) ∨
      (Unmatched live input 1 ∧ longestFrom live taken best input = best) := by
  induction input generalizing live taken best with
  | nil =>
    refine .inr ⟨?_, rfl⟩
    intro front back split long
    rw [(List.append_eq_nil_iff.mp split.symm).1] at long
    cases long
  | cons c rest ih =>
    rw [longestFrom]
    split
    next gone =>
      refine .inr ⟨?_, rfl⟩
      apply Unmatched.cons
      intro front back split long entry member
      rw [gone] at member
      cases member
    next =>
      rcases ih (advance c live) (taken + 1) (((accepted? (advance c live)).map fun name => (name, taken + 1)).or best)
        with ⟨front, back, name, split, _, first, bound, found⟩ | ⟨bound, found⟩
      · refine .inl ⟨c :: front, back, name, by rw [split]; rfl, List.cons_ne_nil _ _, first_advance_iff.mp first,
          bound.cons, ?_⟩
        rw [found, List.length_cons, Nat.add_right_comm, Nat.add_assoc]
      · rw [found]
        cases accepted : accepted? (advance c live) with
        | some name =>
          have first := accepted?_eq_some_iff.mp accepted
          exact .inl ⟨[c], rest, name, rfl, List.cons_ne_nil _ _, first_advance_iff.mp first, bound.cons, rfl⟩
        | none =>
          refine .inr ⟨?_, rfl⟩
          apply Unmatched.cons
          intro front back split _ entry member matched
          cases front with
          | cons d front => exact bound _ back split (Nat.succ_le_succ (Nat.zero_le _)) entry member matched
          | nil =>
            obtain ⟨name, first⟩ := exists_first member matched
            rw [accepted?_eq_some_iff.mpr first] at accepted
            cases accepted

/-- The longest match is what the table says: nothing longer is matched, and of the entries that match it the
first one names it. Where there is none, no text at the front is matched by any pattern. -/
theorem longest?_spec (table : List (α × Pattern)) (input : List Char) :
    (∃ front back name, input = front ++ back ∧ front ≠ [] ∧ FirstMatch front name table ∧
      Unmatched table input (front.length + 1) ∧ longest? table input = some (name, front.length)) ∨
      (Unmatched table input 1 ∧ longest? table input = none) := by
  rcases longestFrom_spec table 0 none input with ⟨front, back, name, split, solid, first, bound, found⟩ | none
  · rw [Nat.zero_add] at found
    exact .inl ⟨front, back, name, split, solid, first, bound, found⟩
  · exact .inr none

end

end Verbatim.Lex
