import Verbatim.MiniJava.Lookahead
import Verbatim.Proofs.MiniJavaCursor
import Verbatim.Proofs.MiniJavaLookahead

/-! How far a type goes. Counting pairs of tokens by offsets and taking them in a loop both go on while two kinds
stand in front, so that both stop behind as many tokens. -/

namespace Verbatim.MiniJava

variable {first second : Kind} {ahead rest : List Kind}

def pairCount (first second : Kind) : List Kind → Nat
  | one :: other :: rest => if one = first ∧ other = second then pairCount first second rest + 1 else 0
  | _ => 0

private theorem pairCount_pair :
    pairCount first second (first :: second :: rest) = pairCount first second rest + 1 := by
  rw [pairCount, if_pos ⟨rfl, rfl⟩]

private theorem pairCount_of_ne (other : ∀ rest, ahead ≠ first :: second :: rest) :
    pairCount first second ahead = 0 := by
  fun_cases pairCount first second ahead with
  | case1 one two rest same =>
    rw [same.1, same.2] at other
    exact absurd rfl (other rest)
  | case2 => rfl
  | case3 => rfl

private theorem pairCount_le (first second : Kind) (ahead : List Kind) :
    2 * pairCount first second ahead ≤ ahead.length := by
  fun_induction pairCount first second ahead with
  | case1 one other rest same ih =>
    simp only [List.length_cons]
    omega
  | case2 => exact Nat.zero_le _
  | case3 => exact Nat.zero_le _

/-- Behind the last token no pair is seen, since its second kind is not that of the end. -/
private theorem pair_eq_true_iff (inner : second ≠ .eof) :
    Look.pair first second ahead = true ↔ ∃ rest, ahead = first :: second :: rest := by
  constructor
  · intro holds
    simp only [Look.pair, Bool.and_eq_true, beq_iff_eq] at holds
    cases ahead with
    | nil => exact absurd holds.2.symm inner
    | cons one more =>
      cases more with
      | nil => exact absurd holds.2.symm inner
      | cons other rest =>
        obtain ⟨front, back⟩ : one = first ∧ other = second := holds
        exact ⟨rest, by rw [front, back]⟩
  · intro pairs
    obtain ⟨rest, same⟩ := pairs
    rw [same]
    simp [Look.pair, current]

private theorem pair_behind_pairs (inner : second ≠ .eof) (ahead : List Kind) :
    Look.pair first second (ahead.drop (2 * pairCount first second ahead)) = false := by
  fun_induction pairCount first second ahead with
  | case1 one other rest same ih => exact ih
  | case2 one other rest different =>
    rw [Nat.mul_zero, List.drop_zero, Bool.eq_false_iff]
    intro holds
    obtain ⟨rest, same⟩ := (pair_eq_true_iff inner).mp holds
    cases same
    exact different ⟨rfl, rfl⟩
  | case3 ahead short =>
    rw [Nat.mul_zero, List.drop_zero, Bool.eq_false_iff]
    intro holds
    obtain ⟨rest, same⟩ := (pair_eq_true_iff inner).mp holds
    exact short _ _ _ same

private theorem Skips.eq_drop {skip : List Kind → List Kind} (skips : Skips first second skip) (ahead : List Kind) :
    skip ahead = ahead.drop (2 * pairCount first second ahead) := by
  fun_induction pairCount first second ahead with
  | case1 one other rest same ih =>
    obtain ⟨rfl, rfl⟩ := same
    rw [skips.pair, ih]
    rfl
  | case2 one other rest different =>
    refine skips.other _ fun more same => different ?_
    cases same
    exact ⟨rfl, rfl⟩
  | case3 ahead short => exact skips.other ahead fun rest => short first second rest

/-- How many tokens the type in front has, if one stands there. -/
def typeLength? : List Kind → Option Nat
  | [] => none
  | kind :: rest =>
    let parts := 2 * pairCount .dot .identifier rest
    if kind == .identifier then some (1 + parts + 2 * pairCount .leftBracket .rightBracket (rest.drop parts))
    else if kind.isPrimitive then some (1 + 2 * pairCount .leftBracket .rightBracket rest)
    else none

private theorem afterType?_eq (ahead : List Kind) : afterType? ahead = (typeLength? ahead).map ahead.drop := by
  cases ahead with
  | nil => rfl
  | cons kind rest =>
    unfold afterType? typeLength?
    dsimp only
    split
    next =>
      rw [skips_brackets.eq_drop, skips_parts.eq_drop, List.drop_drop, Option.map_some, Nat.add_assoc, Nat.add_comm 1,
        List.drop_succ_cons]
    next =>
      split
      next => rw [skips_brackets.eq_drop, Option.map_some, Nat.add_comm 1, List.drop_succ_cons]
      next => rfl

theorem typeLength?_le {length : Nat} (found : typeLength? ahead = some length) : length ≤ ahead.length := by
  cases ahead with
  | nil => cases found
  | cons kind rest =>
    have parts := pairCount_le .dot .identifier rest
    have brackets := pairCount_le .leftBracket .rightBracket (rest.drop (2 * pairCount .dot .identifier rest))
    have flat := pairCount_le .leftBracket .rightBracket rest
    unfold typeLength? at found
    dsimp only at found
    rw [List.length_drop] at brackets
    rw [List.length_cons]
    split at found
    next =>
      cases found
      omega
    next =>
      split at found
      next =>
        cases found
        omega
      next => cases found

section Offsets

variable (lexemes : List Lexeme) (position : Nat)

theorem nth_eq (offset : Nat) :
    Routine.nth lexemes position offset = current ((kindsOf (seenFrom lexemes position)).drop offset) := by
  rw [Routine.nth, seenFrom, kindsOf_shown, current, List.headD_eq_head?_getD, List.head?_drop]

theorem length_seenFrom_le : (kindsOf (seenFrom lexemes position)).length ≤ (visible lexemes).length := by
  have whole : visible lexemes = shown lexemes 0 := rfl
  have kinds : (visible lexemes).length = (kindsOf (shown lexemes 0)).length := by rw [whole, kindsOf, List.length_map]
  rw [kinds, seenFrom, kindsOf_shown, kindsOf_shown]
  exact (((List.drop_sublist position lexemes).map _).filter _).length_le

private theorem length_visible_le : (visible lexemes).length ≤ lexemes.length := by
  have whole : lexemes.zipIdx.length = lexemes.length := List.length_zipIdx
  rw [visible, ← whole]
  exact List.length_filter_le _ _

private theorem length_seenFrom_le_add (more : Nat) :
    (kindsOf (seenFrom lexemes position)).length ≤ more + lexemes.length :=
  ((length_seenFrom_le lexemes position).trans (length_visible_le lexemes)).trans (Nat.le_add_left _ _)

/-- Counting goes on just as long as pairs are seen, since there is no pair behind the last token. -/
private theorem pairsEnd_eq (inner : second ≠ .eof) {fuel offset : Nat}
    (enough : (kindsOf (seenFrom lexemes position)).length ≤ offset + fuel) :
    Routine.pairsEnd lexemes position first second fuel offset =
      offset + 2 * pairCount first second ((kindsOf (seenFrom lexemes position)).drop offset) := by
  induction fuel generalizing offset with
  | zero =>
    have none : (kindsOf (seenFrom lexemes position)).drop offset = [] := List.drop_eq_nil_iff.mpr enough
    rw [none]
    rfl
  | succ fuel ih =>
    have later := @ih (offset + 2) (by omega)
    rw [Routine.pairsEnd, nth_eq, nth_eq, later, ← List.drop_drop, ← List.drop_drop]
    generalize (kindsOf (seenFrom lexemes position)).drop offset = ahead
    have test : (current ahead == first && current (ahead.drop 1) == second) = Look.pair first second ahead := rfl
    rw [test]
    split
    next holds =>
      obtain ⟨rest, same⟩ := (pair_eq_true_iff inner).mp holds
      rw [same, pairCount_pair]
      simp only [List.drop_succ_cons, List.drop_zero]
      omega
    next fails =>
      rw [pairCount_of_ne (not_exists.mp (mt (pair_eq_true_iff inner).mpr fails))]
      rfl

theorem pairsEnd_stops (inner : second ≠ .eof) (offset : Nat) :
    let last := Routine.pairsEnd lexemes position first second lexemes.length offset
    ¬(Routine.nth lexemes position last = first ∧ Routine.nth lexemes position (last + 1) = second) := by
  dsimp only
  rw [pairsEnd_eq _ _ inner (length_seenFrom_le_add ..), nth_eq, nth_eq, ← List.drop_drop, ← List.drop_drop,
    ← List.drop_drop]
  generalize (kindsOf (seenFrom lexemes position)).drop offset = ahead
  rintro ⟨front, back⟩
  have stops : Look.pair first second (ahead.drop (2 * pairCount first second ahead)) = false :=
    pair_behind_pairs inner ahead
  rw [Look.pair, front, back, beq_self_eq_true, beq_self_eq_true] at stops
  cases stops

theorem typeEnd?_eq (offset : Nat) :
    Routine.typeEnd? lexemes position offset =
      (typeLength? ((kindsOf (seenFrom lexemes position)).drop offset)).map (offset + ·) := by
  have fuelled := length_seenFrom_le_add lexemes position
  unfold Routine.typeEnd?
  dsimp only
  rw [nth_eq, pairsEnd_eq _ _ (by decide) (fuelled _), pairsEnd_eq _ _ (by decide) (fuelled _),
    pairsEnd_eq _ _ (by decide) (fuelled _)]
  simp only [Nat.add_assoc, ← List.drop_drop]
  generalize (kindsOf (seenFrom lexemes position)).drop offset = ahead
  cases ahead with
  | nil => rfl
  | cons kind rest =>
    unfold typeLength?
    simp only [current, List.headD_cons, List.drop_succ_cons, List.drop_zero]
    split
    next => simp only [Option.map_some, Nat.add_assoc]
    next =>
      split
      next => rfl
      next => rfl

/-- The rules ask for a method with the answer that counting gives. -/
theorem isMethodAhead_eq (rests : Rests lexemes position) :
    Routine.isMethodAhead lexemes position = Look.method (Routine.ahead lexemes position) := by
  rw [Routine.isMethodAhead, typeEnd?_eq, List.drop_zero, ahead_eq lexemes rests, Look.method, afterType?_eq]
  cases typeLength? (kindsOf (seenFrom lexemes position)) with
  | none => rfl
  | some length =>
    simp only [Option.map_some, Option.any_some, Nat.zero_add, nth_eq, ← List.drop_drop]
    rfl

theorem isLocalVariableAhead_eq (rests : Rests lexemes position) :
    Routine.isLocalVariableAhead lexemes position = Look.localVariable (Routine.ahead lexemes position) := by
  unfold Routine.isLocalVariableAhead Look.localVariable
  dsimp only
  rw [kindAt_eq lexemes rests, ahead_eq lexemes rests, typeEnd?_eq]
  generalize seen : kindsOf (seenFrom lexemes position) = ahead
  have behind : ahead.drop (if current ahead == .finalWord then 1 else 0) =
      if current ahead == .finalWord then ahead.drop 1 else ahead := by
    split
    · rfl
    · rfl
  rw [behind, afterType?_eq, ← behind]
  cases typeLength? (ahead.drop (if current ahead == .finalWord then 1 else 0)) with
  | none => rfl
  | some length =>
    simp only [Option.map_some, Option.any_some, nth_eq, seen, ← List.drop_drop]

end Offsets

section Taking

/-- What a parser did that took so many tokens and no more. -/
def took (count : Nat) (ahead : List Kind) : Outcome := ⟨List.replicate count .take, ahead.drop count, none⟩

private theorem next_took {one other : Parser} {front back : Nat} (started : one ahead = took front ahead)
    (followed : other (ahead.drop front) = took back (ahead.drop front)) :
    Parser.next one other ahead = took (front + back) ahead := by
  unfold Parser.next
  rw [started, took]
  dsimp only
  rw [followed, took, took, List.replicate_add, List.drop_drop]

private theorem loop_pair (inner : second ≠ .eof) {fuel : Nat} (enough : ahead.length ≤ fuel) :
    Parser.loop (.pair first second) (.next .bump .bump) fuel ahead =
      took (2 * pairCount first second ahead) ahead := by
  induction fuel generalizing ahead with
  | zero =>
    rw [List.length_eq_zero_iff.mp (Nat.le_zero.mp enough)]
    rfl
  | succ fuel ih =>
    rw [Parser.loop]
    dsimp only
    split
    next holds =>
      obtain ⟨rest, same⟩ := (pair_eq_true_iff inner).mp holds
      rw [same] at enough ⊢
      have fewer : rest.length ≤ fuel := by
        simp at enough
        omega
      rw [pairCount_pair, Nat.mul_add, Nat.add_comm]
      exact next_took rfl (ih fewer)
    next fails =>
      rw [pairCount_of_ne (not_exists.mp (mt (pair_eq_true_iff inner).mpr fails))]
      rfl

/-- A loop that wants the second of each pair takes the pairs, if no first one stands behind them alone. -/
private theorem loop_expect {fuel : Nat} (enough : ahead.length ≤ fuel)
    (stop : current (ahead.drop (2 * pairCount first second ahead)) ≠ first) :
    Parser.loop (.on first) (.next .bump (.expect second)) fuel ahead =
      took (2 * pairCount first second ahead) ahead := by
  induction fuel generalizing ahead with
  | zero =>
    rw [List.length_eq_zero_iff.mp (Nat.le_zero.mp enough)]
    rfl
  | succ fuel ih =>
    rw [Parser.loop]
    dsimp only
    by_cases paired : ∃ rest, ahead = first :: second :: rest
    · obtain ⟨rest, same⟩ := paired
      rw [same] at enough stop ⊢
      rw [pairCount_pair] at stop ⊢
      have fewer : rest.length ≤ fuel := by
        simp at enough
        omega
      have pair : Parser.next .bump (.expect second) (first :: second :: rest) = took 2 (first :: second :: rest) := by
        simp [Parser.next, Parser.bump, Parser.expect, current, took]
      rw [if_pos (by simp [Look.on, current]), Nat.mul_add, Nat.add_comm]
      exact next_took pair (ih fewer stop)
    · rw [pairCount_of_ne (not_exists.mp paired)] at stop ⊢
      rw [if_neg (by simpa [Look.on] using stop)]
      rfl

variable {limit count : Nat} {level : Level}

/-- Parsing a type takes as many tokens as there were counted. -/
theorem type_took (enough : ahead.length ≤ limit) (counted : typeLength? ahead = some count)
    (stop : current (ahead.drop count) ≠ .leftBracket) : Rule.type.body.run limit level ahead = took count ahead := by
  cases ahead with
  | nil => cases counted
  | cons kind rest =>
    have shorter : rest.length ≤ limit := Nat.le_of_succ_le enough
    have parts {front : Nat} (name : Step.typeName.run limit level (kind :: rest) = took (front + 1) (kind :: rest))
        (stop : current ((rest.drop front).drop (2 * pairCount .leftBracket .rightBracket (rest.drop front))) ≠
          .leftBracket) :
        Rule.type.body.run limit level (kind :: rest) =
          took (front + 1 + 2 * pairCount .leftBracket .rightBracket (rest.drop front)) (kind :: rest) := by
      have fewer : (rest.drop front).length ≤ limit := by
        rw [List.length_drop]
        omega
      exact next_took name (loop_expect fewer stop)
    unfold typeLength? at counted
    dsimp only at counted
    split at counted
    next named =>
      cases counted
      have other : kind.isPrimitive = false := by
        rw [eq_of_beq named]
        rfl
      have name : Step.typeName.run limit level (kind :: rest) =
          took (1 + 2 * pairCount .dot .identifier rest) (kind :: rest) := by
        simp only [Step.typeName, Step.qualifiedName, Step.run, Look.among, current, List.headD_cons, other,
          Bool.false_eq_true, ↓reduceIte]
        refine next_took ?_ (loop_pair (by decide) shorter)
        simp [Parser.expect, current, named, Parser.bump, took]
      rw [Nat.add_comm 1] at name stop ⊢
      rw [← List.drop_drop, List.drop_succ_cons] at stop
      exact parts name stop
    next =>
      split at counted
      next primitive =>
        cases counted
        have name : Step.typeName.run limit level (kind :: rest) = took 1 (kind :: rest) := by
          simp only [Step.typeName, Step.run, Look.among, current, List.headD_cons, primitive, ↓reduceIte]
          rfl
        rw [← List.drop_drop] at stop
        exact @parts 0 name stop
      next => cases counted

theorem type_fails (missing : typeLength? ahead = none) :
    Rule.type.body.run limit level ahead = ⟨[], ahead, some ("expected " ++ Kind.identifier.name)⟩ := by
  have typeless : (current ahead).isPrimitive = false ∧ (current ahead == .identifier) = false := by
    cases ahead with
    | nil => exact ⟨rfl, rfl⟩
    | cons kind rest =>
      unfold typeLength? at missing
      dsimp only at missing
      split at missing
      next => cases missing
      next nameless =>
        split at missing
        next => cases missing
        next other => exact ⟨eq_false_of_ne_true other, eq_false_of_ne_true nameless⟩
  simp [Rule.body, Step.typeName, Step.qualifiedName, Step.run, Look.among, typeless, Parser.next, Parser.expect,
    Parser.fail]

end Taking

end Verbatim.MiniJava
