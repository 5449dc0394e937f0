import Verbatim.Proofs.MiniJavaEvents
import Verbatim.Proofs.MiniJavaGrammar

/-! Parsers that take whole words. In front of a word and of something that may follow it, a parser takes
the word and leaves the rest, unless it runs out of room for rules: then it says so, and all rules that
there was room for are open. -/

namespace Verbatim.MiniJava

/-- A parser that ran out of room for rules. -/
structure Buried (room : Nat) (outcome : Outcome) : Prop where
  told : ∃ name, outcome.failure = some (deepMessage name)
  deep : ∃ depth, room ≤ depth ∧ Course depth outcome.marks

/-- A parser that left just this, or ran out of room. -/
def Leaves (room : Nat) (outcome : Outcome) (rest : List Kind) : Prop :=
  (outcome.failure = none ∧ outcome.rest = rest) ∨ Buried room outcome

namespace Leaves

variable {room : Nat} {first second body : Parser} {ahead middle rest : List Kind} {test : Look}

theorem done : Leaves room (Parser.done rest) rest := .inl ⟨rfl, rfl⟩

theorem bump {kind : Kind} : Leaves room (Parser.bump (kind :: rest)) rest := .inl ⟨rfl, rfl⟩

theorem expect {kind : Kind} : Leaves room (Parser.expect kind (kind :: rest)) rest := by
  unfold Parser.expect
  rw [if_pos (by simp [current])]
  exact bump

theorem tooDeep (name : String) : Leaves 0 (MiniJava.tooDeep name ahead) rest :=
  .inr ⟨⟨name, rfl⟩, 0, Nat.le_refl 0, .nil⟩

theorem next (sound : Sound first) (front : Leaves room (first ahead) middle)
    (back : Leaves room (second middle) rest) : Leaves room (Parser.next first second ahead) rest := by
  obtain ⟨depth, course, closed⟩ := sound ahead
  unfold Parser.next
  generalize first ahead = outcome at *
  obtain ⟨marks, behind, failure⟩ := outcome
  rcases front with ⟨rfl, rfl⟩ | ⟨⟨name, rfl⟩, deep⟩
  · rcases back with ⟨succeeded, same⟩ | ⟨told, more, above, later⟩
    · exact .inl ⟨succeeded, same⟩
    · exact .inr ⟨told, depth + more, Nat.le_add_left_of_le above, course.append later⟩
  · exact .inr ⟨⟨name, rfl⟩, deep⟩

theorem enclosed {name : String} {id : RuleId} (spoken : Spoken name) (inside : Leaves room (body ahead) rest) :
    Leaves (room + 1) (Parser.enclosed name id body ahead) rest := by
  unfold Parser.enclosed
  generalize body ahead = outcome at *
  obtain ⟨marks, behind, failure⟩ := outcome
  rcases inside with ⟨rfl, rfl⟩ | ⟨⟨other, rfl⟩, depth, above, course⟩
  · exact .inl ⟨rfl, rfl⟩
  · exact .inr ⟨⟨other, rfl⟩, depth + 1, Nat.succ_le_succ above, course.enter id spoken⟩

theorem choose_yes (holds : test ahead = true) (yes : Leaves room (first ahead) rest) :
    Leaves room (if test ahead then first ahead else second ahead) rest := by
  rw [if_pos holds]
  exact yes

theorem choose_no (fails : test ahead = false) (no : Leaves room (second ahead) rest) :
    Leaves room (if test ahead then first ahead else second ahead) rest := by
  rw [if_neg (by simp [fails])]
  exact no

end Leaves

/-- A parser takes the words of a form where they fit to what follows, as long as there are fewer tokens
than the limit. -/
structure Accepts (limit room : Nat) (parser : Parser) (form : Form) (fits : List Kind → List Kind → Prop) : Prop where
  sound : Sound parser
  leaves : ∀ word rest, Derives form word → fits word rest → (word ++ rest).length < limit →
    Leaves room (parser (word ++ rest)) rest

def before (follow : Kind → Bool) (_ rest : List Kind) : Prop := follow (current rest) = true

/-- A test that looks at one token only. -/
def Look.Short (test : Look) : Prop := ∀ ahead, test ahead = test [current ahead]

/-- What such a test sees of a word and of what follows it. -/
private theorem Derives.sees {form : Form} {word rest : List Kind} {follow : Kind → Bool} {test : Look} {answer : Bool}
    (derives : Derives form word) (followed : follow (current rest) = true) (short : test.Short)
    (answers : ∀ kind, form.leads follow kind = true → test [kind] = answer) : test (word ++ rest) = answer := by
  rw [short]
  exact answers _ (derives.leads followed)

namespace Accepts

variable {limit room : Nat} {first second body : Parser} {form start last left right : Form} {test : Look}
  {fits : List Kind → List Kind → Prop} {follow : Kind → Bool}

theorem mono {wide : Form} (narrower : ∀ word, Derives form word → Derives wide word)
    (accepts : Accepts limit room body wide fits) : Accepts limit room body form fits :=
  ⟨accepts.sound, fun word rest derives => accepts.leaves word rest (narrower word derives)⟩

theorem weaken {stronger : List Kind → List Kind → Prop}
    (weaker : ∀ word rest, Derives form word → stronger word rest → fits word rest)
    (accepts : Accepts limit room body form fits) : Accepts limit room body form stronger :=
  ⟨accepts.sound, fun word rest derives fit => accepts.leaves word rest derives (weaker word rest derives fit)⟩

theorem anywhere (accepts : Accepts limit room body form (before fun _ => true)) : Accepts limit room body form fits :=
  accepts.weaken fun _ _ _ _ => rfl

theorem shorten {less : Nat} (fewer : less ≤ limit) (accepts : Accepts limit room body form fits) :
    Accepts less room body form fits :=
  ⟨accepts.sound, fun word rest derives fit short =>
    accepts.leaves word rest derives fit (Nat.lt_of_lt_of_le short fewer)⟩

theorem done : Accepts limit room Parser.done .empty fits := by
  refine ⟨.done, fun word rest derives _ _ => ?_⟩
  cases derives
  exact .done

theorem bump {among : Kind → Bool} : Accepts limit room Parser.bump (.among among) fits := by
  refine ⟨.bump, fun word rest derives _ _ => ?_⟩
  cases derives
  exact .bump

theorem expect {kind : Kind} : Accepts limit room (Parser.expect kind) (.token kind) fits := by
  refine ⟨.expect kind, fun word rest derives _ _ => ?_⟩
  cases derives with
  | among same =>
    obtain rfl := beq_iff_eq.mp same
    exact .expect

/-- The first parser meets what the second one may start with. -/
theorem next (front : Accepts limit room first start (before (last.leads follow)))
    (back : Accepts limit room second last (before follow)) :
    Accepts limit room (Parser.next first second) (.cat start last) (before follow) := by
  refine ⟨.next front.sound back.sound, fun word rest derives fit short => ?_⟩
  cases derives with
  | @cat _ _ word more starts ends =>
    rw [List.append_assoc] at short ⊢
    refine .next front.sound (front.leaves word (more ++ rest) starts (ends.leads fit) short) ?_
    exact back.leaves more rest ends fit (by simp at short ⊢; omega)

theorem choose (yes : Accepts limit room first left fits) (no : Accepts limit room second right fits)
    (holds : ∀ word rest, Derives left word → fits word rest → test (word ++ rest) = true)
    (fails : ∀ word rest, Derives right word → fits word rest → test (word ++ rest) = false) :
    Accepts limit room (fun ahead => if test ahead then first ahead else second ahead) (.alt left right) fits := by
  refine ⟨.choose yes.sound no.sound, fun word rest derives fit short => ?_⟩
  cases derives with
  | left derives => exact .choose_yes (holds word rest derives fit) (yes.leaves word rest derives fit short)
  | right derives => exact .choose_no (fails word rest derives fit) (no.leaves word rest derives fit short)

theorem only (yes : Accepts limit room first form fits) (no : Sound second)
    (holds : ∀ word rest, Derives form word → fits word rest → test (word ++ rest) = true) :
    Accepts limit room (fun ahead => if test ahead then first ahead else second ahead) form fits :=
  ⟨.choose yes.sound no, fun word rest derives fit short =>
    .choose_yes (holds word rest derives fit) (yes.leaves word rest derives fit short)⟩

theorem chooseShort (yes : Accepts limit room first left (before follow))
    (no : Accepts limit room second right (before follow))
    (holds : ∀ kind, left.leads follow kind = true → test [kind] = true := by decide)
    (fails : ∀ kind, right.leads follow kind = true → test [kind] = false := by decide)
    (short : test.Short := by exact fun _ => rfl) :
    Accepts limit room (fun ahead => if test ahead then first ahead else second ahead) (.alt left right)
      (before follow) :=
  choose yes no (fun _ _ derives fit => derives.sees fit short holds)
    fun _ _ derives fit => derives.sees fit short fails

/-- If neither word is empty, it does not matter what follows. -/
theorem chooseFirst (yes : Accepts limit room first left fits) (no : Accepts limit room second right fits)
    (solid : left.nullable = false ∧ right.nullable = false := by exact ⟨rfl, rfl⟩)
    (holds : ∀ kind, left.starts kind = true → test [kind] = true := by decide)
    (fails : ∀ kind, right.starts kind = true → test [kind] = false := by decide)
    (short : test.Short := by exact fun _ => rfl) :
    Accepts limit room (fun ahead => if test ahead then first ahead else second ahead) (.alt left right) fits := by
  refine choose yes no (fun word rest derives _ => ?_) fun word rest derives _ => ?_
  · rw [short]
    exact holds _ (derives.front solid.1 rest)
  · rw [short]
    exact fails _ (derives.front solid.2 rest)

/-- A loop goes on as long as there are words in front. Each of them takes a unit of fuel. -/
theorem loop (inside : Accepts limit room body form (before ((Form.many form).leads follow)))
    (solid : form.nullable = false) (holds : ∀ word rest, Derives form word → test (word ++ rest) = true)
    (stops : ∀ rest, follow (current rest) = true → test rest = false) (fuel : Nat)
    (fuelled : fuel ≤ limit) : Accepts fuel room (Parser.loop test body fuel) (.many form) (before follow) := by
  refine ⟨.loop test inside.sound fuel, fun word rest derives fit short => ?_⟩
  induction fuel generalizing word with
  | zero => cases short
  | succ fuel ih =>
    rw [Parser.loop]
    dsimp only
    cases derives with
    | none => exact .choose_no (stops rest fit) .done
    | @more _ word more starts ends =>
      have taken := List.length_pos_iff.mpr (starts.ne_nil solid)
      rw [List.append_assoc] at short ⊢
      have once := inside.leaves word (more ++ rest) starts (ends.leads fit) (by omega)
      have again := ih (by omega) more ends fit (by simp at short ⊢; omega)
      exact .choose_yes (holds word _ starts) (.next inside.sound once again)

theorem loopShort (inside : Accepts limit room body form (before ((Form.many form).leads follow)))
    (solid : form.nullable = false := by rfl)
    (holds : ∀ kind, form.starts kind = true → test [kind] = true := by decide)
    (stops : ∀ kind, follow kind = true → test [kind] = false := by decide)
    (short : test.Short := by exact fun _ => rfl) :
    Accepts limit room (Parser.loop test body limit) (.many form) (before follow) := by
  refine loop inside solid ?_ ?_ limit (Nat.le_refl limit)
  · intro word rest derives
    rw [short]
    exact holds _ (derives.front solid rest)
  · intro rest fit
    rw [short]
    exact stops _ fit

theorem enclosed {name : String} {id : RuleId} (spoken : Spoken name) (inside : Accepts limit room body form fits) :
    Accepts limit (room + 1) (Parser.enclosed name id body) form fits :=
  ⟨.enclosed id spoken inside.sound, fun word rest derives fit short =>
    .enclosed spoken (inside.leaves word rest derives fit short)⟩

end Accepts

end Verbatim.MiniJava
