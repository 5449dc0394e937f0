import Verbatim.Proofs.AssemblyPlan
import Verbatim.Proofs.MiniJavaDiscipline

/-! The events of a parse agree with each other, whatever the source is. Rules that are entered are left
in turn; a parser that fails leaves its rules open but closes none of its caller. Operators enter a node
in front of marks that are there already, so what is carried along is the course of whole lists of marks. -/

namespace Verbatim.MiniJava

/-- How many rules are open behind some marks, unless they close one that none of them opened. -/
def climb : (depth : Nat) → List Mark → Option Nat
  | depth, [] => some depth
  | depth, .enter _ _ :: marks => climb (depth + 1) marks
  | depth, .take :: marks => climb depth marks
  | depth + 1, .exit :: marks => climb depth marks
  | 0, .exit :: _ => none

private theorem climb_append (depth : Nat) (first second : List Mark) :
    climb depth (first ++ second) = (climb depth first).bind fun middle => climb middle second := by
  induction first generalizing depth with
  | nil => rfl
  | cons mark marks ih =>
    cases mark with
    | enter name rule => exact ih (depth + 1)
    | take => exact ih depth
    | exit =>
      cases depth with
      | zero => rfl
      | succ depth => exact ih depth

/-- The names of the nodes that the parser makes. -/
def Spoken (name : String) : Prop := name = expressionName ∨ ∃ rule : Rule, name = rule.name

/-- Marks that open so many more rules than they close, and none of them without a name. -/
structure Course (depth : Nat) (marks : List Mark) : Prop where
  climbs : ∀ base, climb base marks = some (base + depth)
  spoken : ∀ name rule, .enter name rule ∈ marks → Spoken name

namespace Course

variable {depth more : Nat} {first second marks : List Mark}

theorem nil : Course 0 [] := ⟨fun _ => rfl, by simp⟩

theorem take : Course 0 [.take] := ⟨fun _ => rfl, by simp⟩

theorem append (front : Course depth first) (back : Course more second) : Course (depth + more) (first ++ second) := by
  constructor
  · intro base
    rw [climb_append, front.climbs, Option.bind_some, back.climbs, Nat.add_assoc]
  · intro name rule inside
    rcases List.mem_append.mp inside with inside | inside
    · exact front.spoken name rule inside
    · exact back.spoken name rule inside

theorem enter {name : String} (rule : RuleId) (spoken : Spoken name) (course : Course depth marks) :
    Course (depth + 1) (.enter name rule :: marks) := by
  constructor
  · intro base
    rw [climb, course.climbs, Nat.add_assoc, Nat.add_comm 1]
  · intro other id inside
    cases inside with
    | head => exact spoken
    | tail _ inside => exact course.spoken other id inside

theorem exit (course : Course (depth + 1) marks) : Course depth (marks ++ [.exit]) := by
  constructor
  · intro base
    rw [climb_append, course.climbs]
    rfl
  · intro name rule inside
    rw [List.mem_append, List.mem_singleton] at inside
    exact course.spoken name rule (inside.resolve_right (by simp))

end Course

/-- A parser that closes every rule it opens, or leaves some of them open where it fails. -/
def Sound (parser : Parser) : Prop :=
  ∀ ahead, ∃ depth, Course depth (parser ahead).marks ∧ ((parser ahead).failure = none → depth = 0)

/-- The discipline of sound parsers, however many rules they may open. -/
def courses : Discipline where
  whole _ marks := Course 0 marks
  broken _ _ marks := ∃ depth, Course depth marks
  node _ _ name _ := Spoken name
  calls _ _ := True
  tells _ := True
  nil _ := .nil
  take _ := .take
  append front back := front.append back
  breaks front back := back.imp fun _ course => by simpa using front.append course
  fails _ _ := ⟨0, .nil⟩
  full _ := ⟨0, .nil⟩
  encloses {_ _ _ id _} spoken inside := (inside.enter id spoken).exit
  leaves {_ _ _ id _ _} spoken inside := inside.imp' (· + 1) fun _ course => course.enter id spoken
  expected _ := trivial
  body rule := rule.body.allowed_of_forall (fun _ _ => trivial) fun _ => trivial
  called {rule _} _ _ := .inr ⟨rule, rfl⟩
  primary := trivial
  member := trivial
  call := trivial
  operand _ _ _ := .inl rfl
  trailer _ _ _ := .inl rfl
  operator _ _ := .inl rfl

private theorem sound_of_keeps {room : Nat} {parser : Parser} (keeps : courses.Keeps room parser) : Sound parser := by
  intro ahead
  have judged := keeps ahead
  generalize parser ahead = outcome at judged ⊢
  obtain ⟨marks, rest, - | wanted⟩ := outcome
  · exact ⟨0, judged, fun _ => rfl⟩
  · obtain ⟨depth, course⟩ := judged
    exact ⟨depth, course, nofun⟩

namespace Sound

variable {first second body : Parser}

theorem keeps (sound : Sound body) : courses.Keeps 0 body := by
  intro ahead
  obtain ⟨depth, course, closed⟩ := sound ahead
  generalize body ahead = outcome at course closed ⊢
  obtain ⟨marks, rest, - | wanted⟩ := outcome
  · obtain rfl := closed rfl
    exact course
  · exact ⟨depth, course⟩

theorem done : Sound Parser.done := fun _ => ⟨0, .nil, fun _ => rfl⟩

theorem fail (wanted : String) : Sound (Parser.fail wanted) := fun _ => ⟨0, .nil, fun _ => rfl⟩

theorem bump : Sound Parser.bump
  | [] => ⟨0, .nil, fun _ => rfl⟩
  | _ :: _ => ⟨0, .take, fun _ => rfl⟩

theorem choose {test : Look} (yes : Sound first) (no : Sound second) :
    Sound fun ahead => if test ahead then first ahead else second ahead :=
  sound_of_keeps (.choose yes.keeps no.keeps)

theorem expect (kind : Kind) : Sound (Parser.expect kind) := choose bump (fail _)

theorem next (front : Sound first) (back : Sound second) : Sound (Parser.next first second) :=
  sound_of_keeps (.next front.keeps back.keeps)

theorem enclosed {name : String} (rule : RuleId) (spoken : Spoken name) (inner : Sound body) :
    Sound (Parser.enclosed name rule body) := by
  have keeps : courses.Keeps 0 (Parser.enclosed name rule body) := .enclosed spoken inner.keeps
  exact sound_of_keeps keeps

theorem loop (test : Look) (inner : Sound body) (fuel : Nat) : Sound (Parser.loop test body fuel) :=
  sound_of_keeps (.loop test inner.keeps fuel)

end Sound

structure Level.IsSound (level : Level) : Prop where
  rule : ∀ rule id, Sound (level.rule rule id)
  expression : ∀ power, Sound (level.expression power)

theorem Level.IsSound.governs {level : Level} (sound : level.IsSound) : courses.Governs 0 level :=
  ⟨fun rule id _ => (sound.rule rule id).keeps, fun power => (sound.expression power).keeps⟩

theorem sound_run (limit : Nat) {level : Level} (sound : level.IsSound) (step : Step) :
    Sound (step.run limit level) :=
  sound_of_keeps (Discipline.keeps_run limit sound.governs step
    (step.allowed_of_forall (fun _ _ => trivial) fun _ => trivial))

theorem sound_operand {inner : Level} (sound : inner.IsSound) : Sound (operand inner) :=
  sound_of_keeps (Discipline.keeps_operand sound.governs)

section

variable {rule : Rule → RuleId → Parser}

theorem sound_continuation {expression : Nat → Parser} (rules : ∀ name id, Sound (rule name id))
    (expressions : ∀ power, Sound (expression power)) {power : Nat} {kind : Kind} {id : RuleId} {behind : Parser}
    (found : continuation? rule expression power kind = some (id, behind)) : Sound behind :=
  sound_of_keeps (Discipline.keeps_continuation (fun name id _ => (rules name id).keeps)
    (fun power => (expressions power).keeps) found).2

theorem sound_expression {first : Parser} (rules : ∀ name id, Sound (rule name id)) (operands : Sound first)
    (fuel power : Nat) : Sound (expressionFrom rule first fuel power) :=
  sound_of_keeps ((Discipline.keeps_expression (fun name id _ => (rules name id).keeps) operands.keeps fuel).1 power)

end

theorem sound_level (limit room : Nat) : (level limit room).IsSound := by
  have governs := courses.governs_level limit room
  exact ⟨fun rule id => sound_of_keeps (governs.rule rule id trivial),
    fun power => sound_of_keeps (governs.expression power)⟩

theorem number_append_exit (indexes : List Nat) (marks : List Mark) :
    number indexes (marks ++ [.exit]) = number indexes marks ++ [.exit] := by
  fun_induction number indexes marks with
  | case1 => rfl
  | case2 indexes name rule marks ih => exact congrArg _ ih
  | case3 indexes marks ih => exact congrArg _ ih
  | case4 index indexes marks ih => exact congrArg _ ih
  | case5 marks ih => exact ih

theorem mem_number {indexes : List Nat} {marks : List Mark} {name : String} {rule : RuleId}
    (inside : .enter name rule ∈ number indexes marks) : .enter name rule ∈ marks := by
  fun_induction number indexes marks with
  | case1 => cases inside
  | case2 indexes other id marks ih =>
    cases inside with
    | head => exact List.mem_cons_self
    | tail _ inside => exact List.mem_cons_of_mem _ (ih inside)
  | case3 indexes marks ih | case4 index indexes marks ih =>
    cases inside with
    | tail _ inside => exact List.mem_cons_of_mem _ (ih inside)
  | case5 marks ih => exact List.mem_cons_of_mem _ (ih inside)

private theorem consistent_number {mode : ParseMode} {count next depth last : Nat} {indexes : List Nat}
    {marks : List Mark}
    {tail : List RuleEvent} (climbs : climb depth marks = some last) (sorted : indexes.Pairwise (· < ·))
    (ahead : ∀ index ∈ indexes, next ≤ index) (inside : ∀ index ∈ indexes, index < count)
    (later : ∀ next, Assembly.Consistent mode count next (last + 1) false tail) :
    Assembly.Consistent mode count next (depth + 1) false (number indexes marks ++ tail) := by
  induction marks generalizing next depth indexes with
  | nil =>
    cases climbs
    exact later next
  | cons mark marks ih =>
    cases mark with
    | enter name rule => exact ⟨rfl, ih climbs sorted ahead inside⟩
    | take =>
      cases indexes with
      | nil => exact ih climbs sorted ahead inside
      | cons index indexes =>
        obtain ⟨above, sorted⟩ := List.pairwise_cons.mp sorted
        exact ⟨⟨Nat.succ_pos depth, rfl⟩, ahead index List.mem_cons_self, inside index List.mem_cons_self,
          ih climbs sorted above fun other member => inside other (List.mem_cons_of_mem index member)⟩
    | exit =>
      cases depth with
      | zero => cases climbs
      | succ depth =>
        refine ⟨⟨Nat.succ_pos _, rfl⟩, ?_⟩
        rw [if_neg (by omega)]
        exact ih climbs sorted ahead inside

/-- The places of the tokens that the grammar sees, in order. -/
def visiblePlaces (lexemes : List Lexeme) : List Nat :=
  (List.range lexemes.length).filter fun index => lexemes[index]?.any fun lexeme => lexeme.kind.channel = .visible

theorem visible_eq_places (lexemes : List Lexeme) : (visible lexemes).map Prod.snd = visiblePlaces lexemes := by
  induction lexemes using List.reverseRecOn with
  | nil => rfl
  | append_singleton front last ih =>
    have inner : (List.range front.length).filter (fun index =>
        (front ++ [last])[index]?.any fun lexeme => lexeme.kind.channel = .visible) = visiblePlaces front := by
      refine List.filter_congr fun index inside => ?_
      rw [List.getElem?_append_left (List.mem_range.mp inside)]
    rw [visiblePlaces, List.length_append, List.length_singleton, List.range_succ, List.filter_append, inner, ← ih]
    cases channel : last.kind.channel <;> simp [visible, List.zipIdx_append, channel, Channel.isHidden]

private theorem visible_indexes (lexemes : List Lexeme) :
    ((visible lexemes).map Prod.snd).Sublist (List.range lexemes.length) := by
  rw [visible_eq_places]
  exact List.filter_sublist

/-- A parse enters the root. It leaves the root where it succeeds, and then all that it entered. -/
theorem parseKinds_cases (kinds : List Kind) : ∃ depth marks, Course depth marks ∧
    ((∃ rest, depth = 0 ∧ parseKinds kinds = ⟨.enter Rule.compilationUnit.name 1 :: (marks ++ [.exit]), rest, none⟩) ∨
      ∃ rest wanted, parseKinds kinds = ⟨.enter Rule.compilationUnit.name 1 :: marks, rest, some wanted⟩) := by
  have inside := sound_run (kinds.length + 1) (sound_level (kinds.length + 1) 255) Rule.compilationUnit.body kinds
  have unfolded : parseKinds kinds = Parser.enclosed Rule.compilationUnit.name 1
      (Rule.compilationUnit.body.run (kinds.length + 1) (level (kinds.length + 1) 255)) kinds := rfl
  rw [unfolded, Parser.enclosed]
  split
  next marks rest found =>
    rw [found] at inside
    obtain ⟨depth, course, closed⟩ := inside
    exact ⟨depth, marks, course, .inl ⟨rest, closed rfl, rfl⟩⟩
  next marks rest failure failed found =>
    rw [found] at inside
    obtain ⟨depth, course, -⟩ := inside
    obtain ⟨wanted, rfl⟩ := Option.ne_none_iff_exists'.mp failed
    exact ⟨depth, marks, course, .inr ⟨rest, wanted, rfl⟩⟩

/-- The events of a parse: the root is entered, and the numbered marks below it are followed by its exit
or by an error. -/
theorem events_cases (lexemes : List Lexeme) : ∃ depth marks tail, Course depth marks ∧
    events lexemes = .enter Rule.compilationUnit.name 1 :: (number ((visible lexemes).map Prod.snd) marks ++ tail) ∧
      (depth = 0 ∧ tail = [.exit] ∨ ∃ diagnostic, tail = [.error diagnostic]) := by
  obtain ⟨depth, marks, course, ⟨rest, closed, found⟩ | ⟨rest, wanted, found⟩⟩ :=
    parseKinds_cases ((visible lexemes).map fun entry => entry.1.kind)
  · refine ⟨depth, marks, [.exit], course, ?_, .inl ⟨closed, rfl⟩⟩
    simp only [events, found, number, number_append_exit]
  · have stopped : ∃ diagnostic, events lexemes = .enter Rule.compilationUnit.name 1 ::
        (number ((visible lexemes).map Prod.snd) marks ++ [.error diagnostic]) := by
      simp only [events, found, number, List.cons_append]
      exact ⟨_, rfl⟩
    obtain ⟨diagnostic, same⟩ := stopped
    exact ⟨depth, marks, [.error diagnostic], course, same, .inr ⟨diagnostic, rfl⟩⟩

/-- The events of any list of tokens can be followed to their end. -/
theorem consistent_events (lexemes : List Lexeme) :
    Assembly.Consistent .lenient lexemes.length 0 0 false (events lexemes) := by
  have indexes := visible_indexes lexemes
  have sorted := List.pairwise_lt_range.sublist indexes
  have inside : ∀ index ∈ (visible lexemes).map Prod.snd, index < lexemes.length :=
    fun index member => List.mem_range.mp (indexes.subset member)
  obtain ⟨depth, marks, tail, course, same, ending⟩ := events_cases lexemes
  rw [same]
  refine ⟨rfl, consistent_number (course.climbs 0) sorted (fun index _ => Nat.zero_le index) inside ?_⟩
  intro next
  rcases ending with ⟨rfl, rfl⟩ | ⟨diagnostic, rfl⟩
  · exact ⟨⟨Nat.one_pos, rfl⟩, trivial⟩
  · exact ⟨rfl, trivial⟩

theorem spoken_events {lexemes : List Lexeme} {name : String} {rule : RuleId}
    (inside : .enter name rule ∈ events lexemes) :
    Spoken name := by
  obtain ⟨depth, marks, tail, course, same, ending⟩ := events_cases lexemes
  rw [same] at inside
  cases inside with
  | head => exact .inr ⟨_, rfl⟩
  | tail _ inside =>
    rcases List.mem_append.mp inside with inside | inside
    · exact course.spoken name rule (mem_number inside)
    · rcases ending with ⟨-, rfl⟩ | ⟨diagnostic, rfl⟩ <;> cases inside with
      | tail _ inside => cases inside

end Verbatim.MiniJava
