import Verbatim.Proofs.AssemblyNodes
import Verbatim.Proofs.MiniJavaReading

/-! The order of operators in what the parser describes. Where an expression ends is known: in front of a token
that does not go on with an operand, and of no operator that binds as tightly as its power. So an operand
that is wrapped later on has ended where the operator around it may stand. -/

namespace Verbatim

namespace MiniJava

def Kind.trails : Kind → Bool
  | .dot | .leftBracket | .leftParen | .increment | .decrement => true
  | _ => false

/-- The binding powers of the operators whose nodes have a rule. -/
def powers? (id : RuleId) : Option (Nat × Nat) :=
  Kind.every.findSome? fun kind =>
    match binding? kind with
    | some (left, right, rule) => if rule = id then some (left, right) else none
    | none => none

private theorem powers?_of_binding? {kind : Kind} {left right : Nat} {id : RuleId}
    (bound : binding? kind = some (left, right, id)) :
    powers? id = some (left, right) := by
  have known : ∀ kind, ∀ entry ∈ binding? kind, powers? entry.2.2 = some (entry.1, entry.2.1) := by decide +kernel
  exact known kind _ bound

theorem exists_binding? {id : RuleId} {left right : Nat} (powers : powers? id = some (left, right)) :
    ∃ kind, binding? kind = some (left, right, id) := by
  obtain ⟨kind, -, found⟩ := List.exists_of_findSome?_eq_some powers
  refine ⟨kind, ?_⟩
  split at found
  next outer inner rule bound =>
    split at found
    next same =>
      cases found
      rw [bound, same]
    next => cases found
  next => cases found

private theorem lt_unaryPower {id : RuleId} {left right : Nat} (powers : powers? id = some (left, right)) :
    left < unaryPower := by
  obtain ⟨kind, bound⟩ := exists_binding? powers
  have known : ∀ kind, ∀ entry ∈ binding? kind, entry.1 < unaryPower := by decide
  exact known kind _ bound

def operand? : Outline → Option RuleId
  | .rule name id _ => if name = expressionName then some id else none
  | .token _ => none

def operands (children : List Outline) : List RuleId := children.filterMap operand?

/-- How tightly the operands of an expression bind, by the rules of their nodes. -/
structure Ordered (id : RuleId) (children : List Outline) : Prop where
  binary : ∀ left right, powers? id = some (left, right) →
    ∃ first between last, operands children = first :: (between ++ [last]) ∧
      (∀ outer inner, powers? first = some (outer, inner) → left < inner) ∧
      ∀ outer inner, powers? last = some (outer, inner) → right ≤ outer
  signed : id = 60 → ∃ operand, operands children = [operand] ∧ powers? operand = none
  trailed : id ∈ [63, 65, 66, 68] → ∃ first below rest,
    children = .rule expressionName first below :: rest ∧ first ≠ 60 ∧ powers? first = none

def Mark.event : Mark → RuleEvent
  | .enter name rule => .enter name rule
  | .take => .token 0
  | .exit => .exit

/-- The operands of an expression are in order; of other rules nothing is said. -/
def InOrder (name : String) (id : RuleId) (children : List Outline) : Prop := name = expressionName → Ordered id children

/-- Marks that describe outlines whose operators are in order. -/
structure Sketches (marks : List Mark) (outlines : List Outline) : Prop where
  described : marks.map Mark.event = Outline.eventsOf outlines
  ordered : Outline.EveryOf InOrder outlines

namespace Sketches

variable {marks first second : List Mark} {outlines front back : List Outline} {name : String} {id : RuleId}

theorem nil : Sketches [] [] := ⟨rfl, trivial⟩

theorem take : Sketches [.take] [.token 0] := ⟨rfl, trivial, trivial⟩

theorem append (start : Sketches first front) (rest : Sketches second back) :
    Sketches (first ++ second) (front ++ back) where
  described := by rw [List.map_append, start.described, rest.described, Outline.eventsOf_append]
  ordered := (Outline.everyOf_append front back).mpr ⟨start.ordered, rest.ordered⟩

private theorem wrap (ordered : InOrder name id outlines) (inside : Sketches marks outlines) :
    Sketches (.enter name id :: (marks ++ [.exit])) [.rule name id outlines] where
  described := by
    rw [List.map_cons, List.map_append, inside.described, Outline.eventsOf, Outline.eventsOf, List.append_nil]
    rfl
  ordered := ⟨⟨ordered, inside.ordered⟩, trivial⟩

end Sketches

/-- Where a parser succeeds its marks describe outlines, and what they are fits to the tokens that it leaves. -/
def Shaped (post : List Outline → List Kind → Prop) (ahead : List Kind) (outcome : Outcome) : Prop :=
  outcome.failure = none → outcome.rest.length ≤ ahead.length ∧
    ∃ outlines, Sketches outcome.marks outlines ∧ post outlines outcome.rest

def Shapes (limit : Nat) (post : List Outline → List Kind → Prop) (parser : Parser) : Prop :=
  ∀ ahead, ahead.length < limit → Shaped post ahead (parser ahead)

def anyShape (_ : List Outline) (_ : List Kind) : Prop := True

def behindToken (post : List Outline → List Kind → Prop) (outlines : List Outline) (rest : List Kind) : Prop :=
  ∃ later, outlines = .token 0 :: later ∧ post later rest

def around (name : String) (id : RuleId) (post : List Outline → List Kind → Prop) (outlines : List Outline)
    (rest : List Kind) : Prop :=
  ∃ children, outlines = [.rule name id children] ∧ post children rest

variable {limit : Nat} {first second body : Parser} {test : Look} {post early late : List Outline → List Kind → Prop}
  {ahead : List Kind} {outcome : Outcome}

theorem Shaped.mono (wider : ∀ outlines rest, early outlines rest → late outlines rest)
    (shaped : Shaped early ahead outcome) : Shaped late ahead outcome := by
  intro succeeded
  obtain ⟨fewer, outlines, sketches, holds⟩ := shaped succeeded
  exact ⟨fewer, outlines, sketches, wider _ _ holds⟩

theorem Shaped.next (start : Shaped early ahead (first ahead))
    (rest : ∀ behind, behind.length ≤ ahead.length → Shaped late behind (second behind))
    (joins : ∀ front back behind, late back behind → post (front ++ back) behind) :
    Shaped post ahead (Parser.next first second ahead) := by
  unfold Parser.next
  split
  next marks behind found =>
    rw [found] at start
    obtain ⟨fewer, front, sketches, -⟩ := start rfl
    intro succeeded
    obtain ⟨less, back, more, holds⟩ := rest behind fewer succeeded
    exact ⟨less.trans fewer, front ++ back, sketches.append more, joins front back _ holds⟩
  next failed =>
    intro succeeded
    exact absurd (congrArg (Outcome.mk _ _) succeeded) (failed _ _)

theorem Shaped.bumpNext (solid : current ahead ≠ .eof) (short : ahead.length < limit + 1)
    (rest : Shapes limit post second) : Shaped (behindToken post) ahead (Parser.next Parser.bump second ahead) := by
  match ahead with
  | [] => exact absurd rfl solid
  | kind :: behind =>
    intro succeeded
    obtain ⟨less, back, more, holds⟩ := rest behind (Nat.lt_of_succ_lt_succ short) succeeded
    exact ⟨less.trans (Nat.le_succ _), _, Sketches.take.append more, back, rfl, holds⟩

theorem Shaped.enclosed {name : String} {id : RuleId} (inside : Shaped post ahead (body ahead))
    (ordered : ∀ children rest, post children rest → InOrder name id children) :
    Shaped (around name id post) ahead (Parser.enclosed name id body ahead) := by
  unfold Parser.enclosed
  split
  next marks rest found =>
    rw [found] at inside
    obtain ⟨fewer, children, sketches, holds⟩ := inside rfl
    intro _
    exact ⟨fewer, _, sketches.wrap (ordered _ _ holds), children, rfl, holds⟩
  next marks rest failure failed found =>
    intro succeeded
    exact absurd succeeded failed

namespace Shapes

theorem mono (wider : ∀ outlines rest, early outlines rest → late outlines rest)
    (shapes : Shapes limit early body) : Shapes limit late body :=
  fun ahead short => (shapes ahead short).mono wider

theorem any (shapes : Shapes limit post body) : Shapes limit anyShape body := shapes.mono fun _ _ _ => trivial

theorem shorten {less : Nat} (fewer : less ≤ limit) (shapes : Shapes limit post body) : Shapes less post body :=
  fun ahead short => shapes ahead (Nat.lt_of_lt_of_le short fewer)

theorem done : Shapes limit anyShape Parser.done := fun _ _ _ => ⟨Nat.le_refl _, [], .nil, trivial⟩

theorem fail (wanted : String) : Shapes limit post (Parser.fail wanted) := fun _ _ succeeded => nomatch succeeded

theorem bump : Shapes limit anyShape Parser.bump
  | [], _, _ => ⟨Nat.le_refl _, [], .nil, trivial⟩
  | _ :: _, _, _ => ⟨Nat.le_succ _, _, .take, trivial⟩

theorem next (start : Shapes limit early first) (rest : Shapes limit late second)
    (joins : ∀ front back behind, late back behind → post (front ++ back) behind) :
    Shapes limit post (Parser.next first second) :=
  fun ahead short => (start ahead short).next (fun behind fewer => rest behind (Nat.lt_of_le_of_lt fewer short)) joins

theorem both (start : Shapes limit anyShape first) (rest : Shapes limit anyShape second) :
    Shapes limit anyShape (Parser.next first second) :=
  next start rest fun _ _ _ _ => trivial

theorem choose (yes : Shapes limit post first) (no : Shapes limit post second) :
    Shapes limit post fun ahead => if test ahead then first ahead else second ahead := by
  intro ahead short
  dsimp only
  split
  · exact yes ahead short
  · exact no ahead short

theorem expect (kind : Kind) : Shapes limit anyShape (Parser.expect kind) := choose bump (fail _)

theorem loop (inside : Shapes limit anyShape body) (fuel : Nat) :
    Shapes limit anyShape (Parser.loop test body fuel) := by
  induction fuel with
  | zero => exact done
  | succ fuel ih => exact choose (both inside ih) done

end Shapes

/-- An expression of some power may end here: nothing goes on with its last operand. -/
structure Halts (power : Nat) (ahead : List Kind) : Prop where
  still : (current ahead).trails = false
  looser : ∀ left right id, binding? (current ahead) = some (left, right, id) → left < power

/-- One expression is described, whose operator binds as tightly as the power, and it ends where it may. -/
def Whole (power : Nat) (outlines : List Outline) (rest : List Kind) : Prop :=
  ∃ id children, outlines = [.rule expressionName id children] ∧
    (∀ left right, powers? id = some (left, right) → power ≤ left) ∧ Halts power rest

def Last (power : Nat) (outlines : List Outline) (rest : List Kind) : Prop :=
  ∃ front back, outlines = front ++ back ∧ Whole power back rest

private theorem Last.behindToken {power : Nat} {outlines : List Outline} {rest : List Kind}
    (holds : behindToken (Last power) outlines rest) : Last power outlines rest := by
  obtain ⟨_, rfl, front, back, rfl, whole⟩ := holds
  exact ⟨.token 0 :: front, back, rfl, whole⟩

theorem Shapes.whole {power : Nat} (shapes : Shapes limit (Whole power) body) : Shapes limit (Last power) body :=
  shapes.mono fun outlines _ whole => ⟨[], outlines, rfl, whole⟩

theorem Shapes.last {power : Nat} (start : Shapes limit early first) (rest : Shapes limit (Last power) second) :
    Shapes limit (Last power) (Parser.next first second) := by
  refine .next start rest ?_
  rintro front _ behind ⟨between, back, rfl, whole⟩
  exact ⟨front ++ between, back, (List.append_assoc _ _ _).symm, whole⟩

/-- A left operand that a token ahead may go on with, in an expression of some power. -/
structure Open (power : Nat) (id : RuleId) (ahead : List Kind) : Prop where
  tight : ∀ left right, powers? id = some (left, right) → power ≤ left
  still : id = 60 ∨ (powers? id).isSome = true → (current ahead).trails = false
  looser : ∀ left right, powers? id = some (left, right) →
    ∀ outer inner rule, binding? (current ahead) = some (outer, inner, rule) → outer < right

theorem Open.plain {power : Nat} {id : RuleId} (operand : id ≠ 60) (free : powers? id = none) :
    Open power id ahead := by
  constructor <;> simp [operand, free]

/-- In front of what goes on with any operand there is one without an operator of its own. -/
theorem Open.free {power : Nat} {id : RuleId} (opened : Open power id ahead) (trails : (current ahead).trails = true) :
    id ≠ 60 ∧ powers? id = none := by
  constructor
  · intro same
    rw [opened.still (.inl same)] at trails
    cases trails
  · cases powers : powers? id with
    | none => rfl
    | some entry =>
      rw [opened.still (.inr (by rw [powers]; rfl))] at trails
      cases trails

/-- A first operand is open for whatever may follow. -/
def First (outlines : List Outline) (rest : List Kind) : Prop :=
  ∃ id children, outlines = [.rule expressionName id children] ∧ ∀ power, Open power id rest

/-- At a level every rule describes one node, and an expression of some power ends where it may. -/
structure Level.Shapely (limit : Nat) (level : Level) : Prop where
  rule : ∀ rule id, Shapes limit (around rule.name id anyShape) (level.rule rule id)
  expression : ∀ power, Shapes limit (Whole power) (level.expression power)

private theorem shapes_run {level : Level} (shapely : level.Shapely limit) (step : Step) :
    Shapes limit anyShape (step.run limit level) := by
  induction step with
  | done => exact .done
  | bump => exact .bump
  | expect kind => exact .expect kind
  | call rule id => exact (shapely.rule rule id).any
  | expression => exact (shapely.expression 0).any
  | fail wanted => exact .fail wanted
  | next first second front back => exact .both front back
  | choose test yes no holds fails => exact .choose holds fails
  | loop test body inner => exact .loop inner limit

private theorem name_ne_expressionName (rule : Rule) : rule.name ≠ expressionName := by
  cases rule <;> decide

@[simp] theorem operands_nil : operands [] = [] := rfl

@[simp] theorem operands_expression {id : RuleId} {below rest : List Outline} :
    operands (.rule expressionName id below :: rest) = id :: operands rest :=
  List.filterMap_cons_some (if_pos rfl : (if expressionName = expressionName then some id else none) = some id)

@[simp] theorem operands_token {index : Nat} {rest : List Outline} : operands (.token index :: rest) = operands rest :=
  List.filterMap_cons_none rfl

@[simp] theorem operands_append (front back : List Outline) : operands (front ++ back) = operands front ++ operands back :=
  List.filterMap_append

private theorem powers?_eq_none : ∀ id ∈ ([60, 61, 63, 65, 66, 68] : List RuleId), powers? id = none := by
  have known : ([60, 61, 63, 65, 66, 68] : List RuleId).all (fun id => (powers? id).isNone) = true := by decide +kernel
  intro id inside
  exact Option.isNone_iff_eq_none.mp (List.all_eq_true.mp known id inside)

private theorem ordered_primary (children : List Outline) : Ordered 61 children where
  binary := by simp [powers?_eq_none 61]
  signed := fun same => absurd same (by decide)
  trailed := fun trailer => absurd trailer (by decide)

private theorem ordered_signed {operand : RuleId} {below : List Outline} (free : powers? operand = none) :
    Ordered 60 [.token 0, .rule expressionName operand below] where
  binary := by simp [powers?_eq_none 60]
  signed := fun _ => ⟨operand, by simp, free⟩
  trailed := fun trailer => absurd trailer (by decide)

private theorem powers?_trailer {id : RuleId} (trailer : id ∈ [63, 65, 66, 68]) : id ≠ 60 ∧ powers? id = none := by
  constructor
  · rintro rfl
    exact absurd trailer (by decide)
  · exact powers?_eq_none id (List.mem_cons_of_mem _ (List.mem_cons_of_mem _ trailer))

private theorem ordered_trailed {id first : RuleId} {below rest : List Outline} (trailer : id ∈ [63, 65, 66, 68])
    (operand : first ≠ 60) (free : powers? first = none) :
    Ordered id (.rule expressionName first below :: rest) where
  binary := by simp [powers?_trailer trailer]
  signed := fun same => absurd same (powers?_trailer trailer).1
  trailed := fun _ => ⟨first, below, rest, rfl, operand, free⟩

private theorem ordered_binary {id first last : RuleId} {left right : Nat} {below inside between : List Outline}
    (powers : powers? id = some (left, right))
    (loose : ∀ outer inner, powers? first = some (outer, inner) → left < inner)
    (tight : ∀ outer inner, powers? last = some (outer, inner) → right ≤ outer) :
    Ordered id (.rule expressionName first below :: (between ++ [.rule expressionName last inside])) where
  binary := by
    intro outer inner same
    obtain ⟨rfl, rfl⟩ := Prod.mk.inj (Option.some.inj (powers.symm.trans same))
    exact ⟨first, operands between, last, by simp, loose, tight⟩
  signed := by
    rintro rfl
    simp [powers?_eq_none 60] at powers
  trailed := by
    intro trailer
    simp [powers?_trailer trailer] at powers

theorem Halts.opens {power : Nat} {id : RuleId} {left right : Nat} (powers : powers? id = some (left, right))
    (tight : power ≤ left) (halts : Halts right ahead) : Open power id ahead where
  tight := by
    intro outer inner same
    obtain ⟨rfl, rfl⟩ := Prod.mk.inj (Option.some.inj (powers.symm.trans same))
    exact tight
  still := fun _ => halts.still
  looser := by
    intro outer inner same
    obtain ⟨rfl, rfl⟩ := Prod.mk.inj (Option.some.inj (powers.symm.trans same))
    exact halts.looser

/-- A prefix operator has taken all that goes on with its operand, which no other operator does. -/
private theorem shapes_operand {level : Level} (shapely : level.Shapely limit) :
    Shapes limit First (operand level) := by
  intro ahead short
  unfold operand
  split
  next unary =>
    have solid : current ahead ≠ .eof := by
      intro same
      rw [same] at unary
      cases unary
    have free {id : RuleId} (tight : ∀ left right, powers? id = some (left, right) → unaryPower ≤ left) :
        powers? id = none := by
      cases powers : powers? id with
      | none => rfl
      | some entry => exact absurd (tight _ _ powers) (Nat.not_le.mpr (lt_unaryPower powers))
    have inside := Shaped.bumpNext solid (short.trans (Nat.lt_succ_self _)) (shapely.expression unaryPower)
    refine (inside.enclosed ?_).mono ?_
    · rintro children rest ⟨later, rfl, id, below, rfl, tight, -⟩ -
      exact ordered_signed (free tight)
    · rintro outlines rest ⟨children, rfl, later, rfl, id, below, rfl, tight, halts⟩
      refine ⟨60, _, rfl, fun power => ⟨?_, fun _ => halts.still, ?_⟩⟩
      · simp [powers?_eq_none 60]
      · simp [powers?_eq_none 60]
  next =>
    refine ((shapely.rule .primary 62 ahead short).enclosed ?_).mono ?_
    · intro children rest _ _
      exact ordered_primary children
    · rintro outlines rest ⟨children, rfl, -⟩
      exact ⟨61, children, rfl, fun power => .plain (by decide) (powers?_eq_none 61 (by decide))⟩

/-- What goes on with a left operand belongs to a trailer, or to an operator that binds as tightly as the power and
ends with its right operand. -/
private theorem shapes_continuation {rule : Rule → RuleId → Parser} {expression : Nat → Parser} {fuel : Nat}
    (rules : ∀ name id, Shapes (fuel + 1) anyShape (rule name id))
    (expressions : ∀ power, Shapes fuel (Whole power) (expression power)) {power : Nat} {id : RuleId} {behind : Parser}
    (short : ahead.length < fuel + 1)
    (found : continuation? rule expression power (current ahead) = some (id, behind)) :
    (id ∈ [63, 65, 66, 68] ∧ (current ahead).trails = true ∧ Shaped anyShape ahead (behind ahead)) ∨
      ∃ left right, binding? (current ahead) = some (left, right, id) ∧ power ≤ left ∧
        Shaped (Last right) ahead (behind ahead) := by
  have shorter := fun id => (rules .arguments id).shorten (Nat.le_succ fuel)
  have trailer (kind : Kind) (same : current ahead = kind) (other : kind ≠ .eof) {second : Parser}
      (shapes : Shapes fuel anyShape second) : Shaped anyShape ahead (Parser.next Parser.bump second ahead) := by
    rw [← same] at other
    exact (Shaped.bumpNext other short shapes).mono fun _ _ _ => trivial
  generalize same : current ahead = kind at found
  cases continues_of_continuation? found with
  | member =>
    exact .inl ⟨by decide, rfl, trailer _ same (by decide) (.both (.expect _) (.choose (shorter 64) .done))⟩
  | index => exact .inl ⟨by decide, rfl, trailer _ same (by decide) (.both (expressions 0).any (.expect _))⟩
  | call => exact .inl ⟨by decide, rfl, rules .arguments 67 ahead short⟩
  | step step =>
    have trails : ∀ kind : Kind, kind.isStep = true → kind.trails = true := by decide
    exact .inl ⟨by decide, trails _ step, Shapes.bump ahead short⟩
  | @conditional left right _ bound tight =>
    have inside : Shapes fuel (Last right) _ := .last (expressions 0) (.last (.expect .colon) (.whole (expressions right)))
    have solid : current ahead ≠ .eof := by
      rw [same]
      decide
    exact .inr ⟨left, right, bound, tight, (Shaped.bumpNext solid short inside).mono fun _ _ => .behindToken⟩
  | @binary _ left right _ bound tight =>
    have inside : Shapes fuel (Last right) _ := .whole (expressions right)
    have solid : current ahead ≠ .eof := by
      intro ended
      rw [← same, ended] at bound
      cases bound
    exact .inr ⟨left, right, bound, tight, (Shaped.bumpNext solid short inside).mono fun _ _ => .behindToken⟩

private theorem halts_of_continuation? {rule : Rule → RuleId → Parser} {expression : Nat → Parser} {power : Nat}
    (ended : continuation? rule expression power (current ahead) = none) : Halts power ahead := by
  unfold continuation? at ended
  split at ended
  iterate 5 cases ended
  next dot bracket paren increment decrement =>
  constructor
  · unfold Kind.trails
    split <;> simp_all
  · intro left right id bound
    rw [bound] at ended
    dsimp only at ended
    split at ended
    next loose => exact loose
    next =>
      split at ended <;> cases ended

/-- The node around a left operand and what goes on with it is a left operand for what follows. -/
theorem Sketches.continued {power : Nat} {left marks : List Mark} {id node : RuleId} {children : List Outline}
    {rest : List Kind} (sketches : Sketches left [.rule expressionName id children]) (opened : Open power id ahead)
    (shaped : (node ∈ [63, 65, 66, 68] ∧ (current ahead).trails = true ∧ Shaped anyShape ahead ⟨marks, rest, none⟩) ∨
      ∃ outer inner, binding? (current ahead) = some (outer, inner, node) ∧ power ≤ outer ∧
        Shaped (Last inner) ahead ⟨marks, rest, none⟩) :
    ∃ below, Sketches (.enter expressionName node :: (left ++ (marks ++ [.exit]))) [.rule expressionName node below] ∧
      Open power node rest := by
  rw [← List.append_assoc]
  rcases shaped with ⟨trailer, trails, shaped⟩ | ⟨outer, inner, bound, tight, shaped⟩
  · obtain ⟨-, more, later, -⟩ := shaped rfl
    obtain ⟨operand, free⟩ := opened.free trails
    refine ⟨_, (sketches.append later).wrap fun _ => ordered_trailed trailer operand free, ?_⟩
    exact .plain (powers?_trailer trailer).1 (powers?_trailer trailer).2
  · obtain ⟨-, _, later, front, _, rfl, last, inside, rfl, above, halts⟩ := shaped rfl
    have powers := powers?_of_binding? bound
    refine ⟨_, (sketches.append later).wrap fun _ => ordered_binary powers ?_ above, halts.opens powers tight⟩
    intro outer inner same
    exact opened.looser _ _ same _ _ _ bound

/-- Expressions end where they may, and what goes on with a left operand leaves the operands in order. -/
private theorem shapes_expression {limit : Nat} {rule : Rule → RuleId → Parser} {first : Parser}
    (reads : ∀ name id, name ≠ .compilationUnit → Reads limit name.given (rule name id) (.rule name))
    (operandReads : Reads limit anywhere first .expression) (rules : ∀ name id, Shapes limit anyShape (rule name id))
    (operandShapes : Shapes limit First first) (fuel : Nat) (fuelled : fuel ≤ limit) :
    (∀ power, Shapes fuel (Whole power) (expressionFrom rule first fuel power)) ∧
      ∀ power left id children ahead, ahead.length < fuel → Sketches left [.rule expressionName id children] →
        Open power id ahead → Shaped (Whole power) ahead (operatorsFrom rule first fuel power left ahead) := by
  induction fuel with
  | zero =>
    exact ⟨fun _ _ short => absurd short (Nat.not_lt_zero _), fun _ _ _ _ _ short => absurd short (Nat.not_lt_zero _)⟩
  | succ fuel ih =>
    obtain ⟨expressions, operators⟩ := ih (Nat.le_of_succ_le fuelled)
    have expressionReads := (reads_expression reads operandReads fuel (Nat.le_of_succ_le fuelled)).1
    constructor
    · intro power ahead short
      have start := operandShapes ahead (Nat.lt_of_lt_of_le short fuelled)
      have takes := operandReads ahead (Nat.lt_of_lt_of_le short fuelled) trivial
      rw [expressionFrom]
      dsimp only
      split
      next marks rest found =>
        rw [found] at start takes
        have fewer : rest.length < ahead.length := takes.length_lt rfl rfl
        obtain ⟨-, _, sketches, id, children, rfl, opened⟩ := start rfl
        intro succeeded
        obtain ⟨less, shaped⟩ := operators power marks id children rest (by omega) sketches (opened power) succeeded
        exact ⟨by omega, shaped⟩
      next failed =>
        intro succeeded
        exact absurd (congrArg (Outcome.mk _ _) succeeded) (failed _ _)
    · intro power left id children ahead short sketches opened
      rw [operatorsFrom]
      dsimp only
      split
      next ended =>
        intro _
        exact ⟨Nat.le_refl _, _, sketches, id, children, rfl, opened.tight, halts_of_continuation? ended⟩
      next node behind continued =>
        have takes := reads_continuation (fun id => (reads .arguments id (by decide)).shorten fuelled) expressionReads
          continued ahead short rfl
        have shaped := shapes_continuation (fun name id => (rules name id).shorten fuelled) expressions short continued
        split
        next marks rest found =>
          rw [found] at takes shaped
          have fewer : rest.length < ahead.length := takes.length_lt rfl rfl
          obtain ⟨below, sketches, opened⟩ := sketches.continued opened shaped
          intro succeeded
          obtain ⟨less, shaped⟩ := operators power _ node below rest (by omega) sketches opened succeeded
          exact ⟨by omega, shaped⟩
        next marks rest failure failed found =>
          intro succeeded
          exact absurd succeeded failed

theorem shapely_level (limit room : Nat) : (level limit room).Shapely limit := by
  induction room with
  | zero => exact ⟨fun _ _ => .fail _, fun _ => .fail _⟩
  | succ room inner =>
    have rules : ∀ (rule : Rule) id, Shapes limit (around rule.name id anyShape)
        (Parser.enclosed rule.name id (rule.body.run limit (level limit room))) := by
      intro rule id ahead short
      refine (shapes_run inner rule.body ahead short).enclosed fun children rest _ same => ?_
      exact absurd same (name_ne_expressionName rule)
    have reads := reads_level limit (room + 1)
    refine ⟨rules, (shapes_expression reads.rule (reads_operand (reads_level limit room)) (fun name id => (rules name id).any)
      (shapes_operand inner) limit (Nat.le_refl limit)).1⟩

end MiniJava

end Verbatim
