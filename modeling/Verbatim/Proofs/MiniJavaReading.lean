import Verbatim.Proofs.MiniJavaDiscipline

/-! What a parser takes is derived by the grammar. A parser takes its tokens off the front, one mark for
each of them, and none of them is the end of the source; where it succeeds it has taken a whole word of
its form. A parser that takes whatever stands in front is called only where a test has looked at it. -/

namespace Verbatim.MiniJava

/-- What an outcome says to be taken stands in front, and it is a word of the form unless the parser
failed. -/
def Takes (form : Form) (ahead : List Kind) (outcome : Outcome) : Prop :=
  ∃ taken, ahead = taken ++ outcome.rest ∧ outcome.marks.count .take = taken.length ∧ .eof ∉ taken ∧
    (outcome.failure = none → Derives form taken)

/-- A parser takes words of a form where something is given, as long as there are fewer tokens than the
limit. -/
def Reads (limit : Nat) (given : List Kind → Prop) (parser : Parser) (form : Form) : Prop :=
  ∀ ahead, ahead.length < limit → given ahead → Takes form ahead (parser ahead)

def anywhere (_ : List Kind) : Prop := True

theorem Takes.mono {narrow wide : Form} {ahead : List Kind} {outcome : Outcome}
    (wider : ∀ word, Derives narrow word → Derives wide word) (takes : Takes narrow ahead outcome) :
    Takes wide ahead outcome := by
  obtain ⟨taken, front, marked, inner, word⟩ := takes
  exact ⟨taken, front, marked, inner, fun succeeded => wider taken (word succeeded)⟩

theorem Takes.length_lt {form : Form} {ahead : List Kind} {outcome : Outcome} (takes : Takes form ahead outcome)
    (solid : form.nullable = false) (succeeded : outcome.failure = none) : outcome.rest.length < ahead.length := by
  obtain ⟨taken, split, -, -, word⟩ := takes
  have some := List.length_pos_iff.mpr ((word succeeded).ne_nil solid)
  rw [split, List.length_append]
  omega

theorem Takes.next {first second : Parser} {start rest : Form} {ahead : List Kind}
    (front : Takes start ahead (first ahead))
    (back : ∀ taken behind, ahead = taken ++ behind → Derives start taken → Takes rest behind (second behind)) :
    Takes (.cat start rest) ahead (Parser.next first second ahead) := by
  obtain ⟨taken, split, marked, inner, word⟩ := front
  unfold Parser.next
  split
  next marks behind found =>
    rw [found] at split marked word
    obtain ⟨more, follows, later, outer, words⟩ := back taken behind split (word rfl)
    refine ⟨taken ++ more, ?_, ?_, ?_, fun succeeded => .cat (word rfl) (words succeeded)⟩
    · rw [List.append_assoc, ← follows]
      exact split
    · rw [List.count_append, List.length_append, marked, later]
    · simp [inner, outer]
  next failed =>
    exact ⟨taken, split, marked, inner, fun succeeded => absurd (congrArg (Outcome.mk _ _) succeeded) (failed _ _)⟩

theorem Takes.enclosed {name : String} {id : RuleId} {body : Parser} {form : Form} {ahead : List Kind}
    (inside : Takes form ahead (body ahead)) : Takes form ahead (Parser.enclosed name id body ahead) := by
  obtain ⟨taken, split, marked, inner, word⟩ := inside
  unfold Parser.enclosed
  split
  next marks rest found =>
    rw [found] at split marked word
    exact ⟨taken, split, by simpa using marked, inner, word⟩
  next marks rest failure failed found =>
    rw [found] at split marked
    exact ⟨taken, split, by simpa using marked, inner, fun succeeded => absurd succeeded failed⟩

namespace Reads

variable {limit : Nat} {given : List Kind → Prop} {first second body : Parser} {test : Look}
  {form start rest left right : Form}

theorem mono {narrow wide : Form} (wider : ∀ word, Derives narrow word → Derives wide word)
    (reads : Reads limit given body narrow) : Reads limit given body wide :=
  fun ahead short holds => (reads ahead short holds).mono wider

theorem weaken {stronger : List Kind → Prop} (weaker : ∀ ahead, stronger ahead → given ahead)
    (reads : Reads limit given body form) : Reads limit stronger body form :=
  fun ahead short holds => reads ahead short (weaker ahead holds)

theorem everywhere (reads : Reads limit anywhere body form) : Reads limit given body form :=
  reads.weaken fun _ _ => trivial

theorem shorten {less : Nat} (fewer : less ≤ limit) (reads : Reads limit given body form) :
    Reads less given body form :=
  fun ahead short holds => reads ahead (Nat.lt_of_lt_of_le short fewer) holds

theorem inl (reads : Reads limit given body left) : Reads limit given body (.alt left right) :=
  reads.mono fun _ => .left

theorem inr (reads : Reads limit given body right) : Reads limit given body (.alt left right) :=
  reads.mono fun _ => .right

theorem fail (wanted : String) : Reads limit given (Parser.fail wanted) form :=
  fun _ _ _ => ⟨[], rfl, rfl, by simp, nofun⟩

theorem done : Reads limit given Parser.done .empty := fun _ _ _ => ⟨[], rfl, rfl, by simp, fun _ => .empty⟩

theorem bump {fits : Kind → Bool} (known : ∀ ahead, given ahead → fits (current ahead) = true)
    (inner : fits .eof = false) : Reads limit given Parser.bump (.among fits)
  | [], _, holds => absurd (known [] holds) (by simp [current, inner])
  | kind :: ahead, _, holds => by
    have fit : fits kind = true := known _ holds
    refine ⟨[kind], rfl, rfl, ?_, fun _ => .among fit⟩
    rintro ⟨⟩
    · exact absurd fit (by simp [inner])
    · contradiction

theorem found {kind : Kind} (inner : kind ≠ .eof := by decide) :
    Reads limit (fun ahead => given ahead ∧ Look.on kind ahead = true) Parser.bump (.token kind) :=
  bump (fun _ holds => holds.2) (by simpa using Ne.symm inner)

theorem next (front : Reads limit given first start) (back : Reads limit anywhere second rest) :
    Reads limit given (Parser.next first second) (.cat start rest) := by
  intro ahead short holds
  refine (front ahead short holds).next fun taken behind split _ => back behind ?_ trivial
  rw [split, List.length_append] at short
  omega

theorem bumpNext {fits : Kind → Bool} (known : ∀ ahead, given ahead → fits (current ahead) = true)
    (inner : fits .eof = false) (back : Reads limit anywhere second rest) :
    Reads (limit + 1) given (Parser.next Parser.bump second) (.cat (.among fits) rest) := by
  intro ahead short holds
  refine (bump known inner ahead short holds).next fun taken behind split word => back behind ?_ trivial
  have solid := List.length_pos_iff.mpr (word.ne_nil rfl)
  rw [split, List.length_append] at short
  omega

theorem choose (yes : Reads limit (fun ahead => given ahead ∧ test ahead = true) first form)
    (no : Reads limit given second form) :
    Reads limit given (fun ahead => if test ahead then first ahead else second ahead) form := by
  intro ahead short holds
  dsimp only
  split
  next taken => exact yes ahead short ⟨holds, taken⟩
  next => exact no ahead short holds

theorem expect {kind : Kind} (inner : kind ≠ .eof := by decide) :
    Reads limit given (Parser.expect kind) (.token kind) :=
  choose (found inner) (fail _)

theorem perhaps (yes : Reads limit (fun ahead => given ahead ∧ test ahead = true) first form) :
    Reads limit given (fun ahead => if test ahead then first ahead else Parser.done ahead) (.optional form) :=
  choose yes.inl done.inr

theorem loop (inside : Reads limit (fun ahead => test ahead = true) body form) (fuel : Nat) :
    Reads limit given (Parser.loop test body fuel) (.many form) := by
  induction fuel generalizing given with
  | zero => exact fun _ _ _ => ⟨[], rfl, rfl, by simp, fun _ => .none⟩
  | succ fuel ih =>
    refine choose (mono ?_ (next (inside.weaken fun _ holds => holds.2) ih)) ?_
    · intro word derives
      cases derives with
      | cat start rest => exact .more start rest
    · exact fun _ _ _ => ⟨[], rfl, rfl, by simp, fun _ => .none⟩

theorem loop_stops (inside : Reads limit (fun ahead => test ahead = true) body form) (solid : form.nullable = false)
    {fuel : Nat} (fuelled : fuel ≤ limit) {ahead : List Kind} (short : ahead.length < fuel)
    (succeeded : (Parser.loop test body fuel ahead).failure = none) :
    test (Parser.loop test body fuel ahead).rest = false := by
  induction fuel generalizing ahead with
  | zero => cases short
  | succ fuel ih =>
    rw [Parser.loop] at succeeded ⊢
    dsimp only at succeeded ⊢
    split at succeeded
    next holds =>
      have takes := inside ahead (Nat.lt_of_lt_of_le short fuelled) holds
      unfold Parser.next at succeeded ⊢
      rw [if_pos holds]
      split at succeeded
      next marks rest found =>
        rw [found] at takes
        have fewer : rest.length < ahead.length := takes.length_lt solid rfl
        exact ih (Nat.le_of_succ_le fuelled) (by omega) succeeded
      next failed => exact absurd (congrArg (Outcome.mk _ _) succeeded) (failed _ _)
    next fails =>
      rw [if_neg fails]
      exact eq_false_of_ne_true fails

private theorem loopOnce (inside : Reads limit (fun ahead => test ahead = true) body form) :
    Reads limit (fun ahead => given ahead ∧ test ahead = true) (Parser.loop test body limit)
      (.cat form (.many form)) := by
  intro ahead short holds
  cases limit with
  | zero => cases short
  | succ limit =>
    rw [Parser.loop]
    dsimp only
    rw [if_pos holds.2]
    exact next inside (loop inside limit) ahead short holds.2

theorem enclosed {name : String} {id : RuleId} (inside : Reads limit given body form) :
    Reads limit given (Parser.enclosed name id body) form :=
  fun ahead short holds => (inside ahead short holds).enclosed

end Reads

/-- What the callers of a rule have looked at. -/
def Rule.given : Rule → List Kind → Prop
  | .modifier, ahead => (current ahead).isModifier = true
  | .literal, ahead => (current ahead).isLiteral = true
  | _, _ => True

/-- At a level every rule but that of the whole source takes its own words. -/
structure Level.ReadsForms (limit : Nat) (level : Level) : Prop where
  rule : ∀ rule id, rule ≠ .compilationUnit → Reads limit rule.given (level.rule rule id) (.rule rule)
  expression : ∀ power, Reads limit anywhere (level.expression power) .expression

section

variable {limit : Nat} {level : Level}

private theorem reads_qualifiedName {given : List Kind → Prop} :
    Reads limit given (Step.qualifiedName.run limit level) .qualifiedName := by
  refine .next (.expect (by decide)) (.loop ?_ limit)
  intro ahead _ pair
  match ahead, pair with
  | .dot :: .identifier :: rest, _ =>
    exact ⟨[.dot, .identifier], rfl, rfl, by decide, fun _ => .cat (.among rfl) (.among rfl)⟩

private theorem reads_typeName {given : List Kind → Prop} :
    Reads limit given (Step.typeName.run limit level) .typeName :=
  .choose (.inl (.bump (fun _ holds => holds.2) rfl)) (.inr reads_qualifiedName)

theorem Level.ReadsForms.commaMore (item : Step) {form : Form} {given : List Kind → Prop}
    (reads : Reads limit anywhere (item.run limit level) form) :
    Reads limit given ((Step.commaMore item).run limit level) (.commaMore form) :=
  .loop (.next (.bump (fun _ holds => holds) rfl) reads) limit

theorem Level.ReadsForms.call (reads : level.ReadsForms limit) {rule : Rule} {id : RuleId} {given : List Kind → Prop}
    (inner : rule ≠ .compilationUnit := by decide)
    (holds : ∀ ahead, given ahead → rule.given ahead := by exact fun _ _ => trivial) :
    Reads limit given ((Step.call rule id).run limit level) (.rule rule) :=
  (reads.rule rule id inner).weaken holds

theorem Level.ReadsForms.final (reads : level.ReadsForms limit) {id : RuleId} {given : List Kind → Prop} :
    Reads limit (fun ahead => given ahead ∧ Look.on .finalWord ahead = true) ((Step.call .modifier id).run limit level)
      (.token .finalWord) := by
  intro ahead short holds
  match ahead, holds with
  | .finalWord :: rest, _ =>
    obtain ⟨taken, split, marked, inner, word⟩ := reads.rule .modifier id (by decide) (.finalWord :: rest) short rfl
    refine ⟨taken, split, marked, inner, fun succeeded => ?_⟩
    cases word succeeded with
    | rule produced =>
      cases produced with
      | among =>
        obtain ⟨rfl, -⟩ := List.cons.inj split
        exact .among rfl

theorem Level.ReadsForms.body (reads : level.ReadsForms limit) {rule : Rule} (inner : rule ≠ .compilationUnit) :
    Reads limit rule.given (rule.body.run limit level) rule.form := by
  have expression {given : List Kind → Prop} : Reads limit given (Step.expression.run limit level) .expression :=
    (reads.expression 0).everywhere
  have modifiers {given : List Kind → Prop} {id : RuleId} :
      Reads limit given ((Step.loop (.among Kind.isModifier) (.call .modifier id)).run limit level)
        (.many (.rule .modifier)) :=
    .loop ((reads.rule .modifier id (by decide)).weaken fun _ holds => holds) limit
  cases rule with
  | compilationUnit => contradiction
  | typeDeclaration => exact .choose (.inl .found) (.inr (.next modifiers reads.call))
  | modifier => exact .bump (fun _ holds => holds) rfl
  | classDeclaration =>
    exact .next .expect (.next .expect (.next (.perhaps (.next .found reads.call)) reads.call))
  | classBody => exact .next .expect (.next (.loop reads.call limit) .expect)
  | classBodyDeclaration =>
    refine .choose (.inl .found) (.inr (.next modifiers ?_))
    refine .choose (.inl reads.call) (.inr (.choose (.inl reads.call) (.inr ?_)))
    refine .choose (.inl reads.call) (.choose (.inl reads.call) (.inr ?_))
    exact .choose reads.call (.choose reads.call (.fail _))
  | constructorDeclaration => exact .next .expect (.next reads.call reads.call)
  | methodDeclaration =>
    exact .next (.choose (.inl .found) (.inr reads.call)) (.next .expect (.next reads.call
      (.choose (.inl .found) (.inr reads.call))))
  | fieldDeclaration =>
    exact .next reads.call (.next reads.call (.next (commaMore (.call _ _) reads.call) .expect))
  | formalParameters =>
    exact .next .expect (.next (.perhaps (.next reads.call (commaMore (.call _ _) reads.call))) .expect)
  | formalParameter => exact .next (.perhaps reads.final) (.next reads.call .expect)
  | type => exact .next reads_typeName (.loop (.next (.bump (fun _ holds => holds) rfl) .expect) limit)
  | variableDeclarator => exact .next .expect (.perhaps (.next .found expression))
  | block => exact .next .expect (.next (.loop reads.call limit) .expect)
  | blockStatement =>
    exact .choose (.inl (.next reads.call .expect)) (.inr (.choose (.inl reads.call) (.inr reads.call)))
  | localVariableDeclaration =>
    exact .next (.perhaps reads.final) (.next reads.call (.next reads.call (commaMore (.call _ _) reads.call)))
  | statement =>
    refine .choose (.inl reads.call) (.inr (.choose (.inl ?ifs) (.inr (.choose (.inl ?whiles) (.inr ?_)))))
    case ifs => exact .next .found (.next reads.call (.next reads.call (.perhaps (.next .found reads.call))))
    case whiles => exact .next .found (.next reads.call reads.call)
    refine .choose (.inl ?dos) (.inr (.choose (.inl ?fors) (.inr (.choose (.inl ?returns) (.inr ?_)))))
    case dos => exact .next .found (.next reads.call (.next .expect (.next reads.call .expect)))
    case fors => exact .next .found (.next .expect (.next reads.call (.next .expect reads.call)))
    case returns => exact .next .found (.next (.perhaps expression) .expect)
    refine .choose (.inl (.next .found .expect)) (.inr (.choose (.inl (.next .found .expect)) (.inr ?_)))
    exact .choose (.inl .found) (.inr (.next expression .expect))
  | parExpression => exact .next .expect (.next expression .expect)
  | forControl =>
    refine .next (.choose (.inl (.inl reads.call)) (.choose (.inr .done) (.inl (.inr reads.call)))) ?_
    exact .next .expect (.next (.perhaps expression) (.next .expect (.perhaps reads.call)))
  | expressionList => exact .next expression (commaMore .expression expression)
  | primary =>
    refine .choose (.inl (.next .found (.next expression .expect))) (.inr (.choose (.inl .found) (.inr ?_)))
    refine .choose (.inl .found) (.inr (.choose (.inl (.next .found reads.call)) (.inr ?_)))
    exact .choose (reads.call (by decide) fun _ holds => holds.2) (.fail _)
  | literal => exact .bump (fun _ holds => holds) rfl
  | creator =>
    have bracket : Reads limit (fun ahead => Look.on .leftBracket ahead = true)
        ((Step.all [.bump, .perhaps (.not (.on .rightBracket)) .expression, .expect .rightBracket]).run limit level)
        .bracket :=
      .next (.bump (fun _ holds => holds) rfl) (.next (.perhaps expression) .expect)
    exact .next reads_typeName (.choose (.inr (.loopOnce bracket)) (.inl reads.call))
  | arguments => exact .next .expect (.next (.perhaps reads.call) .expect)

theorem reads_operand (reads : level.ReadsForms limit) : Reads limit anywhere (operand level) .expression := by
  refine .mono (fun _ => .expression) (.choose (.inr (.inl (.enclosed ?_))) (.inl (.enclosed reads.call)))
  exact .next (.bump (fun _ holds => holds.2) rfl) (reads.expression unaryPower)

end

private theorem isBinary_of_binding? :
    ∀ kind, (binding? kind).isSome = true → kind ≠ .question → kind.isBinary = true := by
  decide

/-- What goes on behind a left operand is a suffix. -/
theorem reads_continuation {rule : Rule → RuleId → Parser} {expression : Nat → Parser} {fuel : Nat}
    (arguments : ∀ id, Reads (fuel + 1) anywhere (rule .arguments id) (.rule .arguments))
    (expressions : ∀ power, Reads fuel anywhere (expression power) .expression)
    {power : Nat} {kind : Kind} {id : RuleId} {behind : Parser}
    (found : continuation? rule expression power kind = some (id, behind)) :
    Reads (fuel + 1) (fun ahead => current ahead = kind) behind suffixForm := by
  have known {kind : Kind} (ahead : List Kind) (same : current ahead = kind) : (current ahead == kind) = true :=
    beq_iff_eq.mpr same
  have shorter := fun id => (arguments id).shorten (Nat.le_succ fuel)
  cases continues_of_continuation? found with
  | member => exact .inl (.bumpNext known rfl (.next .expect (.perhaps (shorter 64).everywhere)))
  | index => exact .inr (.inl (.bumpNext known rfl (.next (expressions 0) .expect)))
  | call => exact .inr (.inr (.inl (arguments 67).everywhere))
  | step step => exact .inr (.inr (.inr (.inl (.bump (fun _ same => by rw [same]; exact step) rfl))))
  | @conditional left right =>
    exact .inr (.inr (.inr (.inr (.inr
      (.bumpNext known rfl (.next (expressions 0) (.next .expect (expressions right))))))))
  | @binary _ left right id bound tight plain =>
    have binary := isBinary_of_binding? kind (by rw [bound]; rfl) plain
    exact .inr (.inr (.inr (.inr (.inl (.bumpNext (fun _ same => by rw [same]; exact binary) rfl (expressions right))))))

/-- An expression, and what goes on behind a left operand. Each unit of fuel pays for a token. -/
theorem reads_expression {limit : Nat} {rule : Rule → RuleId → Parser} {first : Parser}
    (rules : ∀ name id, name ≠ .compilationUnit → Reads limit name.given (rule name id) (.rule name))
    (operands : Reads limit anywhere first .expression) (fuel : Nat) (fuelled : fuel ≤ limit) :
    (∀ power, Reads fuel anywhere (expressionFrom rule first fuel power) .expression) ∧
      ∀ power left word ahead, ahead.length < fuel → Derives .expression word → left.count .take = word.length →
        .eof ∉ word → Takes .expression (word ++ ahead) (operatorsFrom rule first fuel power left ahead) := by
  induction fuel with
  | zero =>
    exact ⟨fun _ _ short => absurd short (Nat.not_lt_zero _), fun _ _ _ _ short => absurd short (Nat.not_lt_zero _)⟩
  | succ fuel ih =>
    obtain ⟨expressions, operators⟩ := ih (Nat.le_of_succ_le fuelled)
    have arguments : ∀ id, Reads (fuel + 1) anywhere (rule .arguments id) (.rule .arguments) :=
      fun id => (rules .arguments id (by decide)).shorten fuelled
    constructor
    · intro power ahead short _
      have takes := operands ahead (Nat.lt_of_lt_of_le short fuelled) trivial
      rw [expressionFrom]
      dsimp only
      split
      next marks rest found =>
        rw [found] at takes
        have fewer : rest.length < ahead.length := takes.length_lt rfl rfl
        obtain ⟨taken, rfl, marked, inner, word⟩ := takes
        exact operators power marks taken rest (by omega) (word rfl) marked inner
      next => exact takes
    · intro power left word ahead short derives marked inner
      rw [operatorsFrom]
      dsimp only
      split
      · exact ⟨word, rfl, marked, inner, fun _ => derives⟩
      next id behind continued =>
        have takes := reads_continuation arguments expressions continued ahead short rfl
        split
        next marks rest found =>
          rw [found] at takes
          have fewer : rest.length < ahead.length := takes.length_lt rfl rfl
          obtain ⟨taken, rfl, later, outer, suffix⟩ := takes
          rw [← List.append_assoc]
          have longer := Derives.expression (.right (.right (.cat derives (suffix rfl))))
          refine operators power _ (word ++ taken) rest (by omega) longer ?_ ?_
          · simp [marked, later]
          · simp [inner, outer]
        next marks rest failure failed found =>
          rw [found] at takes
          obtain ⟨taken, split, later, outer, -⟩ := takes
          refine ⟨word ++ taken, ?_, ?_, ?_, fun succeeded => absurd succeeded failed⟩
          · rw [List.append_assoc, ← split]
          · simp [marked, later]
          · simp [inner, outer]

/-- At every depth rules and expressions take words of their own, or fail. -/
theorem reads_level (limit room : Nat) : (level limit room).ReadsForms limit := by
  induction room with
  | zero => exact ⟨fun _ _ _ => .fail _, fun _ => .fail _⟩
  | succ room inner =>
    have rules : ∀ rule id, rule ≠ .compilationUnit →
        Reads limit rule.given (Parser.enclosed rule.name id (rule.body.run limit (level limit room))) (.rule rule) :=
      fun rule id outer => .mono (fun _ => .rule) (.enclosed (inner.body outer))
    exact ⟨rules, (reads_expression rules (reads_operand inner) limit (Nat.le_refl limit)).1⟩

end Verbatim.MiniJava
