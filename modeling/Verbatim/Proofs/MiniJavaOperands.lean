import Verbatim.Proofs.MiniJavaGrammar

/-! Expressions as operands with operators between them. The grammar derives an expression in many ways, and
none of them says which operator binds more tightly. Each of them gives the same row of operands, which
is what a parser by precedence reads from left to right. -/

namespace Verbatim.MiniJava

/-- The kinds of tokens with which an expression goes on. -/
def Kind.continues (kind : Kind) : Bool :=
  kind.isBinary || kind.isStep || [.dot, .leftBracket, .leftParen, .question].contains kind

def Kind.isOperator (kind : Kind) : Bool := kind.isBinary || kind == .question

open Form in
/-- The suffixes that belong to the operand before them, whatever operators there are. -/
def trailerForm : Form :=
  any [all [token .dot, token .identifier, optional (rule .arguments)],
    all [token .leftBracket, expression, token .rightBracket],
    rule .arguments,
    among Kind.isStep]

/-- The words without operators between two operands. -/
inductive Operand : List Kind → Prop
  | bare {word more : List Kind} (primary : Derives (.rule .primary) word) (trailers : Derives (.many trailerForm) more) :
    Operand (word ++ more)
  | signed {operator : Kind} {word : List Kind} (unary : operator.isUnary = true) (operand : Operand word) :
    Operand (operator :: word)

inductive Segment where
  | binary (operator : Kind) (operand : List Kind)
  | conditional (middle operand : List Kind)

namespace Segment

def operator : Segment → Kind
  | .binary operator _ => operator
  | .conditional _ _ => .question

def word : Segment → List Kind
  | .binary operator operand => operator :: operand
  | .conditional middle operand => .question :: (middle ++ .colon :: operand)

inductive Derived : Segment → Prop
  | binary {operator : Kind} {operand : List Kind} (known : operator.isBinary = true) (derived : Operand operand) :
    Derived (.binary operator operand)
  | conditional {middle operand : List Kind} (between : Derives .expression middle) (derived : Operand operand) :
    Derived (.conditional middle operand)

theorem current_word (segment : Segment) (ahead : List Kind) : current (segment.word ++ ahead) = segment.operator := by
  cases segment <;> rfl

theorem length_word_pos (segment : Segment) : 0 < segment.word.length := by
  cases segment <;> exact Nat.succ_pos _

theorem Derived.isOperator {segment : Segment} (derived : segment.Derived) : segment.operator.isOperator = true := by
  cases derived with
  | binary known => simp [operator, Kind.isOperator, known]
  | conditional => rfl

def words (segments : List Segment) : List Kind := segments.flatMap word

@[simp] theorem words_nil : words [] = [] := rfl

@[simp] theorem words_cons (segment : Segment) (segments : List Segment) :
    words (segment :: segments) = segment.word ++ words segments := List.flatMap_cons

@[simp] theorem words_append (front back : List Segment) : words (front ++ back) = words front ++ words back :=
  List.flatMap_append

/-- What stands in front of a row of segments. -/
theorem current_words (holds : Kind → Prop) {segments : List Segment} {rest : List Kind}
    (derived : ∀ segment ∈ segments, segment.Derived) (operators : ∀ kind, kind.isOperator = true → holds kind)
    (behind : holds (current rest)) : holds (current (words segments ++ rest)) := by
  cases segments with
  | nil => exact behind
  | cons segment segments =>
    rw [words_cons, List.append_assoc, current_word]
    exact operators _ (derived segment List.mem_cons_self).isOperator

end Segment

def Chain (word : List Kind) : Prop :=
  ∃ operand segments, Operand operand ∧ (∀ segment ∈ segments, segment.Derived) ∧
    word = operand ++ Segment.words segments

theorem Operand.trail {word more : List Kind} (operand : Operand word) (trailer : Derives trailerForm more) :
    Operand (word ++ more) := by
  induction operand with
  | bare primary trailers =>
    rw [List.append_assoc]
    exact .bare primary (trailers.many_append trailer.once)
  | signed unary _ ih => exact .signed unary ih

namespace Chain

variable {word more : List Kind} {operator : Kind}

private theorem ofOperand (operand : Operand word) : Chain word := ⟨word, [], operand, by simp, by simp⟩

theorem signed (unary : operator.isUnary = true) (chain : Chain word) : Chain (operator :: word) := by
  obtain ⟨operand, segments, first, derived, rfl⟩ := chain
  exact ⟨operator :: operand, segments, .signed unary first, derived, rfl⟩

theorem trail (chain : Chain word) (trailer : Derives trailerForm more) : Chain (word ++ more) := by
  obtain ⟨operand, segments, first, derived, rfl⟩ := chain
  rcases List.eq_nil_or_concat segments with rfl | ⟨front, last, rfl⟩
  · exact ⟨operand ++ more, [], first.trail trailer, by simp, by simp⟩
  · rw [List.concat_eq_append] at *
    have final : ∃ longer : Segment, longer.Derived ∧ longer.word = last.word ++ more := by
      cases derived last (by simp) with
      | binary known inner => exact ⟨.binary _ _, .binary known (inner.trail trailer), rfl⟩
      | conditional between inner =>
        exact ⟨.conditional _ _, .conditional between (inner.trail trailer), by simp [Segment.word]⟩
    obtain ⟨longer, whole, same⟩ := final
    refine ⟨operand, front ++ [longer], first, ?_, by simp [same]⟩
    intro segment member
    rcases List.mem_append.mp member with early | late
    · exact derived segment (List.mem_append_left _ early)
    · rw [List.mem_singleton.mp late]
      exact whole

theorem join (chain : Chain word) (middle : List Kind) (behind : Chain more)
    (link : ∀ operand, Operand operand → ∃ segment : Segment, segment.Derived ∧ segment.word = middle ++ operand) :
    Chain (word ++ (middle ++ more)) := by
  obtain ⟨operand, segments, first, derived, rfl⟩ := chain
  obtain ⟨second, later, next, also, rfl⟩ := behind
  obtain ⟨segment, whole, same⟩ := link second next
  refine ⟨operand, segments ++ segment :: later, first, ?_, by simp [same]⟩
  intro other member
  rcases List.mem_append.mp member with early | late
  · exact derived other early
  · rcases List.mem_cons.mp late with rfl | late
    · exact whole
    · exact also other late

end Chain

section

variable {word : List Kind}

private theorem suffix_cases (derives : Derives suffixForm word) :
    Derives trailerForm word ∨
      (∃ operator more, operator.isBinary = true ∧ Derives .expression more ∧ word = operator :: more) ∨
      ∃ middle more, Derives .expression middle ∧ Derives .expression more ∧
        word = .question :: (middle ++ .colon :: more) := by
  simp only [suffixForm, trailerForm, Form.any, Form.all, derives_alt_iff] at derives ⊢
  rcases derives with dotted | index | arguments | step | binary | conditional
  · exact .inl (.inl dotted)
  · exact .inl (.inr (.inl index))
  · exact .inl (.inr (.inr (.inl arguments)))
  · exact .inl (.inr (.inr (.inr step)))
  · obtain ⟨_, first, more, second, rfl⟩ := derives_cat_iff.mp binary
    obtain ⟨operator, known, rfl⟩ := derives_among_iff.mp first
    exact .inr (.inl ⟨operator, more, known, second, rfl⟩)
  · simp only [derives_cat_iff, derives_token_iff] at conditional
    obtain ⟨_, rfl, _, ⟨middle, between, _, ⟨_, rfl, more, last, rfl⟩, rfl⟩, rfl⟩ := conditional
    exact .inr (.inr ⟨middle, more, between, last, rfl⟩)

theorem trailer_cases (derives : Derives trailerForm word) :
    (∃ more, (more = [] ∨ Derives (.rule .arguments) more) ∧ word = .dot :: .identifier :: more) ∨
      (∃ index, Derives .expression index ∧ word = .leftBracket :: (index ++ [.rightBracket])) ∨
      Derives (.rule .arguments) word ∨ ∃ kind, kind.isStep = true ∧ word = [kind] := by
  simp only [trailerForm, Form.any, Form.all, Form.optional, derives_alt_iff, derives_cat_iff, derives_token_iff,
    derives_among_iff, derives_empty_iff] at derives
  rcases derives with ⟨_, rfl, _, ⟨_, rfl, more, arguments, rfl⟩, rfl⟩ | ⟨_, rfl, _, ⟨index, inner, _, rfl, rfl⟩, rfl⟩ |
    arguments | step
  · exact .inl ⟨more, arguments.symm, rfl⟩
  · exact .inr (.inl ⟨index, inner, rfl⟩)
  · exact .inr (.inr (.inl arguments))
  · exact .inr (.inr (.inr step))

private theorem expression_cases (derives : Derives .expression word) :
    Derives (.rule .primary) word ∨
      (∃ operator more, operator.isUnary = true ∧ Derives .expression more ∧ word = operator :: more) ∨
      ∃ front back, Derives .expression front ∧ Derives suffixForm back ∧ word = front ++ back := by
  simp only [derives_expression_iff, expressionForm, Form.any, Form.all, derives_alt_iff] at derives
  rcases derives with primary | signed | suffixed
  · exact .inl primary
  · obtain ⟨_, first, more, second, rfl⟩ := derives_cat_iff.mp signed
    obtain ⟨operator, known, rfl⟩ := derives_among_iff.mp first
    exact .inr (.inl ⟨operator, more, known, second, rfl⟩)
  · obtain ⟨front, first, back, second, rfl⟩ := derives_cat_iff.mp suffixed
    exact .inr (.inr ⟨front, back, first, second, rfl⟩)

/-- Every expression is a row of operands. -/
theorem Derives.chain (derives : Derives .expression word) : Chain word := by
  induction length : word.length using Nat.strongRecOn generalizing word with
  | ind size ih =>
    subst length
    rcases expression_cases derives with primary | ⟨operator, more, unary, inner, rfl⟩ | ⟨front, back, first, suffix, rfl⟩
    · rw [← List.append_nil word]
      exact .ofOperand (.bare primary .none)
    · exact .signed unary (ih more.length (by simp) inner rfl)
    have solid := List.length_pos_iff.mpr (first.ne_nil rfl)
    have taken := List.length_pos_iff.mpr (suffix.ne_nil rfl)
    have chain := ih front.length (by simp; omega) first rfl
    rcases suffix_cases suffix with trailer | ⟨operator, more, known, last, rfl⟩ | ⟨middle, more, between, last, rfl⟩
    · exact chain.trail trailer
    · refine chain.join [operator] (ih more.length (by simp; omega) last rfl) fun operand derived => ?_
      exact ⟨.binary operator operand, .binary known derived, rfl⟩
    · have whole : .question :: (middle ++ .colon :: more) = .question :: (middle ++ [.colon]) ++ more := by simp
      rw [whole]
      refine chain.join _ (ih more.length (by simp; omega) last rfl) fun operand derived => ?_
      exact ⟨.conditional middle operand, .conditional between derived, by simp [Segment.word]⟩

end

end Verbatim.MiniJava
