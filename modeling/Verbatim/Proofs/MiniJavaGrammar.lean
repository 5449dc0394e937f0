import Verbatim.MiniJava.Rule

/-! The grammar of MiniJava on its own, as productions over kinds of tokens, and the words that it derives.
The grammar says nothing about how to choose between alternatives or how tightly operators bind, and it
does not know how deeply rules are nested. -/

namespace Verbatim.MiniJava

/-- The right side of a production. -/
inductive Form where
  | empty
  | among (test : Kind → Bool)
  | rule (rule : Rule)
  | expression
  | cat (first second : Form)
  | alt (left right : Form)
  | many (form : Form)

namespace Form

def token (kind : Kind) : Form := .among fun other => other == kind

def optional (form : Form) : Form := .alt form .empty

def all : List Form → Form
  | [] => .empty
  | [last] => last
  | first :: rest => .cat first (all rest)

def any : List Form → Form
  | [] => .among fun _ => false
  | [last] => last
  | first :: rest => .alt first (any rest)

def commaMore (form : Form) : Form := .many (.cat (.token .comma) form)

def qualifiedName : Form := .cat (.token .identifier) (.many (.cat (.token .dot) (.token .identifier)))

def typeName : Form := .alt (.among Kind.isPrimitive) qualifiedName

def bracket : Form := all [.token .leftBracket, optional .expression, .token .rightBracket]

end Form

/-- The operators that stand between two operands, assignments among them. -/
def Kind.isBinary : Kind → Bool
  | .assign | .addAssign | .subtractAssign | .multiplyAssign | .divideAssign | .orOr | .andAnd | .bitOr | .caret
  | .bitAnd | .equal | .notEqual | .less | .greater | .lessEqual | .greaterEqual | .add | .subtract | .multiply
  | .divide | .modulo => true
  | _ => false

def Kind.isStep : Kind → Bool
  | .increment | .decrement => true
  | _ => false

open Form in
def Rule.form : Rule → Form
  | .compilationUnit => all [many (rule .typeDeclaration), token .eof]
  | .typeDeclaration => any [token .semicolon, all [many (rule .modifier), rule .classDeclaration]]
  | .modifier => among Kind.isModifier
  | .classDeclaration =>
    all [token .classWord, token .identifier, optional (all [token .extendsWord, rule .type]), rule .classBody]
  | .classBody => all [token .leftBrace, many (rule .classBodyDeclaration), token .rightBrace]
  | .classBodyDeclaration =>
    any [token .semicolon, all [many (rule .modifier),
      any [rule .classDeclaration, rule .constructorDeclaration, rule .methodDeclaration, rule .fieldDeclaration]]]
  | .constructorDeclaration => all [token .identifier, rule .formalParameters, rule .block]
  | .methodDeclaration =>
    all [any [token .voidWord, rule .type], token .identifier, rule .formalParameters,
      any [token .semicolon, rule .block]]
  | .fieldDeclaration =>
    all [rule .type, rule .variableDeclarator, commaMore (rule .variableDeclarator), token .semicolon]
  | .formalParameters =>
    all [token .leftParen, optional (all [rule .formalParameter, commaMore (rule .formalParameter)]), token .rightParen]
  | .formalParameter => all [optional (token .finalWord), rule .type, token .identifier]
  | .type => all [typeName, many (all [token .leftBracket, token .rightBracket])]
  | .variableDeclarator => all [token .identifier, optional (all [token .assign, expression])]
  | .block => all [token .leftBrace, many (rule .blockStatement), token .rightBrace]
  | .blockStatement =>
    any [all [rule .localVariableDeclaration, token .semicolon], rule .classDeclaration, rule .statement]
  | .localVariableDeclaration =>
    all [optional (token .finalWord), rule .type, rule .variableDeclarator, commaMore (rule .variableDeclarator)]
  | .statement =>
    any [rule .block,
      all [token .ifWord, rule .parExpression, rule .statement, optional (all [token .elseWord, rule .statement])],
      all [token .whileWord, rule .parExpression, rule .statement],
      all [token .doWord, rule .statement, token .whileWord, rule .parExpression, token .semicolon],
      all [token .forWord, token .leftParen, rule .forControl, token .rightParen, rule .statement],
      all [token .returnWord, optional expression, token .semicolon],
      all [token .breakWord, token .semicolon],
      all [token .continueWord, token .semicolon],
      token .semicolon,
      all [expression, token .semicolon]]
  | .parExpression => all [token .leftParen, expression, token .rightParen]
  | .forControl =>
    all [optional (any [rule .localVariableDeclaration, rule .expressionList]), token .semicolon, optional expression,
      token .semicolon, optional (rule .expressionList)]
  | .expressionList => all [expression, commaMore expression]
  | .primary =>
    any [all [token .leftParen, expression, token .rightParen], token .thisWord, token .identifier,
      all [token .newWord, rule .creator], rule .literal]
  | .literal => among Kind.isLiteral
  | .creator => all [typeName, any [rule .arguments, all [bracket, many bracket]]]
  | .arguments => all [token .leftParen, optional (rule .expressionList), token .rightParen]

open Form in
/-- What makes a longer expression of one that stands before it. -/
def suffixForm : Form :=
  any [all [token .dot, token .identifier, optional (rule .arguments)],
    all [token .leftBracket, expression, token .rightBracket],
    rule .arguments,
    among Kind.isStep,
    all [among Kind.isBinary, expression],
    all [token .question, expression, token .colon, expression]]

open Form in
def expressionForm : Form :=
  any [rule .primary, all [among Kind.isUnary, expression], all [expression, suffixForm]]

/-- The words that a form derives. -/
inductive Derives : Form → List Kind → Prop
  | empty : Derives .empty []
  | among {test : Kind → Bool} {kind : Kind} (fits : test kind = true) : Derives (.among test) [kind]
  | rule {rule : Rule} {word : List Kind} (produced : Derives rule.form word) : Derives (.rule rule) word
  | expression {word : List Kind} (produced : Derives expressionForm word) : Derives .expression word
  | cat {first second : Form} {front back : List Kind} (start : Derives first front) (rest : Derives second back) :
    Derives (.cat first second) (front ++ back)
  | left {left right : Form} {word : List Kind} (chosen : Derives left word) : Derives (.alt left right) word
  | right {left right : Form} {word : List Kind} (chosen : Derives right word) : Derives (.alt left right) word
  | none {form : Form} : Derives (.many form) []
  | more {form : Form} {front back : List Kind} (start : Derives form front) (rest : Derives (.many form) back) :
    Derives (.many form) (front ++ back)

section

variable {first second : Form} {word : List Kind}

theorem Derives.token (kind : Kind) : Derives (.token kind) [kind] := .among (beq_self_eq_true kind)

theorem derives_token_iff {kind : Kind} : Derives (.token kind) word ↔ word = [kind] := by
  constructor
  · intro derives
    cases derives with
    | among same => rw [beq_iff_eq.mp same]
  · rintro rfl
    exact .token kind

theorem derives_among_iff {test : Kind → Bool} :
    Derives (.among test) word ↔ ∃ kind, test kind = true ∧ word = [kind] := by
  constructor
  · rintro ⟨⟩
    exact ⟨_, ‹_›, rfl⟩
  · rintro ⟨kind, fits, rfl⟩
    exact .among fits

theorem derives_empty_iff : Derives .empty word ↔ word = [] := by
  constructor
  · rintro ⟨⟩
    rfl
  · rintro rfl
    exact .empty

theorem derives_cat_iff : Derives (.cat first second) word ↔
    ∃ front, Derives first front ∧ ∃ back, Derives second back ∧ word = front ++ back := by
  constructor
  · rintro ⟨⟩
    exact ⟨_, ‹_›, _, ‹_›, rfl⟩
  · rintro ⟨front, start, back, rest, rfl⟩
    exact .cat start rest

theorem derives_alt_iff : Derives (.alt first second) word ↔ Derives first word ∨ Derives second word := by
  constructor
  · rintro ⟨⟩
    · exact .inl ‹_›
    · exact .inr ‹_›
  · rintro (chosen | chosen)
    · exact .left chosen
    · exact .right chosen

theorem derives_rule_iff {rule : Rule} : Derives (.rule rule) word ↔ Derives rule.form word := by
  constructor
  · rintro ⟨⟩
    assumption
  · exact .rule

theorem derives_expression_iff : Derives .expression word ↔ Derives expressionForm word := by
  constructor
  · rintro ⟨⟩
    assumption
  · exact .expression

theorem Derives.manyInduction {form : Form} {motive : (word : List Kind) → Derives (.many form) word → Prop}
    (none : motive [] .none)
    (more : ∀ front back (start : Derives form front) (rest : Derives (.many form) back),
      motive back rest → motive (front ++ back) (.more start rest))
    (derives : Derives (.many form) word) : motive word derives := by
  have step : ∀ {whole word} (derives : Derives whole word) (same : whole = .many form),
      motive word (same ▸ derives) := by
    intro whole word derives
    induction derives with
    | none =>
      rintro ⟨⟩
      exact none
    | more start rest _ ih =>
      rintro ⟨⟩
      exact more _ _ start rest (ih rfl)
    | _ => rintro ⟨⟩
  exact step derives rfl

theorem Derives.many_append {form : Form} {back : List Kind} (front : Derives (.many form) word)
    (more : Derives (.many form) back) : Derives (.many form) (word ++ back) := by
  induction front using Derives.manyInduction with
  | none => exact more
  | more first rest start _ ih =>
    rw [List.append_assoc]
    exact .more start ih

theorem Derives.once {form : Form} (derives : Derives form word) : Derives (.many form) word := by
  rw [← List.append_nil word]
  exact .more derives .none

end

def Kind.every : List Kind := (List.range 76).map Kind.ofNat

theorem Kind.mem_every (kind : Kind) : kind ∈ every := by
  have place : kind.ctorIdx < 76 := by cases kind <;> decide
  exact List.mem_map.mpr ⟨kind.ctorIdx, List.mem_range.mpr place, by rw [Kind.ofNat_ctorIdx]⟩

instance (holds : Kind → Prop) [DecidablePred holds] : Decidable (∀ kind, holds kind) :=
  decidable_of_iff (∀ kind ∈ Kind.every, holds kind)
    ⟨fun all kind => all kind (Kind.mem_every kind), fun all kind _ => all kind⟩

def Kind.startsType (kind : Kind) : Bool := kind == .identifier || kind.isPrimitive

def Kind.startsExpression (kind : Kind) : Bool :=
  kind.isUnary || kind.isLiteral || [.leftParen, .thisWord, .identifier, .newWord].contains kind

def Kind.startsStatement (kind : Kind) : Bool :=
  kind.startsExpression || [.leftBrace, .ifWord, .whileWord, .doWord, .forWord, .returnWord, .breakWord,
    .continueWord, .semicolon].contains kind

def Rule.starts : Rule → Kind → Bool
  | .compilationUnit, kind => kind.isModifier || [.eof, .semicolon, .classWord].contains kind
  | .typeDeclaration, kind => kind.isModifier || [.semicolon, .classWord].contains kind
  | .modifier, kind => kind.isModifier
  | .classDeclaration, kind => kind == .classWord
  | .classBody, kind | .block, kind => kind == .leftBrace
  | .classBodyDeclaration, kind =>
    kind.isModifier || kind.startsType || [.semicolon, .classWord, .voidWord].contains kind
  | .constructorDeclaration, kind | .variableDeclarator, kind => kind == .identifier
  | .methodDeclaration, kind => kind.startsType || kind == .voidWord
  | .fieldDeclaration, kind | .type, kind | .creator, kind => kind.startsType
  | .formalParameters, kind | .parExpression, kind | .arguments, kind => kind == .leftParen
  | .formalParameter, kind | .localVariableDeclaration, kind => kind.startsType || kind == .finalWord
  | .blockStatement, kind =>
    kind.startsStatement || kind.startsType || [.finalWord, .classWord].contains kind
  | .statement, kind => kind.startsStatement
  | .forControl, kind => kind.startsExpression || kind.startsType || [.finalWord, .semicolon].contains kind
  | .expressionList, kind => kind.startsExpression
  | .primary, kind => kind.isLiteral || [.leftParen, .thisWord, .identifier, .newWord].contains kind
  | .literal, kind => kind.isLiteral

namespace Form

/-- Whether the empty word is derived, if no rule and no expression derives it. -/
def nullable : Form → Bool
  | .empty | .many _ => true
  | .among _ | .rule _ | .expression => false
  | .cat first second => first.nullable && second.nullable
  | .alt left right => left.nullable || right.nullable

def starts : Form → Kind → Bool
  | .empty, _ => false
  | .among test, kind => test kind
  | .rule name, kind => name.starts kind
  | .expression, kind => kind.startsExpression
  | .cat first second, kind => first.starts kind || (first.nullable && second.starts kind)
  | .alt left right, kind => left.starts kind || right.starts kind
  | .many form, kind => form.starts kind

/-- The kinds that may stand in front where a word is followed by certain kinds. -/
def leads (form : Form) (follow : Kind → Bool) (kind : Kind) : Bool :=
  form.starts kind || (form.nullable && follow kind)

end Form

private theorem starts_form (rule : Rule) :
    rule.form.nullable = false ∧ ∀ kind, rule.form.starts kind = true → rule.starts kind = true := by
  cases rule <;> exact ⟨rfl, by decide⟩

private theorem starts_expressionForm :
    expressionForm.nullable = false ∧
      ∀ kind, expressionForm.starts kind = true → kind.startsExpression = true :=
  ⟨rfl, by decide⟩

variable {form : Form} {word : List Kind}

/-- Only words of nullable forms are empty, and the other ones start as the form says. -/
theorem Derives.starts (derives : Derives form word) :
    (word = [] ∧ form.nullable = true) ∨ ∃ kind rest, word = kind :: rest ∧ form.starts kind = true := by
  induction derives with
  | empty => exact .inl ⟨rfl, rfl⟩
  | among fits => exact .inr ⟨_, [], rfl, fits⟩
  | @rule rule word _ ih =>
    obtain ⟨solid, starts⟩ := starts_form rule
    rcases ih with ⟨-, nullable⟩ | ⟨kind, rest, rfl, start⟩
    · exact absurd nullable (by simp [solid])
    · exact .inr ⟨kind, rest, rfl, starts kind start⟩
  | expression _ ih =>
    obtain ⟨solid, starts⟩ := starts_expressionForm
    rcases ih with ⟨-, nullable⟩ | ⟨kind, rest, rfl, start⟩
    · exact absurd nullable (by simp [solid])
    · exact .inr ⟨kind, rest, rfl, starts kind start⟩
  | cat _ _ front back =>
    rcases front with ⟨rfl, nullable⟩ | ⟨kind, rest, rfl, start⟩
    · rcases back with ⟨rfl, also⟩ | ⟨kind, rest, rfl, start⟩
      · exact .inl ⟨rfl, by simp [Form.nullable, nullable, also]⟩
      · exact .inr ⟨kind, rest, rfl, by simp [Form.starts, nullable, start]⟩
    · exact .inr ⟨kind, rest ++ _, rfl, by simp [Form.starts, start]⟩
  | left _ ih | right _ ih =>
    rcases ih with ⟨rfl, nullable⟩ | ⟨kind, rest, rfl, start⟩
    · exact .inl ⟨rfl, by simp [Form.nullable, nullable]⟩
    · exact .inr ⟨kind, rest, rfl, by simp [Form.starts, start]⟩
  | none => exact .inl ⟨rfl, rfl⟩
  | more _ _ front back =>
    rcases front with ⟨rfl, -⟩ | ⟨kind, rest, rfl, start⟩
    · exact back
    · exact .inr ⟨kind, rest ++ _, rfl, start⟩

theorem Derives.ne_nil (derives : Derives form word) (solid : form.nullable = false) : word ≠ [] := by
  rcases derives.starts with ⟨-, nullable⟩ | ⟨kind, rest, rfl, -⟩
  · exact absurd nullable (by simp [solid])
  · simp

theorem Derives.front (derives : Derives form word) (solid : form.nullable = false) (rest : List Kind) :
    form.starts (current (word ++ rest)) = true := by
  rcases derives.starts with ⟨-, nullable⟩ | ⟨kind, more, rfl, start⟩
  · exact absurd nullable (by simp [solid])
  · exact start

/-- What stands in front of a word that is followed by certain kinds. -/
theorem Derives.leads (derives : Derives form word) {follow : Kind → Bool} {rest : List Kind}
    (followed : follow (current rest) = true) : form.leads follow (current (word ++ rest)) = true := by
  rcases derives.starts with ⟨rfl, nullable⟩ | ⟨kind, more, rfl, start⟩
  · simp [Form.leads, nullable, followed]
  · simp [Form.leads, current, start]

end Verbatim.MiniJava
