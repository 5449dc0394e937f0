import Verbatim.MiniJava.Kind

/-!
The rules of MiniJava. A rule's body is a small program of steps that looks at the kinds of the tokens
ahead, takes tokens and calls rules. Each place that calls a rule has an id of its own. Expressions are
parsed by precedence and are no rule here, though their nodes have a name.
-/

namespace Verbatim.MiniJava

inductive Rule where
  | compilationUnit | typeDeclaration | modifier | classDeclaration | classBody | classBodyDeclaration
  | constructorDeclaration | methodDeclaration | fieldDeclaration | formalParameters | formalParameter | type
  | variableDeclarator | block | blockStatement | localVariableDeclaration | statement | parExpression | forControl
  | expressionList | primary | literal | creator | arguments
deriving DecidableEq

def Rule.name : Rule → String
  | .compilationUnit => "compilationUnit"
  | .typeDeclaration => "typeDeclaration"
  | .modifier => "modifier"
  | .classDeclaration => "classDeclaration"
  | .classBody => "classBody"
  | .classBodyDeclaration => "classBodyDeclaration"
  | .constructorDeclaration => "constructorDeclaration"
  | .methodDeclaration => "methodDeclaration"
  | .fieldDeclaration => "fieldDeclaration"
  | .formalParameters => "formalParameters"
  | .formalParameter => "formalParameter"
  | .type => "type"
  | .variableDeclarator => "variableDeclarator"
  | .block => "block"
  | .blockStatement => "blockStatement"
  | .localVariableDeclaration => "localVariableDeclaration"
  | .statement => "statement"
  | .parExpression => "parExpression"
  | .forControl => "forControl"
  | .expressionList => "expressionList"
  | .primary => "primary"
  | .literal => "literal"
  | .creator => "creator"
  | .arguments => "arguments"

def expressionName : String := "expression"

/-- The kind of the token in front. Behind the last token it is as if the source ended again. -/
def current (ahead : List Kind) : Kind := ahead.headD .eof

/-- A question about the tokens ahead. -/
abbrev Look := List Kind → Bool

namespace Look

def on (kind : Kind) : Look := fun ahead => current ahead == kind

def among (test : Kind → Bool) : Look := fun ahead => test (current ahead)

def not (look : Look) : Look := fun ahead => !look ahead

def inside (closing : Kind) : Look := fun ahead => !(current ahead == closing) && !(current ahead == .eof)

def pair (first second : Kind) : Look := fun ahead => current ahead == first && current (ahead.drop 1) == second

end Look

/-- Leaves out further parts of a qualified name. -/
def skipParts : List Kind → List Kind
  | .dot :: .identifier :: rest => skipParts rest
  | ahead => ahead

def skipBrackets : List Kind → List Kind
  | .leftBracket :: .rightBracket :: rest => skipBrackets rest
  | ahead => ahead

/-- What follows the type in front, if one stands there. -/
def afterType? : List Kind → Option (List Kind)
  | [] => none
  | kind :: rest =>
    if kind == .identifier then some (skipBrackets (skipParts rest))
    else if kind.isPrimitive then some (skipBrackets rest)
    else none

namespace Look

def method : Look := fun ahead =>
  match afterType? ahead with
  | some rest => pair .identifier .leftParen rest
  | none => false

def localVariable : Look := fun ahead =>
  match afterType? (if current ahead == .finalWord then ahead.drop 1 else ahead) with
  | some rest => current rest == .identifier
  | none => false

end Look

/-- What the body of a rule does. -/
inductive Step where
  | done
  | bump
  | expect (kind : Kind)
  | call (rule : Rule) (id : RuleId)
  | expression
  | fail (wanted : String)
  | next (first second : Step)
  | choose (test : Look) (yes no : Step)
  | loop (test : Look) (body : Step)

namespace Step

def all : List Step → Step
  | [] => .done
  | [last] => last
  | first :: rest => .next first (all rest)

def perhaps (test : Look) (body : Step) : Step := .choose test body .done

/-- The first step whose test holds, else the last. -/
def select : List (Look × Step) → Step → Step
  | [], otherwise => otherwise
  | (test, step) :: rest, otherwise => .choose test step (select rest otherwise)

def commaMore (item : Step) : Step := .loop (.on .comma) (.next .bump item)

def qualifiedName : Step :=
  .next (.expect .identifier) (.loop (.pair .dot .identifier) (.next .bump .bump))

def typeName : Step := .choose (.among Kind.isPrimitive) .bump qualifiedName

end Step

open Step in
def Rule.body : Rule → Step
  | .compilationUnit => all [.loop (.not (.on .eof)) (.call .typeDeclaration 2), .bump]
  | .typeDeclaration =>
    .choose (.on .semicolon) .bump
      (.next (.loop (.among Kind.isModifier) (.call .modifier 3)) (.call .classDeclaration 4))
  | .modifier => .bump
  | .classDeclaration =>
    all [.expect .classWord, .expect .identifier, perhaps (.on .extendsWord) (.next .bump (.call .type 5)),
      .call .classBody 6]
  | .classBody =>
    all [.expect .leftBrace, .loop (.inside .rightBrace) (.call .classBodyDeclaration 7), .expect .rightBrace]
  | .classBodyDeclaration =>
    .choose (.on .semicolon) .bump (.next (.loop (.among Kind.isModifier) (.call .modifier 8))
      (select
        [(.on .classWord, .call .classDeclaration 9),
         (.pair .identifier .leftParen, .call .constructorDeclaration 10),
         (.on .voidWord, .call .methodDeclaration 11),
         (.method, .call .methodDeclaration 11),
         (.on .identifier, .call .fieldDeclaration 12),
         (.among Kind.isPrimitive, .call .fieldDeclaration 12)]
        (.fail "expected member declaration")))
  | .constructorDeclaration => all [.expect .identifier, .call .formalParameters 13, .call .block 14]
  | .methodDeclaration =>
    all [.choose (.on .voidWord) .bump (.call .type 15), .expect .identifier, .call .formalParameters 16,
      .choose (.on .semicolon) .bump (.call .block 17)]
  | .fieldDeclaration =>
    all [.call .type 18, .call .variableDeclarator 19, commaMore (.call .variableDeclarator 20), .expect .semicolon]
  | .formalParameters =>
    all [.expect .leftParen,
      perhaps (.not (.on .rightParen)) (.next (.call .formalParameter 21) (commaMore (.call .formalParameter 22))),
      .expect .rightParen]
  | .formalParameter =>
    all [perhaps (.on .finalWord) (.call .modifier 23), .call .type 24, .expect .identifier]
  | .type => .next typeName (.loop (.on .leftBracket) (.next .bump (.expect .rightBracket)))
  | .variableDeclarator => .next (.expect .identifier) (perhaps (.on .assign) (.next .bump .expression))
  | .block => all [.expect .leftBrace, .loop (.inside .rightBrace) (.call .blockStatement 26), .expect .rightBrace]
  | .blockStatement =>
    select
      [(.localVariable, .next (.call .localVariableDeclaration 27) (.expect .semicolon)),
       (.on .classWord, .call .classDeclaration 28)]
      (.call .statement 29)
  | .localVariableDeclaration =>
    all [perhaps (.on .finalWord) (.call .modifier 30), .call .type 31, .call .variableDeclarator 32,
      commaMore (.call .variableDeclarator 33)]
  | .statement =>
    select
      [(.on .leftBrace, .call .block 34),
       (.on .ifWord, all [.bump, .call .parExpression 35, .call .statement 36,
         perhaps (.on .elseWord) (.next .bump (.call .statement 37))]),
       (.on .whileWord, all [.bump, .call .parExpression 38, .call .statement 39]),
       (.on .doWord, all [.bump, .call .statement 40, .expect .whileWord, .call .parExpression 41,
         .expect .semicolon]),
       (.on .forWord, all [.bump, .expect .leftParen, .call .forControl 42, .expect .rightParen,
         .call .statement 43]),
       (.on .returnWord, all [.bump, perhaps (.not (.on .semicolon)) .expression, .expect .semicolon]),
       (.on .breakWord, .next .bump (.expect .semicolon)),
       (.on .continueWord, .next .bump (.expect .semicolon)),
       (.on .semicolon, .bump)]
      (.next .expression (.expect .semicolon))
  | .parExpression => all [.expect .leftParen, .expression, .expect .rightParen]
  | .forControl =>
    all [select
        [(.localVariable, .call .localVariableDeclaration 47), (.on .semicolon, .done)] (.call .expressionList 48),
      .expect .semicolon, perhaps (.not (.on .semicolon)) .expression, .expect .semicolon,
      perhaps (.not (.on .rightParen)) (.call .expressionList 50)]
  | .expressionList => .next .expression (commaMore .expression)
  | .primary =>
    select
      [(.on .leftParen, all [.bump, .expression, .expect .rightParen]),
       (.on .thisWord, .bump),
       (.on .identifier, .bump),
       (.on .newWord, .next .bump (.call .creator 86)),
       (.among Kind.isLiteral, .call .literal 85)]
      (.fail "expected expression")
  | .literal => .bump
  | .creator =>
    .next typeName (.choose (.on .leftBracket)
      (.loop (.on .leftBracket) (all [.bump, perhaps (.not (.on .rightBracket)) .expression, .expect .rightBracket]))
      (.call .arguments 87))
  | .arguments =>
    all [.expect .leftParen, perhaps (.not (.on .rightParen)) (.call .expressionList 88), .expect .rightParen]

/-- The binding powers of a binary operator to its left and right, and the rule of its node. -/
def binding? : Kind → Option (Nat × Nat × RuleId)
  | .assign | .addAssign | .subtractAssign | .multiplyAssign | .divideAssign => some (2, 1, 70)
  | .question => some (4, 3, 71)
  | .orOr => some (5, 6, 72)
  | .andAnd => some (7, 8, 73)
  | .bitOr => some (9, 10, 74)
  | .caret => some (11, 12, 75)
  | .bitAnd => some (13, 14, 76)
  | .equal | .notEqual => some (15, 16, 77)
  | .less | .greater | .lessEqual | .greaterEqual => some (17, 18, 78)
  | .add | .subtract => some (19, 20, 79)
  | .multiply | .divide | .modulo => some (21, 22, 80)
  | _ => none

/-- The binding power of the operators in front of an operand, which is above that of all binary ones. -/
def unaryPower : Nat := 23

end Verbatim.MiniJava
