import Verbatim.Token

/-!
The token kinds of MiniJava: white space and comments, keywords, literals, separators, operators and
identifiers, a kind for characters that start no token, and one for the end of the source.
-/

namespace Verbatim.MiniJava

inductive Kind where
  | whitespace | lineComment | blockComment
  | abstractWord | booleanWord | breakWord | byteWord | charWord | classWord | continueWord | doWord | doubleWord
  | elseWord | extendsWord | finalWord | floatWord | forWord | ifWord | intWord | longWord | newWord | privateWord
  | protectedWord | publicWord | returnWord | shortWord | staticWord | thisWord | voidWord | whileWord
  | decimalLiteral | hexLiteral | floatLiteral | boolLiteral | charLiteral | stringLiteral | nullLiteral
  | leftParen | rightParen | leftBrace | rightBrace | leftBracket | rightBracket | semicolon | comma | dot
  | assign | greater | less | bang | tilde | question | colon | equal | lessEqual | greaterEqual | notEqual
  | andAnd | orOr | increment | decrement | add | subtract | multiply | divide | bitAnd | bitOr | caret | modulo
  | addAssign | subtractAssign | multiplyAssign | divideAssign
  | identifier | stray | eof
deriving DecidableEq

namespace Kind

def name : Kind → String
  | .whitespace => "WS"
  | .lineComment => "LINE_COMMENT"
  | .blockComment => "COMMENT"
  | .abstractWord => "ABSTRACT"
  | .booleanWord => "BOOLEAN"
  | .breakWord => "BREAK"
  | .byteWord => "BYTE"
  | .charWord => "CHAR"
  | .classWord => "CLASS"
  | .continueWord => "CONTINUE"
  | .doWord => "DO"
  | .doubleWord => "DOUBLE"
  | .elseWord => "ELSE"
  | .extendsWord => "EXTENDS"
  | .finalWord => "FINAL"
  | .floatWord => "FLOAT"
  | .forWord => "FOR"
  | .ifWord => "IF"
  | .intWord => "INT"
  | .longWord => "LONG"
  | .newWord => "NEW"
  | .privateWord => "PRIVATE"
  | .protectedWord => "PROTECTED"
  | .publicWord => "PUBLIC"
  | .returnWord => "RETURN"
  | .shortWord => "SHORT"
  | .staticWord => "STATIC"
  | .thisWord => "THIS"
  | .voidWord => "VOID"
  | .whileWord => "WHILE"
  | .decimalLiteral => "DECIMAL_LITERAL"
  | .hexLiteral => "HEX_LITERAL"
  | .floatLiteral => "FLOAT_LITERAL"
  | .boolLiteral => "BOOL_LITERAL"
  | .charLiteral => "CHAR_LITERAL"
  | .stringLiteral => "STRING_LITERAL"
  | .nullLiteral => "NULL_LITERAL"
  | .leftParen => "LPAREN"
  | .rightParen => "RPAREN"
  | .leftBrace => "LBRACE"
  | .rightBrace => "RBRACE"
  | .leftBracket => "LBRACK"
  | .rightBracket => "RBRACK"
  | .semicolon => "SEMI"
  | .comma => "COMMA"
  | .dot => "DOT"
  | .assign => "ASSIGN"
  | .greater => "GT"
  | .less => "LT"
  | .bang => "BANG"
  | .tilde => "TILDE"
  | .question => "QUESTION"
  | .colon => "COLON"
  | .equal => "EQUAL"
  | .lessEqual => "LE"
  | .greaterEqual => "GE"
  | .notEqual => "NOTEQUAL"
  | .andAnd => "AND"
  | .orOr => "OR"
  | .increment => "INC"
  | .decrement => "DEC"
  | .add => "ADD"
  | .subtract => "SUB"
  | .multiply => "MUL"
  | .divide => "DIV"
  | .bitAnd => "BITAND"
  | .bitOr => "BITOR"
  | .caret => "CARET"
  | .modulo => "MOD"
  | .addAssign => "ADD_ASSIGN"
  | .subtractAssign => "SUB_ASSIGN"
  | .multiplyAssign => "MUL_ASSIGN"
  | .divideAssign => "DIV_ASSIGN"
  | .identifier => "IDENTIFIER"
  | .stray => "ERROR_CHAR"
  | .eof => "EOF"

def channel : Kind → Channel
  | .whitespace | .lineComment | .blockComment => .hidden
  | _ => .visible

def isPrimitive : Kind → Bool
  | .booleanWord | .byteWord | .charWord | .shortWord | .intWord | .longWord | .floatWord | .doubleWord => true
  | _ => false

def isModifier : Kind → Bool
  | .publicWord | .protectedWord | .privateWord | .staticWord | .abstractWord | .finalWord => true
  | _ => false

def isLiteral : Kind → Bool
  | .decimalLiteral | .hexLiteral | .floatLiteral | .boolLiteral | .charLiteral | .stringLiteral
  | .nullLiteral => true
  | _ => false

/-- Operators that may stand in front of an operand. -/
def isUnary : Kind → Bool
  | .subtract | .add | .bang | .tilde | .increment | .decrement => true
  | _ => false

end Kind

end Verbatim.MiniJava
