/-!
# Tokens

The words of a Lox program.  A token has a kind, the stretch of source it was
read from and the line on which that stretch ends.  Only string and number
tokens carry a literal; all other kinds are plain symbols.
-/

namespace Lox

/-- The kinds of token without a literal: punctuators, operators, names,
reserved words and the end of the program. -/
inductive Symbol where
  | leftParen
  | rightParen
  | leftBrace
  | rightBrace
  | leftBracket
  | rightBracket
  | comma
  | dot
  | minus
  | plus
  | semicolon
  | slash
  | star
  | bang
  | bangEqual
  | equal
  | equalEqual
  | greater
  | greaterEqual
  | less
  | lessEqual
  | identifier
  | andWord
  | breakWord
  | classWord
  | elseWord
  | falseWord
  | funWord
  | forWord
  | ifWord
  | nilWord
  | orWord
  | printWord
  | returnWord
  | superWord
  | thisWord
  | trueWord
  | varWord
  | whileWord
  | endOfFile
  deriving DecidableEq, Repr, Inhabited

namespace Symbol

/-- The name of a symbol in a token listing. -/
def name : Symbol → String
  | leftParen => "LEFT_PAREN"
  | rightParen => "RIGHT_PAREN"
  | leftBrace => "LEFT_BRACE"
  | rightBrace => "RIGHT_BRACE"
  | leftBracket => "LEFT_BRACKET"
  | rightBracket => "RIGHT_BRACKET"
  | comma => "COMMA"
  | dot => "DOT"
  | minus => "MINUS"
  | plus => "PLUS"
  | semicolon => "SEMICOLON"
  | slash => "SLASH"
  | star => "STAR"
  | bang => "BANG"
  | bangEqual => "BANG_EQUAL"
  | equal => "EQUAL"
  | equalEqual => "EQUAL_EQUAL"
  | greater => "GREATER"
  | greaterEqual => "GREATER_EQUAL"
  | less => "LESS"
  | lessEqual => "LESS_EQUAL"
  | identifier => "IDENTIFIER"
  | andWord => "AND"
  | breakWord => "BREAK"
  | classWord => "CLASS"
  | elseWord => "ELSE"
  | falseWord => "FALSE"
  | funWord => "FUN"
  | forWord => "FOR"
  | ifWord => "IF"
  | nilWord => "NIL"
  | orWord => "OR"
  | printWord => "PRINT"
  | returnWord => "RETURN"
  | superWord => "SUPER"
  | thisWord => "THIS"
  | trueWord => "TRUE"
  | varWord => "VAR"
  | whileWord => "WHILE"
  | endOfFile => "EOF"

/-- The reserved words with their symbols. -/
def reserved : List (String × Symbol) :=
  [("and", andWord), ("break", breakWord), ("class", classWord), ("else", elseWord),
    ("false", falseWord), ("fun", funWord), ("for", forWord), ("if", ifWord),
    ("nil", nilWord), ("or", orWord), ("print", printWord), ("return", returnWord),
    ("super", superWord), ("this", thisWord), ("true", trueWord), ("var", varWord),
    ("while", whileWord)]

/-- A word is a reserved word exactly when the whole of it is one; any other
word is a name. -/
def ofWord (word : String) : Symbol :=
  (reserved.lookup word).getD identifier

end Symbol

/-- What a token is, with the value of a string or number literal. -/
inductive Kind where
  | symbol (symbol : Symbol)
  | text (value : String)
  | number (value : Float)
  deriving Repr, Inhabited

namespace Kind

def name : Kind → String
  | symbol s => s.name
  | text _ => "STRING"
  | number _ => "NUMBER"

/-- Two kinds agree when they are the same symbol, both strings or both
numbers; the literals are not compared. -/
def agrees : Kind → Kind → Bool
  | symbol s, symbol t => s == t
  | text _, text _ => true
  | number _, number _ => true
  | _, _ => false

end Kind

structure Token where
  kind : Kind
  lexeme : String
  line : Nat
  deriving Repr, Inhabited

namespace Token

/-- Whether the token is the given symbol; never true of a literal. -/
def is (token : Token) (symbol : Symbol) : Bool :=
  match token.kind with
  | .symbol s => s == symbol
  | _ => false

def isAny (token : Token) (symbols : List Symbol) : Bool :=
  symbols.any token.is

/-- Tokens are alike when their kinds agree and they have the same spelling on
the same line. -/
def alike (left right : Token) : Bool :=
  left.kind.agrees right.kind && left.lexeme == right.lexeme && left.line == right.line

/-- The token that ends a program whose last line is `line`. -/
def ending (line : Nat) : Token :=
  ⟨.symbol .endOfFile, "", line⟩

end Token

end Lox
