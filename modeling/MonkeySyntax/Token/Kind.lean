/-! # Token kinds

The kinds of token, the names they are shown by, and the reserved words. `TokenKind.ofWord` gives
the kind of a word: its own if it is reserved, an identifier if not.
-/

namespace MonkeySyntax

inductive TokenKind where
  | eof
  | illegal
  | identifier
  | integer
  | assign
  | plus
  | minus
  | bang
  | asterisk
  | slash
  | less
  | greater
  | equal
  | notEqual
  | comma
  | semicolon
  | openParen
  | closeParen
  | openBrace
  | closeBrace
  | letWord
  | functionWord
  | trueWord
  | falseWord
  | ifWord
  | elseWord
  | returnWord
  deriving DecidableEq, Repr

namespace TokenKind

def all : List TokenKind :=
  [eof, illegal, identifier, integer, assign, plus, minus, bang, asterisk, slash, less, greater,
   equal, notEqual, comma, semicolon, openParen, closeParen, openBrace, closeBrace, letWord,
   functionWord, trueWord, falseWord, ifWord, elseWord, returnWord]

theorem mem_all (k : TokenKind) : k ∈ all := by cases k <;> decide

def name : TokenKind → String
  | eof => "EOF"
  | illegal => "ILLEGAL"
  | identifier => "IDENT"
  | integer => "INT"
  | assign => "ASSIGN"
  | plus => "PLUS"
  | minus => "MINUS"
  | bang => "BANG"
  | asterisk => "ASTERISK"
  | slash => "SLASH"
  | less => "LT"
  | greater => "GT"
  | equal => "EQ"
  | notEqual => "NOT_EQ"
  | comma => "COMMA"
  | semicolon => "SEMICOLON"
  | openParen => "LPAREN"
  | closeParen => "RPAREN"
  | openBrace => "LBRACE"
  | closeBrace => "RBRACE"
  | letWord => "LET"
  | functionWord => "FUNCTION"
  | trueWord => "TRUE"
  | falseWord => "FALSE"
  | ifWord => "IF"
  | elseWord => "ELSE"
  | returnWord => "RETURN"

def ofName? (name : String) : Option TokenKind := all.find? (·.name = name)

theorem ofName?_name (k : TokenKind) : ofName? k.name = some k := by cases k <;> decide

def reserved : List (String × TokenKind) :=
  [("let", letWord), ("fn", functionWord), ("true", trueWord), ("false", falseWord),
   ("if", ifWord), ("else", elseWord), ("return", returnWord)]

def ofWord (word : String) : TokenKind := (reserved.lookup word).getD identifier

end TokenKind

end MonkeySyntax
