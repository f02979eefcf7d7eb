set_option autoImplicit false

namespace ScopedNames.Dialect

inductive Terminal where
  | name
  | int
  | inlineWord
  | namespaceWord
  | usingWord
  | trueWord
  | falseWord
  | doubleColon
  | leftBrace
  | rightBrace
  | leftParen
  | rightParen
  | comma
  | semicolon
  | openSpecifier
  | closeSpecifier
  | endOfInput
  deriving DecidableEq, Repr

namespace Terminal

def label : Terminal → String
  | name => "NAME"
  | int => "INT"
  | inlineWord => "INLINE"
  | namespaceWord => "_NAMESPACE"
  | usingWord => "_USING"
  | trueWord => "TRUE"
  | falseWord => "FALSE"
  | doubleColon => "SEP"
  | leftBrace => "LBRACE"
  | rightBrace => "RBRACE"
  | leftParen => "LPAR"
  | rightParen => "RPAR"
  | comma => "COMMA"
  | semicolon => "SEMICOLON"
  | openSpecifier => "__ANON_0"
  | closeSpecifier => "__ANON_1"
  | endOfInput => "$END"

def keywords : List Terminal := [inlineWord, namespaceWord, usingWord, trueWord, falseWord]

def punctuation : List Terminal :=
  [doubleColon, leftBrace, rightBrace, leftParen, rightParen, comma, semicolon, openSpecifier,
    closeSpecifier]

def spelling : Terminal → String
  | inlineWord => "inline"
  | namespaceWord => "namespace"
  | usingWord => "using"
  | trueWord => "true"
  | falseWord => "false"
  | doubleColon => "::"
  | leftBrace => "\x7b"
  | rightBrace => "\x7d"
  | leftParen => "("
  | rightParen => ")"
  | comma => ","
  | semicolon => ";"
  | openSpecifier => "[["
  | closeSpecifier => "]]"
  | name | int | endOfInput => ""

def written : List Terminal := [name, int] ++ keywords ++ punctuation

end Terminal

end ScopedNames.Dialect
