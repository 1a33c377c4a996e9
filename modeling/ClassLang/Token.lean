/-!
# Tokens

A token is a reserved word, a symbol, an identifier or an integer literal.
Reserved words and symbols have a fixed spelling; identifiers and literals carry
the text or the value they were written with.  Nothing here forbids an
identifier whose text is a reserved word: reading a source text never produces
one, and a token list built by hand may hold it.
-/

namespace ClassLang

/-- The reserved words. -/
inductive Keyword where
  | classKw | extendsKw | constructorKw | superKw | thisKw | newKw
  | intKw | boolKw | voidKw | trueKw | falseKw
  | ifKw | elseKw | whileKw | returnKw | printlnKw
deriving DecidableEq

namespace Keyword

def text : Keyword → String
  | classKw => "class"
  | extendsKw => "extends"
  | constructorKw => "constructor"
  | superKw => "super"
  | thisKw => "this"
  | newKw => "new"
  | intKw => "int"
  | boolKw => "bool"
  | voidKw => "void"
  | trueKw => "true"
  | falseKw => "false"
  | ifKw => "if"
  | elseKw => "else"
  | whileKw => "while"
  | returnKw => "return"
  | printlnKw => "println"

def all : List Keyword :=
  [classKw, extendsKw, constructorKw, superKw, thisKw, newKw, intKw, boolKw, voidKw,
    trueKw, falseKw, ifKw, elseKw, whileKw, returnKw, printlnKw]

/-- The reserved word with the given spelling. -/
def ofText? (text : String) : Option Keyword :=
  all.find? fun word => word.text = text

end Keyword

/-- The operators and the punctuation. -/
inductive Symbol where
  | plus | less | equals | assign | dot | comma | semicolon
  | openBrace | closeBrace | openParen | closeParen
deriving DecidableEq

namespace Symbol

def text : Symbol → String
  | plus => "+"
  | less => "<"
  | equals => "=="
  | assign => "="
  | dot => "."
  | comma => ","
  | semicolon => ";"
  | openBrace => "\x7b"
  | closeBrace => "\x7d"
  | openParen => "("
  | closeParen => ")"

def all : List Symbol :=
  [plus, less, equals, assign, dot, comma, semicolon, openBrace, closeBrace, openParen,
    closeParen]

/-- The symbol with the given spelling. -/
def ofText? (text : String) : Option Symbol :=
  all.find? fun mark => mark.text = text

end Symbol

/-- A lexical unit of the source language. -/
inductive Token where
  | keyword (word : Keyword)
  | symbol (mark : Symbol)
  | ident (name : String)
  | integer (value : Int64)
deriving DecidableEq

namespace Token

/-- The fixed spelling of a reserved word or a symbol. -/
def lexeme? : Token → Option String
  | keyword word => some word.text
  | symbol mark => some mark.text
  | ident _ | integer _ => none

/-- How a token is written. -/
def text : Token → String
  | keyword word => word.text
  | symbol mark => mark.text
  | ident name => name
  | integer value => value.toInt.repr

end Token

end ClassLang
