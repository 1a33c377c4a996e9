import ClassLang.Grammar.Statement

/-!
# Programs

A program is a sequence of classes and a statement.  Reading a program, a
statement or an expression from a token list succeeds only if every token is
used.
-/

namespace ClassLang

/-- Why a token list does not derive what was asked for.  Every cause carries the
index of the token where reading stopped. -/
inductive ParseError where
  | unexpected (expected : Expected) (actual : Token) (position : Nat)
  | unexpectedEnd (expected : Expected) (position : Nat)
  | trailingTokens (actual : Token) (position : Nat)
deriving DecidableEq

namespace ParseError

def position : ParseError → Nat
  | unexpected _ _ position => position
  | unexpectedEnd _ position => position
  | trailingTokens _ position => position

def message : ParseError → String
  | unexpected expected actual position =>
    "expected " ++ expected.text ++ ", but got `" ++ actual.text ++ "` at token "
      ++ position.repr
  | unexpectedEnd expected _ =>
    "expected " ++ expected.text ++ ", but reached the end of input"
  | trailingTokens actual position =>
    "unexpected `" ++ actual.text ++ "` at token " ++ position.repr
      ++ " after a complete program"

/-- The error for a failure met while reading the given tokens. -/
def ofFailure (tokens : List Token) (failure : Failure) : ParseError :=
  let position := tokens.length - failure.rest.length
  match failure.rest with
  | [] => unexpectedEnd failure.expected position
  | actual :: _ => unexpected failure.expected actual position

end ParseError

namespace Production

/-- Reads all of the tokens. -/
def parseAll {α : Type} (production : Production α) (tokens : List Token) :
    Except ParseError α :=
  match production tokens with
  | .error failure => .error (.ofFailure tokens failure)
  | .ok (result, []) => .ok result
  | .ok (_, next :: rest) =>
    .error (.trailingTokens next (tokens.length - (next :: rest).length))

end Production

namespace Grammar

open Production

def methodDef : Production (MethodDef Plain) := do
  let returnTy ← ty
  let name ← identifier
  let params ← parenthesized varDec
  let body ← stmt
  return ⟨returnTy, ⟨name⟩, params, body⟩

/-- An instance variable. -/
def field : Production VarDec := do
  let var ← varDec
  symbol .semicolon
  return var

def classDef : Production (ClassDef Plain) := do
  keyword .classKw
  let name ← identifier
  keyword .extendsKw
  let parent ← identifier
  symbol .openBrace
  let fields ← manyWhile (· ≠ .keyword .constructorKw) field
  keyword .constructorKw
  let params ← parenthesized varDec
  symbol .openBrace
  keyword .superKw
  let superArgs ← parenthesized exp
  symbol .semicolon
  let body ← stmts
  symbol .closeBrace
  let methods ← manyWhile (· ≠ .symbol .closeBrace) methodDef
  symbol .closeBrace
  return ⟨⟨name⟩, ⟨parent⟩, fields, params, superArgs, body, methods⟩

/-- No statement starts with `class`, so the keyword commits to a class. -/
def program : Production (Program Plain) := do
  let classes ← manyWhile (· = .keyword .classKw) classDef
  let entry ← stmt
  return ⟨classes, entry⟩

end Grammar

/-- The expression that the tokens derive. -/
def Exp.parse (tokens : List Token) : Except ParseError (Exp Plain) :=
  Grammar.exp.parseAll tokens

/-- The statement that the tokens derive. -/
def Stmt.parse (tokens : List Token) : Except ParseError (Stmt Plain) :=
  Grammar.stmt.parseAll tokens

/-- The program that the tokens derive. -/
def Program.parse (tokens : List Token) : Except ParseError (Program Plain) :=
  Grammar.program.parseAll tokens

end ClassLang
