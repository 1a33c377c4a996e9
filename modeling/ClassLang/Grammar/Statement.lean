import ClassLang.Grammar.Expression

/-!
# Statements

A keyword or a brace decides which statement follows.  Without one, the
statement is a declaration, an expression or an assignment; all three may start
with an identifier, so they are tried one after the other.
-/

namespace ClassLang.Grammar

open Production

def ty : Production Ty := do
  match ← peek with
  | some (.keyword .intKw) => skip; return .int
  | some (.keyword .boolKw) => skip; return .bool
  | some (.keyword .voidKw) => skip; return .void
  | some (.ident name) => skip; return .object ⟨name⟩
  | _ => fail .type

def varDec : Production VarDec := do
  let ty ← ty
  let name ← identifier
  return ⟨ty, ⟨name⟩⟩

/-- An expression between parentheses, as conditions and `println` have it. -/
def guard : Production (Exp Plain) := do
  symbol .openParen
  let value ← exp
  symbol .closeParen
  return value

def declaration : Production (Stmt Plain) := do
  let var ← varDec
  symbol .assign
  let value ← exp
  symbol .semicolon
  return .declare var value

def expStmt : Production (Stmt Plain) := do
  let value ← exp
  symbol .semicolon
  return .exp value

def assignment : Production (Stmt Plain) := do
  let target ← identifier
  symbol .assign
  let value ← exp
  symbol .semicolon
  return .assign ⟨target⟩ value

/-- The statements up to the closing brace, which is not consumed. -/
def stmtsOf (stmt : Production (Stmt Plain)) : Production (List (Stmt Plain)) :=
  manyWhile (· ≠ .symbol .closeBrace) stmt

/-- One level of nesting: `stmt` reads the statements inside of a statement. -/
def stmtLevel (stmt : Production (Stmt Plain)) : Production (Stmt Plain) := do
  match ← peek with
  | some (.keyword .ifKw) =>
    skip
    let condition ← guard
    let thenArm ← stmt
    keyword .elseKw
    let elseArm ← stmt
    return .ifElse condition thenArm elseArm
  | some (.keyword .whileKw) =>
    skip
    let condition ← guard
    let body ← stmt
    return .whileLoop condition body
  | some (.keyword .returnKw) =>
    skip
    if (← peek) = some (.symbol .semicolon) then
      skip
      return .returnVoid
    else
      let value ← exp
      symbol .semicolon
      return .returnValue value
  | some (.keyword .printlnKw) =>
    skip
    let value ← guard
    symbol .semicolon
    return .println value
  | some (.symbol .openBrace) =>
    skip
    let body ← stmtsOf stmt
    symbol .closeBrace
    return .block body
  | _ => firstOf declaration [expStmt, assignment]

def stmt : Production (Stmt Plain) := fixed stmtLevel

def stmts : Production (List (Stmt Plain)) := stmtsOf stmt

end ClassLang.Grammar
