import ClassLang.Grammar.Production
import ClassLang.Program

/-!
# Expressions

From the tightest to the loosest, an expression is a primary, a chain of method
calls, a sum, a comparison or an equation.  The binary operators associate to
the left, and parentheses leave no trace in the tree.
-/

namespace ClassLang.Grammar

open Production

/-- Operands separated by one operator, grouped to the left. -/
def leftAssociative (mark : Symbol) (op : Op) (operand : Production (Exp Plain)) :
    Production (Exp Plain) := do
  let first ← operand
  whileNext (· = .symbol mark) (fun lhs => do
    symbol mark
    let rhs ← operand
    return .binary op lhs rhs) first

/-- A receiver followed by any number of method calls. -/
def callChain (argument receiver : Production (Exp Plain)) : Production (Exp Plain) := do
  let first ← receiver
  whileNext (· = .symbol .dot) (fun receiver => do
    symbol .dot
    let method ← identifier
    let args ← parenthesized argument
    return .call receiver ⟨method⟩ args ()) first

/-- The expressions that need no parentheses anywhere.  `exp` reads the
expressions inside of them. -/
def primary (exp : Production (Exp Plain)) : Production (Exp Plain) := do
  match ← peek with
  | some (.integer value) => skip; return .int value
  | some (.keyword .trueKw) => skip; return .bool true
  | some (.keyword .falseKw) => skip; return .bool false
  | some (.ident name) => skip; return .var ⟨name⟩
  | some (.keyword .thisKw) => skip; return .this
  | some (.symbol .openParen) =>
    skip
    let inner ← exp
    symbol .closeParen
    return inner
  | some (.keyword .newKw) =>
    skip
    let name ← identifier
    let args ← parenthesized exp
    return .new ⟨name⟩ args
  | _ => fail .expression

/-- One level of nesting: `exp` reads the expressions inside of parentheses. -/
def expLevel (exp : Production (Exp Plain)) : Production (Exp Plain) :=
  leftAssociative .equals .equals <|
    leftAssociative .less .less <|
      leftAssociative .plus .plus <|
        callChain exp (primary exp)

def exp : Production (Exp Plain) := fixed expLevel

end ClassLang.Grammar
