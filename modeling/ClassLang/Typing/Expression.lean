import ClassLang.Typing.Scope

/-!
# Typing of expressions

Checking an expression computes its type and notes the static class of the
receiver on every method call.  It stops at the first violation, subexpressions
before the expressions that contain them.
-/

namespace ClassLang

/-- The type of an operation on integers. -/
def Op.resultTy : Op → Ty
  | plus => .int
  | less | equals => .bool

/-- A callee takes as many arguments as it has parameters. -/
def Callee.checkArity (callee : Callee) (params : List VarDec) (args : List (Exp Plain)) :
    Except TypeError Unit :=
  require (args.length = params.length) (.arityMismatch callee params.length args.length)

variable (hierarchy : Hierarchy Plain) (context : Context) (scope : Scope)

namespace Exp

mutual

/-- The checked expression and its type. -/
def check : Exp Plain → Except TypeError (Exp Resolved × Ty)
  | int value => .ok (int value, .int)
  | bool value => .ok (bool value, .bool)
  | var name =>
    match scope.lookup? name with
    | some ty => .ok (var name, ty)
    | none => .error (.undefinedVariable name)
  | this =>
    match context.receiver with
    | some name => .ok (this, .object name)
    | none => .error .thisOutsideClass
  | binary op lhs rhs => do
    let (lhs, lhsTy) ← lhs.check
    let (rhs, rhsTy) ← rhs.check
    require (lhsTy = .int && rhsTy = .int) (.operandMismatch op lhsTy rhsTy)
    return (binary op lhs rhs, op.resultTy)
  | call receiver method args _ => do
    match ← receiver.check with
    | (receiver, .object name) =>
      match hierarchy.method? name method with
      | none => .error (.undefinedMethod name method)
      | some found =>
        let params := found.definition.params
        Callee.checkArity (.method name method) params args
        let args ← checkArgs (.method name method) 1 params args
        return (call receiver method args name, found.definition.returnTy)
    | (_, ty) => .error (.notAnObject method ty)
  | new name args => do
    require (hierarchy.contains name) (.undefinedClass name)
    let params := hierarchy.constructorParams name
    Callee.checkArity (.constructor name) params args
    let args ← checkArgs (.constructor name) 1 params args
    return (new name args, .object name)

/-- Checks arguments against the parameters they are bound to, in order.  The
first of them has the given position. -/
def checkArgs (callee : Callee) (position : Nat) :
    List VarDec → List (Exp Plain) → Except TypeError (List (Exp Resolved))
  | param :: params, arg :: args => do
    let (arg, actual) ← arg.check
    require (hierarchy.isSubtype actual param.ty)
      (.argumentMismatch callee position param.ty actual)
    let args ← checkArgs callee (position + 1) params args
    return arg :: args
  | _, _ => .ok []

end

/-- Checks all arguments of a callee. -/
def checkCall (callee : Callee) (params : List VarDec) (args : List (Exp Plain)) :
    Except TypeError (List (Exp Resolved)) := do
  callee.checkArity params args
  checkArgs hierarchy context scope callee 1 params args

/-- Checks an expression whose value is used as an `expected`. -/
def checkAgainst (expected : Ty) (value : Exp Plain) : Except TypeError (Exp Resolved) := do
  let (value, actual) ← value.check hierarchy context scope
  require (hierarchy.isSubtype actual expected) (.mismatch expected actual)
  return value

/-- Checks a condition. -/
def checkGuard (value : Exp Plain) : Except TypeError (Exp Resolved) := do
  let (value, actual) ← value.check hierarchy context scope
  require (actual = .bool) (.nonBoolGuard actual)
  return value

end Exp

end ClassLang
