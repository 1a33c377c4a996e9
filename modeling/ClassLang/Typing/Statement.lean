import ClassLang.Typing.Expression

/-!
# Typing of statements

A declaration is in scope for the statements that follow it in the same
sequence, and for nothing else.
-/

namespace ClassLang

variable (hierarchy : Hierarchy Plain) (context : Context)

namespace Stmt

mutual

def check (scope : Scope) : Stmt Plain → Except TypeError (Stmt Resolved)
  | exp value => do
    let (value, _) ← value.check hierarchy context scope
    return exp value
  | declare var value => do
    var.ty.check hierarchy
    let value ← value.checkAgainst hierarchy context scope var.ty
    return declare var value
  | assign target value =>
    match scope.lookup? target with
    | none => .error (.undefinedVariable target)
    | some expected => do
      let value ← value.checkAgainst hierarchy context scope expected
      return assign target value
  | ifElse guard thenArm elseArm => do
    let guard ← guard.checkGuard hierarchy context scope
    let thenArm ← thenArm.check scope
    let elseArm ← elseArm.check scope
    return ifElse guard thenArm elseArm
  | whileLoop guard body => do
    let guard ← guard.checkGuard hierarchy context scope
    let body ← body.check scope
    return whileLoop guard body
  | returnValue value =>
    match context.returnTy with
    | none => .error .returnOutsideMethod
    | some expected => do
      let value ← value.checkAgainst hierarchy context scope expected
      return returnValue value
  | returnVoid =>
    match context.returnTy with
    | none => .error .returnOutsideMethod
    | some .void => .ok returnVoid
    | some expected => .error (.missingReturnValue expected)
  | println value => do
    let (value, _) ← value.check hierarchy context scope
    return println value
  | block body => do
    let body ← checkAll scope body
    return block body

/-- Checks statements that follow each other. -/
def checkAll (scope : Scope) : List (Stmt Plain) → Except TypeError (List (Stmt Resolved))
  | [] => .ok []
  | stmt :: rest => do
    let checked ← stmt.check scope
    let others ← checkAll (scope.after stmt) rest
    return checked :: others

end

end Stmt

end ClassLang
