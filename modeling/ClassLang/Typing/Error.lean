import ClassLang.Hierarchy

/-!
# Type errors

The ways in which a program can violate the typing rules.  Each error carries
what its message has to name.
-/

namespace ClassLang

/-- Something that takes a list of arguments. -/
inductive Callee where
  | method (receiver : ClassName) (name : MethodName)
  | constructor (name : ClassName)
deriving DecidableEq

def Callee.text : Callee → String
  | method receiver name => "method " ++ receiver.text ++ "." ++ name.text
  | constructor name => "constructor of " ++ name.text

inductive TypeError where
  | hierarchy (error : HierarchyError)
  | undefinedClass (name : ClassName)
  | undefinedVariable (name : VarName)
  | undefinedMethod (receiver : ClassName) (method : MethodName)
  | notAnObject (method : MethodName) (ty : Ty)
  | arityMismatch (callee : Callee) (expected actual : Nat)
  | argumentMismatch (callee : Callee) (position : Nat) (expected actual : Ty)
  | mismatch (expected actual : Ty)
  | operandMismatch (op : Op) (lhs rhs : Ty)
  | nonBoolGuard (ty : Ty)
  | thisOutsideClass
  | returnOutsideMethod
  | missingReturnValue (expected : Ty)
  | duplicateField (owner : ClassName) (name : VarName)
  | duplicateParam (name : VarName)
  | duplicateMethod (owner : ClassName) (method : MethodName)
deriving DecidableEq

def TypeError.message : TypeError → String
  | hierarchy error => error.message
  | undefinedClass name => "undefined class " ++ name.text
  | undefinedVariable name => "undefined variable " ++ name.text
  | undefinedMethod receiver method =>
    "class " ++ receiver.text ++ " has no method " ++ method.text
  | notAnObject method ty =>
    "cannot call method " ++ method.text ++ " on a value of type " ++ ty.text
  | arityMismatch callee expected actual =>
    callee.text ++ " expects " ++ expected.repr ++ " argument(s), but got " ++ actual.repr
  | argumentMismatch callee position expected actual =>
    "argument " ++ position.repr ++ " of " ++ callee.text ++ " must be " ++ expected.text
      ++ ", but got " ++ actual.text
  | mismatch expected actual =>
    "expected type " ++ expected.text ++ ", but got " ++ actual.text
  | operandMismatch op lhs rhs =>
    "operator " ++ op.text ++ " requires int operands, but got " ++ lhs.text ++ " and "
      ++ rhs.text
  | nonBoolGuard ty => "condition must be bool, but got " ++ ty.text
  | thisOutsideClass => "`this` used outside of a class"
  | returnOutsideMethod => "`return` used outside of a method or constructor"
  | missingReturnValue expected => "`return;` in a context returning " ++ expected.text
  | duplicateField owner name =>
    "instance variable " ++ name.text ++ " is declared more than once in class "
      ++ owner.text
  | duplicateParam name => "parameter " ++ name.text ++ " is declared more than once"
  | duplicateMethod owner method =>
    "class " ++ owner.text ++ " defines method " ++ method.text ++ " more than once"

end ClassLang
