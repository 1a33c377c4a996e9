import ClassLang.Name

/-!
# Programs

A program is a list of class definitions followed by the statement that runs
outside of any class.  Expressions, and everything that contains them, carry a
note of type `κ` on each method call: `Plain` trees, as the grammar gives them,
carry none, and `Resolved` trees carry the static class of the receiver.
-/

namespace ClassLang

/-- The note of a tree whose calls are not resolved yet. -/
abbrev Plain := Unit

/-- The note of a tree whose calls know the static class of their receiver. -/
abbrev Resolved := ClassName

inductive Op where
  | plus | less | equals
deriving DecidableEq

def Op.text : Op → String
  | plus => "+"
  | less => "<"
  | equals => "=="

inductive Ty where
  | int | bool | void
  | object (name : ClassName)
deriving DecidableEq

def Ty.text : Ty → String
  | int => "int"
  | bool => "bool"
  | void => "void"
  | object name => name.text

/-- The declaration of a variable, a parameter or an instance variable. -/
structure VarDec where
  ty : Ty
  name : VarName
deriving DecidableEq

/-- The type followed by the name. -/
def VarDec.text (var : VarDec) : String :=
  var.ty.text ++ " " ++ var.name.text

inductive Exp (κ : Type) where
  | int (value : Int64)
  | bool (value : Bool)
  | var (name : VarName)
  | this
  | binary (op : Op) (lhs rhs : Exp κ)
  | call (receiver : Exp κ) (method : MethodName) (args : List (Exp κ)) (note : κ)
  | new (name : ClassName) (args : List (Exp κ))

inductive Stmt (κ : Type) where
  | exp (value : Exp κ)
  | declare (var : VarDec) (value : Exp κ)
  | assign (target : VarName) (value : Exp κ)
  | ifElse (guard : Exp κ) (thenArm elseArm : Stmt κ)
  | whileLoop (guard : Exp κ) (body : Stmt κ)
  | returnValue (value : Exp κ)
  | returnVoid
  | println (value : Exp κ)
  | block (body : List (Stmt κ))

structure MethodDef (κ : Type) where
  returnTy : Ty
  name : MethodName
  params : List VarDec
  body : Stmt κ

/-- A class definition.  Its constructor starts by calling the constructor of
the parent with `superArgs` and then runs `body`. -/
structure ClassDef (κ : Type) where
  name : ClassName
  parent : ClassName
  fields : List VarDec
  params : List VarDec
  superArgs : List (Exp κ)
  body : List (Stmt κ)
  methods : List (MethodDef κ)

structure Program (κ : Type) where
  classes : List (ClassDef κ)
  entry : Stmt κ

end ClassLang
