import ClassLang.Typing.Error

/-!
# Scopes

A scope lists the variables that can be used at a point of the program, the
latest first, so that a later declaration hides an earlier one of the same name.
-/

namespace ClassLang

/-- The variables in scope, the latest declaration first. -/
abbrev Scope := List VarDec

/-- The type of the latest variable with the given name. -/
def Scope.lookup? (scope : Scope) (name : VarName) : Option Ty :=
  (scope.find? fun var => var.name = name).map VarDec.ty

/-- The variable that a statement declares for the statements after it. -/
def Stmt.declared? {κ : Type} : Stmt κ → Option VarDec
  | .declare var _ => some var
  | _ => none

/-- The scope of the statements after the given one. -/
def Scope.after {κ : Type} (scope : Scope) (stmt : Stmt κ) : Scope :=
  match stmt.declared? with
  | some var => var :: scope
  | none => scope

/-- What surrounds a piece of code.  The entry point has neither a class, so that
it has no `this`, nor a return type, so that it cannot return. -/
structure Context where
  receiver : Option ClassName
  returnTy : Option Ty

/-- The surroundings of the entry point. -/
def Context.entry : Context := ⟨none, none⟩

/-- Fails with the given error unless the condition holds. -/
def require (condition : Bool) (error : TypeError) : Except TypeError Unit :=
  if condition then .ok () else .error error

variable {κ : Type} (hierarchy : Hierarchy κ)

/-- A type that mentions a class needs that class to exist. -/
def Ty.check (ty : Ty) : Except TypeError Unit :=
  match ty with
  | .object name => require (hierarchy.contains name) (.undefinedClass name)
  | _ => .ok ()

/-- Adds variables to those that are already bound.  Their types must exist and
no name may be bound twice. -/
def Scope.bindAll (repeated : VarName → TypeError) (bound : Scope) :
    List VarDec → Except TypeError Scope
  | [] => .ok bound
  | var :: rest => do
    var.ty.check hierarchy
    require (bound.all fun other => other.name ≠ var.name) (repeated var.name)
    Scope.bindAll repeated (var :: bound) rest

/-- The instance variables of a class and its ancestors, the oldest declared
first.  Declaring one again is an error of the class at the end of the line. -/
def ClassDef.fieldScope (definition : ClassDef κ) : Except TypeError Scope :=
  Scope.bindAll hierarchy (.duplicateField definition.name) []
    ((hierarchy.lineage definition.name).flatMap ClassDef.fields)

/-- The parameters of a method or a constructor. -/
def Scope.ofParams (params : List VarDec) : Except TypeError Scope :=
  Scope.bindAll hierarchy .duplicateParam [] params

end ClassLang
