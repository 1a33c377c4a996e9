import ClassLang.Typing.Scope

/-!
# The typing rules

The rules say when a program is well typed, without saying how to find out.  They
are the same for plain and for resolved trees; they differ only in what the note
on a call has to record, so that a well-typed resolved tree is one whose notes
are right.

What the rules ask about a class or a variable is read off the definitions and the
declarations one step at a time.  No look-up of the checker takes part in it.
-/

namespace ClassLang

/-- What a note on a call may say of the class of the receiver: a plain note says
nothing, a resolved one names it. -/
class Note (κ : Type) where
  Records : κ → ClassName → Prop

instance : Note Plain where
  Records _ _ := True

instance : Note Resolved where
  Records note name := note = name

/-! ## Classes -/

namespace ClassDef

variable {κ : Type} (classes : List (ClassDef κ))

inductive Known : ClassName → Prop where
  | root : Known .root
  | definition {definition : ClassDef κ} : definition ∈ classes → Known definition.name

/-- A class is the other one or has it as an ancestor. -/
inductive Inherits : ClassName → ClassName → Prop where
  | same (name : ClassName) : Inherits name name
  | parent {definition : ClassDef κ} {sup : ClassName} :
      definition ∈ classes → Inherits definition.parent sup → Inherits definition.name sup

/-- The implicit root is constructed without arguments. -/
inductive ConstructorTakes : ClassName → List VarDec → Prop where
  | root : ConstructorTakes .root []
  | definition {definition : ClassDef κ} :
      definition ∈ classes → ConstructorTakes definition.name definition.params

/-- The instance variables of a class, those of its ancestors first. -/
inductive HasFields : ClassName → List VarDec → Prop where
  | root : HasFields .root []
  | definition {definition : ClassDef κ} {inherited : List VarDec} :
      definition ∈ classes → HasFields definition.parent inherited →
      HasFields definition.name (inherited ++ definition.fields)

/-- The method that a class has under a name.  Of several definitions in one class the
last one counts; without a definition of its own, a class has the method of its parent. -/
inductive HasMethod (name : MethodName) : ClassName → MethodDef κ → Prop where
  | own {definition : ClassDef κ} {earlier later : List (MethodDef κ)} {method : MethodDef κ} :
      definition ∈ classes → definition.methods = earlier ++ method :: later →
      method.name = name → (∀ other ∈ later, other.name ≠ name) →
      HasMethod name definition.name method
  | inherited {definition : ClassDef κ} {method : MethodDef κ} :
      definition ∈ classes → (∀ other ∈ definition.methods, other.name ≠ name) →
      HasMethod name definition.parent method → HasMethod name definition.name method

/-- The definitions make a tree whose root is the class that is not defined. -/
structure FormTree : Prop where
  distinct : (classes.map ClassDef.name).Nodup
  notRoot : ∀ definition ∈ classes, definition.name ≠ .root
  parents : ∀ definition ∈ classes, Known classes definition.parent
  rooted : ∀ definition ∈ classes, Inherits classes definition.name .root

end ClassDef

namespace Ty

variable {κ : Type} (classes : List (ClassDef κ))

inductive Known : Ty → Prop where
  | int : Known .int
  | bool : Known .bool
  | void : Known .void
  | object {name : ClassName} : ClassDef.Known classes name → Known (.object name)

/-- A value of the first type may stand where the second is required. -/
inductive Conforms : Ty → Ty → Prop where
  | same (ty : Ty) : Conforms ty ty
  | object {sub sup : ClassName} :
      ClassDef.Inherits classes sub sup → Conforms (.object sub) (.object sup)

end Ty

/-- The variables have distinct names and types that exist. -/
structure VarDec.Admitted {κ : Type} (classes : List (ClassDef κ)) (vars : List VarDec) :
    Prop where
  distinct : (vars.map VarDec.name).Nodup
  known : ∀ var ∈ vars, var.ty.Known classes

/-! ## Expressions -/

/-- The latest variable with a name has the given type. -/
inductive Scope.Binds (name : VarName) (ty : Ty) : Scope → Prop where
  | latest {scope : Scope} : Scope.Binds name ty (⟨ty, name⟩ :: scope)
  | earlier {var : VarDec} {scope : Scope} :
      var.name ≠ name → Scope.Binds name ty scope → Scope.Binds name ty (var :: scope)

/-- The type of what an operation on integers yields. -/
inductive Op.Yields : Op → Ty → Prop where
  | plus : Op.Yields .plus .int
  | less : Op.Yields .less .bool
  | equals : Op.Yields .equals .bool

section

variable {κ : Type} [Note κ] (classes : List (ClassDef Plain)) (context : Context)

mutual

/-- In the given scope an expression has a type, and the notes on its calls
record the classes of the receivers. -/
inductive Exp.HasType (scope : Scope) : Exp κ → Ty → Prop where
  | int (value : Int64) : Exp.HasType scope (.int value) .int
  | bool (value : Bool) : Exp.HasType scope (.bool value) .bool
  | var {name : VarName} {ty : Ty} :
      scope.Binds name ty → Exp.HasType scope (.var name) ty
  | this {name : ClassName} :
      context.receiver = some name → Exp.HasType scope .this (.object name)
  | binary {op : Op} {lhs rhs : Exp κ} {ty : Ty} :
      Exp.HasType scope lhs .int → Exp.HasType scope rhs .int → op.Yields ty →
      Exp.HasType scope (.binary op lhs rhs) ty
  | call {receiver : Exp κ} {name : MethodName} {args : List (Exp κ)} {note : κ}
      {owner : ClassName} {method : MethodDef Plain} :
      Exp.HasType scope receiver (.object owner) →
      ClassDef.HasMethod classes name owner method →
      Exp.Fit scope args method.params →
      Note.Records note owner →
      Exp.HasType scope (.call receiver name args note) method.returnTy
  | new {name : ClassName} {args : List (Exp κ)} {params : List VarDec} :
      ClassDef.ConstructorTakes classes name params →
      Exp.Fit scope args params →
      Exp.HasType scope (.new name args) (.object name)

/-- Arguments fit parameters: there are as many of them, and each one has a type
that conforms to the type of its parameter. -/
inductive Exp.Fit (scope : Scope) : List (Exp κ) → List VarDec → Prop where
  | nil : Exp.Fit scope [] []
  | cons {arg : Exp κ} {args : List (Exp κ)} {param : VarDec} {params : List VarDec}
      {actual : Ty} :
      Exp.HasType scope arg actual → actual.Conforms classes param.ty →
      Exp.Fit scope args params → Exp.Fit scope (arg :: args) (param :: params)

end

/-- An expression has a type that conforms to the expected one. -/
def Exp.UsedAs (scope : Scope) (expected : Ty) (value : Exp κ) : Prop :=
  ∃ actual, value.HasType classes context scope actual ∧ actual.Conforms classes expected

/-! ## Statements -/

mutual

inductive Stmt.WellTyped : Scope → Stmt κ → Prop where
  | exp {scope : Scope} {value : Exp κ} {ty : Ty} :
      value.HasType classes context scope ty → Stmt.WellTyped scope (.exp value)
  | declare {scope : Scope} {var : VarDec} {value : Exp κ} :
      var.ty.Known classes →
      value.UsedAs classes context scope var.ty →
      Stmt.WellTyped scope (.declare var value)
  | assign {scope : Scope} {target : VarName} {expected : Ty} {value : Exp κ} :
      scope.Binds target expected →
      value.UsedAs classes context scope expected →
      Stmt.WellTyped scope (.assign target value)
  | ifElse {scope : Scope} {guard : Exp κ} {thenArm elseArm : Stmt κ} :
      guard.HasType classes context scope .bool →
      Stmt.WellTyped scope thenArm → Stmt.WellTyped scope elseArm →
      Stmt.WellTyped scope (.ifElse guard thenArm elseArm)
  | whileLoop {scope : Scope} {guard : Exp κ} {body : Stmt κ} :
      guard.HasType classes context scope .bool →
      Stmt.WellTyped scope body → Stmt.WellTyped scope (.whileLoop guard body)
  | returnValue {scope : Scope} {expected : Ty} {value : Exp κ} :
      context.returnTy = some expected →
      value.UsedAs classes context scope expected →
      Stmt.WellTyped scope (.returnValue value)
  | returnVoid {scope : Scope} :
      context.returnTy = some .void → Stmt.WellTyped scope .returnVoid
  | println {scope : Scope} {value : Exp κ} {ty : Ty} :
      value.HasType classes context scope ty → Stmt.WellTyped scope (.println value)
  | block {scope : Scope} {body : List (Stmt κ)} :
      Stmt.SeqWellTyped scope body → Stmt.WellTyped scope (.block body)

/-- A declaration is in scope for the statements that follow it.  No other statement
leaves anything in scope. -/
inductive Stmt.SeqWellTyped : Scope → List (Stmt κ) → Prop where
  | nil {scope : Scope} : Stmt.SeqWellTyped scope []
  | declare {scope : Scope} {var : VarDec} {value : Exp κ} {rest : List (Stmt κ)} :
      Stmt.WellTyped scope (.declare var value) → Stmt.SeqWellTyped (var :: scope) rest →
      Stmt.SeqWellTyped scope (.declare var value :: rest)
  | other {scope : Scope} {stmt : Stmt κ} {rest : List (Stmt κ)} :
      (∀ var value, stmt ≠ .declare var value) → Stmt.WellTyped scope stmt →
      Stmt.SeqWellTyped scope rest → Stmt.SeqWellTyped scope (stmt :: rest)

end

end

/-! ## Programs -/

/-- The scope of a body: the parameters hide instance variables of the same name. -/
def Scope.ofBody (fields params : List VarDec) : Scope :=
  params.reverse ++ fields.reverse

section

variable {κ : Type} [Note κ] (classes : List (ClassDef Plain))

structure MethodDef.WellTyped (owner : ClassName) (fields : List VarDec)
    (method : MethodDef κ) : Prop where
  returnTy : method.returnTy.Known classes
  params : VarDec.Admitted classes method.params
  body : method.body.WellTyped classes ⟨some owner, some method.returnTy⟩
    (.ofBody fields method.params)

namespace ClassDef

/-- The rules for a class whose instance variables, inherited ones included, are the
given ones. -/
structure WellTypedWith (fields : List VarDec) (definition : ClassDef κ) : Prop where
  hasFields : HasFields classes definition.name fields
  admitted : VarDec.Admitted classes fields
  methodNames : (definition.methods.map MethodDef.name).Nodup
  params : VarDec.Admitted classes definition.params
  superArgs : ∃ taken, ConstructorTakes classes definition.parent taken ∧
    Exp.Fit classes ⟨some definition.name, some .void⟩ (.ofBody fields definition.params)
      definition.superArgs taken
  body : Stmt.SeqWellTyped classes ⟨some definition.name, some .void⟩
    (.ofBody fields definition.params) definition.body
  methods : ∀ method ∈ definition.methods, method.WellTyped classes definition.name fields

def WellTyped (definition : ClassDef κ) : Prop :=
  ∃ fields, definition.WellTypedWith classes fields

end ClassDef

structure Program.WellTyped (program : Program κ) : Prop where
  definitions : ∀ definition ∈ program.classes, definition.WellTyped classes
  entry : program.entry.WellTyped classes ⟨none, none⟩ []

end

end ClassLang
