import ClassLang.Script
import ClassLang.Typing.Program

/-!
# From programs to scripts

Classes become dispatch tables and functions.  A variable that is neither a
parameter nor declared before is a member of the receiver.  In a sequence every
statement after the first one opens a new block around itself and all that
follow, so that a declaration never meets another one of its own block.

A program that passed the checker always compiles.  Of any other program the
first call whose receiver has no such method is reported.
-/

namespace ClassLang

/-- Why a program does not compile. -/
inductive LoweringError where
  | hierarchy (error : HierarchyError)
  | missingTable (name : ClassName)
  | missingSlot (name : ClassName) (method : MethodName)
deriving DecidableEq

def LoweringError.message : LoweringError → String
  | hierarchy error => error.message
  | missingTable name => "no vtable for class " ++ name.text
  | missingSlot name method =>
    "method " ++ method.text ++ " has no slot in the vtable of class " ++ name.text

namespace DispatchTables

/-- The table of a class that is expected to have one. -/
def table (tables : DispatchTables) (name : ClassName) : Except LoweringError DispatchTable :=
  match tables.get? name with
  | some table => .ok table
  | none => .error (.missingTable name)

/-- The slot of a method that a class is expected to have. -/
def slot (tables : DispatchTables) (name : ClassName) (method : MethodName) :
    Except LoweringError Nat := do
  let table ← tables.table name
  match table.slot? method with
  | some slot => .ok slot
  | none => .error (.missingSlot name method)

end DispatchTables

/-- The names bound in a function: its parameters and the variables declared so
far. -/
abbrev Locals := List VarName

namespace Locals

def ofParams (params : List VarDec) : Locals :=
  params.map VarDec.name

/-- The names bound for the statements after the given one. -/
def after {κ : Type} (locals : Locals) (stmt : Stmt κ) : Locals :=
  match stmt.declared? with
  | some var => var.name :: locals
  | none => locals

def place (locals : Locals) (name : VarName) : Script.Place :=
  if name ∈ locals then .binding name else .member name

end Locals

/-- The instructions of a body, without the braces if it is a block. -/
def Script.Instr.unbraced : Script.Instr → List Script.Instr
  | block body => body
  | instr => [instr]

/-- Braces around instructions, unless there are none. -/
def Script.Instr.braced : List Script.Instr → List Script.Instr
  | [] => []
  | body => [block body]

section

variable (tables : DispatchTables)

namespace Exp

mutual

/-- A call is looked up before its receiver and its arguments are compiled. -/
def lower (locals : Locals) : Exp Resolved → Except LoweringError Script.Expr
  | int value => .ok (.int value)
  | bool value => .ok (.bool value)
  | var name => .ok (.read (locals.place name))
  | this => .ok .receiver
  | binary op lhs rhs => do
    let lhs ← lhs.lower locals
    let rhs ← rhs.lower locals
    return .binary op lhs rhs
  | call receiver method args name => do
    let slot ← tables.slot name method
    let target ← receiver.lower locals
    let args ← lowerAll locals args
    return .dispatch target slot args
  | new name args => do
    let args ← lowerAll locals args
    return .make name args

def lowerAll (locals : Locals) : List (Exp Resolved) → Except LoweringError (List Script.Expr)
  | [] => .ok []
  | value :: rest => do
    let first ← value.lower locals
    let others ← lowerAll locals rest
    return first :: others

end

end Exp

namespace Stmt

mutual

def lower (locals : Locals) : Stmt Resolved → Except LoweringError Script.Instr
  | exp value => do
    let value ← value.lower tables locals
    return .eval value
  | declare var value => do
    let value ← value.lower tables locals
    return .bind var.name value
  | assign target value => do
    let value ← value.lower tables locals
    return .store (locals.place target) value
  | ifElse guard thenArm elseArm => do
    let guard ← guard.lower tables locals
    let thenPart ← thenArm.lower locals
    let elsePart ← elseArm.lower locals
    return .ifElse guard thenPart.unbraced elsePart.unbraced
  | whileLoop guard body => do
    let guard ← guard.lower tables locals
    let body ← body.lower locals
    return .whileLoop guard body.unbraced
  | returnValue value => do
    let value ← value.lower tables locals
    return .returnValue value
  | returnVoid => .ok .returnVoid
  | println value => do
    let value ← value.lower tables locals
    return .log value
  | block body => do
    let body ← lowerAll locals body
    return .block body

/-- Compiles a sequence.  Each statement after the first one opens a block. -/
def lowerAll (locals : Locals) : List (Stmt Resolved) → Except LoweringError (List Script.Instr)
  | [] => .ok []
  | stmt :: rest => do
    let first ← stmt.lower locals
    let others ← lowerAll (locals.after stmt) rest
    return first :: Script.Instr.braced others

end

end Stmt

/-- The body of a method has a block of its own, in which a declaration may take
the name of a parameter. -/
def MethodDef.lower (owner : ClassName) (method : MethodDef Resolved) :
    Except LoweringError Script.Function := do
  let locals := Locals.ofParams method.params
  let body ← method.body.lower tables locals
  return ⟨owner, method.name.text, locals, [.block body.unbraced]⟩

namespace ClassDef

def lowerConstructor (definition : ClassDef Resolved) :
    Except LoweringError Script.Function := do
  let locals := Locals.ofParams definition.params
  let superArgs ← Exp.lowerAll tables locals definition.superArgs
  let body ← Stmt.lowerAll tables locals definition.body
  return ⟨definition.name, Script.constructorMember, locals,
    .superCall definition.parent superArgs :: Script.Instr.braced body⟩

def lower (definition : ClassDef Resolved) : Except LoweringError Script.ClassCode := do
  let constructor ← definition.lowerConstructor tables
  let methods ← definition.methods.mapM (MethodDef.lower tables definition.name)
  return ⟨constructor, methods⟩

end ClassDef

end

/-- The script of a program. -/
def Program.lower (program : Program Resolved) : Except LoweringError Script := do
  let hierarchy ← program.hierarchy.mapError .hierarchy
  let built := DispatchTables.build hierarchy
  let tables ← (ClassName.root :: program.classes.map ClassDef.name).mapM fun name => do
    let table ← built.table name
    return (name, table)
  let classes ← program.classes.mapM (ClassDef.lower built)
  let entry ← program.entry.lower built []
  return ⟨tables, classes, entry⟩

end ClassLang
