import ClassLang.Typing.Statement

/-!
# Typing of programs

The classes are checked in source order: first the variables and the constructor
of a class, then its methods.  The entry point comes last.
-/

namespace ClassLang

section

variable (hierarchy : Hierarchy Plain)

/-- Checks a method of the given class, whose instance variables are `fields`. -/
def MethodDef.check (owner : ClassName) (fields : Scope) (method : MethodDef Plain) :
    Except TypeError (MethodDef Resolved) := do
  method.returnTy.check hierarchy
  let params ← Scope.ofParams hierarchy method.params
  let body ← method.body.check hierarchy ⟨some owner, some method.returnTy⟩ (params ++ fields)
  return ⟨method.returnTy, method.name, method.params, body⟩

/-- What checking a class finds out before it turns to the methods. -/
structure CheckedConstructor where
  /-- The instance variables of the class, inherited ones included. -/
  fields : Scope
  superArgs : List (Exp Resolved)
  body : List (Stmt Resolved)

namespace ClassDef

/-- The names of the methods that a class defines are distinct. -/
def checkMethodNames (definition : ClassDef Plain) : Except TypeError Unit :=
  match firstRepeat? [] (definition.methods.map MethodDef.name) with
  | some method => .error (.duplicateMethod definition.name method)
  | none => .ok ()

/-- Checks everything in a class but the methods. -/
def checkConstructor (definition : ClassDef Plain) : Except TypeError CheckedConstructor := do
  let fields ← definition.fieldScope hierarchy
  definition.checkMethodNames
  let params ← Scope.ofParams hierarchy definition.params
  let context : Context := ⟨some definition.name, some .void⟩
  let superArgs ← Exp.checkCall hierarchy context (params ++ fields)
    (.constructor definition.parent) (hierarchy.constructorParams definition.parent)
    definition.superArgs
  let body ← Stmt.checkAll hierarchy context (params ++ fields) definition.body
  return ⟨fields, superArgs, body⟩

def check (definition : ClassDef Plain) : Except TypeError (ClassDef Resolved) := do
  let checked ← definition.checkConstructor hierarchy
  let methods ← definition.methods.mapM (MethodDef.check hierarchy definition.name checked.fields)
  return ⟨definition.name, definition.parent, definition.fields, definition.params,
    checked.superArgs, checked.body, methods⟩

end ClassDef

end

/-- Checks a program and notes the static class of the receiver on every method
call. -/
def Program.check (program : Program Plain) : Except TypeError (Program Resolved) := do
  let hierarchy ← program.hierarchy.mapError .hierarchy
  let classes ← program.classes.mapM (ClassDef.check hierarchy)
  let entry ← program.entry.check hierarchy .entry []
  return ⟨classes, entry⟩

end ClassLang
