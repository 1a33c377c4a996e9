import ClassLang.Hierarchy

/-!
# Dispatch tables

The methods of a class are called through a table of functions.  A method keeps
the slot in which it was introduced in all descendants of the class; a
definition that overrides it only replaces the function in the slot.

The tables are built one after the other, ancestors before descendants, so that
the table of a class extends the finished table of its parent.
-/

namespace ClassLang

/-- One slot: the method it serves and the class whose definition is called. -/
structure DispatchEntry where
  method : MethodName
  owner : ClassName
deriving DecidableEq

/-- The slots of a class, in order. -/
structure DispatchTable where
  entries : List DispatchEntry
deriving DecidableEq

namespace DispatchTable

/-- The table of the implicit root. -/
def empty : DispatchTable := ⟨[]⟩

def size (table : DispatchTable) : Nat := table.entries.length

/-- The slot that serves a method. -/
def slot? (table : DispatchTable) (method : MethodName) : Option Nat :=
  table.entries.findIdx? fun entry => entry.method = method

/-- Lets a class define a method: in the slot of that method, or in a new slot
after all others. -/
def define (table : DispatchTable) (owner : ClassName) (method : MethodName) :
    DispatchTable :=
  if table.entries.any fun entry => entry.method = method then
    ⟨table.entries.map fun entry =>
      if entry.method = method then ⟨method, owner⟩ else entry⟩
  else ⟨table.entries ++ [⟨method, owner⟩]⟩

/-- The table of a class whose parent has the given table. -/
def extend {κ : Type} (parent : DispatchTable) (definition : ClassDef κ) : DispatchTable :=
  definition.methods.foldl (fun table method => table.define definition.name method.name)
    parent

end DispatchTable

/-- The tables built so far, each with its class. -/
abbrev DispatchTables := List (ClassName × DispatchTable)

namespace DispatchTables

def get? (tables : DispatchTables) (name : ClassName) : Option DispatchTable :=
  tables.lookup name

/-- Goes down a line of classes from one whose table is known.  A class that has a
table is passed by, any other one is built from the table of the class above it. -/
def addLine {κ : Type} (tables : DispatchTables) (parent : DispatchTable) :
    List (ClassDef κ) → DispatchTables
  | [] => tables
  | definition :: below =>
    match tables.get? definition.name with
    | some built => addLine tables built below
    | none =>
      let table := parent.extend definition
      addLine (tables ++ [(definition.name, table)]) table below

/-- The tables of the implicit root and of every class, in the order in which
they are built: for each class in source order first its ancestors. -/
def build {κ : Type} (hierarchy : Hierarchy κ) : DispatchTables :=
  hierarchy.classes.foldl
    (fun tables definition => tables.addLine .empty (hierarchy.lineage definition.name))
    [(.root, .empty)]

end DispatchTables

end ClassLang
