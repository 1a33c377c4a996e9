import ClassLang.Program

/-!
# Class hierarchies

Every class extends another one, up to the implicit root, which is not declared
itself.  A list of definitions forms a hierarchy when no name is taken twice,
every parent exists and no walk from a class to its ancestors runs in a circle.
A `Hierarchy` carries the evidence for this, so that all questions about
ancestors, subtypes and inherited methods have an answer.
-/

namespace ClassLang

/-- Why class definitions do not form a hierarchy. -/
inductive HierarchyError where
  | duplicateClass (name : ClassName)
  | undefinedParent (name parent : ClassName)
  | inheritanceCycle (name : ClassName)
deriving DecidableEq

def HierarchyError.message : HierarchyError → String
  | duplicateClass name => "class " ++ name.text ++ " is defined more than once"
  | undefinedParent name parent =>
    "class " ++ name.text ++ " extends undefined class " ++ parent.text
  | inheritanceCycle name => "cyclic inheritance involving class " ++ name.text

/-- The first element that is in `seen` or occurs a second time. -/
def firstRepeat? {α : Type} [DecidableEq α] (seen : List α) : List α → Option α
  | [] => none
  | a :: rest => if a ∈ seen then some a else firstRepeat? (a :: seen) rest

variable {κ : Type}

namespace ClassDef

/-- The definition of a name. -/
def find? (classes : List (ClassDef κ)) (name : ClassName) : Option (ClassDef κ) :=
  List.find? (fun definition => definition.name = name) classes

/-- Whether a name is declared or the implicit root. -/
def declares (classes : List (ClassDef κ)) (name : ClassName) : Bool :=
  name = .root || classes.any fun definition => definition.name = name

/-- The definitions of all names but one. -/
def without (classes : List (ClassDef κ)) (name : ClassName) : List (ClassDef κ) :=
  classes.filter fun definition => definition.name ≠ name

theorem length_without_lt {classes : List (ClassDef κ)} {name : ClassName}
    {definition : ClassDef κ} (found : find? classes name = some definition) :
    (without classes name).length < classes.length := by
  have member := List.mem_of_find?_eq_some found
  have named := List.find?_some found
  unfold without
  rw [List.length_filter_lt_length_iff_exists]
  exact ⟨definition, member, by simpa using named⟩

/-- The definitions met on the way up from a name, the nearest first.  A
definition that was met is put aside, so the walk ends even if it is circular. -/
def chain (classes : List (ClassDef κ)) (name : ClassName) : List (ClassDef κ) :=
  match _found : find? classes name with
  | none => []
  | some definition => definition :: chain (without classes name) definition.parent
termination_by classes.length
decreasing_by exact length_without_lt _found

/-- The name at which the way up from a name leaves the definitions that were
not met before. -/
def chainEnd (classes : List (ClassDef κ)) (name : ClassName) : ClassName :=
  match (chain classes name).getLast? with
  | none => name
  | some oldest => oldest.parent

end ClassDef

/-- A method together with the class that defines it. -/
structure OwnedMethod (κ : Type) where
  owner : ClassName
  definition : MethodDef κ

namespace Hierarchy

/-- The first reason why the definitions do not form a hierarchy.  Repeated names
come before missing parents, and these before cycles. -/
def fault? (classes : List (ClassDef κ)) : Option HierarchyError :=
  match firstRepeat? [ClassName.root] (classes.map ClassDef.name) with
  | some name => some (.duplicateClass name)
  | none =>
    match classes.find? fun definition => !ClassDef.declares classes definition.parent with
    | some orphan => some (.undefinedParent orphan.name orphan.parent)
    | none =>
      (classes.find? fun definition => ClassDef.chainEnd classes definition.name ≠ .root).map
        fun definition => .inheritanceCycle definition.name

end Hierarchy

/-- Class definitions that form a hierarchy, in source order. -/
structure Hierarchy (κ : Type) where
  classes : List (ClassDef κ)
  faultless : Hierarchy.fault? classes = none

namespace Hierarchy

def ofClasses (classes : List (ClassDef κ)) : Except HierarchyError (Hierarchy κ) :=
  match faultless : fault? classes with
  | some error => .error error
  | none => .ok ⟨classes, faultless⟩

variable (hierarchy : Hierarchy κ)

/-- Whether a name is declared or the implicit root. -/
def contains (name : ClassName) : Bool :=
  ClassDef.declares hierarchy.classes name

/-- The definition of a declared class.  The implicit root has none. -/
def get? (name : ClassName) : Option (ClassDef κ) :=
  ClassDef.find? hierarchy.classes name

def parent? (name : ClassName) : Option ClassName :=
  (hierarchy.get? name).map ClassDef.parent

/-- The definition of a class and of its ancestors, the nearest first. -/
def ancestors (name : ClassName) : List (ClassDef κ) :=
  ClassDef.chain hierarchy.classes name

/-- The definitions from the oldest declared ancestor down to the class. -/
def lineage (name : ClassName) : List (ClassDef κ) :=
  (hierarchy.ancestors name).reverse

/-- Whether `sub` is `sup` or extends it, possibly in several steps. -/
def isSubclass (sub sup : ClassName) : Bool :=
  sub = sup || (hierarchy.ancestors sub).any fun definition => definition.parent = sup

/-- Whether a value of type `actual` may stand where `expected` is required. -/
def isSubtype : (actual expected : Ty) → Bool
  | .object sub, .object sup => hierarchy.isSubclass sub sup
  | actual, expected => actual = expected

/-- Whether the class that a type mentions exists. -/
def isDefined : Ty → Bool
  | .object name => hierarchy.contains name
  | _ => true

/-- The parameters of a constructor.  The implicit root takes none. -/
def constructorParams (name : ClassName) : List VarDec :=
  match hierarchy.get? name with
  | some definition => definition.params
  | none => []

/-- The method that a class has under a name: the last definition in the nearest
class that has one. -/
def method? (name : ClassName) (method : MethodName) : Option (OwnedMethod κ) :=
  (hierarchy.ancestors name).findSome? fun definition =>
    (definition.methods.reverse.find? fun candidate => candidate.name = method).map
      fun found => ⟨definition.name, found⟩

/-- Every method that a class has, inherited ones included, ordered by name. -/
def methods (name : ClassName) : List (OwnedMethod κ) :=
  let names := (hierarchy.ancestors name).flatMap fun definition =>
    definition.methods.map MethodDef.name
  (names.eraseDups.mergeSort fun a b => (compare a b).isLE).filterMap
    (hierarchy.method? name)

end Hierarchy

/-- The hierarchy of a program's classes. -/
def Program.hierarchy (program : Program κ) : Except HierarchyError (Hierarchy κ) :=
  Hierarchy.ofClasses program.classes

end ClassLang
