import ClassLang.Text.Quoted

/-!
# Names

Classes, methods and variables have names of three different types, so that one
kind of name is never used where another is meant.  Names are ordered by their
text, code point by code point.
-/

namespace ClassLang

/-- The name of a class. -/
structure ClassName where
  text : String
deriving DecidableEq

/-- The name of a method. -/
structure MethodName where
  text : String
deriving DecidableEq

/-- The name of a local variable, a parameter or an instance variable. -/
structure VarName where
  text : String
deriving DecidableEq

namespace ClassName

/-- The implicit root of every class hierarchy. -/
def root : ClassName := ⟨"Object"⟩

/-- The name together with its kind, the text quoted. -/
def describe (name : ClassName) : String :=
  "ClassName(" ++ Text.quoted name.text ++ ")"

instance : Ord ClassName where
  compare a b := compare a.text b.text

end ClassName

namespace MethodName

/-- The name together with its kind, the text quoted. -/
def describe (name : MethodName) : String :=
  "MethodName(" ++ Text.quoted name.text ++ ")"

instance : Ord MethodName where
  compare a b := compare a.text b.text

end MethodName

namespace VarName

/-- The name together with its kind, the text quoted. -/
def describe (name : VarName) : String :=
  "Variable(" ++ Text.quoted name.text ++ ")"

end VarName

end ClassLang
