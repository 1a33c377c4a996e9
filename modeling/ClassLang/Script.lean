import ClassLang.Dispatch
import ClassLang.Text.Lines

/-!
# Scripts

A script is a JavaScript program of the restricted shape that classes compile
to.  It has a dispatch table for each class, a function for each constructor and
each method, which take the receiver as their first parameter `self`, and the
instruction that runs the program.

The text of a script indents every instruction by the number of braces around
it.
-/

namespace ClassLang

namespace Script

/-- Where a variable lives: in a binding of the function, or in the receiver. -/
inductive Place where
  | binding (name : VarName)
  | member (name : VarName)
deriving DecidableEq

inductive Expr where
  | int (value : Int64)
  | bool (value : Bool)
  | read (place : Place)
  | receiver
  | binary (op : Op) (lhs rhs : Expr)
  | dispatch (target : Expr) (slot : Nat) (args : List Expr)
  | make (name : ClassName) (args : List Expr)

inductive Instr where
  | eval (value : Expr)
  | bind (name : VarName) (value : Expr)
  | store (place : Place) (value : Expr)
  | ifElse (guard : Expr) (thenPart elsePart : List Instr)
  | whileLoop (guard : Expr) (body : List Instr)
  | returnValue (value : Expr)
  | returnVoid
  | log (value : Expr)
  | block (body : List Instr)
  | superCall (parent : ClassName) (args : List Expr)

/-- A function that belongs to a class.  Its parameters come after the
receiver. -/
structure Function where
  owner : ClassName
  member : String
  params : List VarName
  body : List Instr

/-- The functions of one class. -/
structure ClassCode where
  constructor : Function
  methods : List Function

end Script

/-- A compiled program.  Tables and classes are in source order, with the table
of the implicit root before the others. -/
structure Script where
  tables : List (ClassName × DispatchTable)
  classes : List Script.ClassCode
  entry : Script.Instr

namespace Script

/-! ## Names -/

/-- The function that a class provides for one of its members. -/
def functionName (owner : ClassName) (member : String) : String :=
  owner.text ++ "_" ++ member

/-- The member under which a class provides its constructor. -/
def constructorMember : String := "constructor"

def constructorName (name : ClassName) : String :=
  functionName name constructorMember

def tableName (name : ClassName) : String :=
  "vtable_" ++ name.text

/-- The function that a slot of a dispatch table refers to. -/
def entryName (entry : DispatchEntry) : String :=
  functionName entry.owner entry.method.text

/-! ## Text -/

def Place.text : Place → String
  | binding name => name.text
  | member name => "self." ++ name.text

namespace Expr

mutual

def text : Expr → String
  | int value => value.toInt.repr
  | bool value => toString value
  | read place => place.text
  | receiver => "self"
  | binary op lhs rhs => "(" ++ lhs.text ++ " " ++ op.text ++ " " ++ rhs.text ++ ")"
  | dispatch target slot args =>
    "doCall(" ++ target.text ++ ", " ++ slot.repr ++ furtherText args ++ ")"
  | make name args =>
    "makeObject(" ++ tableName name ++ ", " ++ constructorName name ++ furtherText args ++ ")"

/-- Arguments that follow others. -/
def furtherText : List Expr → String
  | [] => ""
  | arg :: rest => ", " ++ arg.text ++ furtherText rest

end

end Expr

namespace Instr

mutual

/-- The lines of an instruction inside of `depth` braces. -/
def lines (depth : Nat) : Instr → List String
  | eval value => [Text.indented depth (value.text ++ ";")]
  | bind name value =>
    [Text.indented depth ("let " ++ name.text ++ " = " ++ value.text ++ ";")]
  | store place value =>
    [Text.indented depth (place.text ++ " = " ++ value.text ++ ";")]
  | ifElse guard thenPart elsePart =>
    Text.indented depth ("if (" ++ guard.text ++ ") \x7b")
      :: linesOfAll (depth + 1) thenPart
      ++ Text.indented depth "\x7d else \x7b"
      :: linesOfAll (depth + 1) elsePart
      ++ [Text.indented depth "\x7d"]
  | whileLoop guard body =>
    Text.indented depth ("while (" ++ guard.text ++ ") \x7b")
      :: linesOfAll (depth + 1) body
      ++ [Text.indented depth "\x7d"]
  | returnValue value => [Text.indented depth ("return " ++ value.text ++ ";")]
  | returnVoid => [Text.indented depth "return;"]
  | log value => [Text.indented depth ("console.log(" ++ value.text ++ ");")]
  | block body =>
    Text.indented depth "\x7b"
      :: linesOfAll (depth + 1) body
      ++ [Text.indented depth "\x7d"]
  | superCall parent args =>
    [Text.indented depth (constructorName parent ++ "(self" ++ Expr.furtherText args ++ ");")]

/-- The lines of instructions that follow each other. -/
def linesOfAll (depth : Nat) : List Instr → List String
  | [] => []
  | instr :: rest => instr.lines depth ++ linesOfAll depth rest

end

end Instr

def Function.lines (function : Function) : List String :=
  let params := "self" :: function.params.map VarName.text
  ("function " ++ functionName function.owner function.member ++ "("
      ++ ", ".intercalate params ++ ") \x7b")
    :: Instr.linesOfAll 1 function.body
    ++ ["\x7d"]

def ClassCode.lines (code : ClassCode) : List String :=
  code.constructor.lines ++ code.methods.flatMap Function.lines

def tableLine (name : ClassName) (table : DispatchTable) : String :=
  "let " ++ tableName name ++ " = ["
    ++ ", ".intercalate (table.entries.map entryName) ++ "];"

/-- The functions that every script starts with: they make an object, call a
method through a dispatch table, and construct the implicit root. -/
def preamble : List String :=
  ["function makeObject(vtable, constructor, ...params) \x7b",
    "  let self = \x7b\x7d;",
    "  self.vtable = vtable;",
    "  constructor(self, ...params);",
    "  return self;",
    "\x7d",
    "function doCall(self, index, ...params) \x7b",
    "  return self.vtable[index](self, ...params);",
    "\x7d",
    "function Object_constructor(self) \x7b\x7d"]

def lines (script : Script) : List String :=
  preamble
    ++ script.tables.map (fun (name, table) => tableLine name table)
    ++ script.classes.flatMap ClassCode.lines
    ++ script.entry.lines 0

def text (script : Script) : String :=
  Text.unlines script.lines

end Script

end ClassLang
