import ClassLang.Outline
import ClassLang.Program

/-!
# The outline of a program

Every part of a program has an outline that shows its structure by nesting
alone.  A resolved call shows the static class of its receiver after the name of
the method.
-/

namespace ClassLang

/-- Notes that can be shown after the name of the called method. -/
class CallNote (κ : Type) where
  suffix : κ → String

instance : CallNote Plain where
  suffix _ := ""

instance : CallNote Resolved where
  suffix receiver := " %: " ++ receiver.text

variable {κ : Type} [CallNote κ]

namespace Exp

mutual

def outline : Exp κ → Outline
  | int value => .leaf ("int " ++ value.toInt.repr)
  | bool value => .leaf ("bool " ++ toString value)
  | var name => .leaf ("var " ++ name.text)
  | this => .leaf "this"
  | binary op lhs rhs => .node ("binary " ++ op.text) [lhs.outline, rhs.outline]
  | call receiver method args note =>
    .node ("call " ++ method.text ++ CallNote.suffix note)
      (.node "receiver" [receiver.outline] ::
        match outlines args with
        | [] => []
        | shown => [.node "arguments" shown])
  | new name args => .node ("new " ++ name.text) (outlines args)

def outlines : List (Exp κ) → List Outline
  | [] => []
  | value :: rest => value.outline :: outlines rest

end

end Exp

namespace Stmt

mutual

def outline : Stmt κ → Outline
  | exp value => .node "exp" [value.outline]
  | declare var value => .node ("let " ++ var.text) [value.outline]
  | assign target value => .node ("assign " ++ target.text) [value.outline]
  | ifElse guard thenArm elseArm =>
    .node "if" [guard.outline, thenArm.outline, elseArm.outline]
  | whileLoop guard body => .node "while" [guard.outline, body.outline]
  | returnValue value => .node "return" [value.outline]
  | returnVoid => .leaf "return"
  | println value => .node "println" [value.outline]
  | block body => .node "block" (outlines body)

def outlines : List (Stmt κ) → List Outline
  | [] => []
  | stmt :: rest => stmt.outline :: outlines rest

end

end Stmt

/-- Declarations between parentheses. -/
def VarDec.listText (vars : List VarDec) : String :=
  "(" ++ ", ".intercalate (vars.map VarDec.text) ++ ")"

def MethodDef.outline (method : MethodDef κ) : Outline :=
  .node
    ("method " ++ method.returnTy.text ++ " " ++ method.name.text
      ++ VarDec.listText method.params)
    [method.body.outline]

def ClassDef.outline (definition : ClassDef κ) : Outline :=
  .node ("class " ++ definition.name.text ++ " extends " ++ definition.parent.text)
    (definition.fields.map (fun field => .leaf ("field " ++ field.text))
      ++ [.node ("constructor" ++ VarDec.listText definition.params)
          (.node "super" (Exp.outlines definition.superArgs)
            :: Stmt.outlines definition.body)]
      ++ definition.methods.map MethodDef.outline)

/-- The outline of each class, and last the outline of the entry point. -/
def Program.outlines (program : Program κ) : List Outline :=
  program.classes.map ClassDef.outline ++ [.node "entry" [program.entry.outline]]

/-- The outline of a whole program as a text. -/
def Program.outlineText (program : Program κ) : String :=
  Outline.textOfAll program.outlines

end ClassLang
