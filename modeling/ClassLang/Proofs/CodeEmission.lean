import ClassLang.Proofs.ProgramPoints
import ClassLang.Script.Lowering

/-!
# Code written piece by piece

A program can be compiled in one walk that writes its code at once, with no script in
between.  The walk takes along how deep it is in braces and which names are bound, and
every statement hands the names on to the statements after it.

What it writes comes in pieces.  A variable is a piece of its own, and the points of the
program that the walk comes to stand among the pieces, with nothing written for them.  The
pieces make the text of the script, and where a program does not compile both ways fail
alike.
-/

namespace ClassLang

open Script

/-- What the compiler knows at a point. -/
structure LowerPoint where
  site : Site Resolved
  locals : Locals

/-- A piece of written code. -/
inductive Piece where
  | code (text : String)
  | var (name : VarName) (text : String)
  | point (reached : LowerPoint)

/-- The spaces in front of a line inside of the given number of braces. -/
def indentation : Nat → String
  | 0 => ""
  | depth + 1 => "  " ++ indentation depth

namespace Piece

def text : Piece → String
  | code text | var _ text => text
  | point _ => ""

def textOfAll (pieces : List Piece) : String :=
  String.join (pieces.map text)

def point? : Piece → Option LowerPoint
  | point reached => some reached
  | _ => none

def var? : Piece → Option (VarName × String)
  | var name text => some (name, text)
  | _ => none

/-- The points that are come to while pieces are written. -/
def pointsOf (pieces : List Piece) : List LowerPoint :=
  pieces.filterMap point?

/-- The variables in written code, each with its text. -/
def variablesOf (pieces : List Piece) : List (VarName × String) :=
  pieces.filterMap var?

/-- A variable where the given names are bound. -/
def ofVariable (locals : Locals) (name : VarName) : Piece :=
  .var name (if name ∈ locals then name.text else "self." ++ name.text)

/-- The beginning of a line. -/
def start (depth : Nat) (content : String) : Piece :=
  .code (indentation depth ++ content)

def line (depth : Nat) (content : String) : Piece :=
  .code (indentation depth ++ content ++ "\n")

/-- Braces on lines of their own around what is written inside of them. -/
def nested (depth : Nat) (inside : List Piece) : List Piece :=
  line depth "\x7b" :: inside ++ [line depth "\x7d"]

/-- The line that opens a function of a class. -/
def functionHead (owner : ClassName) (member : String) (params : List VarDec) : Piece :=
  line 0 ("function " ++ owner.text ++ "_" ++ member ++ "(self"
    ++ String.join (params.map fun param => ", " ++ param.name.text) ++ ") \x7b")

def ofTable (name : ClassName) (table : DispatchTable) : Piece :=
  line 0 ("let vtable_" ++ name.text ++ " = ["
    ++ ", ".intercalate (table.entries.map entryName) ++ "];")

end Piece

section

variable (tables : DispatchTables)

namespace Exp

mutual

def emit (locals : Locals) : Exp Resolved → Except LoweringError (List Piece)
  | int value => .ok [.code value.toInt.repr]
  | bool value => .ok [.code (toString value)]
  | var name => .ok [.ofVariable locals name]
  | this => .ok [.code "self"]
  | binary op lhs rhs => do
    let lhs ← lhs.emit locals
    let rhs ← rhs.emit locals
    return .code "(" :: lhs ++ .code (" " ++ op.text ++ " ") :: rhs ++ [.code ")"]
  | call receiver method args name => do
    let slot ← tables.slot name method
    let target ← receiver.emit locals
    let further ← emitArgs locals args
    return .code "doCall(" :: target ++ .code (", " ++ slot.repr) :: further ++ [.code ")"]
  | new name args => do
    let further ← emitArgs locals args
    return .code ("makeObject(vtable_" ++ name.text ++ ", " ++ name.text ++ "_constructor")
      :: further ++ [.code ")"]

def emitArgs (locals : Locals) : List (Exp Resolved) → Except LoweringError (List Piece)
  | [] => .ok []
  | value :: rest => do
    let first ← value.emit locals
    let others ← emitArgs locals rest
    return .code ", " :: first ++ others

end

end Exp

namespace Stmt

mutual

/-- Writes a statement, and gives the names bound for the statements after it.  A block is
`bare` if the braces around it have been written already. -/
def emit (bare : Bool) (depth : Nat) (locals : Locals) (stmt : Stmt Resolved) :
    Except LoweringError (Locals × List Piece) :=
  match stmt with
  | exp value => do
    let value ← value.emit tables locals
    return (locals, .point ⟨.stmt stmt, locals⟩ :: .start depth "" :: value ++ [.code ";\n"])
  | declare var value => do
    let value ← value.emit tables locals
    return (var.name :: locals, .point ⟨.stmt stmt, locals⟩
      :: .start depth ("let " ++ var.name.text ++ " = ") :: value ++ [.code ";\n"])
  | assign target value => do
    let value ← value.emit tables locals
    return (locals, .point ⟨.stmt stmt, locals⟩ :: .start depth "" :: .ofVariable locals target
      :: .code " = " :: value ++ [.code ";\n"])
  | ifElse guard thenArm elseArm => do
    let guard ← guard.emit tables locals
    let first ← thenArm.emit true (depth + 1) locals
    let second ← elseArm.emit true (depth + 1) locals
    return (locals, .point ⟨.stmt stmt, locals⟩ :: .start depth "if (" :: guard
      ++ .code ") \x7b\n" :: first.2 ++ .line depth "\x7d else \x7b" :: second.2
      ++ [.line depth "\x7d"])
  | whileLoop guard body => do
    let guard ← guard.emit tables locals
    let inside ← body.emit true (depth + 1) locals
    return (locals, .point ⟨.stmt stmt, locals⟩ :: .start depth "while (" :: guard
      ++ .code ") \x7b\n" :: inside.2 ++ [.line depth "\x7d"])
  | returnValue value => do
    let value ← value.emit tables locals
    return (locals,
      .point ⟨.stmt stmt, locals⟩ :: .start depth "return " :: value ++ [.code ";\n"])
  | returnVoid => .ok (locals, [.point ⟨.stmt stmt, locals⟩, .line depth "return;"])
  | println value => do
    let value ← value.emit tables locals
    return (locals,
      .point ⟨.stmt stmt, locals⟩ :: .start depth "console.log(" :: value ++ [.code ");\n"])
  | block body => do
    let inside ← emitAll (if bare then depth else depth + 1) locals body
    return (locals, .point ⟨.stmt stmt, locals⟩
      :: if bare then inside else Piece.nested depth inside)

/-- Writes a sequence.  Each statement after the first one opens a block. -/
def emitAll (depth : Nat) (locals : Locals) :
    List (Stmt Resolved) → Except LoweringError (List Piece)
  | [] => .ok [.point ⟨.sequenceEnd, locals⟩]
  | stmt :: rest => do
    let first ← stmt.emit false depth locals
    let others ← emitAll (if rest.isEmpty then depth else depth + 1) first.1 rest
    return first.2 ++ if rest.isEmpty then others else Piece.nested depth others

end

end Stmt

def MethodDef.emit (owner : ClassName) (method : MethodDef Resolved) :
    Except LoweringError (List Piece) := do
  let body ← method.body.emit tables true 2 (method.params.map VarDec.name)
  return .functionHead owner method.name.text method.params :: Piece.nested 1 body.2
    ++ [.line 0 "\x7d"]

namespace ClassDef

def emitConstructor (definition : ClassDef Resolved) : Except LoweringError (List Piece) := do
  let locals := definition.params.map VarDec.name
  let superArgs ← Exp.emitArgs tables locals definition.superArgs
  let body ← Stmt.emitAll tables 2 locals definition.body
  return .functionHead definition.name "constructor" definition.params
    :: .point ⟨.superArgs definition.superArgs, locals⟩
    :: .start 1 (definition.parent.text ++ "_constructor(self") :: superArgs
    ++ .code ");\n" :: (if definition.body.isEmpty then body else Piece.nested 1 body)
    ++ [.line 0 "\x7d"]

/-- Writes the functions of a class, the constructor first. -/
def emit (definition : ClassDef Resolved) : Except LoweringError (List (List Piece)) := do
  let constructor ← definition.emitConstructor tables
  let methods ← definition.methods.mapM (MethodDef.emit tables definition.name)
  return constructor :: methods

end ClassDef

end

/-- The code of a program in the order in which it is written. -/
structure Emission where
  /-- What does not depend on any class, and the dispatch tables. -/
  head : List Piece
  /-- The functions of each class. -/
  classes : List (List (List Piece))
  entry : List Piece

namespace Emission

def pieces (emission : Emission) : List Piece :=
  emission.head ++ emission.classes.flatten.flatten ++ emission.entry

def text (emission : Emission) : String :=
  Piece.textOfAll emission.pieces

def points (emission : Emission) : List LowerPoint :=
  Piece.pointsOf emission.pieces

end Emission

def Program.emit (program : Program Resolved) : Except LoweringError Emission := do
  let hierarchy ← program.hierarchy.mapError .hierarchy
  let built := DispatchTables.build hierarchy
  let tables ← (ClassName.root :: program.classes.map ClassDef.name).mapM fun name => do
    let table ← built.table name
    return Piece.ofTable name table
  let classes ← program.classes.mapM (ClassDef.emit built)
  let entry ← program.entry.emit built false 0 []
  return ⟨.code (Text.unlines preamble) :: tables, classes, entry.2⟩

/-! ## The text of the script -/

section

variable {tables : DispatchTables} {locals : Locals} {depth : Nat}

namespace Piece

@[simp] theorem text_code (written : String) : (code written).text = written := rfl

@[simp] theorem text_point (reached : LowerPoint) : (point reached).text = "" := rfl

@[simp] theorem text_ofVariable (name : VarName) :
    (ofVariable locals name).text = (locals.place name).text := by
  unfold ofVariable Locals.place
  split <;> rfl

@[simp] theorem textOfAll_nil : textOfAll [] = "" := rfl

@[simp] theorem textOfAll_cons (piece : Piece) (rest : List Piece) :
    textOfAll (piece :: rest) = piece.text ++ textOfAll rest := by
  simp [textOfAll]

@[simp] theorem textOfAll_append (first second : List Piece) :
    textOfAll (first ++ second) = textOfAll first ++ textOfAll second := by
  simp [textOfAll]

theorem indented_eq (depth : Nat) (content : String) :
    Text.indented depth content = indentation depth ++ content := by
  have hspaces : String.ofList (List.replicate (2 * depth) ' ') = indentation depth := by
    induction depth with
    | zero => rfl
    | succ depth ih =>
        rw [indentation, ← ih, ← String.toList_inj]
        simp [Nat.mul_add]
        rfl
  rw [Text.indented, hspaces]

@[simp] theorem text_start (content : String) :
    (start depth content).text = Text.indented depth content := by
  rw [indented_eq, start, text_code]

@[simp] theorem text_line (content : String) :
    (line depth content).text = Text.indented depth content ++ "\n" := by
  rw [indented_eq, line, text_code]

@[simp] theorem textOfAll_nested (inside : List Piece) :
    textOfAll (nested depth inside) = Text.indented depth "\x7b" ++ "\n" ++ textOfAll inside ++
      (Text.indented depth "\x7d" ++ "\n") := by
  simp [nested, String.append_assoc]

section

variable (name : VarName) (written : String) (reached : LowerPoint) (piece : Piece)
  (rest second : List Piece)

@[simp] theorem point?_code : (code written).point? = none := rfl

@[simp] theorem point?_var : (var name written).point? = none := rfl

@[simp] theorem point?_point : (point reached).point? = some reached := rfl

@[simp] theorem point?_ofVariable : (ofVariable locals name).point? = none := rfl

@[simp] theorem point?_start : (start depth written).point? = none := rfl

@[simp] theorem point?_line : (line depth written).point? = none := rfl

@[simp] theorem pointsOf_nil : pointsOf [] = [] := rfl

@[simp] theorem pointsOf_cons :
    pointsOf (piece :: rest) = piece.point?.toList ++ pointsOf rest := by
  cases piece <;> rfl

@[simp] theorem pointsOf_append : pointsOf (rest ++ second) = pointsOf rest ++ pointsOf second :=
  List.filterMap_append

@[simp] theorem pointsOf_nested : pointsOf (nested depth rest) = pointsOf rest := by
  simp [nested]

theorem pointsOf_flatten (parts : List (List Piece)) :
    pointsOf parts.flatten = parts.flatMap pointsOf := by
  induction parts with
  | nil => rfl
  | cons part others ih => rw [List.flatten_cons, pointsOf_append, ih, List.flatMap_cons]

@[simp] theorem var?_code : (code written).var? = none := rfl

@[simp] theorem var?_var : (var name written).var? = some (name, written) := rfl

@[simp] theorem var?_point : (point reached).var? = none := rfl

@[simp] theorem var?_ofVariable :
    (ofVariable locals name).var? =
      some (name, if name ∈ locals then name.text else "self." ++ name.text) := rfl

@[simp] theorem var?_start : (start depth written).var? = none := rfl

@[simp] theorem var?_line : (line depth written).var? = none := rfl

@[simp] theorem variablesOf_nil : variablesOf [] = [] := rfl

@[simp] theorem variablesOf_cons :
    variablesOf (piece :: rest) = piece.var?.toList ++ variablesOf rest := by
  cases piece <;> rfl

@[simp] theorem variablesOf_append :
    variablesOf (rest ++ second) = variablesOf rest ++ variablesOf second :=
  List.filterMap_append

@[simp] theorem variablesOf_nested : variablesOf (nested depth rest) = variablesOf rest := by
  simp [nested]

end

end Piece

open Piece

namespace Exp

theorem text_emitArgs {values : List (Exp Resolved)}
    (hvalues : ∀ value ∈ values,
      (value.emit tables locals).map textOfAll = (value.lower tables locals).map Expr.text) :
    (emitArgs tables locals values).map textOfAll =
      (lowerAll tables locals values).map Expr.furtherText := by
  induction values with
  | nil => rfl
  | cons value rest ih =>
      rw [List.forall_mem_cons] at hvalues
      rw [emitArgs, lowerAll]
      refine map_bind_eq hvalues.1 fun first code hfirst => ?_
      refine map_bind_eq (ih hvalues.2) fun others codes hothers => ?_
      refine congrArg Except.ok ?_
      simp [Expr.furtherText, hfirst, hothers, String.append_assoc]

theorem text_emit (value : Exp Resolved) :
    (value.emit tables locals).map textOfAll = (value.lower tables locals).map Expr.text := by
  induction value with
  | int | bool | this => rfl
  | var name =>
      refine congrArg Except.ok ?_
      simp [Expr.text]
  | binary op lhs rhs ihLhs ihRhs =>
      rw [emit, lower]
      refine map_bind_eq ihLhs fun first code hfirst => ?_
      refine map_bind_eq ihRhs fun second other hsecond => ?_
      refine congrArg Except.ok ?_
      simp [Expr.text, hfirst, hsecond, String.append_assoc]
  | call receiver method args name ihReceiver ihArgs =>
      rw [emit, lower]
      refine map_bind_same fun slot => ?_
      refine map_bind_eq ihReceiver fun target code htarget => ?_
      refine map_bind_eq (text_emitArgs ihArgs) fun further codes hfurther => ?_
      refine congrArg Except.ok ?_
      simp [Expr.text, htarget, hfurther, String.append_assoc]
  | new name args ihArgs =>
      rw [emit, lower]
      refine map_bind_eq (text_emitArgs ihArgs) fun further codes hfurther => ?_
      refine congrArg Except.ok ?_
      rw [Expr.text, ← hfurther, ← String.toList_inj]
      simp [tableName, constructorName, functionName, constructorMember,
        String.append_assoc]

end Exp

namespace Stmt

/-- The text of a statement, without the braces around a block if they are written already. -/
def textOf (bare : Bool) (depth : Nat) (code : Instr) : String :=
  Text.unlines (if bare then Instr.linesOfAll depth code.unbraced else code.lines depth)

/-- Code that is no block has the same text everywhere. -/
theorem map_ok_eq {stmt : Stmt Resolved} {bare : Bool} {next : Locals} {pieces : List Piece}
    {code : Instr} (hnext : next = locals.after stmt) (hcode : code.unbraced = [code])
    (htext : textOfAll pieces = Text.unlines (code.lines depth)) :
    (Except.ok (next, pieces) : Except LoweringError (Locals × List Piece)).map
        (Prod.map id textOfAll) =
      (Except.ok code).map fun code => (locals.after stmt, textOf bare depth code) := by
  have hlines : textOf bare depth code = Text.unlines (code.lines depth) := by
    cases bare with
    | true => simp [textOf, hcode, Instr.linesOfAll]
    | false => rfl
  simp [Except.map, hnext, hlines, htext]

theorem text_emitStmts {body : List (Stmt Resolved)}
    (hstmts : ∀ stmt ∈ body, ∀ bare depth locals,
      (stmt.emit tables bare depth locals).map (Prod.map id textOfAll) =
        (stmt.lower tables locals).map fun code => (locals.after stmt, textOf bare depth code))
    (depth : Nat) (locals : Locals) :
    (emitAll tables depth locals body).map (fun pieces => (body.isEmpty, textOfAll pieces)) =
      (lowerAll tables locals body).map fun codes =>
        (codes.isEmpty, Text.unlines (Instr.linesOfAll depth codes)) := by
  induction body generalizing depth locals with
  | nil => rfl
  | cons stmt rest ih =>
      rw [List.forall_mem_cons] at hstmts
      rw [emitAll, lowerAll]
      refine map_bind_eq (hstmts.1 false depth locals) fun first code hfirst => ?_
      simp only [Prod.map, id_eq, Prod.mk.injEq] at hfirst
      rw [hfirst.1]
      refine map_bind_eq (ih hstmts.2 _ _) fun others codes hothers => ?_
      simp only [Prod.mk.injEq] at hothers
      refine congrArg Except.ok (Prod.ext rfl ?_)
      -- Braces are written exactly if there is something after the statement.
      cases hrest : rest.isEmpty with
      | true =>
          obtain rfl : codes = [] := List.isEmpty_iff.mp (hothers.1.symm.trans hrest)
          have hempty := hothers.2
          simp only [hrest, if_true] at hempty
          simp [hfirst.2, hempty, textOf, Instr.braced, Instr.linesOfAll, Text.unlines]
      | false =>
          have hcodes : codes.isEmpty = false := hothers.1.symm.trans hrest
          have hinside := hothers.2
          simp only [hrest, Bool.false_eq_true, if_false] at hinside
          cases codes with
          | nil => cases hcodes
          | cons next more =>
              simp [hfirst.2, hinside, textOf, Instr.braced, Instr.linesOfAll, Instr.lines,
                Text.unlines, String.append_assoc]

theorem text_emit (stmt : Stmt Resolved) (bare : Bool) (depth : Nat) (locals : Locals) :
    (stmt.emit tables bare depth locals).map (Prod.map id textOfAll) =
      (stmt.lower tables locals).map fun code => (locals.after stmt, textOf bare depth code) := by
  induction stmt generalizing bare depth locals with
  | exp value | returnValue value | println value | declare var value | assign target value =>
      rw [emit, lower]
      refine map_bind_eq value.text_emit fun pieces code hvalue => map_ok_eq rfl rfl ?_
      simp [hvalue, Instr.lines, Text.unlines, indented_eq, String.append_assoc]
  | returnVoid =>
      refine map_ok_eq rfl rfl ?_
      simp [Instr.lines, Text.unlines]
  | ifElse guard thenArm elseArm ihThen ihElse =>
      rw [emit, lower]
      refine map_bind_eq guard.text_emit fun pieces code hguard => ?_
      refine map_bind_eq (ihThen true (depth + 1) locals) fun first part hfirst => ?_
      refine map_bind_eq (ihElse true (depth + 1) locals) fun second other hsecond => ?_
      refine map_ok_eq rfl rfl ?_
      simp only [Prod.map, id_eq, Prod.mk.injEq] at hfirst hsecond
      simp [hguard, hfirst.2, hsecond.2, textOf, Instr.lines, Text.unlines, indented_eq,
        String.append_assoc]
  | whileLoop guard body ih =>
      rw [emit, lower]
      refine map_bind_eq guard.text_emit fun pieces code hguard => ?_
      refine map_bind_eq (ih true (depth + 1) locals) fun inside part hinside => ?_
      refine map_ok_eq rfl rfl ?_
      simp only [Prod.map, id_eq, Prod.mk.injEq] at hinside
      simp [hguard, hinside.2, textOf, Instr.lines, Text.unlines, indented_eq,
        String.append_assoc]
  | block body ih =>
      rw [emit, lower]
      refine map_bind_eq (text_emitStmts ih _ _) fun inside codes hinside => ?_
      simp only [Prod.mk.injEq] at hinside
      refine congrArg Except.ok (Prod.ext rfl ?_)
      cases bare with
      | true => simpa [Prod.map, textOf, Instr.unbraced] using hinside.2
      | false =>
          simpa [Prod.map, textOf, Instr.lines, Text.unlines, String.append_assoc] using hinside.2

theorem text_emitAll (body : List (Stmt Resolved)) (depth : Nat) (locals : Locals) :
    (emitAll tables depth locals body).map (fun pieces => (body.isEmpty, textOfAll pieces)) =
      (lowerAll tables locals body).map fun codes =>
        (codes.isEmpty, Text.unlines (Instr.linesOfAll depth codes)) :=
  text_emitStmts (fun stmt _ => text_emit stmt) depth locals

end Stmt

/-! ## Whole programs -/

theorem intercalate_cons_eq (first : String) (rest : List String) :
    ", ".intercalate (first :: rest) = first ++ String.join (rest.map (", " ++ ·)) := by
  induction rest generalizing first with
  | nil => simp
  | cons next others ih =>
      rw [String.intercalate_cons_cons, ih, List.map_cons, String.join_cons]
      simp only [String.append_assoc]

theorem text_functionHead (owner : ClassName) (member : String) (params : List VarDec) :
    (functionHead owner member params).text =
      "function " ++ functionName owner member ++ "("
        ++ ", ".intercalate ("self" :: (Locals.ofParams params).map VarName.text) ++ ") \x7b"
        ++ "\n" := by
  rw [intercalate_cons_eq, functionHead, text_line, indented_eq, ← String.toList_inj]
  simp [Locals.ofParams, indentation, functionName, Function.comp_def]

theorem MethodDef.text_emit (owner : ClassName) (method : MethodDef Resolved) :
    (method.emit tables owner).map textOfAll =
      (method.lower tables owner).map fun function => Text.unlines function.lines := by
  rw [emit, lower]
  refine map_bind_eq (method.body.text_emit true 2 _) fun body code hbody => ?_
  simp only [Prod.map, id_eq, Prod.mk.injEq] at hbody
  refine congrArg Except.ok ?_
  rw [← String.toList_inj]
  simp [text_functionHead, hbody.2, Stmt.textOf, Function.lines, Instr.linesOfAll, Instr.lines,
    Text.unlines, indented_eq, indentation]

namespace ClassDef

theorem text_emitConstructor (definition : ClassDef Resolved) :
    (definition.emitConstructor tables).map textOfAll =
      (definition.lowerConstructor tables).map fun function => Text.unlines function.lines := by
  rw [emitConstructor, lowerConstructor]
  refine map_bind_eq (Exp.text_emitArgs fun value _ => value.text_emit)
    fun superArgs codes hsuper => ?_
  refine map_bind_eq (Stmt.text_emitAll definition.body 2 _) fun body code hbody => ?_
  simp only [Prod.mk.injEq] at hbody
  refine congrArg Except.ok ?_
  have hnested : textOfAll (if definition.body.isEmpty then body else nested 1 body) =
      Text.unlines (Instr.linesOfAll 1 (Instr.braced code)) := by
    cases code with
    | nil => simp [hbody.1, hbody.2, Instr.braced, Instr.linesOfAll, Text.unlines]
    | cons first others =>
        simp [hbody.1, hbody.2, Instr.braced, Instr.linesOfAll, Instr.lines, Text.unlines,
          String.append_assoc]
  generalize (if definition.body.isEmpty then body else nested 1 body) = inside at hnested ⊢
  rw [← String.toList_inj]
  simp [text_functionHead, hnested, hsuper, Function.lines, Instr.linesOfAll, Instr.lines,
    Text.unlines, indented_eq, indentation, constructorName, functionName, constructorMember]

theorem text_emit (definition : ClassDef Resolved) :
    (definition.emit tables).map (List.map textOfAll) =
      (definition.lower tables).map fun code =>
        (code.constructor :: code.methods).map fun function => Text.unlines function.lines := by
  rw [emit, lower]
  refine map_bind_eq definition.text_emitConstructor fun pieces function hconstructor => ?_
  refine map_bind_eq (map_mapM_eq fun method _ => method.text_emit definition.name)
    fun others functions hmethods => ?_
  exact congrArg Except.ok (congrArg₂ List.cons hconstructor hmethods)

end ClassDef

end

theorem Piece.text_ofTable (name : ClassName) (table : DispatchTable) :
    (Piece.ofTable name table).text = tableLine name table ++ "\n" := by
  rw [ofTable, text_line, indented_eq, ← String.toList_inj]
  simp [indentation, tableLine, tableName]

theorem Piece.textOfAll_flatten (parts : List (List Piece)) :
    textOfAll parts.flatten = String.join (parts.map textOfAll) := by
  induction parts with
  | nil => rfl
  | cons part rest ih => rw [List.flatten_cons, textOfAll_append, ih, List.map_cons,
      String.join_cons]

theorem unlines_flatMap {α : Type} (items : List α) (lines : α → List String) :
    Text.unlines (items.flatMap lines) =
      String.join (items.map fun item => Text.unlines (lines item)) := by
  induction items with
  | nil => rfl
  | cons item rest ih =>
      rw [List.map_cons, String.join_cons, ← ih]
      simp [Text.unlines]

theorem unlines_lines_classes (codes : List ClassCode) :
    Text.unlines (codes.flatMap ClassCode.lines) =
      String.join (codes.map fun code => (code.constructor :: code.methods).map
        fun function => Text.unlines function.lines).flatten := by
  have hlines : ClassCode.lines = fun code =>
      (code.constructor :: code.methods).flatMap Function.lines := by
    funext code
    rw [ClassCode.lines, List.flatMap_cons]
  rw [hlines, ← List.flatMap_assoc, unlines_flatMap, List.map_flatMap, List.flatMap_def]

/-- The pieces make the text of the script. -/
theorem Program.text_emit (program : Program Resolved) :
    program.emit.map Emission.text = program.lower.map Script.text := by
  rw [emit, lower]
  refine map_bind_same fun hierarchy => ?_
  have htables : ∀ name ∈ ClassName.root :: program.classes.map ClassDef.name,
      (do let table ← (DispatchTables.build hierarchy).table name
          return Piece.ofTable name table : Except LoweringError Piece).map Piece.text =
        (do let table ← (DispatchTables.build hierarchy).table name
            return (name, table) : Except LoweringError (ClassName × DispatchTable)).map
          fun entry => tableLine entry.1 entry.2 ++ "\n" := by
    intro name _
    refine map_bind_same fun table => ?_
    exact congrArg Except.ok (Piece.text_ofTable name table)
  refine map_bind_eq (map_mapM_eq htables) fun heads tables hheads => ?_
  refine map_bind_eq (map_mapM_eq fun definition _ => definition.text_emit)
    fun classes codes hclasses => ?_
  refine map_bind_eq (program.entry.text_emit false 0 []) fun entry code hentry => ?_
  simp only [Prod.map, id_eq, Prod.mk.injEq] at hentry
  refine congrArg Except.ok ?_
  have hclassTexts : Piece.textOfAll classes.flatten.flatten =
      Text.unlines (codes.flatMap ClassCode.lines) := by
    rw [Piece.textOfAll_flatten, List.map_flatten, hclasses, unlines_lines_classes]
  have htableTexts : Piece.textOfAll heads =
      Text.unlines (tables.map fun entry => tableLine entry.1 entry.2) := by
    rw [Piece.textOfAll, hheads, Text.unlines, List.map_map]
    rfl
  simp only [Emission.text, Emission.pieces, Piece.textOfAll_append, Piece.textOfAll_cons,
    Piece.text_code, hclassTexts, htableTexts, hentry.2]
  simp [Script.text, Script.lines, Stmt.textOf, Text.unlines, String.append_assoc]

end ClassLang
