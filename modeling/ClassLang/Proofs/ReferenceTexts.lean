import ClassLang.Proofs.Scoping
import ClassLang.Script.Lowering

/-!
# The text of references

What the code of a script refers to is written in its lines: the names of a table and of a
constructor where an object is made, a slot where a method is called, and after them the
arguments, each behind a comma.  What is referred to is written there as well: every table
with the names of its functions, and at its head each function with its parameters.

The text of a reference lies inside of that of an expression, and this inside of a line.
-/

namespace ClassLang

namespace Script

/-! ## References -/

/-- What a piece of code refers to, with the arguments that it passes. -/
inductive Link where
  | make (name : ClassName) (args : List Expr)
  | dispatch (target : Expr) (slot : Nat) (args : List Expr)

/-- Arguments behind other arguments. -/
def argumentText (args : List Expr) : String :=
  String.join (args.map fun arg => ", " ++ arg.text)

def Link.text : Link → String
  | make name args =>
    "makeObject(vtable_" ++ name.text ++ ", " ++ name.text ++ "_constructor" ++ argumentText args
      ++ ")"
  | dispatch target slot args =>
    "doCall(" ++ target.text ++ ", " ++ slot.repr ++ argumentText args ++ ")"

namespace Expr

mutual

def links : Expr → List Link
  | int _ | bool _ | read _ | receiver => []
  | binary _ lhs rhs => lhs.links ++ rhs.links
  | dispatch target slot args => .dispatch target slot args :: (target.links ++ linksOfAll args)
  | make name args => .make name args :: linksOfAll args

def linksOfAll : List Expr → List Link
  | [] => []
  | value :: rest => value.links ++ linksOfAll rest

end

theorem linksOfAll_eq_flatMap (values : List Expr) :
    linksOfAll values = values.flatMap links := by
  induction values with
  | nil => rfl
  | cons value rest ih => rw [linksOfAll, ih, List.flatMap_cons]

end Expr

namespace Instr

mutual

def exprs : Instr → List Expr
  | eval value | bind _ value | store _ value | returnValue value | log value => [value]
  | ifElse guard thenPart elsePart => guard :: (exprsOfAll thenPart ++ exprsOfAll elsePart)
  | whileLoop guard body => guard :: exprsOfAll body
  | returnVoid => []
  | block body => exprsOfAll body
  | superCall _ args => args

def exprsOfAll : List Instr → List Expr
  | [] => []
  | instr :: rest => instr.exprs ++ exprsOfAll rest

end

theorem exprsOfAll_unbraced (instr : Instr) : exprsOfAll instr.unbraced = instr.exprs := by
  cases instr <;> simp [unbraced, exprsOfAll, exprs]

theorem exprsOfAll_braced (body : List Instr) : exprsOfAll (braced body) = exprsOfAll body := by
  cases body <;> simp [braced, exprsOfAll, exprs]

end Instr

def exprs (script : Script) : List Expr :=
  script.functions.flatMap (fun function => Instr.exprsOfAll function.body) ++ script.entry.exprs

def links (script : Script) : List Link :=
  script.exprs.flatMap Expr.links

/-! ## Texts inside of texts -/

/-- A text is a part of another one. -/
def Within (part whole : String) : Prop :=
  part.toList <:+: whole.toList

section

variable {part inner whole : String}

theorem within_refl (whole : String) : Within whole whole :=
  List.infix_refl _

/-- What is a part of a text is one of any text that has it in the middle. -/
theorem Within.of_eq (hpart : Within part inner) (before after : String)
    (hwhole : whole = before ++ inner ++ after) : Within part whole := by
  apply List.IsInfix.trans hpart
  refine ⟨before.toList, after.toList, ?_⟩
  rw [hwhole, String.toList_append, String.toList_append]

theorem Within.indented (hpart : Within part whole) (depth : Nat) :
    Within part (Text.indented depth whole) :=
  hpart.of_eq (String.ofList (List.replicate (2 * depth) ' ')) ""
    (by rw [Text.indented, String.append_empty])

end

theorem append_constructorMember (name : ClassName) :
    name.text ++ "_" ++ constructorMember = name.text ++ "_constructor" := by
  rw [constructorMember, String.append_assoc]
  rfl

namespace Expr

theorem furtherText_eq (args : List Expr) : furtherText args = argumentText args := by
  induction args with
  | nil => rfl
  | cons arg rest ih =>
      rw [furtherText, ih, argumentText, argumentText, List.map_cons, String.join_cons]

theorem within_furtherText {args : List Expr} {arg : Expr} (harg : arg ∈ args) :
    Within arg.text (furtherText args) := by
  induction args with
  | nil => cases harg
  | cons first rest ih =>
      rcases List.mem_cons.mp harg with rfl | hlater
      · exact (within_refl _).of_eq ", " (furtherText rest) (by rw [furtherText])
      · exact (ih hlater).of_eq (", " ++ first.text) "" (by simp [furtherText])

theorem text_dispatch (target : Expr) (slot : Nat) (args : List Expr) :
    (dispatch target slot args).text =
      "doCall(" ++ target.text ++ ", " ++ slot.repr ++ argumentText args ++ ")" := by
  rw [text, furtherText_eq]

theorem text_make (name : ClassName) (args : List Expr) :
    (make name args).text =
      "makeObject(vtable_" ++ name.text ++ ", " ++ name.text ++ "_constructor"
        ++ argumentText args ++ ")" := by
  have htable : "makeObject(" ++ tableName name = "makeObject(vtable_" ++ name.text := by
    rw [tableName, ← String.append_assoc]
    rfl
  have hconstructor : constructorName name = name.text ++ "_constructor" :=
    append_constructorMember name
  rw [text, furtherText_eq, htable, hconstructor]
  simp only [String.append_assoc]

mutual

/-- A reference is written in the text of the expression. -/
theorem within_of_mem_links : (code : Expr) → ∀ link ∈ code.links, Within link.text code.text
  | int _ | bool _ | read _ | receiver => by simp [links]
  | binary op lhs rhs => by
      intro link hlink
      rw [links, List.mem_append] at hlink
      rcases hlink with hleft | hright
      · exact (within_of_mem_links lhs link hleft).of_eq "("
          (" " ++ op.text ++ " " ++ rhs.text ++ ")") (by simp [text, String.append_assoc])
      · exact (within_of_mem_links rhs link hright).of_eq ("(" ++ lhs.text ++ " " ++ op.text ++ " ")
          ")" (by simp [text])
  | dispatch target slot args => by
      intro link hlink
      rw [links, List.mem_cons, List.mem_append] at hlink
      rcases hlink with rfl | htarget | hargs
      · rw [text_dispatch]
        exact within_refl _
      · exact (within_of_mem_links target link htarget).of_eq "doCall("
          (", " ++ slot.repr ++ furtherText args ++ ")") (by simp [text, String.append_assoc])
      · exact (within_of_mem_linksOfAll args link hargs).of_eq
          ("doCall(" ++ target.text ++ ", " ++ slot.repr) ")" (by simp [text, String.append_assoc])
  | make name args => by
      intro link hlink
      rw [links, List.mem_cons] at hlink
      rcases hlink with rfl | hargs
      · rw [text_make]
        exact within_refl _
      · exact (within_of_mem_linksOfAll args link hargs).of_eq
          ("makeObject(" ++ tableName name ++ ", " ++ constructorName name) ")"
          (by simp [text, String.append_assoc])

theorem within_of_mem_linksOfAll :
    (args : List Expr) → ∀ link ∈ linksOfAll args, Within link.text (furtherText args)
  | [] => by simp [linksOfAll]
  | arg :: rest => by
      intro link hlink
      rw [linksOfAll, List.mem_append] at hlink
      rcases hlink with hhere | hlater
      · exact (within_of_mem_links arg link hhere).of_eq ", " (furtherText rest)
          (by rw [furtherText])
      · exact (within_of_mem_linksOfAll rest link hlater).of_eq (", " ++ arg.text) ""
          (by simp [furtherText])

end

end Expr

/-! ## Lines -/

/-- A text stands in one of the lines. -/
def Contains (script : Script) (part : String) : Prop :=
  ∃ line ∈ script.lines, Within part line

namespace Instr

/-- The one expression of an instruction that takes one line. -/
theorem exists_line_of_single (depth : Nat) {value other : Expr} (hother : other ∈ [value])
    (before after : String) :
    ∃ line ∈ [Text.indented depth (before ++ value.text ++ after)], Within other.text line := by
  cases List.mem_singleton.mp hother
  exact ⟨_, List.mem_cons_self, ((within_refl _).of_eq before after rfl).indented depth⟩

mutual

/-- An expression is written in a line of the instruction. -/
theorem exists_line_of_mem_exprs (depth : Nat) :
    (instr : Instr) → ∀ value ∈ instr.exprs, ∃ line ∈ instr.lines depth, Within value.text line
  | eval value => by
      intro other hother
      simpa [lines] using exists_line_of_single depth hother "" ";"
  | bind name value => fun _ hother =>
      exists_line_of_single depth hother ("let " ++ name.text ++ " = ") ";"
  | store place value => fun _ hother =>
      exists_line_of_single depth hother (place.text ++ " = ") ";"
  | returnValue value => fun _ hother => exists_line_of_single depth hother "return " ";"
  | log value => fun _ hother => exists_line_of_single depth hother "console.log(" ");"
  | returnVoid => by simp [exprs]
  | superCall parent args => by
      intro value hvalue
      rw [exprs] at hvalue
      have hargs := Expr.within_furtherText hvalue
      exact ⟨_, List.mem_cons_self, (hargs.of_eq (constructorName parent ++ "(self") ");"
        (by simp [String.append_assoc])).indented depth⟩
  | ifElse guard thenPart elsePart => by
      intro value hvalue
      rw [exprs, List.mem_cons, List.mem_append] at hvalue
      rcases hvalue with rfl | hthen | helse
      · exact ⟨_, List.mem_cons_self,
          ((within_refl _).of_eq "if (" ") \x7b" rfl).indented depth⟩
      · rcases exists_line_of_mem_exprsOfAll (depth + 1) thenPart value hthen with
          ⟨line, hline, hin⟩
        exact ⟨line, by simp [lines, hline], hin⟩
      · rcases exists_line_of_mem_exprsOfAll (depth + 1) elsePart value helse with
          ⟨line, hline, hin⟩
        exact ⟨line, by simp [lines, hline], hin⟩
  | whileLoop guard body => by
      intro value hvalue
      rw [exprs, List.mem_cons] at hvalue
      rcases hvalue with rfl | hbody
      · exact ⟨_, List.mem_cons_self,
          ((within_refl _).of_eq "while (" ") \x7b" rfl).indented depth⟩
      · rcases exists_line_of_mem_exprsOfAll (depth + 1) body value hbody with ⟨line, hline, hin⟩
        exact ⟨line, by simp [lines, hline], hin⟩
  | block body => by
      intro value hvalue
      rcases exists_line_of_mem_exprsOfAll (depth + 1) body value hvalue with ⟨line, hline, hin⟩
      exact ⟨line, by simp [lines, hline], hin⟩

theorem exists_line_of_mem_exprsOfAll (depth : Nat) :
    (body : List Instr) → ∀ value ∈ exprsOfAll body,
      ∃ line ∈ linesOfAll depth body, Within value.text line
  | [] => by simp [exprsOfAll]
  | instr :: rest => by
      intro value hvalue
      rw [exprsOfAll, List.mem_append] at hvalue
      rcases hvalue with hhere | hlater
      · rcases exists_line_of_mem_exprs depth instr value hhere with ⟨line, hline, hin⟩
        exact ⟨line, by simp [linesOfAll, hline], hin⟩
      · rcases exists_line_of_mem_exprsOfAll depth rest value hlater with ⟨line, hline, hin⟩
        exact ⟨line, by simp [linesOfAll, hline], hin⟩

end

end Instr

theorem Function.mem_lines_of_body {function : Function} {line : String}
    (hline : line ∈ Instr.linesOfAll 1 function.body) : line ∈ function.lines := by
  simp [lines, hline]

section

variable {script : Script} {code : ClassCode} {function : Function}

theorem constructor_infix_lines (hcode : code ∈ script.classes) :
    code.constructor.lines <:+: script.lines := by
  have hclass : code.constructor.lines <:+: code.lines :=
    ⟨[], code.methods.flatMap Function.lines, rfl⟩
  have hclasses : code.lines <:+: script.classes.flatMap ClassCode.lines :=
    List.infix_of_mem_flatten (List.mem_map_of_mem hcode)
  exact (hclass.trans hclasses).trans ⟨_, script.entry.lines 0, rfl⟩

theorem mem_lines_of_mem_functions {line : String} (hfunction : function ∈ script.functions)
    (hline : line ∈ function.lines) : line ∈ script.lines := by
  rcases List.mem_flatMap.mp hfunction with ⟨code, hcode, hmem⟩
  have hclass : line ∈ code.lines := by
    rcases List.mem_cons.mp hmem with rfl | hmethod
    · exact List.mem_append_left _ hline
    · exact List.mem_append_right _ (List.mem_flatMap.mpr ⟨function, hmethod, hline⟩)
  have hclasses : line ∈ script.classes.flatMap ClassCode.lines :=
    List.mem_flatMap.mpr ⟨code, hcode, hclass⟩
  exact List.mem_append_left _ (List.mem_append_right _ hclasses)

end

/-- Each reference of a script is written in one of its lines. -/
theorem contains_of_mem_links (script : Script) :
    ∀ link ∈ script.links, script.Contains link.text := by
  intro link hlink
  rcases List.mem_flatMap.mp hlink with ⟨value, hvalue, hmem⟩
  have hwithin := Expr.within_of_mem_links value link hmem
  rcases List.mem_append.mp hvalue with hmember | hentry
  · rcases List.mem_flatMap.mp hmember with ⟨function, hfunction, hbody⟩
    rcases Instr.exists_line_of_mem_exprsOfAll 1 function.body value hbody with ⟨line, hline, hin⟩
    have hlines := mem_lines_of_mem_functions hfunction (Function.mem_lines_of_body hline)
    exact ⟨line, hlines, hwithin.trans hin⟩
  · rcases Instr.exists_line_of_mem_exprs 0 script.entry value hentry with ⟨line, hline, hin⟩
    exact ⟨line, List.mem_append_right _ hline, hwithin.trans hin⟩

/-! ## Tables and functions -/

/-- What is written of each table: its class and the names of its functions, in the order
of the slots. -/
def listing (script : Script) : List (ClassName × List String) :=
  script.tables.map fun (name, table) =>
    (name, table.entries.map fun entry => entry.owner.text ++ "_" ++ entry.method.text)

/-- The line of a table. -/
def listed (name : ClassName) (functions : List String) : String :=
  "let vtable_" ++ name.text ++ " = [" ++ ", ".intercalate functions ++ "];"

theorem lines_eq_listing (script : Script) :
    script.lines =
      preamble ++ script.listing.map (fun (name, functions) => listed name functions) ++
        script.classes.flatMap ClassCode.lines ++ script.entry.lines 0 := by
  have hline (name : ClassName) (table : DispatchTable) :
      tableLine name table = listed name (table.entries.map entryName) := by
    have hstart : "let " ++ tableName name = "let vtable_" ++ name.text := by
      rw [tableName, ← String.append_assoc]
      rfl
    rw [tableLine, hstart, listed]
  simp only [lines, hline, listing, List.map_map]
  rfl

/-- The beginning of a function with the given name and parameters. -/
def header (name : String) (params : List VarName) : String :=
  "function " ++ name ++ "(" ++ ", ".intercalate ("self" :: params.map VarName.text) ++ ") \x7b"

def Declares (script : Script) (name : String) (params : List VarName) : Prop :=
  ∃ line ∈ script.lines, ∃ rest, line = header name params ++ rest

theorem declares_of_mem_functions {script : Script} {function : Function}
    (hfunction : function ∈ script.functions) :
    script.Declares (function.owner.text ++ "_" ++ function.member) function.params :=
  ⟨_, mem_lines_of_mem_functions hfunction List.mem_cons_self, "", String.append_empty.symm⟩

/-- The preamble has the constructor of the implicit root. -/
theorem declares_root (script : Script) : script.Declares "Object_constructor" [] := by
  refine ⟨"function Object_constructor(self) \x7b\x7d", ?_, "\x7d", by decide⟩
  have hpreamble : "function Object_constructor(self) \x7b\x7d" ∈ preamble := by decide
  simp only [lines, List.append_assoc]
  exact List.mem_append_left _ hpreamble

end Script

end ClassLang
