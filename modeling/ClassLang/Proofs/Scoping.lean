import ClassLang.Script
import ClassLang.Typing.Scope
import ClassLang.Proofs.Erasure

/-!
# Scoping in programs and in scripts

In a program a name stands for the latest parameter or declaration of that name
before it.  A declaration counts from the statement after it, so that its initial
value still uses what the name stood for before.

In a script a binding covers the whole of its block, the instructions before it and
its own value included.  Until it has been reached the name cannot be used.

Both are described by what every use of a variable, and of the receiver, stands
for, in the order of the text.  What introduces names is numbered in the same way on
both sides: parameters from the left, declarations in the order of the text.  The
receiver, which a function of a script takes before its parameters, has no number.
-/

namespace ClassLang

/-- What introduces a name in a function. -/
inductive Binder where
  | parameter (index : Nat)
  | declaration (number : Nat)
deriving DecidableEq

inductive Access where
  | read | write
deriving DecidableEq

/-! ## Programs -/

inductive Subject where
  | this
  | var (name : VarName) (access : Access)
deriving DecidableEq

/-- The parameters and the variables declared before a point, the latest first. -/
abbrev Visible := List (VarName × Binder)

/-- What a name stands for, unless it is that of an instance variable. -/
def Visible.resolve? (name : VarName) : Visible → Option Binder
  | [] => none
  | (declared, binder) :: earlier =>
    if name = declared then some binder else resolve? name earlier

/-- What surrounds a use.  The declaration is the one whose initial value the use is
a part of. -/
structure Point where
  visible : Visible
  declaring : Option (VarName × Binder)

structure Occurrence where
  subject : Subject
  point : Point

variable {κ : Type}

namespace Exp

mutual

def subjects : Exp κ → List Subject
  | int _ | bool _ => []
  | var name => [.var name .read]
  | this => [.this]
  | binary _ lhs rhs => lhs.subjects ++ rhs.subjects
  | call receiver _ args _ => receiver.subjects ++ subjectsOfAll args
  | new _ args => subjectsOfAll args

def subjectsOfAll : List (Exp κ) → List Subject
  | [] => []
  | value :: rest => value.subjects ++ subjectsOfAll rest

end

def occurrences (point : Point) (value : Exp κ) : List Occurrence :=
  value.subjects.map (Occurrence.mk · point)

def occurrencesOfAll (point : Point) (values : List (Exp κ)) : List Occurrence :=
  (subjectsOfAll values).map (Occurrence.mk · point)

end Exp

namespace Stmt

mutual

def declarations : Stmt κ → List VarName
  | declare var _ => [var.name]
  | ifElse _ thenArm elseArm => thenArm.declarations ++ elseArm.declarations
  | whileLoop _ body => body.declarations
  | block body => declarationsOfAll body
  | _ => []

def declarationsOfAll : List (Stmt κ) → List VarName
  | [] => []
  | stmt :: rest => stmt.declarations ++ declarationsOfAll rest

end

def extend (visible : Visible) (number : Nat) (stmt : Stmt κ) : Visible :=
  match stmt.declared? with
  | some var => (var.name, .declaration number) :: visible
  | none => visible

mutual

/-- The uses in a statement, whose first declaration has the given number. -/
def occurrences (visible : Visible) (number : Nat) : Stmt κ → List Occurrence
  | exp value | returnValue value | println value => value.occurrences ⟨visible, none⟩
  -- The variable is not visible in its own initial value.
  | declare var value => value.occurrences ⟨visible, some (var.name, .declaration number)⟩
  | assign target value =>
    ⟨.var target .write, ⟨visible, none⟩⟩ :: value.occurrences ⟨visible, none⟩
  | ifElse guard thenArm elseArm =>
    guard.occurrences ⟨visible, none⟩ ++
      (thenArm.occurrences visible number ++
        elseArm.occurrences visible (number + thenArm.declarations.length))
  | whileLoop guard body =>
    guard.occurrences ⟨visible, none⟩ ++ body.occurrences visible number
  | returnVoid => []
  | block body => occurrencesOfAll visible number body

def occurrencesOfAll (visible : Visible) (number : Nat) : List (Stmt κ) → List Occurrence
  | [] => []
  | stmt :: rest =>
    stmt.occurrences visible number ++
      occurrencesOfAll (stmt.extend visible number) (number + stmt.declarations.length) rest

end

end Stmt

/-- A constructor, a method or the entry point.  A constructor hands arguments to
the parent before it runs. -/
structure Routine (κ : Type) where
  params : List VarDec
  superArgs : List (Exp κ)
  body : List (Stmt κ)

namespace Routine

def visible (routine : Routine κ) : Visible :=
  (routine.params.zipIdx.map fun (param, index) => (param.name, .parameter index)).reverse

def declarations (routine : Routine κ) : List VarName :=
  Stmt.declarationsOfAll routine.body

def occurrences (routine : Routine κ) : List Occurrence :=
  Exp.occurrencesOfAll ⟨routine.visible, none⟩ routine.superArgs ++
    Stmt.occurrencesOfAll routine.visible 0 routine.body

end Routine

def MethodDef.routine (method : MethodDef κ) : Routine κ :=
  ⟨method.params, [], [method.body]⟩

def ClassDef.routines (definition : ClassDef κ) : List (Routine κ) :=
  ⟨definition.params, definition.superArgs, definition.body⟩
    :: definition.methods.map MethodDef.routine

namespace Program

def members (program : Program κ) : List (Routine κ) :=
  program.classes.flatMap ClassDef.routines

def entryRoutine (program : Program κ) : Routine κ :=
  ⟨[], [], [program.entry]⟩

def routines (program : Program κ) : List (Routine κ) :=
  program.members ++ [program.entryRoutine]

end Program

/-! ## Scripts -/

namespace Script

/-- What a name in a script stands for.  A name that is covered by a binding which
was not reached yet is unready: using it fails. -/
inductive Meaning where
  | receiver
  | value (binder : Binder)
  | unready (binder : Binder)
  | free
deriving DecidableEq

/-- The names bound at a point of a script, the innermost first. -/
abbrev Bindings := List (VarName × Meaning)

def Bindings.meaning (name : VarName) : Bindings → Meaning
  | [] => .free
  | (bound, meaning) :: outer =>
    if name = bound then meaning else Bindings.meaning name outer

def receiverName : VarName := ⟨"self"⟩

/-- A use of a variable or of the receiver in a script, with what the name that it
is written with stands for.  A member is written behind the name of the receiver. -/
inductive Mention where
  | bare (name : VarName) (access : Access) (meaning : Meaning)
  | receiver (meaning : Meaning)
  | member (name : VarName) (access : Access) (meaning : Meaning)
deriving DecidableEq

def Place.mention (bindings : Bindings) (access : Access) : Place → Mention
  | binding name => .bare name access (bindings.meaning name)
  | member name => .member name access (bindings.meaning receiverName)

namespace Expr

mutual

def mentions (bindings : Bindings) : Expr → List Mention
  | int _ | bool _ => []
  | read place => [place.mention bindings .read]
  | receiver => [.receiver (bindings.meaning receiverName)]
  | binary _ lhs rhs => lhs.mentions bindings ++ rhs.mentions bindings
  | dispatch target _ args => target.mentions bindings ++ mentionsOfAll bindings args
  | make _ args => mentionsOfAll bindings args

def mentionsOfAll (bindings : Bindings) : List Expr → List Mention
  | [] => []
  | value :: rest => value.mentions bindings ++ mentionsOfAll bindings rest

end

end Expr

namespace Instr

/-- The name that an instruction binds in its own block. -/
def bound? : Instr → Option VarName
  | bind name _ => some name
  | _ => none

mutual

def lets : Instr → List VarName
  | bind name _ => [name]
  | ifElse _ thenPart elsePart => letsOfAll thenPart ++ letsOfAll elsePart
  | whileLoop _ body => letsOfAll body
  | block body => letsOfAll body
  | _ => []

def letsOfAll : List Instr → List VarName
  | [] => []
  | instr :: rest => instr.lets ++ letsOfAll rest

end

/-- What the instructions of a block bind in it, before any of them has run. -/
def hoisted (number : Nat) : List Instr → Bindings
  | [] => []
  | instr :: rest =>
    let others := hoisted (number + instr.lets.length) rest
    match instr.bound? with
    | some name => (name, .unready (.declaration number)) :: others
    | none => others

/-- The bindings after an instruction has run. -/
def reached (bindings : Bindings) (number : Nat) (instr : Instr) : Bindings :=
  match instr.bound? with
  -- It belongs to the innermost block, so it hides nothing but its own unready entry.
  | some name => (name, .value (.declaration number)) :: bindings
  | none => bindings

mutual

/-- The uses in an instruction, whose first binding has the given number. -/
def mentions (bindings : Bindings) (number : Nat) : Instr → List Mention
  | eval value | bind _ value | returnValue value | log value => value.mentions bindings
  | store place value => place.mention bindings .write :: value.mentions bindings
  | ifElse guard thenPart elsePart =>
    let second := number + (letsOfAll thenPart).length
    guard.mentions bindings ++
      (mentionsOfAll (hoisted number thenPart ++ bindings) number thenPart ++
        mentionsOfAll (hoisted second elsePart ++ bindings) second elsePart)
  | whileLoop guard body =>
    guard.mentions bindings ++ mentionsOfAll (hoisted number body ++ bindings) number body
  | returnVoid => []
  | block body => mentionsOfAll (hoisted number body ++ bindings) number body
  | superCall _ args => Expr.mentionsOfAll bindings args

def mentionsOfAll (bindings : Bindings) (number : Nat) : List Instr → List Mention
  | [] => []
  | instr :: rest =>
    instr.mentions bindings number ++
      mentionsOfAll (instr.reached bindings number) (number + instr.lets.length) rest

end

def blockMentions (bindings : Bindings) (number : Nat) (body : List Instr) : List Mention :=
  mentionsOfAll (hoisted number body ++ bindings) number body

end Instr

/-- How names are introduced and used in a function or in the instruction that runs
the program. -/
structure Naming where
  params : List VarName
  lets : List VarName
  mentions : List Mention

def receiverBindings : Bindings := [(receiverName, .receiver)]

/-- What a function binds for its body.  Of two parameters with the same name the
last one counts. -/
def Function.bindings (function : Function) : Bindings :=
  (function.params.zipIdx.map fun (name, index) => (name, .value (.parameter index))).reverse
    ++ receiverBindings

def Function.naming (function : Function) : Naming :=
  ⟨function.params, Instr.letsOfAll function.body,
    Instr.blockMentions function.bindings 0 function.body⟩

def functions (script : Script) : List Function :=
  script.classes.flatMap fun code => code.constructor :: code.methods

def entryNaming (script : Script) : Naming :=
  ⟨[], script.entry.lets, Instr.blockMentions [] 0 [script.entry]⟩

/-- The functions and, at the end, the instruction that runs the program. -/
def namings (script : Script) : List Naming :=
  script.functions.map Function.naming ++ [script.entryNaming]

end Script

end ClassLang
