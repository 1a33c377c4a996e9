import ClassLang.Proofs.NameResolution
import ClassLang.Proofs.Pointwise
import ClassLang.Proofs.ReferenceTexts

/-!
# What scripts refer to is in them

The functions and the tables of a script are written from the classes, and what the
code refers to comes from the expressions.  The compiler does not compare the two.  It
may leave this to the checker: an object is only made of a class that exists, and every
call has as many arguments as what is called has parameters.

The references of a program and those of its script are listed in the order of the
text.  A script that comes from a checked program has in its lines what each of them
needs: the table and the constructor of the class that is made, and in the table of the
static class of a receiver the slot that is called.
-/

namespace ClassLang

open Script

/-! ## References -/

/-- What an expression asks for, with the number of arguments. -/
inductive Reference where
  | construct (name : ClassName) (count : Nat)
  | call (receiver : ClassName) (method : MethodName) (count : Nat)

namespace Exp

mutual

def references : Exp Resolved → List Reference
  | int _ | bool _ | var _ | this => []
  | binary _ lhs rhs => lhs.references ++ rhs.references
  | call receiver method args name =>
    .call name method args.length :: (receiver.references ++ referencesOfAll args)
  | new name args => .construct name args.length :: referencesOfAll args

def referencesOfAll : List (Exp Resolved) → List Reference
  | [] => []
  | value :: rest => value.references ++ referencesOfAll rest

end

end Exp

namespace Stmt

variable {κ : Type}

mutual

def exps : Stmt κ → List (Exp κ)
  | exp value | declare _ value | assign _ value | returnValue value | println value => [value]
  | ifElse guard thenArm elseArm => guard :: (thenArm.exps ++ elseArm.exps)
  | whileLoop guard body => guard :: body.exps
  | returnVoid => []
  | block body => expsOfAll body

def expsOfAll : List (Stmt κ) → List (Exp κ)
  | [] => []
  | stmt :: rest => stmt.exps ++ expsOfAll rest

end

end Stmt

def Routine.exps {κ : Type} (routine : Routine κ) : List (Exp κ) :=
  routine.superArgs ++ Stmt.expsOfAll routine.body

def Program.references (program : Program Resolved) : List Reference :=
  (program.routines.flatMap Routine.exps).flatMap Exp.references

/-- A reference of the program, and what its script has for it.  As many arguments are
written as the program passes. -/
inductive Linked (hierarchy : Hierarchy Plain) (script : Script) : Reference → Link → Prop where
  | construct {name : ClassName} {functions : List String} {args : List Expr} :
      (name, functions) ∈ script.listing →
      script.Declares (name.text ++ "_constructor")
        ((hierarchy.constructorParams name).map VarDec.name) →
      args.length = (hierarchy.constructorParams name).length →
      Linked hierarchy script (.construct name args.length) (.make name args)
  | call {receiver : ClassName} {method : MethodName} {functions : List String} {target : Expr}
      {slot : Nat} {args : List Expr} {found : OwnedMethod Plain} :
      (receiver, functions) ∈ script.listing → slot < functions.length →
      hierarchy.method? receiver method = some found →
      args.length = found.definition.params.length →
      Linked hierarchy script (.call receiver method args.length) (.dispatch target slot args)

/-- The constructor of a class first calls that of the parent, which is in the script and
takes as many arguments as are passed after the receiver. -/
def CallsParent (hierarchy : Hierarchy Plain) (script : Script) (definition : ClassDef Plain)
    (code : ClassCode) : Prop :=
  ∃ args rest, code.constructor.lines =
      header (definition.name.text ++ "_constructor") (definition.params.map VarDec.name) ::
        ("  " ++ definition.parent.text ++ "_constructor(self" ++ argumentText args ++ ");") ::
        rest ∧
    script.Declares (definition.parent.text ++ "_constructor")
      ((hierarchy.constructorParams definition.parent).map VarDec.name) ∧
    args.length = (hierarchy.constructorParams definition.parent).length

/-- What a table names is a method of a class of the program, and in the script. -/
def Provides (program : Program Plain) (script : Script) (name : String) : Prop :=
  ∃ definition ∈ program.classes, ∃ method ∈ definition.methods,
    name = definition.name.text ++ "_" ++ method.name.text ∧
    script.Declares name (method.params.map VarDec.name)

/-- A script has a table and a constructor for every class. -/
structure Supplies (hierarchy : Hierarchy Plain) (tables : DispatchTables) (script : Script) :
    Prop where
  table : ∀ name, hierarchy.contains name = true →
    ∃ table, (name, table) ∈ script.tables ∧ tables.get? name = some table
  constructor : ∀ name, hierarchy.contains name = true →
    script.Declares (name.text ++ "_constructor")
      ((hierarchy.constructorParams name).map VarDec.name)

/-! ## Expressions -/

section

variable {hierarchy : Hierarchy Plain} {tables : DispatchTables} {script : Script}
  {context : Context} {scope : Scope} {locals : Locals}

theorem DispatchTables.slot_eq_ok_iff {name : ClassName} {method : MethodName} {slot : Nat} :
    tables.slot name method = .ok slot ↔
      ∃ table, tables.get? name = some table ∧ table.slot? method = some slot := by
  unfold DispatchTables.slot DispatchTables.table
  cases tables.get? name with
  | none => simp [bind, Except.bind]
  | some table => cases hslot : table.slot? method <;> simp [bind, Except.bind, hslot]

theorem Hierarchy.contains_of_method? {name : ClassName} {method : MethodName}
    {found : OwnedMethod Plain} (hfound : hierarchy.method? name method = some found) :
    hierarchy.contains name = true := by
  cases hget : hierarchy.get? name with
  | none => simp [method?_of_get?_eq_none hget] at hfound
  | some definition => exact contains_iff.mpr (.inr ⟨definition, hget⟩)

theorem Script.mem_listing_of_mem_tables {name : ClassName} {table : DispatchTable}
    (hmem : (name, table) ∈ script.tables) :
    (name, table.entries.map fun entry => entry.owner.text ++ "_" ++ entry.method.text) ∈
      script.listing :=
  List.mem_map.mpr ⟨(name, table), hmem, rfl⟩

theorem Supplies.linked_call (hsupplies : Supplies hierarchy tables script) {receiver : ClassName}
    {method : MethodName} {slot : Nat} {found : OwnedMethod Plain} (target : Expr)
    {args : List Expr} (hslot : tables.slot receiver method = .ok slot)
    (hfound : hierarchy.method? receiver method = some found)
    (hlength : args.length = found.definition.params.length) :
    Linked hierarchy script (.call receiver method args.length) (.dispatch target slot args) := by
  rcases DispatchTables.slot_eq_ok_iff.mp hslot with ⟨built, hbuilt, hserves⟩
  rcases hsupplies.table receiver (Hierarchy.contains_of_method? hfound) with ⟨table, hmem, hget⟩
  have hsame : built = table := Option.some.inj (hbuilt.symm.trans hget)
  subst hsame
  apply Linked.call (mem_listing_of_mem_tables hmem) _ hfound hlength
  rw [List.length_map]
  exact DispatchTable.slot?_lt_size hserves

namespace Exp

def Typed {κ : Type} [Note κ] (hierarchy : Hierarchy Plain) (value : Exp κ) : Prop :=
  ∃ context scope ty, value.HasType hierarchy.classes context scope ty

/-- The code is what the expression becomes, whatever is local where it stands. -/
def CompilesTo (tables : DispatchTables) (value : Exp Resolved) (code : Expr) : Prop :=
  ∃ locals, value.lower tables locals = .ok code

theorem compilesTo_lowerAll {values : List (Exp Resolved)} {codes : List Expr}
    (hlower : lowerAll tables locals values = .ok codes) :
    List.Forall₂ (CompilesTo tables) values codes := by
  induction values generalizing codes with
  | nil =>
      cases hlower
      exact .nil
  | cons value rest ih =>
      simp only [lowerAll, bind_eq_ok_iff, pure_eq_ok_iff] at hlower
      rcases hlower with ⟨first, hfirst, others, hothers, rfl⟩
      exact .cons ⟨locals, hfirst⟩ (ih hothers)

theorem Fit.typed {κ : Type} [Note κ] {args : List (Exp κ)} {params : List VarDec}
    (hfit : Fit hierarchy.classes context scope args params) :
    ∀ arg ∈ args, arg.Typed hierarchy := by
  induction args generalizing params with
  | nil => simp
  | cons arg rest ih =>
      cases hfit with
      | @cons _ _ _ _ actual htype _ hrest =>
          exact List.forall_mem_cons.mpr ⟨⟨context, scope, actual, htype⟩, ih hrest⟩

theorem referencesOfAll_eq_flatMap (values : List (Exp Resolved)) :
    referencesOfAll values = values.flatMap references := by
  induction values with
  | nil => rfl
  | cons value rest ih => rw [referencesOfAll, ih, List.flatMap_cons]

theorem linked_args {args : List (Exp Resolved)} {params : List VarDec} {codes : List Expr}
    (hargs : ∀ arg ∈ args, ∀ code, arg.Typed hierarchy → arg.CompilesTo tables code →
      List.Forall₂ (Linked hierarchy script) arg.references code.links)
    (hfit : Fit hierarchy.classes context scope args params)
    (hlower : lowerAll tables locals args = .ok codes) :
    List.Forall₂ (Linked hierarchy script) (referencesOfAll args) (Expr.linksOfAll codes) := by
  rw [referencesOfAll_eq_flatMap, Expr.linksOfAll_eq_flatMap]
  apply forall₂_flatMap (compilesTo_lowerAll hlower)
  intro arg harg code hcode
  exact hargs arg harg code (hfit.typed arg harg) hcode

/-- Each reference of a typed expression is satisfied in the code that it becomes. -/
theorem Typed.linked (hsupplies : Supplies hierarchy tables script) {value : Exp Resolved}
    {code : Expr} (htyped : value.Typed hierarchy) (hcompiles : value.CompilesTo tables code) :
    List.Forall₂ (Linked hierarchy script) value.references code.links := by
  induction value generalizing code with
  | int | bool | var | this =>
      rcases hcompiles with ⟨locals, hlower⟩
      cases hlower
      exact .nil
  | binary op lhs rhs ihLhs ihRhs =>
      rcases hcompiles with ⟨locals, hlower⟩
      simp only [lower, bind_eq_ok_iff, pure_eq_ok_iff] at hlower
      rcases hlower with ⟨left, hleft, right, hright, rfl⟩
      rcases htyped with ⟨context, scope, ty, htype⟩
      cases htype with
      | binary hlhs hrhs =>
          have hleftLinked := ihLhs ⟨context, scope, .int, hlhs⟩ ⟨locals, hleft⟩
          have hrightLinked := ihRhs ⟨context, scope, .int, hrhs⟩ ⟨locals, hright⟩
          exact List.rel_append hleftLinked hrightLinked
  | call receiver method args note ihReceiver ihArgs =>
      rcases hcompiles with ⟨locals, hlower⟩
      simp only [lower, bind_eq_ok_iff, pure_eq_ok_iff] at hlower
      rcases hlower with ⟨slot, hslot, target, htarget, codes, hcodes, rfl⟩
      rcases htyped with ⟨context, scope, ty, htype⟩
      cases htype with
      | @call _ _ _ _ owner _ hreceiver hmethod hfit hnote =>
          have hstatic : note = owner := hnote
          subst hstatic
          rcases Hierarchy.hasMethod_iff.mp hmethod with ⟨owner, hfound⟩
          have hlength := (compilesTo_lowerAll hcodes).length_eq
          have hhere := hsupplies.linked_call target hslot hfound
            (hlength.symm.trans hfit.length_eq)
          have htargetLinked := ihReceiver ⟨context, scope, _, hreceiver⟩ ⟨locals, htarget⟩
          have hargs := linked_args (fun arg harg _ => ihArgs arg harg) hfit hcodes
          rw [references, Expr.links, hlength]
          exact .cons hhere (List.rel_append htargetLinked hargs)
  | new name args ihArgs =>
      rcases hcompiles with ⟨locals, hlower⟩
      simp only [lower, bind_eq_ok_iff, pure_eq_ok_iff] at hlower
      rcases hlower with ⟨codes, hcodes, rfl⟩
      rcases htyped with ⟨context, scope, ty, htype⟩
      cases htype with
      | new htakes hfit =>
          rcases Hierarchy.constructorTakes_iff.mp htakes with ⟨hcontains, rfl⟩
          rcases hsupplies.table name hcontains with ⟨table, hmem, -⟩
          have hlength := (compilesTo_lowerAll hcodes).length_eq
          have hhere := Linked.construct (mem_listing_of_mem_tables hmem)
            (hsupplies.constructor name hcontains) (hlength.symm.trans hfit.length_eq)
          have hargs := linked_args (fun arg harg _ => ihArgs arg harg) hfit hcodes
          rw [references, Expr.links, hlength]
          exact .cons hhere hargs

end Exp

/-! ## Statements -/

namespace Stmt

theorem compilesTo_stmts {body : List (Stmt Resolved)} {codes : List Instr}
    (hstmts : ∀ stmt ∈ body, ∀ locals code, stmt.lower tables locals = .ok code →
      List.Forall₂ (Exp.CompilesTo tables) stmt.exps code.exprs)
    (hlower : lowerAll tables locals body = .ok codes) :
    List.Forall₂ (Exp.CompilesTo tables) (expsOfAll body) (Instr.exprsOfAll codes) := by
  induction body generalizing locals codes with
  | nil =>
      cases hlower
      exact .nil
  | cons stmt rest ih =>
      simp only [lowerAll, bind_eq_ok_iff, pure_eq_ok_iff] at hlower
      rcases hlower with ⟨first, hfirst, others, hothers, rfl⟩
      rw [List.forall_mem_cons] at hstmts
      rw [expsOfAll, Instr.exprsOfAll, Instr.exprsOfAll_braced]
      exact List.rel_append (hstmts.1 locals first hfirst) (ih hstmts.2 hothers)

theorem compilesTo_lower {stmt : Stmt Resolved} {code : Instr}
    (hlower : stmt.lower tables locals = .ok code) :
    List.Forall₂ (Exp.CompilesTo tables) stmt.exps code.exprs := by
  induction stmt generalizing locals code with
  | exp | declare | assign | returnValue | println =>
      simp only [lower, bind_eq_ok_iff, pure_eq_ok_iff] at hlower
      rcases hlower with ⟨value, hvalue, rfl⟩
      exact .cons ⟨locals, hvalue⟩ .nil
  | returnVoid =>
      cases hlower
      exact .nil
  | ifElse guard thenArm elseArm ihThen ihElse =>
      simp only [lower, bind_eq_ok_iff, pure_eq_ok_iff] at hlower
      rcases hlower with ⟨condition, hcondition, thenPart, hthen, elsePart, helse, rfl⟩
      rw [exps, Instr.exprs, Instr.exprsOfAll_unbraced, Instr.exprsOfAll_unbraced]
      exact .cons ⟨locals, hcondition⟩ (List.rel_append (ihThen hthen) (ihElse helse))
  | whileLoop guard body ih =>
      simp only [lower, bind_eq_ok_iff, pure_eq_ok_iff] at hlower
      rcases hlower with ⟨condition, hcondition, inner, hinner, rfl⟩
      rw [exps, Instr.exprs, Instr.exprsOfAll_unbraced]
      exact .cons ⟨locals, hcondition⟩ (ih hinner)
  | block body ih =>
      simp only [lower, bind_eq_ok_iff, pure_eq_ok_iff] at hlower
      rcases hlower with ⟨codes, hcodes, rfl⟩
      rw [exps, Instr.exprs]
      exact compilesTo_stmts (fun stmt hstmt _ _ => ih stmt hstmt) hcodes

section

variable {κ : Type} [Note κ]

theorem typed_of_seqWellTyped {body : List (Stmt κ)}
    (hstmts : ∀ stmt ∈ body, ∀ scope, stmt.WellTyped hierarchy.classes context scope →
      ∀ value ∈ stmt.exps, value.Typed hierarchy)
    (htyped : SeqWellTyped hierarchy.classes context scope body) :
    ∀ value ∈ expsOfAll body, value.Typed hierarchy := by
  induction body generalizing scope with
  | nil => simp [expsOfAll]
  | cons stmt rest ih =>
      rw [List.forall_mem_cons] at hstmts
      rcases seqWellTyped_cons_iff.mp htyped with ⟨hstmt, hrest⟩
      rw [expsOfAll, List.forall_mem_append]
      exact ⟨hstmts.1 scope hstmt, ih hstmts.2 hrest⟩

theorem typed_of_wellTyped {stmt : Stmt κ}
    (htyped : stmt.WellTyped hierarchy.classes context scope) :
    ∀ value ∈ stmt.exps, value.Typed hierarchy := by
  induction stmt generalizing scope with
  | exp value =>
      cases htyped with
      | exp htype => exact List.forall_mem_singleton.mpr ⟨context, scope, _, htype⟩
  | println value =>
      cases htyped with
      | println htype => exact List.forall_mem_singleton.mpr ⟨context, scope, _, htype⟩
  | declare var value =>
      cases htyped with
      | declare _ hused =>
          rcases hused with ⟨actual, htype, -⟩
          exact List.forall_mem_singleton.mpr ⟨context, scope, actual, htype⟩
  | assign target value =>
      cases htyped with
      | assign _ hused =>
          rcases hused with ⟨actual, htype, -⟩
          exact List.forall_mem_singleton.mpr ⟨context, scope, actual, htype⟩
  | returnValue value =>
      cases htyped with
      | returnValue _ hused =>
          rcases hused with ⟨actual, htype, -⟩
          exact List.forall_mem_singleton.mpr ⟨context, scope, actual, htype⟩
  | returnVoid => simp [exps]
  | ifElse guard thenArm elseArm ihThen ihElse =>
      cases htyped with
      | ifElse hguard hthen helse =>
          rw [exps, List.forall_mem_cons, List.forall_mem_append]
          exact ⟨⟨context, scope, _, hguard⟩, ihThen hthen, ihElse helse⟩
  | whileLoop guard body ih =>
      cases htyped with
      | whileLoop hguard hbody =>
          rw [exps, List.forall_mem_cons]
          exact ⟨⟨context, scope, _, hguard⟩, ih hbody⟩
  | block body ih =>
      cases htyped with
      | block hbody => exact typed_of_seqWellTyped (fun stmt hstmt _ => ih stmt hstmt) hbody

end

end Stmt

end

/-! ## Tables -/

section

variable {κ : Type} {entry : DispatchEntry}

theorem DispatchTable.mem_entries_define {table : DispatchTable} {owner : ClassName}
    {method : MethodName} (hentry : entry ∈ (table.define owner method).entries) :
    entry ∈ table.entries ∨ entry = ⟨method, owner⟩ := by
  unfold define at hentry
  split at hentry
  next =>
    rcases List.mem_map.mp hentry with ⟨old, hold, hnew⟩
    by_cases hsame : old.method = method
    · rw [if_pos hsame] at hnew
      exact .inr hnew.symm
    · rw [if_neg hsame] at hnew
      exact .inl (hnew ▸ hold)
  next => simpa using hentry

theorem DispatchTable.mem_entries_extend {table : DispatchTable} {definition : ClassDef κ}
    (hentry : entry ∈ (table.extend definition).entries) :
    entry ∈ table.entries ∨
      entry.owner = definition.name ∧
        ∃ method ∈ definition.methods, method.name = entry.method := by
  unfold extend at hentry
  generalize definition.methods = methods at hentry ⊢
  induction methods generalizing table with
  | nil => exact .inl hentry
  | cons first rest ih =>
      rcases ih hentry with hdefined | ⟨howner, method, hmethod, hname⟩
      · rcases mem_entries_define hdefined with hold | rfl
        · exact .inl hold
        · exact .inr ⟨rfl, first, List.mem_cons_self, rfl⟩
      · exact .inr ⟨howner, method, List.mem_cons_of_mem first hmethod, hname⟩

/-- Every slot calls a method of a class. -/
theorem Hierarchy.mem_entries_table {hierarchy : Hierarchy κ} {name : ClassName}
    (hentry : entry ∈ (hierarchy.table name).entries) :
    ∃ definition ∈ hierarchy.classes, definition.name = entry.owner ∧
      ∃ method ∈ definition.methods, method.name = entry.method := by
  induction name using hierarchy.parent_induction with
  | undeclared name hget =>
      rw [table_of_get?_eq_none hget] at hentry
      cases hentry
  | declared name definition hget ih =>
      rw [table_of_get?_eq_some hget] at hentry
      rcases DispatchTable.mem_entries_extend hentry with hinherited | ⟨howner, hmethod⟩
      · exact ih hinherited
      · exact ⟨definition, mem_of_get? hget, howner.symm, hmethod⟩

end

/-! ## Programs -/

/-- What a program is compiled to, part by part. -/
structure Program.CompilesTo (program : Program Resolved) (hierarchy : Hierarchy Resolved)
    (script : Script) : Prop where
  tables : script.tables =
    (ClassName.root :: program.classes.map ClassDef.name).map
      fun name => (name, hierarchy.table name)
  classes : List.Forall₂
    (fun definition code => definition.lower (.build hierarchy) = .ok code)
    program.classes script.classes
  entry : program.entry.lower (.build hierarchy) [] = .ok script.entry

theorem Program.compilesTo_of_lower {program : Program Resolved} {script : Script}
    (hlower : program.lower = .ok script) :
    ∃ hierarchy, hierarchy.classes = program.classes ∧ program.CompilesTo hierarchy script := by
  simp only [lower, bind_eq_ok_iff, pure_eq_ok_iff, mapError_eq_ok_iff] at hlower
  rcases hlower with ⟨hierarchy, hhierarchy, tables, htables, classes, hclasses, entry, hentry,
    rfl⟩
  refine ⟨hierarchy, Hierarchy.ofClasses_eq_ok_iff.mp hhierarchy, ?_, ?_, hentry⟩
  · have hnamed (name : ClassName) (result : ClassName × DispatchTable)
        (hresult : (do
          let table ← (DispatchTables.build hierarchy).table name
          return (name, table)) = Except.ok result) :
        id result = (name, hierarchy.table name) := by
      simp only [bind_eq_ok_iff, pure_eq_ok_iff, DispatchTables.table,
        DispatchTables.get?_build] at hresult
      rcases hresult with ⟨table, htable, rfl⟩
      by_cases hcontains : hierarchy.contains name = true
      · rw [if_pos hcontains] at htable
        cases htable
        rfl
      · rw [if_neg hcontains] at htable
        cases htable
    simpa using map_of_mapM hnamed htables
  · exact forall₂_of_mapM hclasses

section

variable {tables : DispatchTables} {hierarchy : Hierarchy Plain}

theorem MethodDef.compilesTo_lower {owner : ClassName} {method : MethodDef Resolved}
    {function : Function} (hlower : method.lower tables owner = .ok function) :
    List.Forall₂ (Exp.CompilesTo tables) method.routine.exps (Instr.exprsOfAll function.body) := by
  simp only [lower, bind_eq_ok_iff, pure_eq_ok_iff] at hlower
  rcases hlower with ⟨body, hbody, rfl⟩
  simpa [Routine.exps, routine, Stmt.expsOfAll, Instr.exprsOfAll, Instr.exprs,
    Instr.exprsOfAll_unbraced] using Stmt.compilesTo_lower hbody

theorem ClassDef.compilesTo_lower {definition : ClassDef Resolved} {code : ClassCode}
    (hlower : definition.lower tables = .ok code) :
    List.Forall₂
      (fun routine function => List.Forall₂ (Exp.CompilesTo tables) (Routine.exps routine)
        (Instr.exprsOfAll (Function.body function)))
      definition.routines (code.constructor :: code.methods) := by
  simp only [lower, lowerConstructor, bind_eq_ok_iff, pure_eq_ok_iff] at hlower
  rcases hlower with ⟨_, ⟨superCodes, hsuper, codes, hcodes, rfl⟩, methods, hmethods, rfl⟩
  apply List.Forall₂.cons
  · have hbody := Stmt.compilesTo_stmts (fun _ _ _ _ => Stmt.compilesTo_lower) hcodes
    simpa [Routine.exps, Instr.exprsOfAll, Instr.exprs, Instr.exprsOfAll_braced] using
      List.rel_append (Exp.compilesTo_lowerAll hsuper) hbody
  · rw [List.forall₂_map_left_iff]
    exact (forall₂_of_mapM hmethods).imp fun _ _ => MethodDef.compilesTo_lower

theorem Program.CompilesTo.exps {program : Program Resolved} {resolved : Hierarchy Resolved}
    {script : Script} (hcompiles : program.CompilesTo resolved script) :
    List.Forall₂ (Exp.CompilesTo (.build resolved)) (program.routines.flatMap Routine.exps)
      script.exprs := by
  have hfunctions := forall₂_flatMap hcompiles.classes
    (fun _ _ _ => ClassDef.compilesTo_lower)
  have hmembers := forall₂_flatMap hfunctions (fun _ _ _ hexps => hexps)
  have hentry : List.Forall₂ (Exp.CompilesTo (.build resolved)) program.entryRoutine.exps
      script.entry.exprs := by
    simpa [Routine.exps, entryRoutine, Stmt.expsOfAll] using Stmt.compilesTo_lower hcompiles.entry
  rw [routines, List.flatMap_append, List.flatMap_singleton]
  exact List.rel_append hmembers hentry

theorem ClassDef.WellTyped.typed {κ : Type} [Note κ] {definition : ClassDef κ}
    (htyped : definition.WellTyped hierarchy.classes) :
    ∀ routine ∈ definition.routines, ∀ value ∈ routine.exps, value.Typed hierarchy := by
  rcases htyped with ⟨fields, htyped⟩
  rcases htyped.superArgs with ⟨taken, -, hfit⟩
  unfold ClassDef.routines
  rw [List.forall_mem_cons, List.forall_mem_map]
  constructor
  · rw [Routine.exps, List.forall_mem_append]
    refine ⟨hfit.typed, ?_⟩
    exact Stmt.typed_of_seqWellTyped (fun _ _ _ => Stmt.typed_of_wellTyped) htyped.body
  · intro method hmethod
    have hbody := Stmt.typed_of_wellTyped (htyped.methods method hmethod).body
    simpa [Routine.exps, MethodDef.routine, Stmt.expsOfAll] using hbody

theorem Program.WellTyped.typed {κ : Type} [Note κ] {program : Program κ}
    (htyped : program.WellTyped hierarchy.classes) :
    ∀ value ∈ program.routines.flatMap Routine.exps, value.Typed hierarchy := by
  intro value hvalue
  rcases List.mem_flatMap.mp hvalue with ⟨routine, hroutine, hmem⟩
  rcases List.mem_append.mp hroutine with hmember | hentry
  · rcases List.mem_flatMap.mp hmember with ⟨definition, hdefinition, hown⟩
    exact (htyped.definitions definition hdefinition).typed routine hown value hmem
  · rw [List.mem_singleton.mp hentry] at hmem
    apply Stmt.typed_of_wellTyped htyped.entry
    simpa [Routine.exps, entryRoutine, Stmt.expsOfAll] using hmem

theorem ClassDef.constructor_of_lower {definition : ClassDef Resolved} {code : ClassCode}
    (hlower : definition.lower tables = .ok code) :
    code.constructor.owner = definition.name ∧ code.constructor.member = constructorMember ∧
      code.constructor.params = definition.params.map VarDec.name ∧
      ∃ args rest, code.constructor.body = .superCall definition.parent args :: rest ∧
        args.length = definition.superArgs.length := by
  simp only [lower, lowerConstructor, bind_eq_ok_iff, pure_eq_ok_iff] at hlower
  rcases hlower with ⟨_, ⟨superCodes, hsuper, codes, -, rfl⟩, methods, -, rfl⟩
  exact ⟨rfl, rfl, rfl, superCodes, _, rfl, (Exp.compilesTo_lowerAll hsuper).length_eq.symm⟩

/-- A constructor writes its head and then the call of that of the parent. -/
theorem ClassDef.constructorLines_of_lower {definition : ClassDef Resolved} {code : ClassCode}
    (hlower : definition.lower tables = .ok code) :
    ∃ args rest, code.constructor.lines =
        header (definition.name.text ++ "_constructor") (definition.params.map VarDec.name) ::
          ("  " ++ definition.parent.text ++ "_constructor(self" ++ argumentText args ++ ");") ::
          rest ∧
      args.length = definition.superArgs.length := by
  rcases constructor_of_lower hlower with ⟨howner, hmember, hparams, args, rest, hbody, hlength⟩
  refine ⟨args, Instr.linesOfAll 1 rest ++ ["\x7d"], ?_, hlength⟩
  have hhead : functionName definition.name constructorMember =
      definition.name.text ++ "_constructor" :=
    append_constructorMember definition.name
  have hcalled : constructorName definition.parent = definition.parent.text ++ "_constructor" :=
    append_constructorMember definition.parent
  have hopened (later : String) : "_constructor" ++ ("(self" ++ later) =
      "_constructor(self" ++ later := by
    rw [← String.append_assoc]
    rfl
  have hindented (line : String) : Text.indented 1 line = "  " ++ line := rfl
  rw [Function.lines, howner, hmember, hparams, hbody, Instr.linesOfAll, Instr.lines, hhead,
    hcalled, Expr.furtherText_eq, hindented, header]
  simp only [String.append_assoc, List.cons_append, List.nil_append, hopened]

theorem ClassDef.exists_function_of_lower {definition : ClassDef Resolved} {code : ClassCode}
    (hlower : definition.lower tables = .ok code) {method : MethodDef Resolved}
    (hmethod : method ∈ definition.methods) :
    ∃ function ∈ code.methods, function.owner = definition.name ∧
      function.member = method.name.text ∧ function.params = method.params.map VarDec.name := by
  simp only [lower, bind_eq_ok_iff, pure_eq_ok_iff] at hlower
  rcases hlower with ⟨constructor, -, functions, hfunctions, rfl⟩
  rcases exists_right_of_forall₂ (forall₂_of_mapM hfunctions) hmethod with ⟨function, hmem, hown⟩
  simp only [MethodDef.lower, bind_eq_ok_iff, pure_eq_ok_iff] at hown
  rcases hown with ⟨body, -, rfl⟩
  exact ⟨_, hmem, rfl, rfl, rfl⟩

theorem Script.constructor_mem_functions {script : Script} {code : ClassCode}
    (hcode : code ∈ script.classes) : code.constructor ∈ script.functions :=
  List.mem_flatMap.mpr ⟨code, hcode, List.mem_cons_self⟩

theorem Script.method_mem_functions {script : Script} {code : ClassCode} {function : Function}
    (hcode : code ∈ script.classes) (hmethod : function ∈ code.methods) :
    function ∈ script.functions :=
  List.mem_flatMap.mpr ⟨code, hcode, List.mem_cons_of_mem _ hmethod⟩

end

namespace Program.CompilesTo

variable {program : Program Resolved} {resolved : Hierarchy Resolved}
  {hierarchy : Hierarchy Plain} {script : Script}

theorem mem_tables_iff (hcompiles : program.CompilesTo resolved script)
    (hclasses : resolved.classes = program.classes) {name : ClassName} {table : DispatchTable} :
    (name, table) ∈ script.tables ↔
      resolved.contains name = true ∧ table = resolved.table name := by
  have hcontains : resolved.contains name = true ↔
      name ∈ ClassName.root :: program.classes.map ClassDef.name := by
    rw [Hierarchy.contains, hclasses, ClassDef.declares_iff, List.mem_cons]
  rw [hcompiles.tables, hcontains, List.mem_map]
  constructor
  · rintro ⟨other, hother, hsame⟩
    cases hsame
    exact ⟨hother, rfl⟩
  · rintro ⟨hname, rfl⟩
    exact ⟨name, hname, rfl⟩

theorem declares_constructor (hcompiles : program.CompilesTo resolved script)
    (herase : program.classes.map ClassDef.erase = hierarchy.classes) {name : ClassName}
    (hcontains : hierarchy.contains name = true) :
    script.Declares (name.text ++ "_constructor")
      ((hierarchy.constructorParams name).map VarDec.name) := by
  unfold Hierarchy.constructorParams
  rcases Hierarchy.contains_iff.mp hcontains with rfl | ⟨definition, hget⟩
  · rw [Hierarchy.get?_root]
    exact script.declares_root
  · have hmem := Hierarchy.mem_of_get? hget
    rw [← herase] at hmem
    rcases List.mem_map.mp hmem with ⟨full, hfull, rfl⟩
    rcases exists_right_of_forall₂ hcompiles.classes hfull with ⟨code, hcode, hlower⟩
    rcases ClassDef.constructor_of_lower hlower with ⟨howner, hmember, hparams, -⟩
    have hdeclares := declares_of_mem_functions (constructor_mem_functions hcode)
    have hname : full.erase.name = name := Hierarchy.name_of_get? hget
    rw [ClassDef.name_erase] at hname
    rw [howner, hmember, hparams, hname, append_constructorMember] at hdeclares
    rw [hget]
    exact hdeclares

theorem supplies (hcompiles : program.CompilesTo resolved script)
    (hclasses : resolved.classes = program.classes)
    (herase : program.classes.map ClassDef.erase = hierarchy.classes) :
    Supplies hierarchy (.build resolved) script := by
  constructor
  · intro name hcontains
    rw [Hierarchy.contains, ← herase, ClassDef.declares_map_erase, ← hclasses] at hcontains
    refine ⟨resolved.table name, (hcompiles.mem_tables_iff hclasses).mpr ⟨hcontains, rfl⟩, ?_⟩
    rw [DispatchTables.get?_build]
    exact if_pos hcontains
  · intro name hcontains
    exact hcompiles.declares_constructor herase hcontains

/-- What a slot calls is a method of a class. -/
theorem provides_of_mem_listing (hcompiles : program.CompilesTo resolved script)
    (hclasses : resolved.classes = program.classes) {name : ClassName} {functions : List String}
    (hlisted : (name, functions) ∈ script.listing) :
    ∀ function ∈ functions, Provides program.erase script function := by
  intro function hfunction
  rcases List.mem_map.mp hlisted with ⟨⟨_, table⟩, htable, hsame⟩
  cases hsame
  rcases List.mem_map.mp hfunction with ⟨entry, hentry, rfl⟩
  rcases (hcompiles.mem_tables_iff hclasses).mp htable with ⟨-, rfl⟩
  rcases Hierarchy.mem_entries_table hentry with ⟨definition, hdefinition, howner, method,
    hmethod, hname⟩
  rw [hclasses] at hdefinition
  refine ⟨definition.erase, List.mem_map_of_mem hdefinition, method.erase,
    List.mem_map_of_mem hmethod, ?_⟩
  rw [← howner, ← hname]
  refine ⟨rfl, ?_⟩
  rcases exists_right_of_forall₂ hcompiles.classes hdefinition with ⟨code, hcode, hlower⟩
  rcases ClassDef.exists_function_of_lower hlower hmethod with ⟨function, hmem, howner, hmember,
    hparams⟩
  have hdeclares := declares_of_mem_functions (method_mem_functions hcode hmem)
  rw [howner, hmember, hparams] at hdeclares
  exact hdeclares

theorem calls_parent (hcompiles : program.CompilesTo resolved script)
    (herase : program.classes.map ClassDef.erase = hierarchy.classes)
    (htyped : program.WellTyped hierarchy.classes) :
    List.Forall₂ (fun definition code => CallsParent hierarchy script definition.erase code)
      program.classes script.classes := by
  apply forall₂_imp_of_mem hcompiles.classes
  intro definition hdefinition code hlower
  rcases htyped.definitions definition hdefinition with ⟨fields, hwith⟩
  rcases hwith.superArgs with ⟨taken, htakes, hfit⟩
  rcases Hierarchy.constructorTakes_iff.mp htakes with ⟨hparent, rfl⟩
  rcases ClassDef.constructorLines_of_lower hlower with ⟨args, rest, hlines, hlength⟩
  exact ⟨args, rest, hlines, hcompiles.declares_constructor herase hparent,
    hlength.trans hfit.length_eq⟩

theorem linked (hcompiles : program.CompilesTo resolved script)
    (hclasses : resolved.classes = program.classes)
    (herase : program.classes.map ClassDef.erase = hierarchy.classes)
    (htyped : program.WellTyped hierarchy.classes) :
    List.Forall₂ (Linked hierarchy script) program.references script.links := by
  have hsupplies := hcompiles.supplies hclasses herase
  apply forall₂_flatMap hcompiles.exps
  intro value hvalue code hcode
  exact (htyped.typed value hvalue).linked hsupplies hcode

end Program.CompilesTo

/-- The script of a checked program is complete.  The tables name methods that are in it,
every constructor first calls that of the parent, and whatever the code makes or calls is
there and takes as many arguments as are passed.  The notes of the checked program, being
well typed, name the static classes of the receivers. -/
theorem compiled_scripts_link {program : Program Plain} {checked : Program Resolved}
    (hcheck : program.check = .ok checked) :
    ∃ hierarchy script, program.hierarchy = .ok hierarchy ∧ checked.WellTyped hierarchy.classes ∧
      checked.lower = .ok script ∧
      script.text = String.join (script.lines.map (· ++ "\n")) ∧
      script.lines =
        preamble ++ script.listing.map (fun (name, functions) => listed name functions) ++
          script.classes.flatMap ClassCode.lines ++ script.entry.lines 0 ∧
      (∀ name functions, (name, functions) ∈ script.listing →
        ∀ function ∈ functions, Provides program script function) ∧
      List.Forall₂ (CallsParent hierarchy script) program.classes script.classes ∧
      (∀ code ∈ script.classes, code.constructor.lines <:+: script.lines) ∧
      List.Forall₂ (Linked hierarchy script) checked.references script.links ∧
      (∀ link ∈ script.links, script.Contains link.text) := by
  rcases exists_lower_of_check hcheck with ⟨script, hlower⟩
  rcases Program.check_eq_ok_iff.mp hcheck with ⟨hierarchy, hformed, htyped, herased⟩
  rcases Program.compilesTo_of_lower hlower with ⟨resolved, hclasses, hcompiles⟩
  have herase : checked.classes.map ClassDef.erase = hierarchy.classes := by
    rw [hformed, ← herased]
    rfl
  refine ⟨hierarchy, script, Hierarchy.ofClasses_eq_ok_iff.mpr hformed, htyped, hlower, rfl,
    script.lines_eq_listing, ?_, ?_, fun _ => constructor_infix_lines,
    hcompiles.linked hclasses herase htyped, script.contains_of_mem_links⟩
  · intro name functions hlisted
    rw [← herased]
    exact hcompiles.provides_of_mem_listing hclasses hlisted
  · rw [← hformed, ← herase, List.forall₂_map_left_iff]
    exact hcompiles.calls_parent herase htyped

/-- A class with a method, one that overrides it and hands an argument to the parent,
and an entry point that makes an object of the second and calls the method on it. -/
def overridingProgram {κ : Type} (note : κ) : Program κ where
  classes :=
    [⟨⟨"A"⟩, .root, [⟨.int, ⟨"x"⟩⟩], [⟨.int, ⟨"v"⟩⟩], [], [.assign ⟨"x"⟩ (.var ⟨"v"⟩)],
        [⟨.int, ⟨"add"⟩, [⟨.int, ⟨"y"⟩⟩], .returnValue (.binary .plus (.var ⟨"x"⟩) (.var ⟨"y"⟩))⟩]⟩,
      ⟨⟨"B"⟩, ⟨"A"⟩, [], [⟨.int, ⟨"v"⟩⟩, ⟨.int, ⟨"w"⟩⟩], [.var ⟨"v"⟩], [],
        [⟨.int, ⟨"add"⟩, [⟨.int, ⟨"y"⟩⟩], .returnValue (.var ⟨"y"⟩)⟩]⟩]
  entry := .println (.call (.new ⟨"B"⟩ [.int 1, .int 2]) ⟨"add"⟩ [.int 3] note)

theorem compiled_scripts_link_overridingProgram :
    (overridingProgram ()).check = .ok (overridingProgram ⟨"B"⟩) ∧
      ∃ hierarchy script, (overridingProgram ()).hierarchy = .ok hierarchy ∧
        (overridingProgram (⟨"B"⟩ : Resolved)).lower = .ok script ∧
        List.Forall₂ (Linked hierarchy script)
          [.call ⟨"B"⟩ ⟨"add"⟩ 1, .construct ⟨"B"⟩ 2] script.links ∧
        (∀ link ∈ script.links, script.Contains link.text) := by
  have hcheck : (overridingProgram ()).check = .ok (overridingProgram ⟨"B"⟩) := by
    rw [Program.check_of_faultless (by decide +kernel)]
    cbv
  rcases compiled_scripts_link hcheck with ⟨hierarchy, script, hhierarchy, -, hlower, -, -, -, -, -,
    hlinked, hcontains⟩
  exact ⟨hcheck, hierarchy, script, hhierarchy, hlower, hlinked, hcontains⟩

end ClassLang
