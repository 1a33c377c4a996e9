import ClassLang.Compile
import ClassLang.Proofs.TypingExactness

/-!
# Checked programs compile

Compiling a tree can fail only where it looks up the slot of a call.  So the
verdict on compiling a program is the verdict on looking up its calls, one after
the other, in the order in which they are compiled.

In a checked program every call notes a class in which the checker has found the
method.  The tables are built from the resolved classes, but tables do not depend
on notes, and a class has a slot for every method that a look-up finds in it.
-/

namespace ClassLang

/-- A call as a resolved tree has it. -/
structure CallSite where
  receiver : ClassName
  method : MethodName

/-! ## Calls in the order in which they are compiled -/

namespace Exp

mutual

def calls : Exp Resolved → List CallSite
  | int _ | bool _ | var _ | this => []
  | binary _ lhs rhs => lhs.calls ++ rhs.calls
  | call receiver method args name => ⟨name, method⟩ :: (receiver.calls ++ callsOfAll args)
  | new _ args => callsOfAll args

def callsOfAll : List (Exp Resolved) → List CallSite
  | [] => []
  | value :: rest => value.calls ++ callsOfAll rest

end

end Exp

namespace Stmt

mutual

def calls : Stmt Resolved → List CallSite
  | exp value | declare _ value | assign _ value | returnValue value | println value =>
    value.calls
  | ifElse guard thenArm elseArm => guard.calls ++ (thenArm.calls ++ elseArm.calls)
  | whileLoop guard body => guard.calls ++ body.calls
  | returnVoid => []
  | block body => callsOfAll body

def callsOfAll : List (Stmt Resolved) → List CallSite
  | [] => []
  | stmt :: rest => stmt.calls ++ callsOfAll rest

end

end Stmt

def ClassDef.calls (definition : ClassDef Resolved) : List CallSite :=
  (Exp.callsOfAll definition.superArgs ++ Stmt.callsOfAll definition.body) ++
    definition.methods.flatMap fun method => method.body.calls

/-- The calls of a program in the order in which they are compiled: a call before
its receiver, the receiver before the arguments, constructors before methods and
the entry point last. -/
def Program.calls (program : Program Resolved) : List CallSite :=
  program.classes.flatMap ClassDef.calls ++ program.entry.calls

/-! ## Compiling fails at the first call without a slot -/

/-- Whether a computation fails, and how. -/
def verdict {ε α : Type} (result : Except ε α) : Except ε Unit :=
  result.map fun _ => ()

section

variable {ε α β : Type}

@[simp] theorem verdict_ok (value : α) : verdict (.ok value : Except ε α) = .ok () := rfl

@[simp] theorem verdict_pure (value : α) : verdict (pure value : Except ε α) = .ok () := rfl

/-- The verdict on a sequence, if that on its second part does not depend on the
value of the first. -/
theorem verdict_bind {first : Except ε α} {next : α → Except ε β} {second : Except ε Unit}
    (hnext : ∀ value, verdict (next value) = second) :
    verdict (first >>= next) = verdict first >>= fun _ => second := by
  cases first with
  | error error => rfl
  | ok value => exact hnext value

theorem verdict_bind_pure {first : Except ε α} {finish : α → β} :
    verdict (first >>= fun value => pure (finish value)) = verdict first := by
  cases first <;> rfl

theorem verdict_eq_ok_iff {result : Except ε α} :
    verdict result = .ok () ↔ ∃ value, result = .ok value := by
  cases result <;> simp [verdict, Except.map]

end

namespace DispatchTables

variable (tables : DispatchTables)

/-- Looks up the slots of calls one after the other. -/
def resolve : List CallSite → Except LoweringError Unit
  | [] => .ok ()
  | site :: rest => do
    let _ ← tables.slot site.receiver site.method
    resolve rest

theorem resolve_append (first second : List CallSite) :
    tables.resolve (first ++ second) =
      tables.resolve first >>= fun _ => tables.resolve second := by
  induction first with
  | nil => rfl
  | cons site rest ih =>
      simp only [List.cons_append, resolve, ih]
      cases tables.slot site.receiver site.method <;> rfl

theorem resolve_cons (site : CallSite) (rest : List CallSite) :
    tables.resolve (site :: rest) =
      verdict (tables.slot site.receiver site.method) >>= fun _ => tables.resolve rest := by
  rw [resolve]
  cases tables.slot site.receiver site.method <;> rfl

theorem verdict_mapM {α β : Type} {compile : α → Except LoweringError β}
    {calls : α → List CallSite}
    (hcompile : ∀ item, verdict (compile item) = tables.resolve (calls item))
    (items : List α) :
    verdict (items.mapM compile) = tables.resolve (items.flatMap calls) := by
  induction items with
  | nil => rfl
  | cons item rest ih =>
      rw [List.mapM_cons, List.flatMap_cons, resolve_append, ← hcompile, ← ih]
      exact verdict_bind fun _ => verdict_bind_pure

end DispatchTables

section

variable (tables : DispatchTables)

namespace Exp

theorem verdict_lowerAll {values : List (Exp Resolved)} {locals : Locals}
    (hvalues : ∀ value ∈ values,
      verdict (value.lower tables locals) = tables.resolve value.calls) :
    verdict (lowerAll tables locals values) = tables.resolve (callsOfAll values) := by
  induction values with
  | nil => rfl
  | cons value rest ih =>
      rw [lowerAll, callsOfAll, tables.resolve_append,
        ← hvalues value List.mem_cons_self,
        ← ih fun other hother => hvalues other (List.mem_cons_of_mem value hother)]
      exact verdict_bind fun _ => verdict_bind_pure

theorem verdict_lower (locals : Locals) (value : Exp Resolved) :
    verdict (value.lower tables locals) = tables.resolve value.calls := by
  induction value with
  | int | bool | var | this => rfl
  | binary op lhs rhs ihLhs ihRhs =>
      rw [lower, calls, tables.resolve_append, ← ihLhs, ← ihRhs]
      exact verdict_bind fun _ => verdict_bind_pure
  | call receiver method args name ihReceiver ihArgs =>
      rw [lower, calls, tables.resolve_cons, tables.resolve_append, ← ihReceiver,
        ← verdict_lowerAll tables ihArgs]
      exact verdict_bind fun _ => verdict_bind fun _ => verdict_bind_pure
  | new name args ihArgs =>
      rw [lower, calls, ← verdict_lowerAll tables ihArgs]
      exact verdict_bind_pure

end Exp

namespace Stmt

theorem verdict_lowerStmts {stmts : List (Stmt Resolved)} {locals : Locals}
    (hstmts : ∀ stmt ∈ stmts, ∀ locals,
      verdict (stmt.lower tables locals) = tables.resolve stmt.calls) :
    verdict (lowerAll tables locals stmts) = tables.resolve (callsOfAll stmts) := by
  induction stmts generalizing locals with
  | nil => rfl
  | cons stmt rest ih =>
      rw [lowerAll, callsOfAll, tables.resolve_append,
        ← hstmts stmt List.mem_cons_self locals,
        ← ih fun other hother => hstmts other (List.mem_cons_of_mem stmt hother)]
      exact verdict_bind fun _ => verdict_bind_pure

theorem verdict_lower (locals : Locals) (stmt : Stmt Resolved) :
    verdict (stmt.lower tables locals) = tables.resolve stmt.calls := by
  induction stmt generalizing locals with
  | exp value | declare _ value | assign _ value | returnValue value | println value =>
      rw [lower, calls, ← Exp.verdict_lower tables locals]
      exact verdict_bind_pure
  | ifElse guard thenArm elseArm ihThen ihElse =>
      rw [lower, calls, tables.resolve_append, tables.resolve_append,
        ← Exp.verdict_lower tables locals, ← ihThen locals, ← ihElse locals]
      exact verdict_bind fun _ => verdict_bind fun _ => verdict_bind_pure
  | whileLoop guard body ih =>
      rw [lower, calls, tables.resolve_append, ← Exp.verdict_lower tables locals, ← ih locals]
      exact verdict_bind fun _ => verdict_bind_pure
  | returnVoid => rfl
  | block body ih =>
      rw [lower, calls, ← verdict_lowerStmts tables ih]
      exact verdict_bind_pure

end Stmt

theorem MethodDef.verdict_lower (owner : ClassName) (method : MethodDef Resolved) :
    verdict (method.lower tables owner) = tables.resolve method.body.calls := by
  rw [MethodDef.lower, ← Stmt.verdict_lower tables (Locals.ofParams method.params)]
  exact verdict_bind_pure

theorem ClassDef.verdict_lower (definition : ClassDef Resolved) :
    verdict (definition.lower tables) = tables.resolve definition.calls := by
  have hconstructor : verdict (definition.lowerConstructor tables) =
      tables.resolve
        (Exp.callsOfAll definition.superArgs ++ Stmt.callsOfAll definition.body) := by
    rw [ClassDef.lowerConstructor, tables.resolve_append,
      ← Exp.verdict_lowerAll tables fun value _ => Exp.verdict_lower tables
        (Locals.ofParams definition.params) value,
      ← Stmt.verdict_lowerStmts tables fun stmt _ locals => Stmt.verdict_lower tables locals stmt]
    exact verdict_bind fun _ => verdict_bind_pure
  rw [ClassDef.lower, ClassDef.calls, tables.resolve_append, ← hconstructor,
    ← tables.verdict_mapM (MethodDef.verdict_lower tables definition.name)]
  exact verdict_bind fun _ => verdict_bind_pure

end

/-! ## Checked programs -/

/-- Every call finds a method of the class that it notes. -/
def Hierarchy.Answers (hierarchy : Hierarchy Plain) (calls : List CallSite) : Prop :=
  ∀ site ∈ calls, ∃ found, hierarchy.method? site.receiver site.method = some found

namespace Hierarchy

variable {hierarchy : Hierarchy Plain} {first second : List CallSite}

@[simp] theorem answers_nil : hierarchy.Answers [] := by
  simp [Answers]

@[simp] theorem answers_cons {site : CallSite} :
    hierarchy.Answers (site :: first) ↔
      (∃ found, hierarchy.method? site.receiver site.method = some found) ∧
        hierarchy.Answers first := by
  simp [Answers]

@[simp] theorem answers_append :
    hierarchy.Answers (first ++ second) ↔
      hierarchy.Answers first ∧ hierarchy.Answers second := by
  simp [Answers, or_imp, forall_and]

theorem answers_flatMap {α : Type} {items : List α} {calls : α → List CallSite} :
    hierarchy.Answers (items.flatMap calls) ↔
      ∀ item ∈ items, hierarchy.Answers (calls item) := by
  simp only [Answers, List.mem_flatMap]
  constructor
  · intro hall item hitem site hsite
    exact hall site ⟨item, hitem, hsite⟩
  · intro hall site hsite
    obtain ⟨item, hitem, hcall⟩ := hsite
    exact hall item hitem site hcall

end Hierarchy

section

variable {hierarchy : Hierarchy Plain} {context : Context}

namespace Exp

theorem Fit.answers {args : List (Exp Resolved)} {params : List VarDec} {scope : Scope}
    (hargs : ∀ arg ∈ args, ∀ ty, arg.HasType hierarchy.classes context scope ty →
      hierarchy.Answers arg.calls)
    (hfit : Fit hierarchy.classes context scope args params) :
    hierarchy.Answers (callsOfAll args) := by
  induction args generalizing params with
  | nil => simp [callsOfAll]
  | cons arg rest ih =>
      cases hfit with
      | cons htype _ hrest =>
          rw [callsOfAll, Hierarchy.answers_append]
          exact ⟨hargs arg List.mem_cons_self _ htype,
            ih (fun other hother => hargs other (List.mem_cons_of_mem arg hother)) hrest⟩

theorem HasType.answers {value : Exp Resolved} {ty : Ty} {scope : Scope}
    (htype : value.HasType hierarchy.classes context scope ty) :
    hierarchy.Answers value.calls := by
  induction value generalizing ty with
  | int | bool | var | this => simp [calls]
  | binary op lhs rhs ihLhs ihRhs =>
      cases htype with
      | binary hlhs hrhs =>
          rw [calls, Hierarchy.answers_append]
          exact ⟨ihLhs hlhs, ihRhs hrhs⟩
  | call receiver method args note ihReceiver ihArgs =>
      cases htype with
      | call hreceiver hmethod hfit hnote =>
          obtain rfl : note = _ := hnote
          obtain ⟨owner, hfound⟩ := Hierarchy.hasMethod_iff.mp hmethod
          rw [calls, Hierarchy.answers_cons, Hierarchy.answers_append]
          exact ⟨⟨_, hfound⟩, ihReceiver hreceiver,
            hfit.answers fun arg harg _ => ihArgs arg harg⟩
  | new name args ihArgs =>
      cases htype with
      | new _ hfit =>
          rw [calls]
          exact hfit.answers fun arg harg _ => ihArgs arg harg

theorem UsedAs.answers {value : Exp Resolved} {expected : Ty} {scope : Scope}
    (hused : value.UsedAs hierarchy.classes context scope expected) :
    hierarchy.Answers value.calls := by
  obtain ⟨actual, htype, -⟩ := hused
  exact htype.answers

end Exp

namespace Stmt

theorem SeqWellTyped.answers {body : List (Stmt Resolved)} {scope : Scope}
    (hstmts : ∀ stmt ∈ body, ∀ scope, stmt.WellTyped hierarchy.classes context scope →
      hierarchy.Answers stmt.calls)
    (htyped : SeqWellTyped hierarchy.classes context scope body) :
    hierarchy.Answers (callsOfAll body) := by
  induction body generalizing scope with
  | nil => simp [callsOfAll]
  | cons stmt rest ih =>
      rcases seqWellTyped_cons_iff.mp htyped with ⟨hstmt, hrest⟩
      rw [callsOfAll, Hierarchy.answers_append]
      exact ⟨hstmts stmt List.mem_cons_self _ hstmt,
        ih (fun other hother => hstmts other (List.mem_cons_of_mem stmt hother)) hrest⟩

theorem WellTyped.answers {stmt : Stmt Resolved} {scope : Scope}
    (htyped : stmt.WellTyped hierarchy.classes context scope) :
    hierarchy.Answers stmt.calls := by
  induction stmt generalizing scope with
  | exp value =>
      cases htyped with
      | exp htype => exact htype.answers
  | declare var value =>
      cases htyped with
      | declare _ hused => exact hused.answers
  | assign target value =>
      cases htyped with
      | assign _ hused => exact hused.answers
  | ifElse guard thenArm elseArm ihThen ihElse =>
      cases htyped with
      | ifElse htype hthen helse =>
          rw [calls, Hierarchy.answers_append, Hierarchy.answers_append]
          exact ⟨htype.answers, ihThen hthen, ihElse helse⟩
  | whileLoop guard body ih =>
      cases htyped with
      | whileLoop htype hbody =>
          rw [calls, Hierarchy.answers_append]
          exact ⟨htype.answers, ih hbody⟩
  | returnValue value =>
      cases htyped with
      | returnValue _ hused => exact hused.answers
  | returnVoid => simp [calls]
  | println value =>
      cases htyped with
      | println htype => exact htype.answers
  | block body ih =>
      cases htyped with
      | block hbody =>
          rw [calls]
          exact hbody.answers fun stmt hstmt _ => ih stmt hstmt

end Stmt

theorem ClassDef.WellTyped.answers {definition : ClassDef Resolved}
    (htyped : definition.WellTyped hierarchy.classes) : hierarchy.Answers definition.calls := by
  obtain ⟨fields, htyped⟩ := htyped
  obtain ⟨taken, -, hfit⟩ := htyped.superArgs
  rw [ClassDef.calls, Hierarchy.answers_append, Hierarchy.answers_append,
    Hierarchy.answers_flatMap]
  refine ⟨⟨?_, ?_⟩, ?_⟩
  · exact hfit.answers fun _ _ _ => Exp.HasType.answers
  · exact htyped.body.answers fun _ _ _ => Stmt.WellTyped.answers
  · intro method hmethod
    exact (htyped.methods method hmethod).body.answers

theorem Program.WellTyped.answers {program : Program Resolved}
    (htyped : program.WellTyped hierarchy.classes) : hierarchy.Answers program.calls := by
  rw [Program.calls, Hierarchy.answers_append, Hierarchy.answers_flatMap]
  exact ⟨fun definition hmem => (htyped.definitions definition hmem).answers,
    htyped.entry.answers⟩

end

theorem Hierarchy.Answers.resolve_build {κ : Type} {erased : Hierarchy Plain}
    {hierarchy : Hierarchy κ} {calls : List CallSite}
    (hanswers : erased.Answers calls)
    (hclasses : hierarchy.classes.map ClassDef.erase = erased.classes) :
    (DispatchTables.build hierarchy).resolve calls = .ok () := by
  induction calls with
  | nil => rfl
  | cons site rest ih =>
      rw [Hierarchy.answers_cons] at hanswers
      obtain ⟨⟨found, hfound⟩, hrest⟩ := hanswers
      obtain ⟨slot, hslot⟩ := Hierarchy.exists_slot?_of_method? hfound
      have htable := DispatchTables.get?_build_eq_of_erase hclasses site.receiver
      rw [DispatchTables.get?_build_of_method? hfound] at htable
      have hresolved : (DispatchTables.build hierarchy).slot site.receiver site.method =
          .ok slot := by
        rw [DispatchTables.slot, bind_eq_ok_iff]
        refine ⟨erased.table site.receiver, ?_, ?_⟩
        · simp [DispatchTables.table, htable]
        · simp [hslot]
      rw [DispatchTables.resolve, hresolved]
      exact ih hrest

namespace Program

theorem exists_tables {κ : Type} (hierarchy : Hierarchy κ) {names : List ClassName}
    (hnames : ∀ name ∈ names, hierarchy.contains name = true) :
    ∃ tables, (names.mapM fun name => do
      let table ← (DispatchTables.build hierarchy).table name
      return (name, table)) = .ok tables := by
  induction names with
  | nil => exact ⟨[], rfl⟩
  | cons name rest ih =>
      obtain ⟨tables, htables⟩ := ih fun other hother =>
        hnames other (List.mem_cons_of_mem name hother)
      have htable : (DispatchTables.build hierarchy).table name =
          .ok (hierarchy.table name) := by
        simp [DispatchTables.table, DispatchTables.get?_build,
          hnames name List.mem_cons_self]
      refine ⟨(name, hierarchy.table name) :: tables, ?_⟩
      simp only [List.mapM_cons, htable, htables]
      rfl

theorem exists_lower_of_wellTyped {program : Program Resolved} {erased : Hierarchy Plain}
    (hclasses : program.classes.map ClassDef.erase = erased.classes)
    (htyped : program.WellTyped erased.classes) : ∃ script, program.lower = .ok script := by
  have hformed : ClassDef.FormHierarchy program.classes := by
    rw [← ClassDef.formHierarchy_map_erase_iff, hclasses]
    exact erased.formed
  let hierarchy : Hierarchy Resolved := .ofFormed hformed
  have hhierarchy : program.hierarchy = .ok hierarchy :=
    Hierarchy.ofClasses_eq_ok_iff.mpr rfl
  have hresolve : (DispatchTables.build hierarchy).resolve program.calls = .ok () :=
    htyped.answers.resolve_build hclasses
  rw [Program.calls, DispatchTables.resolve_append, bind_eq_ok_iff] at hresolve
  obtain ⟨⟨⟩, hclassCalls, hentryCalls⟩ := hresolve
  rw [← DispatchTables.verdict_mapM _ (ClassDef.verdict_lower _), verdict_eq_ok_iff]
    at hclassCalls
  rw [← Stmt.verdict_lower _ [], verdict_eq_ok_iff] at hentryCalls
  obtain ⟨classes, hclassCode⟩ := hclassCalls
  obtain ⟨entry, hentryCode⟩ := hentryCalls
  have hnames : ∀ name ∈ ClassName.root :: program.classes.map ClassDef.name,
      hierarchy.contains name = true := by
    intro name hname
    exact ClassDef.declares_iff.mpr (List.mem_cons.mp hname)
  obtain ⟨tables, htables⟩ := exists_tables hierarchy hnames
  refine ⟨⟨tables, classes, entry⟩, ?_⟩
  rw [lower, hhierarchy]
  simp only [bind_eq_ok_iff, pure_eq_ok_iff]
  exact ⟨hierarchy, rfl, tables, htables, classes, hclassCode, entry, hentryCode, rfl⟩

end Program

theorem exists_lower_of_check {program : Program Plain} {checked : Program Resolved}
    (hcheck : program.check = .ok checked) : ∃ script, checked.lower = .ok script := by
  obtain ⟨hierarchy, hclasses, htyped, rfl⟩ := Program.check_eq_ok_iff.mp hcheck
  exact Program.exists_lower_of_wellTyped hclasses.symm htyped

theorem Source.program_eq_ok_iff {source : String} {program : Program Plain} :
    Source.program source = .ok program ↔
      ∃ tokens, Token.scan source = .ok tokens ∧ Program.parse tokens = .ok program := by
  simp only [Source.program, Source.tokens, bind_eq_ok_iff, mapError_eq_ok_iff]

theorem Source.script_eq_ok_iff {source : String} {script : Script} :
    Source.script source = .ok script ↔ ∃ program checked,
      Source.program source = .ok program ∧ program.check = .ok checked ∧
        checked.lower = .ok script := by
  simp only [Source.script, bind_eq_ok_iff, mapError_eq_ok_iff]
  constructor
  · intro hscript
    obtain ⟨program, hprogram, checked, hcheck, hlower⟩ := hscript
    exact ⟨program, checked, hprogram, hcheck, hlower⟩
  · intro hstages
    obtain ⟨program, checked, hprogram, hcheck, hlower⟩ := hstages
    exact ⟨program, hprogram, checked, hcheck, hlower⟩

theorem Source.exists_script_of_check {source : String} {program : Program Plain}
    {checked : Program Resolved} (hprogram : Source.program source = .ok program)
    (hcheck : program.check = .ok checked) :
    ∃ script, checked.lower = .ok script ∧ Source.script source = .ok script := by
  obtain ⟨script, hlower⟩ := exists_lower_of_check hcheck
  exact ⟨script, hlower, Source.script_eq_ok_iff.mpr ⟨program, checked, hprogram, hcheck, hlower⟩⟩

theorem compile_eq_ok_iff {source text : String} :
    compile source = .ok text ↔ ∃ script, Source.script source = .ok script ∧
      script.text = text := by
  simp only [compile, bind_eq_ok_iff, pure_eq_ok_iff]

theorem Source.stage_of_script_eq_error {source : String} {error : CompileError}
    (herror : Source.script source = .error error) : error.stage ≠ "code generator" := by
  simp only [Source.script, Source.program, Source.tokens, bind_eq_error_iff,
    mapError_eq_error_iff, mapError_eq_ok_iff] at herror
  rcases herror with (⟨cause, -, rfl⟩ | ⟨tokens, -, cause, -, rfl⟩) |
    ⟨program, -, ⟨cause, -, rfl⟩ | ⟨checked, hcheck, cause, hlower, -⟩⟩
  · simp [CompileError.stage]
  · simp [CompileError.stage]
  · simp [CompileError.stage]
  · obtain ⟨script, hscript⟩ := exists_lower_of_check hcheck
    rw [hscript] at hlower
    cases hlower

/-- A program that passed the checker compiles, so that no source text is ever
refused by the last stage. -/
theorem checked_programs_compile :
    (∀ (program : Program Plain) (checked : Program Resolved),
        program.check = .ok checked → ∃ script, checked.lower = .ok script) ∧
      ∀ (source : String) (error : CompileError),
        compile source = .error error → error.stage ≠ "code generator" := by
  refine ⟨fun program checked => exists_lower_of_check, ?_⟩
  intro source error herror
  unfold compile at herror
  rcases bind_eq_error_iff.mp herror with hscript | ⟨script, -, htext⟩
  · exact Source.stage_of_script_eq_error hscript
  · cases htext

/-- A class whose method is called on a new object. -/
def callingProgram : Program Plain where
  classes := [⟨⟨"A"⟩, .root, [], [], [], [], [⟨.int, ⟨"f"⟩, [], .returnValue (.int 1)⟩]⟩]
  entry := .println (.call (.new ⟨"A"⟩ []) ⟨"f"⟩ [] ())

theorem checked_programs_compile_callingProgram :
    (∃ checked, callingProgram.check = .ok checked ∧ ∃ script, checked.lower = .ok script) ∧
      ∃ error, compile "x;" = .error error ∧ error.stage ≠ "code generator" := by
  have hcheck : callingProgram.check = .ok
      ⟨[⟨⟨"A"⟩, .root, [], [], [], [], [⟨.int, ⟨"f"⟩, [], .returnValue (.int 1)⟩]⟩],
        .println (.call (.new ⟨"A"⟩ []) ⟨"f"⟩ [] ⟨"A"⟩)⟩ := by
    rw [Program.check, show callingProgram.hierarchy =
        .ok ⟨callingProgram.classes, by decide +kernel⟩ from
      Hierarchy.ofClasses_eq_ok_iff.mpr rfl]
    cbv
  have hscan : Token.scan "x;" = .ok [.ident "x", .symbol .semicolon] := by cbv
  have hparse : Program.parse [.ident "x", .symbol .semicolon] =
      .ok ⟨[], .exp (.var ⟨"x"⟩)⟩ := by rfl
  have hrefused : Program.check ⟨[], .exp (.var ⟨"x"⟩)⟩ =
      .error (.undefinedVariable ⟨"x"⟩) := by cbv
  have herror : compile "x;" = .error (.type (.undefinedVariable ⟨"x"⟩)) := by
    have hprogram : Source.program "x;" = .ok ⟨[], .exp (.var ⟨"x"⟩)⟩ := by
      simp only [Source.program, Source.tokens, bind_eq_ok_iff, mapError_eq_ok_iff]
      exact ⟨_, hscan, hparse⟩
    have hscript : Source.script "x;" = .error (.type (.undefinedVariable ⟨"x"⟩)) := by
      simp only [Source.script, bind_eq_error_iff, mapError_eq_error_iff]
      exact Or.inr ⟨_, hprogram, Or.inl ⟨_, hrefused, rfl⟩⟩
    exact bind_eq_error_iff.mpr (Or.inl hscript)
  exact ⟨⟨_, hcheck, checked_programs_compile.1 _ _ hcheck⟩,
    _, herror, checked_programs_compile.2 _ _ herror⟩

end ClassLang
