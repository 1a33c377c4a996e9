import ClassLang.Proofs.LoweringTotality
import ClassLang.Proofs.Scoping

/-!
# What names in scripts stand for

Compiling follows the text of the program, so the uses of variables and of the
receiver in a script correspond one by one to those in the program.  A block never
binds more than the variable that its first instruction declares, and everything
after a declaration is inside of a block that follows it.  Hence a name in the script
stands for what it stands for in the program, with one exception: in the initial
value of a declaration the declared name is already covered by the new binding,
which was not reached yet.
-/

namespace ClassLang

open Script

/-! ## Uses in the script and in the program -/

/-- Parameters and variables that were reached, inside of the given bindings. -/
def Visible.bindings (outer : Bindings) (visible : Visible) : Bindings :=
  visible.map (fun (name, binder) => (name, .value binder)) ++ outer

@[simp] theorem Visible.bindings_cons (outer : Bindings) (name : VarName) (binder : Binder)
    (earlier : Visible) :
    Visible.bindings outer ((name, binder) :: earlier) =
      (name, .value binder) :: earlier.bindings outer := rfl

/-- The bindings around the code of a point. -/
def Point.bindings (outer : Bindings) (point : Point) : Bindings :=
  point.declaring.toList.map (fun (name, binder) => (name, .unready binder))
    ++ point.visible.bindings outer

/-- What a use in the program becomes in the script. -/
def Occurrence.mention (outer : Bindings) (occurrence : Occurrence) : Mention :=
  let bindings := occurrence.point.bindings outer
  match occurrence.subject with
  | .this => .receiver (bindings.meaning receiverName)
  | .var name access =>
    match occurrence.point.visible.resolve? name with
    | some _ => .bare name access (bindings.meaning name)
    | none => .member name access (bindings.meaning receiverName)

/-- The compiler and the script know what the program knows at a point. -/
structure Mirrors (outer : Bindings) (locals : Locals) (bindings : Bindings)
    (point : Point) : Prop where
  locals : ∀ name, name ∈ locals ↔ (point.visible.resolve? name).isSome = true
  bindings : ∀ name, bindings.meaning name = (point.bindings outer).meaning name

namespace Mirrors

variable {outer bindings : Bindings} {locals : Locals} {point : Point} {visible : Visible}

theorem mention_place (hmirrors : Mirrors outer locals bindings point) (name : VarName)
    (access : Access) :
    (locals.place name).mention bindings access =
      Occurrence.mention outer ⟨.var name access, point⟩ := by
  have hlocal := hmirrors.locals name
  unfold Locals.place Occurrence.mention
  cases hresolved : point.visible.resolve? name with
  | some binder =>
      rw [hresolved] at hlocal
      rw [if_pos (hlocal.mpr rfl)]
      simp [Place.mention, hmirrors.bindings, hresolved]
  | none =>
      rw [hresolved] at hlocal
      rw [if_neg (by simpa using hlocal)]
      simp [Place.mention, hmirrors.bindings, hresolved]

theorem declaring (hmirrors : Mirrors outer locals bindings ⟨visible, none⟩) (name : VarName)
    (binder : Binder) :
    Mirrors outer locals ((name, .unready binder) :: bindings) ⟨visible, some (name, binder)⟩ := by
  refine ⟨hmirrors.locals, ?_⟩
  intro other
  have hbindings := hmirrors.bindings other
  simp only [Point.bindings, Option.toList_none, List.map_nil, List.nil_append] at hbindings
  simp [Point.bindings, Bindings.meaning, hbindings]

/-- Once a declaration was reached, its binding hides the one that was not. -/
theorem declared (hmirrors : Mirrors outer locals bindings ⟨visible, none⟩) (name : VarName)
    (binder : Binder) (meaning : Meaning) :
    Mirrors outer (name :: locals) ((name, .value binder) :: (name, meaning) :: bindings)
      ⟨(name, binder) :: visible, none⟩ := by
  constructor
  · intro other
    have hlocal := hmirrors.locals other
    by_cases hsame : other = name
    · simp [hsame, Visible.resolve?]
    · simpa [hsame, Visible.resolve?] using hlocal
  · intro other
    have hbindings := hmirrors.bindings other
    simp only [Point.bindings, Option.toList_none, List.map_nil, List.nil_append] at hbindings
    by_cases hsame : other = name
    · simp [hsame, Point.bindings, Bindings.meaning]
    · simp [hsame, Point.bindings, Bindings.meaning, hbindings]

end Mirrors

section

variable {tables : DispatchTables} {outer bindings : Bindings} {locals : Locals} {point : Point}

namespace Exp

theorem mentions_lowerAll {values : List (Exp Resolved)} {codes : List Expr}
    (hvalues : ∀ value ∈ values, ∀ code, value.lower tables locals = .ok code →
      code.mentions bindings = (value.occurrences point).map (Occurrence.mention outer))
    (hlower : lowerAll tables locals values = .ok codes) :
    Expr.mentionsOfAll bindings codes =
      (occurrencesOfAll point values).map (Occurrence.mention outer) := by
  induction values generalizing codes with
  | nil =>
      cases hlower
      rfl
  | cons value rest ih =>
      simp only [lowerAll, bind_eq_ok_iff, pure_eq_ok_iff] at hlower
      obtain ⟨first, hfirst, others, hothers, rfl⟩ := hlower
      have hhead := hvalues value List.mem_cons_self first hfirst
      have htail := ih (fun other hother => hvalues other (List.mem_cons_of_mem value hother))
        hothers
      simp only [occurrences, occurrencesOfAll] at hhead htail ⊢
      rw [Expr.mentionsOfAll, subjectsOfAll, List.map_append, List.map_append, hhead, htail]

theorem mentions_lower {value : Exp Resolved} {code : Expr}
    (hmirrors : Mirrors outer locals bindings point)
    (hlower : value.lower tables locals = .ok code) :
    code.mentions bindings = (value.occurrences point).map (Occurrence.mention outer) := by
  induction value generalizing code with
  | int | bool =>
      cases hlower
      rfl
  | var name =>
      cases hlower
      simp [Expr.mentions, occurrences, subjects, hmirrors.mention_place]
  | this =>
      cases hlower
      simp [Expr.mentions, occurrences, subjects, Occurrence.mention, hmirrors.bindings]
  | binary op lhs rhs ihLhs ihRhs =>
      simp only [lower, bind_eq_ok_iff, pure_eq_ok_iff] at hlower
      obtain ⟨lhs', hlhs, rhs', hrhs, rfl⟩ := hlower
      simp only [Expr.mentions, ihLhs hlhs, ihRhs hrhs, occurrences, subjects, List.map_append]
  | call receiver method args note ihReceiver ihArgs =>
      simp only [lower, bind_eq_ok_iff, pure_eq_ok_iff] at hlower
      obtain ⟨slot, -, target, htarget, args', hargs, rfl⟩ := hlower
      have hall := mentions_lowerAll (fun arg harg _ => ihArgs arg harg) hargs
      simp only [Expr.mentions, ihReceiver htarget, hall, occurrences, occurrencesOfAll,
        subjects, List.map_append]
  | new name args ihArgs =>
      simp only [lower, bind_eq_ok_iff, pure_eq_ok_iff] at hlower
      obtain ⟨args', hargs, rfl⟩ := hlower
      have hall := mentions_lowerAll (fun arg harg _ => ihArgs arg harg) hargs
      simp only [Expr.mentions, hall, occurrences, occurrencesOfAll, subjects]

end Exp

namespace Script.Instr

variable {number : Nat}

theorem letsOfAll_unbraced (instr : Instr) : letsOfAll instr.unbraced = instr.lets := by
  cases instr <;> simp [unbraced, letsOfAll, lets]

theorem letsOfAll_braced (body : List Instr) : letsOfAll (braced body) = letsOfAll body := by
  cases body <;> simp [braced, letsOfAll, lets]

theorem hoisted_braced (body : List Instr) : hoisted number (braced body) = [] := by
  cases body <;> simp [braced, hoisted, bound?]

theorem mentionsOfAll_braced (body : List Instr) :
    mentionsOfAll bindings number (braced body) = blockMentions bindings number body := by
  cases body <;> simp [braced, blockMentions, mentionsOfAll, mentions, hoisted]

theorem blockMentions_single {instr : Instr} (hbound : instr.bound? = none) :
    blockMentions bindings number [instr] = instr.mentions bindings number := by
  simp [blockMentions, hoisted, hbound, mentionsOfAll]

theorem mentions_ifElse (guard : Expr) (thenPart elsePart : List Instr) :
    (ifElse guard thenPart elsePart).mentions bindings number =
      guard.mentions bindings ++ (blockMentions bindings number thenPart ++
        blockMentions bindings (number + (letsOfAll thenPart).length) elsePart) := by
  rw [mentions]
  rfl

theorem mentions_whileLoop (guard : Expr) (body : List Instr) :
    (whileLoop guard body).mentions bindings number =
      guard.mentions bindings ++ blockMentions bindings number body := by
  rw [mentions]
  rfl

theorem blockMentions_unbraced (instr : Instr) :
    blockMentions bindings number instr.unbraced = blockMentions bindings number [instr] := by
  cases instr with
  | block body => simp [unbraced, blockMentions, mentionsOfAll, mentions, hoisted, bound?]
  | _ => rfl

/-- The bindings for what comes after an instruction of a block that binds nothing
else. -/
def passed (bindings : Bindings) (number : Nat) (instr : Instr) : Bindings :=
  instr.reached (hoisted number [instr] ++ bindings) number

/-- Of a compiled sequence only the first instruction binds in the block. -/
theorem blockMentions_cons_braced (first : Instr) (others : List Instr) :
    blockMentions bindings number (first :: braced others) =
      blockMentions bindings number [first] ++
        blockMentions (first.passed bindings number) (number + first.lets.length) others := by
  have hhoisted : hoisted number (first :: braced others) = hoisted number [first] := by
    simp [hoisted, hoisted_braced]
  rw [blockMentions, hhoisted, mentionsOfAll, mentionsOfAll_braced]
  simp [blockMentions, mentionsOfAll, passed]

end Script.Instr

namespace Stmt

theorem letsOfAll_lowerAll {body : List (Stmt Resolved)} {codes : List Instr}
    (hstmts : ∀ stmt ∈ body, ∀ locals code, stmt.lower tables locals = .ok code →
      code.lets = stmt.declarations)
    (hlower : lowerAll tables locals body = .ok codes) :
    Instr.letsOfAll codes = declarationsOfAll body := by
  induction body generalizing locals codes with
  | nil =>
      cases hlower
      rfl
  | cons stmt rest ih =>
      simp only [lowerAll, bind_eq_ok_iff, pure_eq_ok_iff] at hlower
      obtain ⟨first, hfirst, others, hothers, rfl⟩ := hlower
      have hhead := hstmts stmt List.mem_cons_self _ first hfirst
      have htail := ih (fun other hother => hstmts other (List.mem_cons_of_mem stmt hother))
        hothers
      rw [Instr.letsOfAll, Instr.letsOfAll_braced, declarationsOfAll, hhead, htail]

theorem lets_lower {stmt : Stmt Resolved} {code : Instr}
    (hlower : stmt.lower tables locals = .ok code) : code.lets = stmt.declarations := by
  induction stmt generalizing locals code with
  | exp | declare | assign | returnValue | println =>
      simp only [lower, bind_eq_ok_iff, pure_eq_ok_iff] at hlower
      obtain ⟨value, -, rfl⟩ := hlower
      simp [Instr.lets, declarations]
  | ifElse guard thenArm elseArm ihThen ihElse =>
      simp only [lower, bind_eq_ok_iff, pure_eq_ok_iff] at hlower
      obtain ⟨condition, -, thenPart, hthen, elsePart, helse, rfl⟩ := hlower
      rw [Instr.lets, Instr.letsOfAll_unbraced, Instr.letsOfAll_unbraced, ihThen hthen,
        ihElse helse, declarations]
  | whileLoop guard body ih =>
      simp only [lower, bind_eq_ok_iff, pure_eq_ok_iff] at hlower
      obtain ⟨condition, -, body', hbody, rfl⟩ := hlower
      rw [Instr.lets, Instr.letsOfAll_unbraced, ih hbody, declarations]
  | returnVoid =>
      cases hlower
      rfl
  | block body ih =>
      simp only [lower, bind_eq_ok_iff, pure_eq_ok_iff] at hlower
      obtain ⟨codes, hcodes, rfl⟩ := hlower
      rw [Instr.lets, declarations]
      exact letsOfAll_lowerAll (fun stmt hstmt _ _ => ih stmt hstmt) hcodes

theorem bound?_lower {stmt : Stmt Resolved} {code : Instr}
    (hlower : stmt.lower tables locals = .ok code) :
    code.bound? = stmt.declared?.map VarDec.name := by
  cases stmt with
  | returnVoid =>
      cases hlower
      rfl
  | _ =>
      simp only [lower, bind_eq_ok_iff, pure_eq_ok_iff] at hlower
      grind [Instr.bound?, declared?]

end Stmt

theorem Mirrors.after {visible : Visible} {stmt : Stmt Resolved} {code : Instr}
    (hmirrors : Mirrors outer locals bindings ⟨visible, none⟩)
    (hlower : stmt.lower tables locals = .ok code) (number : Nat) :
    Mirrors outer (locals.after stmt) (code.passed bindings number)
      ⟨stmt.extend visible number, none⟩ := by
  have hbound := Stmt.bound?_lower hlower
  unfold Locals.after Stmt.extend Instr.passed Instr.reached
  cases hdeclared : stmt.declared? with
  | none =>
      rw [hdeclared, Option.map_none] at hbound
      simpa [hbound, Instr.hoisted] using hmirrors
  | some var =>
      rw [hdeclared, Option.map_some] at hbound
      simpa [hbound, Instr.hoisted] using hmirrors.declared var.name (.declaration number) _

namespace Stmt

theorem mentions_lowerStmts {body : List (Stmt Resolved)} {codes : List Instr}
    {visible : Visible}
    (hstmts : ∀ stmt ∈ body, ∀ {bindings locals code visible} number,
      Mirrors outer locals bindings ⟨visible, none⟩ → stmt.lower tables locals = .ok code →
        Instr.blockMentions bindings number [code] =
          (stmt.occurrences visible number).map (Occurrence.mention outer))
    (number : Nat) (hmirrors : Mirrors outer locals bindings ⟨visible, none⟩)
    (hlower : lowerAll tables locals body = .ok codes) :
    Instr.blockMentions bindings number codes =
      (occurrencesOfAll visible number body).map (Occurrence.mention outer) := by
  induction body generalizing locals codes bindings visible number with
  | nil =>
      cases hlower
      rfl
  | cons stmt rest ih =>
      simp only [lowerAll, bind_eq_ok_iff, pure_eq_ok_iff] at hlower
      obtain ⟨first, hfirst, others, hothers, rfl⟩ := hlower
      have hhead := hstmts stmt List.mem_cons_self number hmirrors hfirst
      have htail := ih (fun other hother => hstmts other (List.mem_cons_of_mem stmt hother))
        (number + stmt.declarations.length) (hmirrors.after hfirst number) hothers
      rw [Instr.blockMentions_cons_braced, occurrencesOfAll, List.map_append, hhead,
        lets_lower hfirst, htail]

/-- The braces around a statement in a block of its own can be left out. -/
theorem mentions_lower {stmt : Stmt Resolved} {code : Instr} {visible : Visible} (number : Nat)
    (hmirrors : Mirrors outer locals bindings ⟨visible, none⟩)
    (hlower : stmt.lower tables locals = .ok code) :
    Instr.blockMentions bindings number [code] =
      (stmt.occurrences visible number).map (Occurrence.mention outer) := by
  induction stmt generalizing locals code bindings visible number with
  | exp value | returnValue value | println value =>
      simp only [lower, bind_eq_ok_iff, pure_eq_ok_iff] at hlower
      obtain ⟨value', hvalue, rfl⟩ := hlower
      rw [Instr.blockMentions_single rfl, Instr.mentions, occurrences,
        Exp.mentions_lower hmirrors hvalue]
  | declare var value =>
      simp only [lower, bind_eq_ok_iff, pure_eq_ok_iff] at hlower
      obtain ⟨value', hvalue, rfl⟩ := hlower
      have hinner := hmirrors.declaring var.name (.declaration number)
      rw [occurrences, ← Exp.mentions_lower hinner hvalue]
      simp [Instr.blockMentions, Instr.hoisted, Instr.bound?, Instr.mentionsOfAll,
        Instr.mentions]
  | assign target value =>
      simp only [lower, bind_eq_ok_iff, pure_eq_ok_iff] at hlower
      obtain ⟨value', hvalue, rfl⟩ := hlower
      rw [Instr.blockMentions_single rfl, Instr.mentions, occurrences,
        Exp.mentions_lower hmirrors hvalue, hmirrors.mention_place, List.map_cons]
  | ifElse guard thenArm elseArm ihThen ihElse =>
      simp only [lower, bind_eq_ok_iff, pure_eq_ok_iff] at hlower
      obtain ⟨condition, hguard, thenPart, hthen, elsePart, helse, rfl⟩ := hlower
      have hfirst := ihThen number hmirrors hthen
      have hsecond := ihElse (number + thenArm.declarations.length) hmirrors helse
      rw [← Instr.blockMentions_unbraced] at hfirst hsecond
      rw [Instr.blockMentions_single rfl, Instr.mentions_ifElse, Instr.letsOfAll_unbraced,
        lets_lower hthen, Exp.mentions_lower hmirrors hguard, hfirst, hsecond, occurrences,
        List.map_append, List.map_append]
  | whileLoop guard body ih =>
      simp only [lower, bind_eq_ok_iff, pure_eq_ok_iff] at hlower
      obtain ⟨condition, hguard, body', hbody, rfl⟩ := hlower
      have hinner := ih number hmirrors hbody
      rw [← Instr.blockMentions_unbraced] at hinner
      rw [Instr.blockMentions_single rfl, Instr.mentions_whileLoop,
        Exp.mentions_lower hmirrors hguard, hinner, occurrences, List.map_append]
  | returnVoid =>
      cases hlower
      rfl
  | block body ih =>
      simp only [lower, bind_eq_ok_iff, pure_eq_ok_iff] at hlower
      obtain ⟨codes, hcodes, rfl⟩ := hlower
      rw [← Instr.blockMentions_unbraced]
      exact mentions_lowerStmts ih number hmirrors hcodes

end Stmt

/-! ## Functions -/

theorem Visible.isSome_resolve? {visible : Visible} {name : VarName} :
    (visible.resolve? name).isSome = true ↔ name ∈ visible.map Prod.fst := by
  induction visible with
  | nil => simp [resolve?]
  | cons declared earlier ih =>
      obtain ⟨other, binder⟩ := declared
      by_cases hsame : name = other
      · simp [resolve?, hsame]
      · simp [resolve?, hsame, ih]

/-- The naming of the code that a routine becomes. -/
def Routine.naming {κ : Type} (outer : Bindings) (routine : Routine κ) : Naming :=
  ⟨routine.params.map VarDec.name, routine.declarations,
    routine.occurrences.map (Occurrence.mention outer)⟩

theorem Routine.mirrors {κ : Type} (routine : Routine κ) (owner : ClassName) (member : String)
    (body : List Instr) :
    Mirrors receiverBindings (Locals.ofParams routine.params)
      (Function.bindings ⟨owner, member, Locals.ofParams routine.params, body⟩)
      ⟨routine.visible, none⟩ := by
  constructor
  · intro name
    rw [Visible.isSome_resolve?]
    simp only [Routine.visible, List.map_reverse, List.map_map, List.mem_reverse]
    change _ ↔ name ∈ List.map (VarDec.name ∘ Prod.fst) routine.params.zipIdx
    rw [← List.map_map, List.zipIdx_map_fst]
    rfl
  · intro name
    simp [Function.bindings, Point.bindings, Visible.bindings, Routine.visible,
      Locals.ofParams, List.zipIdx_map, Function.comp_def]

theorem MethodDef.naming_lower {owner : ClassName} {method : MethodDef Resolved}
    {function : Function} (hlower : method.lower tables owner = .ok function) :
    function.naming = method.routine.naming receiverBindings := by
  simp only [MethodDef.lower, bind_eq_ok_iff, pure_eq_ok_iff] at hlower
  obtain ⟨code, hcode, rfl⟩ := hlower
  have hmirrors := method.routine.mirrors owner method.name.text [.block code.unbraced]
  have hmentions := Stmt.mentions_lower 0 hmirrors hcode
  rw [← Instr.blockMentions_unbraced] at hmentions
  simp only [Function.naming, Routine.naming, Naming.mk.injEq]
  refine ⟨rfl, ?_, ?_⟩
  · simp [Instr.letsOfAll, Instr.lets, Instr.letsOfAll_unbraced, Stmt.lets_lower hcode,
      MethodDef.routine, Routine.declarations, Stmt.declarationsOfAll]
  · rw [← Instr.blockMentions_unbraced]
    simpa [Instr.unbraced, MethodDef.routine, Routine.occurrences, Exp.occurrencesOfAll,
      Exp.subjectsOfAll, Stmt.occurrencesOfAll] using hmentions

theorem ClassDef.naming_lowerConstructor {definition : ClassDef Resolved} {function : Function}
    (hlower : definition.lowerConstructor tables = .ok function) :
    function.naming = Routine.naming receiverBindings
      ⟨definition.params, definition.superArgs, definition.body⟩ := by
  simp only [ClassDef.lowerConstructor, bind_eq_ok_iff, pure_eq_ok_iff] at hlower
  obtain ⟨args, hargs, codes, hcodes, rfl⟩ := hlower
  have hmirrors := Routine.mirrors ⟨definition.params, definition.superArgs, definition.body⟩
    definition.name constructorMember (.superCall definition.parent args :: Instr.braced codes)
  have hsuper := Exp.mentions_lowerAll (fun _ _ _ => Exp.mentions_lower hmirrors) hargs
  have hbody := Stmt.mentions_lowerStmts (fun _ _ {_ _ _ _} => Stmt.mentions_lower) 0
    hmirrors hcodes
  have hlets := Stmt.letsOfAll_lowerAll (fun _ _ _ _ => Stmt.lets_lower) hcodes
  simp only [Function.naming, Routine.naming, Naming.mk.injEq]
  refine ⟨rfl, ?_, ?_⟩
  · rw [Instr.letsOfAll, Instr.letsOfAll_braced, hlets]
    rfl
  · rw [Instr.blockMentions_cons_braced, Instr.blockMentions_single rfl, Instr.mentions,
      hsuper, Routine.occurrences, List.map_append, ← hbody]
    rfl

theorem map_of_mapM {ε α β γ : Type} {f : α → Except ε β} {g : β → γ} {h : α → γ}
    (hitems : ∀ item result, f item = .ok result → g result = h item)
    {items : List α} {results : List β} (hresults : items.mapM f = .ok results) :
    results.map g = items.map h := by
  induction items generalizing results with
  | nil =>
      cases hresults
      rfl
  | cons item rest ih =>
      simp only [List.mapM_cons, bind_eq_ok_iff, pure_eq_ok_iff] at hresults
      obtain ⟨first, hfirst, others, hothers, rfl⟩ := hresults
      rw [List.map_cons, List.map_cons, hitems item first hfirst, ih hothers]

theorem flatMap_of_mapM {ε α β γ : Type} {f : α → Except ε β} {g : β → List γ}
    {h : α → List γ} (hitems : ∀ item result, f item = .ok result → g result = h item)
    {items : List α} {results : List β} (hresults : items.mapM f = .ok results) :
    results.flatMap g = items.flatMap h := by
  rw [List.flatMap_def, List.flatMap_def, map_of_mapM hitems hresults]

theorem ClassDef.namings_lower {definition : ClassDef Resolved} {code : ClassCode}
    (hlower : definition.lower tables = .ok code) :
    (code.constructor :: code.methods).map Function.naming =
      definition.routines.map (Routine.naming receiverBindings) := by
  simp only [ClassDef.lower, bind_eq_ok_iff, pure_eq_ok_iff] at hlower
  obtain ⟨constructor, hconstructor, methods, hmethods, rfl⟩ := hlower
  have hmapped := map_of_mapM (fun _ _ => MethodDef.naming_lower) hmethods
  rw [List.map_cons, naming_lowerConstructor hconstructor, hmapped, routines, List.map_cons,
    List.map_map]
  rfl

end

/-! ## Notes do not matter -/

section

variable {κ : Type}

theorem Exp.subjectsOfAll_eraseAll {values : List (Exp κ)}
    (hvalues : ∀ value ∈ values, value.erase.subjects = value.subjects) :
    subjectsOfAll (eraseAll values) = subjectsOfAll values := by
  induction values with
  | nil => rfl
  | cons value rest ih =>
      rw [eraseAll, subjectsOfAll, subjectsOfAll, hvalues value List.mem_cons_self,
        ih fun other hother => hvalues other (List.mem_cons_of_mem value hother)]

theorem Exp.subjects_erase (value : Exp κ) : value.erase.subjects = value.subjects := by
  induction value with
  | int | bool | var | this => rfl
  | binary op lhs rhs ihLhs ihRhs => rw [erase, subjects, subjects, ihLhs, ihRhs]
  | call receiver method args note ihReceiver ihArgs =>
      rw [erase, subjects, subjects, ihReceiver, subjectsOfAll_eraseAll ihArgs]
  | new name args ihArgs => rw [erase, subjects, subjects, subjectsOfAll_eraseAll ihArgs]

theorem Exp.occurrences_erase (point : Point) (value : Exp κ) :
    value.erase.occurrences point = value.occurrences point := by
  rw [occurrences, occurrences, subjects_erase]

namespace Stmt

theorem declarationsOfAll_eraseAll {body : List (Stmt κ)}
    (hstmts : ∀ stmt ∈ body, stmt.erase.declarations = stmt.declarations) :
    declarationsOfAll (eraseAll body) = declarationsOfAll body := by
  induction body with
  | nil => rfl
  | cons stmt rest ih =>
      rw [eraseAll, declarationsOfAll, declarationsOfAll, hstmts stmt List.mem_cons_self,
        ih fun other hother => hstmts other (List.mem_cons_of_mem stmt hother)]

theorem declarations_erase (stmt : Stmt κ) : stmt.erase.declarations = stmt.declarations := by
  induction stmt with
  | exp | declare | assign | returnValue | returnVoid | println => rfl
  | ifElse guard thenArm elseArm ihThen ihElse =>
      rw [erase, declarations, declarations, ihThen, ihElse]
  | whileLoop guard body ih => rw [erase, declarations, declarations, ih]
  | block body ih => rw [erase, declarations, declarations, declarationsOfAll_eraseAll ih]

theorem extend_erase (visible : Visible) (number : Nat) (stmt : Stmt κ) :
    stmt.erase.extend visible number = stmt.extend visible number := by
  cases stmt <;> rfl

theorem occurrencesOfAll_eraseAll {body : List (Stmt κ)}
    (hstmts : ∀ stmt ∈ body, ∀ visible number,
      stmt.erase.occurrences visible number = stmt.occurrences visible number)
    (visible : Visible) (number : Nat) :
    occurrencesOfAll visible number (eraseAll body) = occurrencesOfAll visible number body := by
  induction body generalizing visible number with
  | nil => rfl
  | cons stmt rest ih =>
      rw [eraseAll, occurrencesOfAll, occurrencesOfAll, hstmts stmt List.mem_cons_self,
        extend_erase, declarations_erase,
        ih fun other hother => hstmts other (List.mem_cons_of_mem stmt hother)]

theorem occurrences_erase (visible : Visible) (number : Nat) (stmt : Stmt κ) :
    stmt.erase.occurrences visible number = stmt.occurrences visible number := by
  induction stmt generalizing visible number with
  | exp | declare | assign | returnValue | println =>
      simp only [erase, occurrences, Exp.occurrences_erase]
  | returnVoid => rfl
  | ifElse guard thenArm elseArm ihThen ihElse =>
      rw [erase, occurrences, occurrences, Exp.occurrences_erase, ihThen, ihElse,
        declarations_erase]
  | whileLoop guard body ih =>
      rw [erase, occurrences, occurrences, Exp.occurrences_erase, ih]
  | block body ih => rw [erase, occurrences, occurrences, occurrencesOfAll_eraseAll ih]

end Stmt

def Routine.erase (routine : Routine κ) : Routine Plain :=
  ⟨routine.params, Exp.eraseAll routine.superArgs, Stmt.eraseAll routine.body⟩

namespace Routine

theorem declarations_erase (routine : Routine κ) :
    routine.erase.declarations = routine.declarations :=
  Stmt.declarationsOfAll_eraseAll fun stmt _ => stmt.declarations_erase

theorem occurrences_erase (routine : Routine κ) :
    routine.erase.occurrences = routine.occurrences := by
  have hsuper : Exp.subjectsOfAll (Exp.eraseAll routine.superArgs) =
      Exp.subjectsOfAll routine.superArgs :=
    Exp.subjectsOfAll_eraseAll fun value _ => value.subjects_erase
  have hbody := Stmt.occurrencesOfAll_eraseAll
    (fun (stmt : Stmt κ) (_ : stmt ∈ routine.body) visible number =>
      stmt.occurrences_erase visible number) routine.visible 0
  unfold occurrences Exp.occurrencesOfAll
  rw [← hsuper, ← hbody]
  rfl

theorem naming_erase (outer : Bindings) (routine : Routine κ) :
    routine.erase.naming outer = routine.naming outer := by
  rw [naming, declarations_erase, occurrences_erase]
  rfl

end Routine

theorem ClassDef.routines_erase (definition : ClassDef κ) :
    definition.erase.routines = definition.routines.map Routine.erase := by
  simp [routines, ClassDef.erase, Routine.erase, MethodDef.routine, MethodDef.erase,
    Exp.eraseAll, Stmt.eraseAll]

theorem Program.members_erase (program : Program κ) :
    program.erase.members = program.members.map Routine.erase := by
  simp [members, Program.erase, ClassDef.routines_erase, List.flatMap_map, List.map_flatMap]

end

namespace Program

variable {κ : Type}

/-- The namings of the code that a program becomes. -/
def namings (program : Program κ) : List Naming :=
  program.members.map (Routine.naming receiverBindings) ++ [program.entryRoutine.naming []]

theorem namings_lower {program : Program Resolved} {script : Script}
    (hlower : program.lower = .ok script) : script.namings = program.namings := by
  simp only [lower, bind_eq_ok_iff, pure_eq_ok_iff] at hlower
  obtain ⟨hierarchy, -, tables, -, classes, hclasses, entry, hentry, rfl⟩ := hlower
  have hmirrors : Mirrors [] [] [] ⟨[], none⟩ := ⟨by simp [Visible.resolve?], fun _ => rfl⟩
  have hmentions := Stmt.mentions_lower 0 hmirrors hentry
  have hmembers : (classes.flatMap fun code => code.constructor :: code.methods).map
        Function.naming = program.members.map (Routine.naming receiverBindings) := by
    rw [members, List.map_flatMap, List.map_flatMap]
    exact flatMap_of_mapM (fun _ _ => ClassDef.namings_lower) hclasses
  have hentryNaming : (Script.mk tables classes entry).entryNaming =
      program.entryRoutine.naming [] := by
    simp only [Script.entryNaming, Routine.naming, Naming.mk.injEq]
    refine ⟨rfl, ?_, ?_⟩
    · simp [Stmt.lets_lower hentry, entryRoutine, Routine.declarations, Stmt.declarationsOfAll]
    · simpa [entryRoutine, Routine.occurrences, Routine.visible, Exp.occurrencesOfAll,
        Exp.subjectsOfAll, Stmt.occurrencesOfAll] using hmentions
  rw [Script.namings, namings, Script.functions, hmembers, hentryNaming]

theorem namings_erase (program : Program κ) : program.erase.namings = program.namings := by
  have hentry : program.erase.entryRoutine = program.entryRoutine.erase := rfl
  simp [namings, members_erase, hentry, Routine.naming_erase]

theorem namings_of_check {program : Program Plain} {checked : Program Resolved}
    {script : Script} (hcheck : program.check = .ok checked)
    (hlower : checked.lower = .ok script) : script.namings = program.namings := by
  obtain ⟨hierarchy, -, -, rfl⟩ := check_eq_ok_iff.mp hcheck
  rw [namings_lower hlower, namings_erase]

end Program

/-! ## Parameters and local variables -/

/-- The name of a variable that stands alone, and what it stands for. -/
def Script.Mention.bare? : Mention → Option (VarName × Meaning)
  | bare name _ meaning => some (name, meaning)
  | receiver _ | member _ _ _ => none

def Script.Naming.bareNames (naming : Naming) : List (VarName × Meaning) :=
  naming.mentions.filterMap Mention.bare?

namespace Occurrence

/-- The name of a parameter or a local variable, and what the program resolves it
to. -/
def local? (occurrence : Occurrence) : Option (VarName × Binder) :=
  match occurrence.subject with
  | .this => none
  | .var name _ => (occurrence.point.visible.resolve? name).map (Prod.mk name)

/-- A parameter or a local variable is used in the initial value of another variable
that takes its name. -/
def InOwnInitializer (occurrence : Occurrence) : Prop :=
  ∃ used ∈ occurrence.local?, ∃ declared ∈ occurrence.point.declaring, used.1 = declared.1

instance : DecidablePred InOwnInitializer := fun occurrence =>
  inferInstanceAs (Decidable
    (∃ used ∈ occurrence.local?, ∃ declared ∈ occurrence.point.declaring, used.1 = declared.1))

end Occurrence

def Routine.localUses {κ : Type} (routine : Routine κ) : List (VarName × Binder) :=
  routine.occurrences.filterMap Occurrence.local?

theorem Visible.meaning_bindings (visible : Visible) (outer : Bindings) (name : VarName) :
    (visible.bindings outer).meaning name =
      match visible.resolve? name with
      | some binder => .value binder
      | none => outer.meaning name := by
  induction visible with
  | nil => rfl
  | cons declared earlier ih =>
      obtain ⟨other, first⟩ := declared
      by_cases hsame : name = other
      · simp [resolve?, Bindings.meaning, hsame]
      · simpa [resolve?, Bindings.meaning, hsame] using ih

/-- A name means what it means in the program unless it stands in the initial value
of a variable that takes it. -/
theorem Point.meaning_bindings_iff {point : Point} {name : VarName} {binder : Binder}
    (hresolved : point.visible.resolve? name = some binder) (outer : Bindings) :
    (point.bindings outer).meaning name = .value binder ↔
      ∀ declared ∈ point.declaring, name ≠ declared.1 := by
  have hvisible := point.visible.meaning_bindings outer name
  rw [hresolved] at hvisible
  obtain ⟨visible, declaring⟩ := point
  cases declaring with
  | none => simpa [bindings] using hvisible
  | some declared =>
      obtain ⟨other, number⟩ := declared
      by_cases hsame : name = other
      · simp [bindings, Bindings.meaning, hsame]
      · simpa [bindings, Bindings.meaning, hsame] using hvisible

namespace Occurrence

theorem resolve?_of_local? {occurrence : Occurrence} {name : VarName} {binder : Binder}
    (hlocal : occurrence.local? = some (name, binder)) :
    occurrence.point.visible.resolve? name = some binder := by
  obtain ⟨subject, point⟩ := occurrence
  cases subject with
  | this => cases hlocal
  | var other access =>
      simp only [local?, Option.map_eq_some_iff, Prod.mk.injEq] at hlocal
      obtain ⟨found, hfound, rfl, rfl⟩ := hlocal
      exact hfound

theorem bare?_mention (outer : Bindings) (occurrence : Occurrence) :
    (occurrence.mention outer).bare? =
      occurrence.local?.map fun (name, _) =>
        (name, (occurrence.point.bindings outer).meaning name) := by
  obtain ⟨subject, point⟩ := occurrence
  cases subject with
  | this => rfl
  | var name access =>
      unfold mention local?
      cases hresolved : point.visible.resolve? name <;> simp [hresolved, Mention.bare?]

theorem bare?_mention_eq_iff (outer : Bindings) (occurrence : Occurrence) :
    (occurrence.mention outer).bare? =
        occurrence.local?.map (fun (name, binder) => (name, .value binder)) ↔
      ¬ occurrence.InOwnInitializer := by
  rw [bare?_mention]
  cases hlocal : occurrence.local? with
  | none => simp [InOwnInitializer, hlocal]
  | some use =>
      obtain ⟨name, binder⟩ := use
      have hmeaning := Point.meaning_bindings_iff (resolve?_of_local? hlocal) outer
      simp only [Option.map_some, Option.some.injEq, Prod.mk.injEq, true_and, hmeaning,
        InOwnInitializer, hlocal, Option.mem_some_iff, exists_eq_left', not_exists, not_and]

end Occurrence

theorem filterMap_eq_filterMap_iff {α β : Type} {f g : α → Option β} {items : List α}
    (hsome : ∀ item ∈ items, (f item).isSome = (g item).isSome) :
    items.filterMap f = items.filterMap g ↔ ∀ item ∈ items, f item = g item := by
  induction items with
  | nil => simp
  | cons item rest ih =>
      have hhead := hsome item List.mem_cons_self
      have htail := ih fun other hother => hsome other (List.mem_cons_of_mem item hother)
      cases hf : f item <;> cases hg : g item <;> simp_all

/-- The bare names of a routine's code mean what they mean in the program exactly if
no variable is used in the initial value of one that takes its name. -/
theorem Routine.bareNames_eq_iff {κ : Type} (outer : Bindings) (routine : Routine κ) :
    (routine.naming outer).bareNames =
        routine.localUses.map (fun (name, binder) => (name, .value binder)) ↔
      ∀ occurrence ∈ routine.occurrences, ¬ occurrence.InOwnInitializer := by
  have hlocal : routine.localUses.map (fun (name, binder) => (name, Meaning.value binder)) =
      routine.occurrences.filterMap fun occurrence =>
        occurrence.local?.map fun (name, binder) => (name, .value binder) :=
    List.map_filterMap
  rw [hlocal, Naming.bareNames, naming, List.filterMap_map, filterMap_eq_filterMap_iff]
  · simp only [Function.comp_apply, Occurrence.bare?_mention_eq_iff]
  · intro occurrence _
    simp [Occurrence.bare?_mention]

namespace Program

theorem map_namings_eq_iff {κ α : Type} {f : Naming → α} {g : Routine κ → α}
    {Holds : Routine κ → Prop}
    (hroutine : ∀ outer routine, f (routine.naming outer) = g routine ↔ Holds routine)
    (program : Program κ) :
    program.namings.map f = program.routines.map g ↔
      ∀ routine ∈ program.routines, Holds routine := by
  simp only [namings, routines, List.map_append, List.map_map, List.map_singleton,
    List.forall_mem_append, List.forall_mem_singleton]
  constructor
  · intro hequal
    obtain ⟨hmembers, hentry⟩ := List.append_inj hequal (by simp)
    refine ⟨?_, (hroutine _ _).mp (List.singleton_inj.mp hentry)⟩
    intro routine hroutine'
    exact (hroutine _ _).mp (List.map_inj_left.mp hmembers routine hroutine')
  · intro hholds
    obtain ⟨hmembers, hentry⟩ := hholds
    rw [(hroutine _ _).mpr hentry, List.map_inj_left.mpr]
    intro routine hroutine'
    exact (hroutine _ _).mpr (hmembers routine hroutine')

/-- In a compiled program every bare name means the parameter or the variable that
the program resolves it to, unless some variable is used in the initial value of a
variable that takes its name.  -/
theorem bareNames_resolve_iff {program : Program Plain} {checked : Program Resolved}
    (hcheck : program.check = .ok checked) :
    ∃ script, checked.lower = .ok script ∧
      script.namings.map Naming.params =
        program.routines.map (fun routine => routine.params.map VarDec.name) ∧
      script.namings.map Naming.lets = program.routines.map Routine.declarations ∧
      (script.namings.map Naming.bareNames =
          program.routines.map (fun routine =>
            routine.localUses.map fun (name, binder) => (name, .value binder)) ↔
        ∀ routine ∈ program.routines, ∀ occurrence ∈ routine.occurrences,
          ¬ occurrence.InOwnInitializer) := by
  obtain ⟨script, hscript⟩ := exists_lower_of_check hcheck
  refine ⟨script, hscript, ?_⟩
  rw [namings_of_check hcheck hscript]
  refine ⟨?_, ?_, map_namings_eq_iff Routine.bareNames_eq_iff program⟩
  · simp [namings, routines, Routine.naming]
  · simp [namings, routines, Routine.naming]

/-- Checking once the classes are known to form a hierarchy. -/
theorem check_of_faultless {program : Program Plain}
    (hfaultless : Hierarchy.fault? program.classes = none) :
    program.check = do
      let classes ← program.classes.mapM (ClassDef.check ⟨program.classes, hfaultless⟩)
      let entry ← program.entry.check ⟨program.classes, hfaultless⟩ .entry []
      return ⟨classes, entry⟩ := by
  have hhierarchy : program.hierarchy = .ok ⟨program.classes, hfaultless⟩ :=
    Hierarchy.ofClasses_eq_ok_iff.mpr rfl
  rw [check, hhierarchy]
  rfl

/-- A method that takes the name of its parameter for a variable, whose initial value
comes from another one. -/
def passingMethod {κ : Type} : MethodDef κ where
  returnTy := .int
  name := ⟨"m"⟩
  params := [⟨.int, ⟨"x"⟩⟩]
  body := .block [.declare ⟨.int, ⟨"y"⟩⟩ (.var ⟨"x"⟩), .declare ⟨.int, ⟨"x"⟩⟩ (.var ⟨"y"⟩),
    .returnValue (.var ⟨"x"⟩)]

def passingProgram : Program Plain where
  classes := [⟨⟨"A"⟩, .root, [], [], [], [], [passingMethod]⟩]
  entry := .println (.call (.new ⟨"A"⟩ []) ⟨"m"⟩ [.int 1] ())

theorem bareNames_resolve_iff_passingProgram :
    ∃ checked, passingProgram.check = .ok checked ∧
      ∃ script, checked.lower = .ok script ∧
        script.namings.map Naming.bareNames =
          [[], [(⟨"x"⟩, .value (.parameter 0)), (⟨"y"⟩, .value (.declaration 0)),
            (⟨"x"⟩, .value (.declaration 1))], []] := by
  have hcheck : passingProgram.check = .ok
      ⟨[⟨⟨"A"⟩, .root, [], [], [], [], [passingMethod]⟩],
        .println (.call (.new ⟨"A"⟩ []) ⟨"m"⟩ [.int 1] ⟨"A"⟩)⟩ := by
    rw [check_of_faultless (by decide +kernel)]
    cbv
  obtain ⟨script, hscript, -, -, hresolve⟩ := bareNames_resolve_iff hcheck
  exact ⟨_, hcheck, script, hscript, hresolve.mpr (by decide)⟩

/-- A variable that is declared again with an initial value that uses it. -/
def redeclaringProgram (κ : Type) : Program κ where
  classes := []
  entry := .block [.declare ⟨.int, ⟨"x"⟩⟩ (.int 1),
    .declare ⟨.int, ⟨"x"⟩⟩ (.binary .plus (.var ⟨"x"⟩) (.int 1)), .println (.var ⟨"x"⟩)]

/-- The program adds to the first variable, but its script uses the second one before
it has a value. -/
theorem bareNames_unready_redeclaringProgram :
    (redeclaringProgram Plain).check = .ok (redeclaringProgram Resolved) ∧
      (redeclaringProgram Plain).routines.map Routine.localUses =
        [[(⟨"x"⟩, .declaration 0), (⟨"x"⟩, .declaration 1)]] ∧
      ∃ script, (redeclaringProgram Resolved).lower = .ok script ∧
        script.namings.map Naming.bareNames =
          [[(⟨"x"⟩, .unready (.declaration 1)), (⟨"x"⟩, .value (.declaration 1))]] ∧
        script.namings.map Naming.bareNames ≠
          (redeclaringProgram Plain).routines.map (fun routine =>
            routine.localUses.map fun (name, binder) => (name, .value binder)) := by
  have hcheck : (redeclaringProgram Plain).check = .ok (redeclaringProgram Resolved) := by
    cbv
  obtain ⟨script, hscript⟩ := exists_lower_of_check hcheck
  refine ⟨hcheck, by decide, script, hscript, ?_⟩
  rw [namings_of_check hcheck hscript]
  exact ⟨by decide, by decide⟩

end Program

end ClassLang
