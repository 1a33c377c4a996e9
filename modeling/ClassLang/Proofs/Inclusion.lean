import ClassLang.Proofs.Linking

/-!
# Hierarchies that include others

The way up from a class never leaves the classes that its hierarchy needs.  So if all
classes of a hierarchy are classes of another one, whatever else the other one declares,
both give the same answers about them: the same ancestors, fields, methods and dispatch
table.  What is well typed in the smaller one is well typed in the larger one, and it is
compiled to the same code.

A hierarchy is included in the one with a further class, and two orders of the same
classes are included in each other.
-/

namespace ClassLang

/-! ## Questions about classes -/

namespace ClassDef

variable {κ : Type} {small large : List (ClassDef κ)} {name : ClassName}

theorem find?_of_subset (hsub : small ⊆ large) (hdistinct : (large.map ClassDef.name).Nodup)
    {definition : ClassDef κ} (hfound : find? small name = some definition) :
    find? large name = some definition := by
  have hlarge := find?_of_mem hdistinct (hsub (mem_of_find? hfound))
  rwa [name_of_find? hfound] at hlarge

theorem declares_of_subset (hsub : small ⊆ large) (hknown : declares small name = true) :
    declares large name = true := by
  rw [declares_iff] at hknown ⊢
  exact hknown.imp_right fun hname => List.map_subset ClassDef.name hsub hname

theorem reaches_of_subset (hsub : small ⊆ large) (hdistinct : (large.map ClassDef.name).Nodup)
    {sub sup : ClassName} (hreach : Relation.ReflTransGen (Extends small) sub sup) :
    Relation.ReflTransGen (Extends large) sub sup := by
  apply Relation.ReflTransGen.mono _ sub sup hreach
  intro lower upper hstep
  rcases extends_iff.mp hstep with ⟨definition, hfound, hparent⟩
  exact extends_iff.mpr ⟨definition, find?_of_subset hsub hdistinct hfound, hparent⟩

/-- Classes may be added to a hierarchy in any place if their names are new and their
parents are known. -/
theorem FormHierarchy.of_subset (hform : FormHierarchy small) (hsub : small ⊆ large)
    (hdistinct : (ClassName.root :: large.map ClassDef.name).Nodup)
    (hadded : ∀ definition ∈ large, definition ∈ small ∨
      declares small definition.parent = true) :
    FormHierarchy large := by
  have hnames := (List.nodup_cons.mp hdistinct).2
  have hrooted (definition : ClassDef κ) (hmem : definition ∈ small) :
      Relation.ReflTransGen (Extends large) definition.name .root :=
    reaches_of_subset hsub hnames (hform.rooted definition hmem)
  refine ⟨hdistinct, ?_, ?_⟩
  · intro definition hmem
    rcases hadded definition hmem with hold | hparent
    · exact declares_of_subset hsub (hform.parents definition hold)
    · exact declares_of_subset hsub hparent
  · intro definition hmem
    rcases hadded definition hmem with hold | hparent
    · exact hrooted definition hold
    · have hstep : Extends large definition.name definition.parent :=
        extends_iff.mpr ⟨definition, find?_of_mem hnames hmem, rfl⟩
      -- The first step leads to a class of the smaller list, which has a way up.
      rcases declares_iff.mp hparent with hroot | hname
      · exact .single (hroot ▸ hstep)
      · rcases List.mem_map.mp hname with ⟨parent, hparentMem, hparentName⟩
        rw [← hparentName] at hstep
        exact (hrooted parent hparentMem).head hstep

theorem FormHierarchy.parent_ne_name {classes : List (ClassDef κ)} {definition : ClassDef κ}
    (hform : FormHierarchy classes) (hmem : definition ∈ classes) :
    definition.parent ≠ definition.name := by
  intro hcircle
  rcases List.nodup_cons.mp hform.distinct with ⟨hroot, hnames⟩
  have hstep : Extends classes definition.name definition.name :=
    extends_iff.mpr ⟨definition, find?_of_mem hnames hmem, hcircle⟩
  have hback := reaches_back hstep .refl (hform.rooted definition hmem)
  rcases hback.cases_head with heq | ⟨next, hfirst, -⟩
  · exact hroot (heq ▸ List.mem_map_of_mem hmem)
  · rcases extends_iff.mp hfirst with ⟨found, hfound, -⟩
    rw [find?_eq_none_iff.mpr hroot] at hfound
    cases hfound

end ClassDef

namespace Hierarchy

variable {κ : Type} {small large : Hierarchy κ} {name : ClassName}

theorem get?_of_subset (hsub : small.classes ⊆ large.classes) {definition : ClassDef κ}
    (hget : small.get? name = some definition) : large.get? name = some definition :=
  ClassDef.find?_of_subset hsub (List.nodup_cons.mp large.formed.distinct).2 hget

theorem contains_of_subset (hsub : small.classes ⊆ large.classes)
    (hknown : small.contains name = true) : large.contains name = true :=
  ClassDef.declares_of_subset hsub hknown

theorem get?_eq_of_subset (hsub : small.classes ⊆ large.classes)
    (hknown : small.contains name = true) : large.get? name = small.get? name := by
  rcases contains_iff.mp hknown with rfl | ⟨definition, hget⟩
  · rw [get?_root, get?_root]
  · rw [hget, get?_of_subset hsub hget]

theorem ancestors_eq_of_subset (hsub : small.classes ⊆ large.classes)
    (hknown : small.contains name = true) : large.ancestors name = small.ancestors name := by
  -- The induction follows the way up in the smaller hierarchy, which stays inside of it.
  induction name using small.parent_induction with
  | undeclared name hget =>
      have hlarge : large.get? name = none := by rw [get?_eq_of_subset hsub hknown, hget]
      rw [ancestors_of_get?_eq_none hget, ancestors_of_get?_eq_none hlarge]
  | declared name definition hget ih =>
      rw [ancestors_of_get?_eq_some hget, ancestors_of_get?_eq_some (get?_of_subset hsub hget),
        ih (contains_parent hget)]

theorem table_eq_of_subset (hsub : small.classes ⊆ large.classes)
    (hknown : small.contains name = true) : large.table name = small.table name := by
  unfold table lineage
  rw [ancestors_eq_of_subset hsub hknown]

end Hierarchy

/-! ## Typing -/

/-! The rules read their premises off single definitions, so they stay satisfied when
definitions are added. -/

namespace ClassDef

variable {κ : Type} {small large : List (ClassDef κ)} {name : ClassName}

theorem Known.of_subset (hsub : small ⊆ large) (hknown : Known small name) :
    Known large name := by
  cases hknown with
  | root => exact .root
  | definition hmem => exact .definition (hsub hmem)

theorem Inherits.of_subset (hsub : small ⊆ large) {sup : ClassName}
    (hinherits : Inherits small name sup) : Inherits large name sup := by
  induction hinherits with
  | same name => exact .same name
  | parent hmem _ ih => exact .parent (hsub hmem) ih

theorem ConstructorTakes.of_subset (hsub : small ⊆ large) {params : List VarDec}
    (htakes : ConstructorTakes small name params) : ConstructorTakes large name params := by
  cases htakes with
  | root => exact .root
  | definition hmem => exact .definition (hsub hmem)

theorem HasFields.of_subset (hsub : small ⊆ large) {fields : List VarDec}
    (hfields : HasFields small name fields) : HasFields large name fields := by
  induction hfields with
  | root => exact .root
  | definition hmem _ ih => exact .definition (hsub hmem) ih

theorem HasMethod.of_subset (hsub : small ⊆ large) {called : MethodName} {method : MethodDef κ}
    (hmethod : HasMethod small called name method) : HasMethod large called name method := by
  induction hmethod with
  | own hmem hmethods hname hlast => exact .own (hsub hmem) hmethods hname hlast
  | inherited hmem hfresh _ ih => exact .inherited (hsub hmem) hfresh ih

end ClassDef

section

variable {small large : List (ClassDef Plain)} {κ : Type} [Note κ] {context : Context}
  {scope : Scope}

theorem Ty.Known.of_subset (hsub : small ⊆ large) {ty : Ty} (hknown : ty.Known small) :
    ty.Known large := by
  cases hknown with
  | int => exact .int
  | bool => exact .bool
  | void => exact .void
  | object hname => exact .object (hname.of_subset hsub)

theorem Ty.Conforms.of_subset (hsub : small ⊆ large) {actual expected : Ty}
    (hconforms : actual.Conforms small expected) : actual.Conforms large expected := by
  cases hconforms with
  | same => exact .same actual
  | object hinherits => exact .object (hinherits.of_subset hsub)

theorem VarDec.Admitted.of_subset (hsub : small ⊆ large) {vars : List VarDec}
    (hadmitted : Admitted small vars) : Admitted large vars :=
  ⟨hadmitted.distinct, fun var hvar => (hadmitted.known var hvar).of_subset hsub⟩

namespace Exp

theorem Fit.of_subset (hsub : small ⊆ large) {args : List (Exp κ)} {params : List VarDec}
    (hargs : ∀ arg ∈ args, ∀ ty, arg.HasType small context scope ty →
      arg.HasType large context scope ty)
    (hfit : Fit small context scope args params) : Fit large context scope args params := by
  induction args generalizing params with
  | nil =>
      cases hfit
      exact .nil
  | cons arg rest ih =>
      rw [List.forall_mem_cons] at hargs
      cases hfit with
      | cons htype hconforms hrest =>
          exact .cons (hargs.1 _ htype) (hconforms.of_subset hsub) (ih hargs.2 hrest)

theorem HasType.of_subset (hsub : small ⊆ large) {value : Exp κ} {ty : Ty}
    (htype : value.HasType small context scope ty) : value.HasType large context scope ty := by
  induction value generalizing ty with
  | int value =>
      cases htype
      exact .int value
  | bool value =>
      cases htype
      exact .bool value
  | var name =>
      cases htype with
      | var hbinds => exact .var hbinds
  | this =>
      cases htype with
      | this hname => exact .this hname
  | binary op lhs rhs ihLhs ihRhs =>
      cases htype with
      | binary hlhs hrhs hyields => exact .binary (ihLhs hlhs) (ihRhs hrhs) hyields
  | call receiver method args note ihReceiver ihArgs =>
      cases htype with
      | call hreceiver hmethod hfit hnote =>
          exact .call (ihReceiver hreceiver) (hmethod.of_subset hsub)
            (hfit.of_subset hsub fun arg harg _ => ihArgs arg harg) hnote
  | new name args ihArgs =>
      cases htype with
      | new htakes hfit =>
          exact .new (htakes.of_subset hsub)
            (hfit.of_subset hsub fun arg harg _ => ihArgs arg harg)

theorem UsedAs.of_subset (hsub : small ⊆ large) {value : Exp κ} {expected : Ty}
    (hused : value.UsedAs small context scope expected) :
    value.UsedAs large context scope expected := by
  rcases hused with ⟨actual, htype, hconforms⟩
  exact ⟨actual, htype.of_subset hsub, hconforms.of_subset hsub⟩

end Exp

namespace Stmt

theorem SeqWellTyped.of_subset {body : List (Stmt κ)}
    (hstmts : ∀ stmt ∈ body, ∀ scope, stmt.WellTyped small context scope →
      stmt.WellTyped large context scope)
    (htyped : SeqWellTyped small context scope body) :
    SeqWellTyped large context scope body := by
  induction body generalizing scope with
  | nil => exact .nil
  | cons stmt rest ih =>
      rw [List.forall_mem_cons] at hstmts
      rcases seqWellTyped_cons_iff.mp htyped with ⟨hstmt, hrest⟩
      exact seqWellTyped_cons_iff.mpr ⟨hstmts.1 scope hstmt, ih hstmts.2 hrest⟩

theorem WellTyped.of_subset (hsub : small ⊆ large) {stmt : Stmt κ}
    (htyped : stmt.WellTyped small context scope) : stmt.WellTyped large context scope := by
  induction stmt generalizing scope with
  | exp value =>
      cases htyped with
      | exp htype => exact .exp (htype.of_subset hsub)
  | declare var value =>
      cases htyped with
      | declare hknown hused => exact .declare (hknown.of_subset hsub) (hused.of_subset hsub)
  | assign target value =>
      cases htyped with
      | assign hbinds hused => exact .assign hbinds (hused.of_subset hsub)
  | ifElse guard thenArm elseArm ihThen ihElse =>
      cases htyped with
      | ifElse htype hthen helse =>
          exact .ifElse (htype.of_subset hsub) (ihThen hthen) (ihElse helse)
  | whileLoop guard body ih =>
      cases htyped with
      | whileLoop htype hbody => exact .whileLoop (htype.of_subset hsub) (ih hbody)
  | returnValue value =>
      cases htyped with
      | returnValue hexpected hused => exact .returnValue hexpected (hused.of_subset hsub)
  | returnVoid =>
      cases htyped with
      | returnVoid hvoid => exact .returnVoid hvoid
  | println value =>
      cases htyped with
      | println htype => exact .println (htype.of_subset hsub)
  | block body ih =>
      cases htyped with
      | block hbody => exact .block (hbody.of_subset fun stmt hstmt _ => ih stmt hstmt)

end Stmt

theorem MethodDef.WellTyped.of_subset (hsub : small ⊆ large) {owner : ClassName}
    {fields : List VarDec} {method : MethodDef κ} (htyped : method.WellTyped small owner fields) :
    method.WellTyped large owner fields :=
  ⟨htyped.returnTy.of_subset hsub, htyped.params.of_subset hsub, htyped.body.of_subset hsub⟩

theorem ClassDef.WellTyped.of_subset (hsub : small ⊆ large) {definition : ClassDef κ}
    (htyped : definition.WellTyped small) : definition.WellTyped large := by
  rcases htyped with ⟨fields, hwith⟩
  rcases hwith.superArgs with ⟨taken, htakes, hfit⟩
  refine ⟨fields, hwith.hasFields.of_subset hsub, hwith.admitted.of_subset hsub,
    hwith.methodNames, hwith.params.of_subset hsub, ⟨taken, htakes.of_subset hsub, ?_⟩, ?_, ?_⟩
  · exact hfit.of_subset hsub fun _ _ _ => Exp.HasType.of_subset hsub
  · exact hwith.body.of_subset fun _ _ _ => Stmt.WellTyped.of_subset hsub
  · intro method hmethod
    exact (hwith.methods method hmethod).of_subset hsub

end

/-! ## Code -/

/-- The other tables have every table of these. -/
def DispatchTables.KeptBy (tables other : DispatchTables) : Prop :=
  ∀ name table, tables.get? name = some table → other.get? name = some table

theorem DispatchTables.build_keptBy_of_subset {κ : Type} {small large : Hierarchy κ}
    (hsub : small.classes ⊆ large.classes) : (build small).KeptBy (build large) := by
  intro name table htable
  rw [get?_build] at htable ⊢
  split at htable
  next hknown =>
    rw [if_pos (Hierarchy.contains_of_subset hsub hknown),
      Hierarchy.table_eq_of_subset hsub hknown]
    exact htable
  next => cases htable

section

variable {tables other : DispatchTables} {locals : Locals}

theorem DispatchTables.KeptBy.slot (hkept : tables.KeptBy other) {name : ClassName}
    {method : MethodName} {slot : Nat} (hslot : tables.slot name method = .ok slot) :
    other.slot name method = .ok slot := by
  rcases slot_eq_ok_iff.mp hslot with ⟨table, htable, hserves⟩
  exact slot_eq_ok_iff.mpr ⟨table, hkept name table htable, hserves⟩

namespace Exp

theorem lowerAll_of_keptBy {values : List (Exp Resolved)} {codes : List Script.Expr}
    (hvalues : ∀ value ∈ values, ∀ code, value.lower tables locals = .ok code →
      value.lower other locals = .ok code)
    (hlower : lowerAll tables locals values = .ok codes) :
    lowerAll other locals values = .ok codes := by
  induction values generalizing codes with
  | nil => exact hlower
  | cons value rest ih =>
      rw [List.forall_mem_cons] at hvalues
      simp only [lowerAll, bind_eq_ok_iff, pure_eq_ok_iff] at hlower ⊢
      rcases hlower with ⟨first, hfirst, others, hothers, rfl⟩
      exact ⟨first, hvalues.1 first hfirst, others, ih hvalues.2 hothers, rfl⟩

theorem lower_of_keptBy (hkept : tables.KeptBy other) {value : Exp Resolved}
    {code : Script.Expr} (hlower : value.lower tables locals = .ok code) :
    value.lower other locals = .ok code := by
  induction value generalizing code with
  | int | bool | var | this => exact hlower
  | binary op lhs rhs ihLhs ihRhs =>
      simp only [lower, bind_eq_ok_iff, pure_eq_ok_iff] at hlower ⊢
      rcases hlower with ⟨left, hleft, right, hright, rfl⟩
      exact ⟨left, ihLhs hleft, right, ihRhs hright, rfl⟩
  | call receiver method args note ihReceiver ihArgs =>
      simp only [lower, bind_eq_ok_iff, pure_eq_ok_iff] at hlower ⊢
      rcases hlower with ⟨slot, hslot, target, htarget, codes, hcodes, rfl⟩
      exact ⟨slot, hkept.slot hslot, target, ihReceiver htarget, codes,
        lowerAll_of_keptBy (fun arg harg _ => ihArgs arg harg) hcodes, rfl⟩
  | new name args ihArgs =>
      simp only [lower, bind_eq_ok_iff, pure_eq_ok_iff] at hlower ⊢
      rcases hlower with ⟨codes, hcodes, rfl⟩
      exact ⟨codes, lowerAll_of_keptBy (fun arg harg _ => ihArgs arg harg) hcodes, rfl⟩

end Exp

namespace Stmt

theorem lowerStmts_of_keptBy {body : List (Stmt Resolved)} {codes : List Script.Instr}
    (hstmts : ∀ stmt ∈ body, ∀ locals code, stmt.lower tables locals = .ok code →
      stmt.lower other locals = .ok code)
    (hlower : lowerAll tables locals body = .ok codes) :
    lowerAll other locals body = .ok codes := by
  induction body generalizing locals codes with
  | nil => exact hlower
  | cons stmt rest ih =>
      rw [List.forall_mem_cons] at hstmts
      simp only [lowerAll, bind_eq_ok_iff, pure_eq_ok_iff] at hlower ⊢
      rcases hlower with ⟨first, hfirst, others, hothers, rfl⟩
      exact ⟨first, hstmts.1 locals first hfirst, others, ih hstmts.2 hothers, rfl⟩

theorem lower_of_keptBy (hkept : tables.KeptBy other) {stmt : Stmt Resolved}
    {code : Script.Instr} (hlower : stmt.lower tables locals = .ok code) :
    stmt.lower other locals = .ok code := by
  induction stmt generalizing locals code with
  | exp | declare | assign | returnValue | println =>
      simp only [lower, bind_eq_ok_iff, pure_eq_ok_iff] at hlower ⊢
      rcases hlower with ⟨value, hvalue, rfl⟩
      exact ⟨value, Exp.lower_of_keptBy hkept hvalue, rfl⟩
  | ifElse guard thenArm elseArm ihThen ihElse =>
      simp only [lower, bind_eq_ok_iff, pure_eq_ok_iff] at hlower ⊢
      rcases hlower with ⟨condition, hcondition, thenPart, hthen, elsePart, helse, rfl⟩
      exact ⟨condition, Exp.lower_of_keptBy hkept hcondition, thenPart, ihThen hthen, elsePart,
        ihElse helse, rfl⟩
  | whileLoop guard body ih =>
      simp only [lower, bind_eq_ok_iff, pure_eq_ok_iff] at hlower ⊢
      rcases hlower with ⟨condition, hcondition, inner, hinner, rfl⟩
      exact ⟨condition, Exp.lower_of_keptBy hkept hcondition, inner, ih hinner, rfl⟩
  | returnVoid => exact hlower
  | block body ih =>
      simp only [lower, bind_eq_ok_iff, pure_eq_ok_iff] at hlower ⊢
      rcases hlower with ⟨codes, hcodes, rfl⟩
      exact ⟨codes, lowerStmts_of_keptBy (fun stmt hstmt _ _ => ih stmt hstmt) hcodes, rfl⟩

end Stmt

theorem MethodDef.lower_of_keptBy (hkept : tables.KeptBy other) {owner : ClassName}
    {method : MethodDef Resolved} {function : Script.Function}
    (hlower : method.lower tables owner = .ok function) :
    method.lower other owner = .ok function := by
  simp only [lower, bind_eq_ok_iff, pure_eq_ok_iff] at hlower ⊢
  rcases hlower with ⟨body, hbody, rfl⟩
  exact ⟨body, Stmt.lower_of_keptBy hkept hbody, rfl⟩

theorem ClassDef.lower_of_keptBy (hkept : tables.KeptBy other) {definition : ClassDef Resolved}
    {code : Script.ClassCode} (hlower : definition.lower tables = .ok code) :
    definition.lower other = .ok code := by
  simp only [lower, lowerConstructor, bind_eq_ok_iff, pure_eq_ok_iff] at hlower ⊢
  rcases hlower with ⟨_, ⟨superArgs, hsuperArgs, body, hbody, rfl⟩, methods, hmethods, rfl⟩
  have hsuperArgs' := Exp.lowerAll_of_keptBy (fun _ _ _ => Exp.lower_of_keptBy hkept) hsuperArgs
  have hbody' := Stmt.lowerStmts_of_keptBy (fun _ _ _ _ => Stmt.lower_of_keptBy hkept) hbody
  have hmethods' := mapM_of_forall₂
    ((forall₂_of_mapM hmethods).imp fun _ _ => MethodDef.lower_of_keptBy hkept)
  exact ⟨_, ⟨superArgs, hsuperArgs', body, hbody', rfl⟩, methods, hmethods', rfl⟩

end

end ClassLang
