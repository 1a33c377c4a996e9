import ClassLang.Proofs.Erasure
import ClassLang.Proofs.Results
import ClassLang.Proofs.RulePremises
import ClassLang.Typing.Program
import Mathlib

/-!
# The checker decides the typing rules

Checking succeeds exactly on what the rules allow.  The two directions meet in
the resolved tree: the tree that the checker returns is well typed, its notes
record the classes of the receivers, and erasing them gives the tree it was run
on; conversely, running the checker on the erasure of such a tree returns that
tree.  A plain tree is well typed exactly if it is the erasure of one, so that
the rules on plain trees say which programs are accepted.
-/

namespace ClassLang

theorem require_eq_ok_iff {condition : Bool} {error : TypeError} {result : Unit} :
    require condition error = .ok result ↔ condition = true := by
  cases condition <;> simp [require]

variable {hierarchy : Hierarchy Plain} {context : Context} {scope : Scope}

theorem Ty.check_eq_ok_iff {ty : Ty} {result : Unit} :
    ty.check hierarchy = .ok result ↔ ty.Known hierarchy.classes := by
  rw [← Hierarchy.isDefined_iff_known]
  cases ty with
  | object name => exact require_eq_ok_iff
  | int | bool | void => simp [Ty.check, Hierarchy.isDefined]

def Hierarchy.ofFormed {κ : Type} {classes : List (ClassDef κ)}
    (formed : ClassDef.FormHierarchy classes) : Hierarchy κ :=
  ⟨classes, Hierarchy.fault?_eq_none_iff.mpr formed⟩

/-! ## Expressions -/

namespace Exp

theorem checkArity_eq_ok_iff {callee : Callee} {params : List VarDec}
    {args : List (Exp Plain)} {result : Unit} :
    callee.checkArity params args = .ok result ↔ args.length = params.length := by
  unfold Callee.checkArity
  rw [require_eq_ok_iff, decide_eq_true_eq]

/-- What checking every argument guarantees carries over to the whole list. -/
theorem fit_of_checkArgs {args : List (Exp Plain)} {callee : Callee} {position : Nat}
    {params : List VarDec} {checked : List (Exp Resolved)}
    (hargs : ∀ arg ∈ args, ∀ checked ty,
      arg.check hierarchy context scope = .ok (checked, ty) →
        checked.HasType hierarchy.classes context scope ty ∧ checked.erase = arg)
    (harity : args.length = params.length)
    (hcheck : checkArgs hierarchy context scope callee position params args = .ok checked) :
    Fit hierarchy.classes context scope checked params ∧ eraseAll checked = args := by
  induction args generalizing params position checked with
  | nil =>
      obtain rfl : params = [] := List.length_eq_zero_iff.mp harity.symm
      simp only [checkArgs, Except.ok.injEq] at hcheck
      subst hcheck
      exact ⟨.nil, rfl⟩
  | cons arg rest ih =>
      cases params with
      | nil => simp at harity
      | cons param params =>
          simp only [checkArgs, bind_eq_ok_iff, pure_eq_ok_iff, require_eq_ok_iff] at hcheck
          obtain ⟨⟨arg', actual⟩, harg, -, hconforms, rest', hrest, rfl⟩ := hcheck
          obtain ⟨htype, herase⟩ := hargs arg List.mem_cons_self _ _ harg
          obtain ⟨hfit, herases⟩ := ih
            (fun other hother => hargs other (List.mem_cons_of_mem arg hother))
            (by simpa using harity) hrest
          exact ⟨.cons htype (Hierarchy.isSubtype_iff.mp hconforms) hfit,
            by rw [eraseAll, herase, herases]⟩

theorem hasType_of_check {value : Exp Plain} {checked : Exp Resolved} {ty : Ty}
    (hcheck : value.check hierarchy context scope = .ok (checked, ty)) :
    checked.HasType hierarchy.classes context scope ty ∧ checked.erase = value := by
  induction value generalizing checked ty with
  | int value =>
      simp only [check, Except.ok.injEq, Prod.mk.injEq] at hcheck
      obtain ⟨rfl, rfl⟩ := hcheck
      exact ⟨.int value, rfl⟩
  | bool value =>
      simp only [check, Except.ok.injEq, Prod.mk.injEq] at hcheck
      obtain ⟨rfl, rfl⟩ := hcheck
      exact ⟨.bool value, rfl⟩
  | var name =>
      rw [check] at hcheck
      split at hcheck
      next found hfound =>
        cases hcheck
        exact ⟨.var (Scope.lookup?_eq_some_iff.mp hfound), rfl⟩
      next => cases hcheck
  | this =>
      rw [check] at hcheck
      split at hcheck
      next name hname =>
        cases hcheck
        exact ⟨.this hname, rfl⟩
      next => cases hcheck
  | binary op lhs rhs ihLhs ihRhs =>
      simp only [check, bind_eq_ok_iff, pure_eq_ok_iff, require_eq_ok_iff,
        Bool.and_eq_true, decide_eq_true_eq, Prod.mk.injEq] at hcheck
      obtain ⟨⟨lhs', lhsTy⟩, hlhs, ⟨rhs', rhsTy⟩, hrhs, -, ⟨rfl, rfl⟩, rfl, rfl⟩ := hcheck
      obtain ⟨hlhsTy, hlhsErase⟩ := ihLhs hlhs
      obtain ⟨hrhsTy, hrhsErase⟩ := ihRhs hrhs
      exact ⟨.binary hlhsTy hrhsTy (Op.yields_iff.mpr rfl), by rw [erase, hlhsErase, hrhsErase]⟩
  | call receiver method args note ihReceiver ihArgs =>
      simp only [check, bind_eq_ok_iff] at hcheck
      obtain ⟨⟨receiver', receiverTy⟩, hreceiver, hcheck⟩ := hcheck
      obtain ⟨hreceiverTy, hreceiverErase⟩ := ihReceiver hreceiver
      cases receiverTy with
      | int | bool | void => cases hcheck
      | object name =>
          simp only at hcheck
          split at hcheck
          next => cases hcheck
          next found hfound =>
            simp only [bind_eq_ok_iff, pure_eq_ok_iff, checkArity_eq_ok_iff,
              Prod.mk.injEq] at hcheck
            obtain ⟨-, harity, args', hargs, rfl, rfl⟩ := hcheck
            obtain ⟨hfit, hargsErase⟩ :=
              fit_of_checkArgs (fun arg harg _ _ => ihArgs arg harg) harity hargs
            have hmethod := Hierarchy.hasMethod_iff.mpr ⟨found.owner, hfound⟩
            exact ⟨.call hreceiverTy hmethod hfit rfl,
              by rw [erase, hreceiverErase, hargsErase]⟩
  | new name args ihArgs =>
      simp only [check, bind_eq_ok_iff, pure_eq_ok_iff, require_eq_ok_iff,
        checkArity_eq_ok_iff, Prod.mk.injEq] at hcheck
      obtain ⟨-, hknown, -, harity, args', hargs, rfl, rfl⟩ := hcheck
      obtain ⟨hfit, hargsErase⟩ :=
        fit_of_checkArgs (fun arg harg _ _ => ihArgs arg harg) harity hargs
      exact ⟨.new (Hierarchy.constructorTakes_iff.mpr ⟨hknown, rfl⟩) hfit,
        by rw [erase, hargsErase]⟩

theorem Fit.length_eq {κ : Type} [Note κ] {args : List (Exp κ)} {params : List VarDec}
    (hfit : Fit hierarchy.classes context scope args params) : args.length = params.length := by
  induction args generalizing params with
  | nil =>
      cases hfit
      rfl
  | cons arg rest ih =>
      cases hfit with
      | cons _ _ hrest => simpa using ih hrest

theorem checkArgs_eraseAll {args : List (Exp Resolved)} {params : List VarDec}
    (hargs : ∀ arg ∈ args, ∀ ty, arg.HasType hierarchy.classes context scope ty →
      arg.erase.check hierarchy context scope = .ok (arg, ty))
    (hfit : Fit hierarchy.classes context scope args params) (callee : Callee) (position : Nat) :
    checkArgs hierarchy context scope callee position params (eraseAll args) = .ok args := by
  induction args generalizing params position with
  | nil =>
      cases hfit
      rw [eraseAll, checkArgs]
      simp
  | cons arg rest ih =>
      cases hfit with
      | cons htype hconforms hrest =>
          simp only [eraseAll, checkArgs, bind_eq_ok_iff, pure_eq_ok_iff, require_eq_ok_iff]
          refine ⟨_, hargs arg List.mem_cons_self _ htype, (), ?_, rest, ?_, rfl⟩
          · exact Hierarchy.isSubtype_iff.mpr hconforms
          · exact ih (fun other hother => hargs other (List.mem_cons_of_mem arg hother)) hrest _

theorem length_eraseAll {κ : Type} (args : List (Exp κ)) :
    (eraseAll args).length = args.length := by
  rw [eraseAll_eq_map, List.length_map]

theorem check_erase {value : Exp Resolved} {ty : Ty}
    (htype : value.HasType hierarchy.classes context scope ty) :
    value.erase.check hierarchy context scope = .ok (value, ty) := by
  induction value generalizing ty with
  | int value =>
      cases htype
      rfl
  | bool value =>
      cases htype
      rfl
  | var name =>
      cases htype with
      | var hbinds => simp only [erase, check, Scope.lookup?_eq_some_iff.mpr hbinds]
  | this =>
      cases htype with
      | this hname => simp only [erase, check, hname]
  | binary op lhs rhs ihLhs ihRhs =>
      cases htype with
      | binary hlhs hrhs hyields =>
          simp only [erase, check, bind_eq_ok_iff, pure_eq_ok_iff, require_eq_ok_iff]
          rw [← Op.yields_iff.mp hyields]
          exact ⟨_, ihLhs hlhs, _, ihRhs hrhs, (), rfl, rfl⟩
  | call receiver method args note ihReceiver ihArgs =>
      cases htype with
      | call hreceiver hmethod hfit hnote =>
          rcases Hierarchy.hasMethod_iff.mp hmethod with ⟨owner, hfound⟩
          simp only [erase, check, bind_eq_ok_iff]
          refine ⟨_, ihReceiver hreceiver, ?_⟩
          simp only [hfound, bind_eq_ok_iff, pure_eq_ok_iff, checkArity_eq_ok_iff]
          refine ⟨(), (length_eraseAll args).trans hfit.length_eq, args, ?_, ?_⟩
          · exact checkArgs_eraseAll (fun arg harg _ => ihArgs arg harg) hfit _ _
          · rw [show note = _ from hnote]
  | new name args ihArgs =>
      cases htype with
      | new htakes hfit =>
          rcases Hierarchy.constructorTakes_iff.mp htakes with ⟨hknown, rfl⟩
          simp only [erase, check, bind_eq_ok_iff, pure_eq_ok_iff, require_eq_ok_iff,
            checkArity_eq_ok_iff]
          refine ⟨(), hknown, (), (length_eraseAll args).trans hfit.length_eq, args, ?_, rfl⟩
          exact checkArgs_eraseAll (fun arg harg _ => ihArgs arg harg) hfit _ _

theorem fit_eraseAll {args : List (Exp Resolved)} {params : List VarDec}
    (hargs : ∀ arg ∈ args, ∀ ty, arg.HasType hierarchy.classes context scope ty →
      arg.erase.HasType hierarchy.classes context scope ty)
    (hfit : Fit hierarchy.classes context scope args params) :
    Fit hierarchy.classes context scope (eraseAll args) params := by
  induction args generalizing params with
  | nil =>
      cases hfit
      exact .nil
  | cons arg rest ih =>
      cases hfit with
      | cons htype hconforms hrest =>
          exact .cons (hargs arg List.mem_cons_self _ htype) hconforms
            (ih (fun other hother => hargs other (List.mem_cons_of_mem arg hother)) hrest)

theorem HasType.erase {value : Exp Resolved} {ty : Ty}
    (htype : value.HasType hierarchy.classes context scope ty) :
    value.erase.HasType hierarchy.classes context scope ty := by
  induction value generalizing ty with
  | int value =>
      cases htype
      exact .int value
  | bool value =>
      cases htype
      exact .bool value
  | var name =>
      cases htype with
      | var hbinds => exact .var hbinds
  | this =>
      cases htype with
      | this hname => exact .this hname
  | binary op lhs rhs ihLhs ihRhs =>
      cases htype with
      | binary hlhs hrhs hyields => exact .binary (ihLhs hlhs) (ihRhs hrhs) hyields
  | call receiver method args note ihReceiver ihArgs =>
      cases htype with
      | call hreceiver hmethod hfit =>
          exact .call (ihReceiver hreceiver) hmethod
            (fit_eraseAll (fun arg harg _ => ihArgs arg harg) hfit) trivial
  | new name args ihArgs =>
      cases htype with
      | new htakes hfit =>
          exact .new htakes (fit_eraseAll (fun arg harg _ => ihArgs arg harg) hfit)

theorem exists_fit_resolved {args : List (Exp Plain)} {params : List VarDec}
    (hargs : ∀ arg ∈ args, ∀ ty, arg.HasType hierarchy.classes context scope ty →
      ∃ resolved : Exp Resolved,
        resolved.HasType hierarchy.classes context scope ty ∧ resolved.erase = arg)
    (hfit : Fit hierarchy.classes context scope args params) :
    ∃ resolved : List (Exp Resolved),
      Fit hierarchy.classes context scope resolved params ∧ eraseAll resolved = args := by
  induction args generalizing params with
  | nil =>
      cases hfit
      exact ⟨[], .nil, rfl⟩
  | cons arg rest ih =>
      cases hfit with
      | cons htype hconforms hrest =>
          obtain ⟨arg', htype', herase⟩ := hargs arg List.mem_cons_self _ htype
          obtain ⟨rest', hrest', herases⟩ :=
            ih (fun other hother => hargs other (List.mem_cons_of_mem arg hother)) hrest
          exact ⟨arg' :: rest', .cons htype' hconforms hrest',
            by rw [eraseAll, herase, herases]⟩

/-- The notes that a typed expression needs exist. -/
theorem HasType.exists_resolved {value : Exp Plain} {ty : Ty}
    (htype : value.HasType hierarchy.classes context scope ty) :
    ∃ resolved : Exp Resolved,
      resolved.HasType hierarchy.classes context scope ty ∧ resolved.erase = value := by
  induction value generalizing ty with
  | int value =>
      cases htype
      exact ⟨.int value, .int value, rfl⟩
  | bool value =>
      cases htype
      exact ⟨.bool value, .bool value, rfl⟩
  | var name =>
      cases htype with
      | var hbinds => exact ⟨.var name, .var hbinds, rfl⟩
  | this =>
      cases htype with
      | this hname => exact ⟨.this, .this hname, rfl⟩
  | binary op lhs rhs ihLhs ihRhs =>
      cases htype with
      | binary hlhs hrhs hyields =>
          obtain ⟨lhs', hlhs', hlhsErase⟩ := ihLhs hlhs
          obtain ⟨rhs', hrhs', hrhsErase⟩ := ihRhs hrhs
          exact ⟨.binary op lhs' rhs', .binary hlhs' hrhs' hyields,
            by rw [Exp.erase, hlhsErase, hrhsErase]⟩
  | call receiver method args note ihReceiver ihArgs =>
      cases htype with
      | @call _ _ _ _ owner _ hreceiver hmethod hfit _ =>
          obtain ⟨receiver', hreceiver', hreceiverErase⟩ := ihReceiver hreceiver
          obtain ⟨args', hfit', hargsErase⟩ :=
            exists_fit_resolved (fun arg harg _ => ihArgs arg harg) hfit
          exact ⟨.call receiver' method args' owner, .call hreceiver' hmethod hfit' rfl,
            by rw [Exp.erase, hreceiverErase, hargsErase]⟩
  | new name args ihArgs =>
      cases htype with
      | new htakes hfit =>
          obtain ⟨args', hfit', hargsErase⟩ :=
            exists_fit_resolved (fun arg harg _ => ihArgs arg harg) hfit
          exact ⟨.new name args', .new htakes hfit', by rw [Exp.erase, hargsErase]⟩

theorem usedAs_of_checkAgainst {value : Exp Plain} {checked : Exp Resolved} {expected : Ty}
    (hcheck : value.checkAgainst hierarchy context scope expected = .ok checked) :
    checked.UsedAs hierarchy.classes context scope expected ∧ checked.erase = value := by
  simp only [checkAgainst, bind_eq_ok_iff, pure_eq_ok_iff, require_eq_ok_iff] at hcheck
  obtain ⟨⟨checked', actual⟩, hvalue, -, hsub, rfl⟩ := hcheck
  obtain ⟨htype, herase⟩ := hasType_of_check hvalue
  exact ⟨⟨actual, htype, Hierarchy.isSubtype_iff.mp hsub⟩, herase⟩

theorem checkAgainst_erase {value : Exp Resolved} {expected : Ty}
    (hused : value.UsedAs hierarchy.classes context scope expected) :
    value.erase.checkAgainst hierarchy context scope expected = .ok value := by
  obtain ⟨actual, htype, hconforms⟩ := hused
  simp only [checkAgainst, bind_eq_ok_iff, pure_eq_ok_iff, require_eq_ok_iff]
  exact ⟨_, check_erase htype, (), Hierarchy.isSubtype_iff.mpr hconforms, rfl⟩

theorem UsedAs.erase {value : Exp Resolved} {expected : Ty}
    (hused : value.UsedAs hierarchy.classes context scope expected) :
    value.erase.UsedAs hierarchy.classes context scope expected := by
  obtain ⟨actual, htype, hconforms⟩ := hused
  exact ⟨actual, htype.erase, hconforms⟩

theorem UsedAs.exists_resolved {value : Exp Plain} {expected : Ty}
    (hused : value.UsedAs hierarchy.classes context scope expected) :
    ∃ resolved : Exp Resolved,
      resolved.UsedAs hierarchy.classes context scope expected ∧ resolved.erase = value := by
  obtain ⟨actual, htype, hconforms⟩ := hused
  obtain ⟨resolved, hresolved, herase⟩ := htype.exists_resolved
  exact ⟨resolved, ⟨actual, hresolved, hconforms⟩, herase⟩

theorem hasType_of_checkGuard {value : Exp Plain} {checked : Exp Resolved}
    (hcheck : value.checkGuard hierarchy context scope = .ok checked) :
    checked.HasType hierarchy.classes context scope .bool ∧ checked.erase = value := by
  simp only [checkGuard, bind_eq_ok_iff, pure_eq_ok_iff, require_eq_ok_iff,
    decide_eq_true_eq] at hcheck
  obtain ⟨⟨checked', actual⟩, hvalue, -, rfl, rfl⟩ := hcheck
  exact hasType_of_check hvalue

theorem checkGuard_erase {value : Exp Resolved}
    (htype : value.HasType hierarchy.classes context scope .bool) :
    value.erase.checkGuard hierarchy context scope = .ok value := by
  simp only [checkGuard, bind_eq_ok_iff, pure_eq_ok_iff, require_eq_ok_iff]
  exact ⟨_, check_erase htype, (), rfl, rfl⟩

end Exp

/-! ## Statements -/

namespace Stmt

theorem after_erase {κ : Type} (scope : Scope) (stmt : Stmt κ) :
    scope.after stmt.erase = scope.after stmt := by
  cases stmt <;> rfl

theorem seqWellTyped_of_checkAll {body : List (Stmt Plain)}
    {checked : List (Stmt Resolved)} {scope : Scope}
    (hstmts : ∀ stmt ∈ body, ∀ scope checked,
      stmt.check hierarchy context scope = .ok checked →
        checked.WellTyped hierarchy.classes context scope ∧ checked.erase = stmt)
    (hcheck : checkAll hierarchy context scope body = .ok checked) :
    SeqWellTyped hierarchy.classes context scope checked ∧ eraseAll checked = body := by
  induction body generalizing scope checked with
  | nil =>
      simp only [checkAll, Except.ok.injEq] at hcheck
      subst hcheck
      exact ⟨.nil, rfl⟩
  | cons stmt rest ih =>
      simp only [checkAll, bind_eq_ok_iff, pure_eq_ok_iff] at hcheck
      obtain ⟨stmt', hstmt, rest', hrest, rfl⟩ := hcheck
      obtain ⟨htyped, herase⟩ := hstmts stmt List.mem_cons_self _ _ hstmt
      obtain ⟨htypeds, herases⟩ :=
        ih (fun other hother => hstmts other (List.mem_cons_of_mem stmt hother)) hrest
      rw [← herase, after_erase] at htypeds
      exact ⟨seqWellTyped_cons_iff.mpr ⟨htyped, htypeds⟩, by rw [eraseAll, herase, herases]⟩

theorem wellTyped_of_check {stmt : Stmt Plain} {checked : Stmt Resolved} {scope : Scope}
    (hcheck : stmt.check hierarchy context scope = .ok checked) :
    checked.WellTyped hierarchy.classes context scope ∧ checked.erase = stmt := by
  induction stmt generalizing scope checked with
  | exp value =>
      simp only [check, bind_eq_ok_iff, pure_eq_ok_iff] at hcheck
      obtain ⟨⟨value', ty⟩, hvalue, rfl⟩ := hcheck
      obtain ⟨htype, herase⟩ := Exp.hasType_of_check hvalue
      exact ⟨.exp htype, by rw [erase, herase]⟩
  | declare var value =>
      simp only [check, bind_eq_ok_iff, pure_eq_ok_iff, Ty.check_eq_ok_iff] at hcheck
      obtain ⟨-, hdefined, value', hvalue, rfl⟩ := hcheck
      obtain ⟨hused, herase⟩ := Exp.usedAs_of_checkAgainst hvalue
      exact ⟨.declare hdefined hused, by rw [erase, herase]⟩
  | assign target value =>
      rw [check] at hcheck
      split at hcheck
      next => cases hcheck
      next expected hexpected =>
        simp only [bind_eq_ok_iff, pure_eq_ok_iff] at hcheck
        obtain ⟨value', hvalue, rfl⟩ := hcheck
        obtain ⟨hused, herase⟩ := Exp.usedAs_of_checkAgainst hvalue
        have hbinds := Scope.lookup?_eq_some_iff.mp hexpected
        exact ⟨.assign hbinds hused, by rw [erase, herase]⟩
  | ifElse guard thenArm elseArm ihThen ihElse =>
      simp only [check, bind_eq_ok_iff, pure_eq_ok_iff] at hcheck
      obtain ⟨guard', hguard, thenArm', hthen, elseArm', helse, rfl⟩ := hcheck
      obtain ⟨htype, hguardErase⟩ := Exp.hasType_of_checkGuard hguard
      obtain ⟨hthenTyped, hthenErase⟩ := ihThen hthen
      obtain ⟨helseTyped, helseErase⟩ := ihElse helse
      exact ⟨.ifElse htype hthenTyped helseTyped,
        by rw [erase, hguardErase, hthenErase, helseErase]⟩
  | whileLoop guard body ih =>
      simp only [check, bind_eq_ok_iff, pure_eq_ok_iff] at hcheck
      obtain ⟨guard', hguard, body', hbody, rfl⟩ := hcheck
      obtain ⟨htype, hguardErase⟩ := Exp.hasType_of_checkGuard hguard
      obtain ⟨hbodyTyped, hbodyErase⟩ := ih hbody
      exact ⟨.whileLoop htype hbodyTyped, by rw [erase, hguardErase, hbodyErase]⟩
  | returnValue value =>
      rw [check] at hcheck
      split at hcheck
      next => cases hcheck
      next expected hexpected =>
        simp only [bind_eq_ok_iff, pure_eq_ok_iff] at hcheck
        obtain ⟨value', hvalue, rfl⟩ := hcheck
        obtain ⟨hused, herase⟩ := Exp.usedAs_of_checkAgainst hvalue
        exact ⟨.returnValue hexpected hused, by rw [erase, herase]⟩
  | returnVoid =>
      rw [check] at hcheck
      split at hcheck
      next => cases hcheck
      next hvoid =>
        cases hcheck
        exact ⟨.returnVoid hvoid, rfl⟩
      next => cases hcheck
  | println value =>
      simp only [check, bind_eq_ok_iff, pure_eq_ok_iff] at hcheck
      obtain ⟨⟨value', ty⟩, hvalue, rfl⟩ := hcheck
      obtain ⟨htype, herase⟩ := Exp.hasType_of_check hvalue
      exact ⟨.println htype, by rw [erase, herase]⟩
  | block body ih =>
      simp only [check, bind_eq_ok_iff, pure_eq_ok_iff] at hcheck
      obtain ⟨body', hbody, rfl⟩ := hcheck
      obtain ⟨htyped, herase⟩ :=
        seqWellTyped_of_checkAll (fun stmt hstmt _ _ => ih stmt hstmt) hbody
      exact ⟨.block htyped, by rw [erase, herase]⟩

theorem checkAll_eraseAll {body : List (Stmt Resolved)} {scope : Scope}
    (hstmts : ∀ stmt ∈ body, ∀ scope, stmt.WellTyped hierarchy.classes context scope →
      stmt.erase.check hierarchy context scope = .ok stmt)
    (htyped : SeqWellTyped hierarchy.classes context scope body) :
    checkAll hierarchy context scope (eraseAll body) = .ok body := by
  induction body generalizing scope with
  | nil => rfl
  | cons stmt rest ih =>
      rcases seqWellTyped_cons_iff.mp htyped with ⟨hstmt, hrest⟩
      simp only [eraseAll, checkAll, bind_eq_ok_iff, pure_eq_ok_iff, after_erase]
      exact ⟨stmt, hstmts stmt List.mem_cons_self _ hstmt, rest,
        ih (fun other hother => hstmts other (List.mem_cons_of_mem stmt hother)) hrest, rfl⟩

theorem check_erase {stmt : Stmt Resolved} {scope : Scope}
    (htyped : stmt.WellTyped hierarchy.classes context scope) :
    stmt.erase.check hierarchy context scope = .ok stmt := by
  induction stmt generalizing scope with
  | exp value =>
      cases htyped with
      | exp htype =>
          simp only [erase, check, bind_eq_ok_iff, pure_eq_ok_iff]
          exact ⟨_, Exp.check_erase htype, rfl⟩
  | declare var value =>
      cases htyped with
      | declare hdefined hused =>
          simp only [erase, check, bind_eq_ok_iff, pure_eq_ok_iff, Ty.check_eq_ok_iff]
          exact ⟨(), hdefined, value, Exp.checkAgainst_erase hused, rfl⟩
  | assign target value =>
      cases htyped with
      | assign hbinds hused =>
          simp only [erase, check, Scope.lookup?_eq_some_iff.mpr hbinds, bind_eq_ok_iff,
            pure_eq_ok_iff]
          exact ⟨value, Exp.checkAgainst_erase hused, rfl⟩
  | ifElse guard thenArm elseArm ihThen ihElse =>
      cases htyped with
      | ifElse htype hthen helse =>
          simp only [erase, check, bind_eq_ok_iff, pure_eq_ok_iff]
          exact ⟨guard, Exp.checkGuard_erase htype, thenArm, ihThen hthen,
            elseArm, ihElse helse, rfl⟩
  | whileLoop guard body ih =>
      cases htyped with
      | whileLoop htype hbody =>
          simp only [erase, check, bind_eq_ok_iff, pure_eq_ok_iff]
          exact ⟨guard, Exp.checkGuard_erase htype, body, ih hbody, rfl⟩
  | returnValue value =>
      cases htyped with
      | returnValue hexpected hused =>
          simp only [erase, check, hexpected, bind_eq_ok_iff, pure_eq_ok_iff]
          exact ⟨value, Exp.checkAgainst_erase hused, rfl⟩
  | returnVoid =>
      cases htyped with
      | returnVoid hvoid => simp only [erase, check, hvoid]
  | println value =>
      cases htyped with
      | println htype =>
          simp only [erase, check, bind_eq_ok_iff, pure_eq_ok_iff]
          exact ⟨_, Exp.check_erase htype, rfl⟩
  | block body ih =>
      cases htyped with
      | block hbody =>
          simp only [erase, check, bind_eq_ok_iff, pure_eq_ok_iff]
          exact ⟨body, checkAll_eraseAll (fun stmt hstmt _ => ih stmt hstmt) hbody, rfl⟩

theorem seqWellTyped_eraseAll {body : List (Stmt Resolved)} {scope : Scope}
    (hstmts : ∀ stmt ∈ body, ∀ scope, stmt.WellTyped hierarchy.classes context scope →
      stmt.erase.WellTyped hierarchy.classes context scope)
    (htyped : SeqWellTyped hierarchy.classes context scope body) :
    SeqWellTyped hierarchy.classes context scope (eraseAll body) := by
  induction body generalizing scope with
  | nil => exact .nil
  | cons stmt rest ih =>
      rcases seqWellTyped_cons_iff.mp htyped with ⟨hstmt, hrest⟩
      refine seqWellTyped_cons_iff.mpr ⟨hstmts stmt List.mem_cons_self _ hstmt, ?_⟩
      rw [after_erase]
      exact ih (fun other hother => hstmts other (List.mem_cons_of_mem stmt hother)) hrest

theorem WellTyped.erase {stmt : Stmt Resolved} {scope : Scope}
    (htyped : stmt.WellTyped hierarchy.classes context scope) :
    stmt.erase.WellTyped hierarchy.classes context scope := by
  induction stmt generalizing scope with
  | exp value =>
      cases htyped with
      | exp htype => exact .exp htype.erase
  | declare var value =>
      cases htyped with
      | declare hdefined hused => exact .declare hdefined hused.erase
  | assign target value =>
      cases htyped with
      | assign hbinds hused => exact .assign hbinds hused.erase
  | ifElse guard thenArm elseArm ihThen ihElse =>
      cases htyped with
      | ifElse htype hthen helse => exact .ifElse htype.erase (ihThen hthen) (ihElse helse)
  | whileLoop guard body ih =>
      cases htyped with
      | whileLoop htype hbody => exact .whileLoop htype.erase (ih hbody)
  | returnValue value =>
      cases htyped with
      | returnValue hexpected hused => exact .returnValue hexpected hused.erase
  | returnVoid =>
      cases htyped with
      | returnVoid hvoid => exact .returnVoid hvoid
  | println value =>
      cases htyped with
      | println htype => exact .println htype.erase
  | block body ih =>
      cases htyped with
      | block hbody =>
          exact .block (seqWellTyped_eraseAll (fun stmt hstmt _ => ih stmt hstmt) hbody)

theorem exists_seq_resolved {body : List (Stmt Plain)} {scope : Scope}
    (hstmts : ∀ stmt ∈ body, ∀ scope, stmt.WellTyped hierarchy.classes context scope →
      ∃ resolved : Stmt Resolved,
        resolved.WellTyped hierarchy.classes context scope ∧ resolved.erase = stmt)
    (htyped : SeqWellTyped hierarchy.classes context scope body) :
    ∃ resolved : List (Stmt Resolved),
      SeqWellTyped hierarchy.classes context scope resolved ∧ eraseAll resolved = body := by
  induction body generalizing scope with
  | nil => exact ⟨[], .nil, rfl⟩
  | cons stmt rest ih =>
      rcases seqWellTyped_cons_iff.mp htyped with ⟨hstmt, hrest⟩
      obtain ⟨stmt', hstmt', herase⟩ := hstmts stmt List.mem_cons_self _ hstmt
      rw [← herase, after_erase] at hrest
      obtain ⟨rest', hrest', herases⟩ :=
        ih (fun other hother => hstmts other (List.mem_cons_of_mem stmt hother)) hrest
      exact ⟨stmt' :: rest', seqWellTyped_cons_iff.mpr ⟨hstmt', hrest'⟩,
        by rw [eraseAll, herase, herases]⟩

theorem WellTyped.exists_resolved {stmt : Stmt Plain} {scope : Scope}
    (htyped : stmt.WellTyped hierarchy.classes context scope) :
    ∃ resolved : Stmt Resolved,
      resolved.WellTyped hierarchy.classes context scope ∧ resolved.erase = stmt := by
  induction stmt generalizing scope with
  | exp value =>
      cases htyped with
      | exp htype =>
          obtain ⟨value', htype', herase⟩ := htype.exists_resolved
          exact ⟨.exp value', .exp htype', by rw [Stmt.erase, herase]⟩
  | declare var value =>
      cases htyped with
      | declare hdefined hused =>
          obtain ⟨value', hused', herase⟩ := hused.exists_resolved
          exact ⟨.declare var value', .declare hdefined hused', by rw [Stmt.erase, herase]⟩
  | assign target value =>
      cases htyped with
      | assign hbinds hused =>
          obtain ⟨value', hused', herase⟩ := hused.exists_resolved
          exact ⟨.assign target value', .assign hbinds hused', by rw [Stmt.erase, herase]⟩
  | ifElse guard thenArm elseArm ihThen ihElse =>
      cases htyped with
      | ifElse htype hthen helse =>
          obtain ⟨guard', htype', hguardErase⟩ := htype.exists_resolved
          obtain ⟨thenArm', hthen', hthenErase⟩ := ihThen hthen
          obtain ⟨elseArm', helse', helseErase⟩ := ihElse helse
          exact ⟨.ifElse guard' thenArm' elseArm', .ifElse htype' hthen' helse',
            by rw [Stmt.erase, hguardErase, hthenErase, helseErase]⟩
  | whileLoop guard body ih =>
      cases htyped with
      | whileLoop htype hbody =>
          obtain ⟨guard', htype', hguardErase⟩ := htype.exists_resolved
          obtain ⟨body', hbody', hbodyErase⟩ := ih hbody
          exact ⟨.whileLoop guard' body', .whileLoop htype' hbody',
            by rw [Stmt.erase, hguardErase, hbodyErase]⟩
  | returnValue value =>
      cases htyped with
      | returnValue hexpected hused =>
          obtain ⟨value', hused', herase⟩ := hused.exists_resolved
          exact ⟨.returnValue value', .returnValue hexpected hused',
            by rw [Stmt.erase, herase]⟩
  | returnVoid =>
      cases htyped with
      | returnVoid hvoid => exact ⟨.returnVoid, .returnVoid hvoid, rfl⟩
  | println value =>
      cases htyped with
      | println htype =>
          obtain ⟨value', htype', herase⟩ := htype.exists_resolved
          exact ⟨.println value', .println htype', by rw [Stmt.erase, herase]⟩
  | block body ih =>
      cases htyped with
      | block hbody =>
          obtain ⟨body', hbody', herase⟩ :=
            exists_seq_resolved (fun stmt hstmt _ => ih stmt hstmt) hbody
          exact ⟨.block body', .block hbody', by rw [Stmt.erase, herase]⟩

end Stmt

/-! ## Classes and programs -/

theorem Scope.bindAll_eq_ok_iff {repeated : VarName → TypeError} {bound scope : Scope}
    {vars : List VarDec} :
    Scope.bindAll hierarchy repeated bound vars = .ok scope ↔
      VarDec.Admitted hierarchy.classes vars ∧
        (∀ var ∈ vars, ∀ other ∈ bound, other.name ≠ var.name) ∧
        scope = vars.reverse ++ bound := by
  induction vars generalizing bound with
  | nil =>
      simp only [Scope.bindAll, Except.ok.injEq, List.reverse_nil, List.nil_append]
      constructor
      · intro heq
        exact ⟨⟨by simp, by simp⟩, by simp, heq.symm⟩
      · intro hall
        exact hall.2.2.symm
  | cons var rest ih =>
      simp only [Scope.bindAll, bind_eq_ok_iff, Ty.check_eq_ok_iff, require_eq_ok_iff, ih,
        List.all_eq_true, decide_eq_true_eq]
      constructor
      · intro hbind
        obtain ⟨-, hknown, -, hfresh, hrest, hapart, hscope⟩ := hbind
        refine ⟨⟨?_, ?_⟩, ?_, by simpa using hscope⟩
        · rw [List.map_cons, List.nodup_cons]
          refine ⟨?_, hrest.distinct⟩
          intro hmem
          obtain ⟨other, hother, hname⟩ := List.mem_map.mp hmem
          exact hapart other hother var List.mem_cons_self hname.symm
        · simpa using ⟨hknown, hrest.known⟩
        · intro other hother earlier hearlier
          rcases List.mem_cons.mp hother with heq | hin
          · rw [heq]
            exact hfresh earlier hearlier
          · exact hapart other hin earlier (List.mem_cons_of_mem var hearlier)
      · intro hall
        obtain ⟨hadmits, hapart, hscope⟩ := hall
        have hnodup := hadmits.distinct
        rw [List.map_cons, List.nodup_cons] at hnodup
        refine ⟨(), hadmits.known var List.mem_cons_self, (),
          hapart var List.mem_cons_self, ⟨hnodup.2, ?_⟩, ?_, by simpa using hscope⟩
        · intro other hother
          exact hadmits.known other (List.mem_cons_of_mem var hother)
        · intro other hother earlier hearlier
          rcases List.mem_cons.mp hearlier with heq | hin
          · rw [heq]
            intro hname
            exact hnodup.1 (hname ▸ List.mem_map_of_mem hother)
          · exact hapart other (List.mem_cons_of_mem var hother) earlier hin

theorem Scope.ofParams_eq_ok_iff {params : List VarDec} {scope : Scope} :
    Scope.ofParams hierarchy params = .ok scope ↔
      VarDec.Admitted hierarchy.classes params ∧ scope = params.reverse := by
  unfold Scope.ofParams
  rw [Scope.bindAll_eq_ok_iff]
  simp

theorem ClassDef.fieldScope_eq_ok_iff {definition : ClassDef Plain} {scope : Scope} :
    definition.fieldScope hierarchy = .ok scope ↔
      VarDec.Admitted hierarchy.classes (hierarchy.fields definition.name) ∧
        scope = (hierarchy.fields definition.name).reverse := by
  unfold ClassDef.fieldScope
  rw [Scope.bindAll_eq_ok_iff]
  simp [Hierarchy.fields]

theorem Exp.checkCall_eq_ok_iff {callee : Callee} {params : List VarDec}
    {args : List (Exp Plain)} {checked : List (Exp Resolved)} :
    Exp.checkCall hierarchy context scope callee params args = .ok checked ↔
      Exp.Fit hierarchy.classes context scope checked params ∧ Exp.eraseAll checked = args := by
  simp only [Exp.checkCall, bind_eq_ok_iff, Exp.checkArity_eq_ok_iff]
  constructor
  · intro hcheck
    obtain ⟨-, harity, hargs⟩ := hcheck
    exact Exp.fit_of_checkArgs (fun _ _ _ _ => Exp.hasType_of_check) harity hargs
  · intro hall
    obtain ⟨hfit, rfl⟩ := hall
    exact ⟨(), (Exp.length_eraseAll checked).trans hfit.length_eq,
      Exp.checkArgs_eraseAll (fun _ _ _ => Exp.check_erase) hfit callee 1⟩

theorem Stmt.check_eq_ok_iff {stmt : Stmt Plain} {checked : Stmt Resolved} :
    stmt.check hierarchy context scope = .ok checked ↔
      checked.WellTyped hierarchy.classes context scope ∧ checked.erase = stmt := by
  constructor
  · exact Stmt.wellTyped_of_check
  · intro hall
    obtain ⟨htyped, rfl⟩ := hall
    exact Stmt.check_erase htyped

theorem Stmt.checkAll_eq_ok_iff {body : List (Stmt Plain)} {checked : List (Stmt Resolved)} :
    Stmt.checkAll hierarchy context scope body = .ok checked ↔
      Stmt.SeqWellTyped hierarchy.classes context scope checked ∧ Stmt.eraseAll checked = body := by
  constructor
  · exact Stmt.seqWellTyped_of_checkAll fun _ _ _ _ => Stmt.wellTyped_of_check
  · intro hall
    obtain ⟨htyped, rfl⟩ := hall
    exact Stmt.checkAll_eraseAll (fun _ _ _ => Stmt.check_erase) htyped

/-- Checking every item of a list is exact if checking one item is. -/
theorem mapM_eq_ok_iff {ε α β : Type} {check : α → Except ε β} {Good : β → Prop}
    {forget : β → α} {items : List α} {checked : List β}
    (hcheck : ∀ item ∈ items, ∀ checked,
      check item = .ok checked ↔ Good checked ∧ forget checked = item) :
    items.mapM check = .ok checked ↔
      (∀ item ∈ checked, Good item) ∧ checked.map forget = items := by
  induction items generalizing checked with
  | nil =>
      rw [List.mapM_nil, pure_eq_ok_iff]
      constructor
      · intro heq
        subst heq
        simp
      · intro hall
        exact (List.map_eq_nil_iff.mp hall.2).symm
  | cons item rest ih =>
      rw [List.forall_mem_cons] at hcheck
      simp only [List.mapM_cons, bind_eq_ok_iff, pure_eq_ok_iff, hcheck.1, ih hcheck.2]
      constructor
      · intro hall
        obtain ⟨item', ⟨hgood, hitem⟩, rest', ⟨hgoods, hrest⟩, rfl⟩ := hall
        exact ⟨by simpa using ⟨hgood, hgoods⟩, by rw [List.map_cons, hitem, hrest]⟩
      · intro hall
        obtain ⟨hgoods, hitems⟩ := hall
        obtain ⟨item', rest', rfl, hitem, hrest⟩ := List.map_eq_cons_iff.mp hitems
        exact ⟨item', ⟨hgoods item' List.mem_cons_self, hitem⟩, rest',
          ⟨fun other hother => hgoods other (List.mem_cons_of_mem item' hother), hrest⟩, rfl⟩

theorem exists_map_eq {α β : Type} {Good : β → Prop} {Plausible : α → Prop} {forget : β → α}
    (hexists : ∀ item, Plausible item → ∃ full, Good full ∧ forget full = item)
    {items : List α} (hitems : ∀ item ∈ items, Plausible item) :
    ∃ full : List β, (∀ item ∈ full, Good item) ∧ full.map forget = items := by
  induction items with
  | nil => exact ⟨[], by simp, rfl⟩
  | cons item rest ih =>
      obtain ⟨item', hgood, hitem⟩ := hexists item (hitems item List.mem_cons_self)
      obtain ⟨rest', hgoods, hrest⟩ :=
        ih fun other hother => hitems other (List.mem_cons_of_mem item hother)
      exact ⟨item' :: rest', by simpa using ⟨hgood, hgoods⟩,
        by rw [List.map_cons, hitem, hrest]⟩

namespace MethodDef

theorem check_eq_ok_iff {owner : ClassName} {fields : List VarDec} {method : MethodDef Plain}
    {checked : MethodDef Resolved} :
    method.check hierarchy owner fields.reverse = .ok checked ↔
      checked.WellTyped hierarchy.classes owner fields ∧ checked.erase = method := by
  simp only [check, bind_eq_ok_iff, pure_eq_ok_iff, Ty.check_eq_ok_iff,
    Scope.ofParams_eq_ok_iff, Stmt.check_eq_ok_iff]
  constructor
  · intro hcheck
    obtain ⟨-, hreturn, -, ⟨hparams, rfl⟩, body, ⟨hbody, herase⟩, rfl⟩ := hcheck
    exact ⟨⟨hreturn, hparams, hbody⟩, by rw [erase, herase]⟩
  · intro hall
    obtain ⟨htyped, rfl⟩ := hall
    exact ⟨(), htyped.returnTy, _, ⟨htyped.params, rfl⟩, checked.body,
      ⟨htyped.body, rfl⟩, rfl⟩

theorem WellTyped.erase {owner : ClassName} {fields : List VarDec} {method : MethodDef Resolved}
    (htyped : method.WellTyped hierarchy.classes owner fields) :
    method.erase.WellTyped hierarchy.classes owner fields :=
  ⟨htyped.returnTy, htyped.params, htyped.body.erase⟩

theorem WellTyped.exists_resolved {owner : ClassName} {fields : List VarDec}
    {method : MethodDef Plain} (htyped : method.WellTyped hierarchy.classes owner fields) :
    ∃ resolved : MethodDef Resolved,
      resolved.WellTyped hierarchy.classes owner fields ∧ resolved.erase = method := by
  obtain ⟨body, hbody, herase⟩ := htyped.body.exists_resolved
  exact ⟨⟨method.returnTy, method.name, method.params, body⟩,
    ⟨htyped.returnTy, htyped.params, hbody⟩, by rw [MethodDef.erase, herase]⟩

end MethodDef

namespace ClassDef

theorem checkMethodNames_eq_ok_iff {definition : ClassDef Plain} {result : Unit} :
    definition.checkMethodNames = .ok result ↔
      (definition.methods.map MethodDef.name).Nodup := by
  have hdistinct :
      firstRepeat? [] (definition.methods.map MethodDef.name) = none ↔
        (definition.methods.map MethodDef.name).Nodup := by
    rw [firstRepeat?_eq_none_iff]
    simp
  rw [← hdistinct, checkMethodNames]
  split
  next method hrepeat => simp [hrepeat]
  next hnone => simp [hnone]

theorem map_name_methods_erase {κ : Type} (definition : ClassDef κ) :
    definition.erase.methods.map MethodDef.name = definition.methods.map MethodDef.name := by
  simp [erase, MethodDef.erase, Function.comp_def]

/-- Of a class that belongs to the hierarchy. -/
theorem check_eq_ok_iff {definition : ClassDef Plain} {checked : ClassDef Resolved}
    (hmem : definition ∈ hierarchy.classes) :
    definition.check hierarchy = .ok checked ↔
      checked.WellTyped hierarchy.classes ∧ checked.erase = definition := by
  simp only [check, checkConstructor, bind_eq_ok_iff, pure_eq_ok_iff, fieldScope_eq_ok_iff,
    checkMethodNames_eq_ok_iff, Scope.ofParams_eq_ok_iff, Exp.checkCall_eq_ok_iff,
    Stmt.checkAll_eq_ok_iff]
  constructor
  · intro hcheck
    obtain ⟨-, ⟨-, ⟨hfields, rfl⟩, -, hnames, -, ⟨hparams, rfl⟩, superArgs,
      ⟨hsuper, hsuperErase⟩, body, ⟨hbody, hbodyErase⟩, rfl⟩, methods, hmethods, rfl⟩ := hcheck
    obtain ⟨htyped, hmethodsErase⟩ :=
      (mapM_eq_ok_iff fun _ _ _ => MethodDef.check_eq_ok_iff).mp hmethods
    have herase : erase ⟨definition.name, definition.parent, definition.fields,
        definition.params, superArgs, body, methods⟩ = definition := by
      rw [erase, hsuperErase, hbodyErase, hmethodsErase]
    have hhas := Hierarchy.hasFields_iff.mpr ⟨Hierarchy.contains_of_mem hmem, rfl⟩
    have htakes := Hierarchy.constructorTakes_iff.mpr
      ⟨hierarchy.formed.parents definition hmem, rfl⟩
    refine ⟨⟨_, hhas, hfields, ?_, hparams, ⟨_, htakes, hsuper⟩, hbody, htyped⟩, herase⟩
    rw [← map_name_methods_erase, herase]
    exact hnames
  · intro hall
    obtain ⟨⟨fields, htyped⟩, rfl⟩ := hall
    obtain ⟨-, rfl⟩ := Hierarchy.hasFields_iff.mp htyped.hasFields
    obtain ⟨_, htakes, hfit⟩ := htyped.superArgs
    obtain ⟨-, rfl⟩ := Hierarchy.constructorTakes_iff.mp htakes
    refine ⟨⟨(hierarchy.fields checked.name).reverse, checked.superArgs, checked.body⟩,
      ⟨_, ⟨htyped.admitted, rfl⟩, (), ?_, _, ⟨htyped.params, rfl⟩, _, ⟨hfit, rfl⟩,
        _, ⟨htyped.body, rfl⟩, rfl⟩, checked.methods, ?_, rfl⟩
    · rw [map_name_methods_erase]
      exact htyped.methodNames
    · exact (mapM_eq_ok_iff fun _ _ _ => MethodDef.check_eq_ok_iff).mpr ⟨htyped.methods, rfl⟩

theorem WellTyped.erase {definition : ClassDef Resolved}
    (htyped : definition.WellTyped hierarchy.classes) :
    definition.erase.WellTyped hierarchy.classes := by
  obtain ⟨fields, htyped⟩ := htyped
  obtain ⟨taken, htakes, hfit⟩ := htyped.superArgs
  have hsuper := Exp.fit_eraseAll (fun _ _ _ => Exp.HasType.erase) hfit
  refine ⟨fields, htyped.hasFields, htyped.admitted, ?_, htyped.params, ⟨taken, htakes, hsuper⟩,
    ?_, ?_⟩
  · rw [map_name_methods_erase]
    exact htyped.methodNames
  · exact Stmt.seqWellTyped_eraseAll (fun _ _ _ => Stmt.WellTyped.erase) htyped.body
  · intro method hmethod
    obtain ⟨resolved, hresolved, rfl⟩ := List.mem_map.mp hmethod
    exact (htyped.methods resolved hresolved).erase

theorem WellTyped.exists_resolved {definition : ClassDef Plain}
    (htyped : definition.WellTyped hierarchy.classes) :
    ∃ resolved : ClassDef Resolved,
      resolved.WellTyped hierarchy.classes ∧ resolved.erase = definition := by
  obtain ⟨fields, htyped⟩ := htyped
  obtain ⟨taken, htakes, hfit⟩ := htyped.superArgs
  obtain ⟨superArgs, hsuper, hsuperErase⟩ :=
    Exp.exists_fit_resolved (fun _ _ _ => Exp.HasType.exists_resolved) hfit
  obtain ⟨body, hbody, hbodyErase⟩ :=
    Stmt.exists_seq_resolved (fun _ _ _ => Stmt.WellTyped.exists_resolved) htyped.body
  obtain ⟨methods, hmethods, hmethodsErase⟩ :=
    exists_map_eq (fun _ => MethodDef.WellTyped.exists_resolved) htyped.methods
  have herase : ClassDef.erase ⟨definition.name, definition.parent, definition.fields,
      definition.params, superArgs, body, methods⟩ = definition := by
    rw [ClassDef.erase, hsuperErase, hbodyErase, hmethodsErase]
  refine ⟨_, ⟨fields, htyped.hasFields, htyped.admitted, ?_, htyped.params,
    ⟨taken, htakes, hsuper⟩, hbody, hmethods⟩, herase⟩
  rw [← map_name_methods_erase, herase]
  exact htyped.methodNames

end ClassDef

namespace Program

/-- Once the classes form a hierarchy, checking is exact. -/
theorem check_eq_ok_iff {program : Program Plain} {checked : Program Resolved} :
    program.check = .ok checked ↔
      ∃ hierarchy : Hierarchy Plain, hierarchy.classes = program.classes ∧
        checked.WellTyped hierarchy.classes ∧ checked.erase = program := by
  have hhierarchy (hierarchy : Hierarchy Plain) :
      program.hierarchy.mapError TypeError.hierarchy = .ok hierarchy ↔
        hierarchy.classes = program.classes := by
    rw [← Hierarchy.ofClasses_eq_ok_iff, Program.hierarchy]
    cases Hierarchy.ofClasses program.classes <;> simp [Except.mapError]
  have hclasses {hierarchy : Hierarchy Plain} {classes : List (ClassDef Resolved)}
      (hform : hierarchy.classes = program.classes) :
      program.classes.mapM (ClassDef.check hierarchy) = .ok classes ↔
        (∀ definition ∈ classes, definition.WellTyped hierarchy.classes) ∧
          classes.map ClassDef.erase = program.classes :=
    mapM_eq_ok_iff fun _ hmem _ => ClassDef.check_eq_ok_iff (hform ▸ hmem)
  simp only [check, bind_eq_ok_iff, pure_eq_ok_iff, hhierarchy, Stmt.check_eq_ok_iff]
  constructor
  · intro hcheck
    obtain ⟨hierarchy, hform, classes, hchecked, entry, ⟨hentry, hentryErase⟩, rfl⟩ := hcheck
    obtain ⟨htyped, herase⟩ := (hclasses hform).mp hchecked
    exact ⟨hierarchy, hform, ⟨htyped, hentry⟩, by rw [erase, herase, hentryErase]⟩
  · intro hall
    obtain ⟨hierarchy, hform, htyped, rfl⟩ := hall
    exact ⟨hierarchy, hform, checked.classes, (hclasses hform).mpr ⟨htyped.definitions, rfl⟩,
      checked.entry, ⟨htyped.entry, rfl⟩, rfl⟩

theorem wellTyped_iff_exists_resolved {program : Program Plain} :
    program.WellTyped hierarchy.classes ↔
      ∃ resolved : Program Resolved,
        resolved.WellTyped hierarchy.classes ∧ resolved.erase = program := by
  constructor
  · intro htyped
    obtain ⟨classes, hclasses, herase⟩ :=
      exists_map_eq (fun _ => ClassDef.WellTyped.exists_resolved) htyped.definitions
    obtain ⟨entry, hentry, hentryErase⟩ := htyped.entry.exists_resolved
    exact ⟨⟨classes, entry⟩, ⟨hclasses, hentry⟩, by rw [erase, herase, hentryErase]⟩
  · intro hall
    obtain ⟨resolved, htyped, rfl⟩ := hall
    refine ⟨?_, htyped.entry.erase⟩
    intro definition hdefinition
    obtain ⟨full, hfull, rfl⟩ := List.mem_map.mp hdefinition
    exact (htyped.definitions full hfull).erase

/-- The checker accepts exactly the programs whose classes make a tree and that the
rules allow, and what it returns is the one tree that differs from the program in
nothing but the notes and in which every call notes the class of its receiver. -/
theorem check_exact (program : Program Plain) :
    ((∃ checked, program.check = .ok checked) ↔
        ClassDef.FormTree program.classes ∧ program.WellTyped program.classes) ∧
      ∀ checked, program.check = .ok checked ↔
        ClassDef.FormTree program.classes ∧ checked.WellTyped program.classes ∧
          checked.erase = program := by
  have hexact (checked : Program Resolved) :
      program.check = .ok checked ↔
        ClassDef.FormTree program.classes ∧ checked.WellTyped program.classes ∧
          checked.erase = program := by
    rw [check_eq_ok_iff, ClassDef.formTree_iff]
    constructor
    · intro hall
      obtain ⟨hierarchy, hclasses, htyped⟩ := hall
      rw [← hclasses]
      exact ⟨hierarchy.formed, htyped⟩
    · intro hall
      obtain ⟨formed, htyped⟩ := hall
      exact ⟨.ofFormed formed, rfl, htyped⟩
  have hresolved (htree : ClassDef.FormTree program.classes) :
      program.WellTyped program.classes ↔ ∃ checked : Program Resolved,
        checked.WellTyped program.classes ∧ checked.erase = program :=
    @wellTyped_iff_exists_resolved (.ofFormed (ClassDef.formTree_iff.mp htree)) program
  refine ⟨?_, hexact⟩
  simp only [hexact, exists_and_left]
  exact and_congr_right fun htree => (hresolved htree).symm

/-- The checker adds notes and changes nothing else.  A tree that it returned may be checked
again without its notes, and the same notes come back. -/
theorem check_only_annotates {program : Program Plain} {checked : Program Resolved}
    (hcheck : program.check = .ok checked) :
    checked.erase = program ∧ checked.erase.check = .ok checked := by
  rcases check_eq_ok_iff.mp hcheck with ⟨hierarchy, -, -, herase⟩
  have hagain : checked.erase.check = .ok checked := by
    rw [herase]
    exact hcheck
  exact ⟨herase, hagain⟩

/-- A call on the result of another one, whose receivers are of different classes. -/
def chainedCalls {κ : Type} (inner outer : κ) : Program κ where
  classes :=
    [⟨⟨"A"⟩, .root, [⟨.int, ⟨"x"⟩⟩], [⟨.int, ⟨"v"⟩⟩], [], [.assign ⟨"x"⟩ (.var ⟨"v"⟩)],
        [⟨.object ⟨"B"⟩, ⟨"wrap"⟩, [], .returnValue (.new ⟨"B"⟩ [.var ⟨"x"⟩])⟩]⟩,
      ⟨⟨"B"⟩, ⟨"A"⟩, [], [⟨.int, ⟨"w"⟩⟩], [.binary .plus (.var ⟨"w"⟩) (.int 1)], [],
        [⟨.int, ⟨"value"⟩, [⟨.bool, ⟨"positive"⟩⟩],
          .ifElse (.var ⟨"positive"⟩) (.returnValue (.var ⟨"x"⟩)) (.returnValue (.int 0))⟩]⟩]
  entry := .println (.call (.call (.new ⟨"A"⟩ [.int 2]) ⟨"wrap"⟩ [] inner) ⟨"value"⟩
    [.bool true] outer)

theorem check_only_annotates_chainedCalls :
    (chainedCalls () ()).check = .ok (chainedCalls ⟨"A"⟩ ⟨"B"⟩) ∧
      (chainedCalls (⟨"A"⟩ : Resolved) ⟨"B"⟩).erase = chainedCalls () () ∧
      (chainedCalls (⟨"A"⟩ : Resolved) ⟨"B"⟩).erase.check = .ok (chainedCalls ⟨"A"⟩ ⟨"B"⟩) := by
  have hcheck : (chainedCalls () ()).check = .ok (chainedCalls ⟨"A"⟩ ⟨"B"⟩) := by
    rw [check, show (chainedCalls () ()).hierarchy =
        .ok ⟨(chainedCalls () ()).classes, by decide +kernel⟩ from
      Hierarchy.ofClasses_eq_ok_iff.mpr rfl]
    cbv
  exact ⟨hcheck, check_only_annotates hcheck⟩

end Program

end ClassLang
