import ClassLang.Proofs.HierarchyFaults
import ClassLang.Proofs.LoweringTotality
import ClassLang.Proofs.TableConstruction

/-!
# Programs that do not compile

A program that was not checked is refused for its hierarchy or for one of its
calls.  A call is refused if the class that it notes does not exist, or if that
class has no method of the name; nothing else about a program is looked at.

Since the verdict on a program is the verdict on its calls one after the other, the
call that is reported is the first such in the order of compilation.
-/

namespace ClassLang

/-- Why a call is refused: the class that it notes is neither declared nor the
root, or it has no such method. -/
inductive CallSite.Refused {κ : Type} (hierarchy : Hierarchy κ) :
    CallSite → LoweringError → Prop where
  | noClass {site : CallSite} :
      site.receiver ∉ ClassName.root :: hierarchy.classes.map ClassDef.name →
      Refused hierarchy site (.missingTable site.receiver)
  | noMethod {site : CallSite} :
      site.receiver ∈ ClassName.root :: hierarchy.classes.map ClassDef.name →
      site.method ∉ hierarchy.methodNames site.receiver →
      Refused hierarchy site (.missingSlot site.receiver site.method)

theorem verdict_eq_error_iff {ε α : Type} {result : Except ε α} {error : ε} :
    verdict result = .error error ↔ result = .error error := by
  cases result <;> simp [verdict, Except.map]

theorem bind_of_eq_ok {ε α β : Type} {first : Except ε α} {next : α → Except ε β} {value : α}
    (hfirst : first = .ok value) : (first >>= next) = next value := by
  rw [hfirst]
  rfl

namespace DispatchTables

variable {κ : Type} {hierarchy : Hierarchy κ} {tables : DispatchTables} {error : LoweringError}

theorem resolve_cons_of_error {site : CallSite} {rest : List CallSite}
    (hslot : tables.slot site.receiver site.method = .error error) :
    tables.resolve (site :: rest) = .error error := by
  rw [resolve, hslot]
  rfl

theorem resolve_cons_of_ok {site : CallSite} {rest : List CallSite} {slot : Nat}
    (hslot : tables.slot site.receiver site.method = .ok slot) :
    tables.resolve (site :: rest) = tables.resolve rest := by
  rw [resolve, hslot]
  rfl

theorem resolve_eq_error_iff {calls : List CallSite} :
    tables.resolve calls = .error error ↔
      ∃ site, IsFirst
          (fun _ other => ∃ cause, tables.slot other.receiver other.method = .error cause)
          calls site ∧
        tables.slot site.receiver site.method = .error error := by
  induction calls with
  | nil => simp [resolve, not_isFirst_nil]
  | cons head rest ih =>
      simp only [isFirst_cons_iff]
      cases hhead : tables.slot head.receiver head.method with
      | error cause => simp [resolve_cons_of_error hhead, hhead]
      | ok slot => simp [resolve_cons_of_ok hhead, ih]

theorem resolve_eq_ok_iff {calls : List CallSite} :
    tables.resolve calls = .ok () ↔
      ∀ site ∈ calls, ∀ cause, tables.slot site.receiver site.method ≠ .error cause := by
  induction calls with
  | nil => simp [resolve]
  | cons head rest ih =>
      rw [List.forall_mem_cons]
      cases hhead : tables.slot head.receiver head.method with
      | error cause => simp [resolve_cons_of_error hhead]
      | ok slot => simp [resolve_cons_of_ok hhead, ih]

theorem slot_eq_error_iff {name : ClassName} {method : MethodName} :
    tables.slot name method = .error error ↔
      (tables.get? name = none ∧ error = .missingTable name) ∨
        ∃ table, tables.get? name = some table ∧ table.slot? method = none ∧
          error = .missingSlot name method := by
  rw [slot, bind_eq_error_iff]
  unfold table
  cases hget : tables.get? name with
  | none => simp [eq_comm]
  | some table =>
      cases hslot : table.slot? method with
      | none => simp [hslot, eq_comm]
      | some slot => simp [hslot]

/-- Looking up the slot of a call fails exactly if the call is refused. -/
theorem slot_build_eq_error_iff {site : CallSite} :
    (build hierarchy).slot site.receiver site.method = .error error ↔
      site.Refused hierarchy error := by
  have hclass : (build hierarchy).get? site.receiver = none ↔
      site.receiver ∉ ClassName.root :: hierarchy.classes.map ClassDef.name := by
    rw [← mem_keys_build_iff, ← isSome_get?_iff, Option.not_isSome_iff_eq_none]
  have hmethod : (hierarchy.table site.receiver).slot? site.method = none ↔
      site.method ∉ hierarchy.methodNames site.receiver := by
    rw [← Hierarchy.mem_methodNames_table, DispatchTable.slot?_eq_none_iff]
  rw [slot_eq_error_iff]
  constructor
  · rintro (⟨hnone, rfl⟩ | ⟨table, hsome, hslot, rfl⟩)
    · exact .noClass (hclass.mp hnone)
    · rw [get?_build] at hsome
      split at hsome
      next hknown =>
        cases hsome
        exact .noMethod (Hierarchy.contains_iff_mem.mp hknown) (hmethod.mp hslot)
      next => cases hsome
  · intro hrefused
    cases hrefused with
    | noClass hundeclared => exact .inl ⟨hclass.mpr hundeclared, rfl⟩
    | noMethod hdeclared hlacks =>
        refine .inr ⟨_, ?_, hmethod.mpr hlacks, rfl⟩
        rw [get?_build, if_pos (Hierarchy.contains_iff_mem.mpr hdeclared)]

end DispatchTables

namespace Program

variable {program : Program Resolved} {hierarchy : Hierarchy Resolved}

/-- The verdict on a program whose classes form a hierarchy is the verdict on its
calls. -/
theorem verdict_lower (hhierarchy : program.hierarchy = .ok hierarchy) :
    verdict program.lower = (DispatchTables.build hierarchy).resolve program.calls := by
  have hclasses : hierarchy.classes = program.classes :=
    Hierarchy.ofClasses_eq_ok_iff.mp hhierarchy
  have hnames : ∀ name ∈ ClassName.root :: program.classes.map ClassDef.name,
      hierarchy.contains name = true := by
    intro name hname
    rw [← hclasses] at hname
    exact Hierarchy.contains_iff_mem.mpr hname
  rcases exists_tables hierarchy hnames with ⟨tables, htables⟩
  rw [calls, DispatchTables.resolve_append,
    ← DispatchTables.verdict_mapM _ (ClassDef.verdict_lower _), ← Stmt.verdict_lower _ []]
  rw [lower, bind_of_eq_ok (mapError_eq_ok_iff.mpr hhierarchy)]
  refine (congrArg verdict (bind_of_eq_ok htables)).trans ?_
  exact verdict_bind fun _ => verdict_bind_pure

theorem lower_eq_hierarchy_error {error : HierarchyError}
    (hfault : program.hierarchy = .error error) :
    program.lower = .error (.hierarchy error) := by
  rw [lower, hfault]
  rfl

theorem lower_eq_error_iff (hhierarchy : program.hierarchy = .ok hierarchy)
    {error : LoweringError} :
    program.lower = .error error ↔
      ∃ site, IsFirst (fun _ other => ∃ cause, other.Refused hierarchy cause)
        program.calls site ∧ site.Refused hierarchy error := by
  rw [← verdict_eq_error_iff, verdict_lower hhierarchy, DispatchTables.resolve_eq_error_iff]
  simp only [DispatchTables.slot_build_eq_error_iff]

theorem exists_lower_iff (hhierarchy : program.hierarchy = .ok hierarchy) :
    (∃ script, program.lower = .ok script) ↔
      ∀ site ∈ program.calls, ∀ cause, ¬ site.Refused hierarchy cause := by
  rw [← verdict_eq_ok_iff, verdict_lower hhierarchy, DispatchTables.resolve_eq_ok_iff]
  simp only [Ne, DispatchTables.slot_build_eq_error_iff]

/-- A program is refused for its hierarchy exactly if its classes do not form one.
Otherwise it is refused exactly if one of its calls is, and what is reported is the
first of them in the order of compilation. -/
theorem lower_reports_first_fault (program : Program Resolved) :
    (∀ error, program.lower = .error (.hierarchy error) ↔
      Hierarchy.ofClasses program.classes = .error error) ∧
    ∀ hierarchy, Hierarchy.ofClasses program.classes = .ok hierarchy →
      (∀ error, program.lower = .error error ↔
        ∃ site, IsFirst (fun _ other => ∃ cause, other.Refused hierarchy cause)
          program.calls site ∧ site.Refused hierarchy error) ∧
      ((∃ script, program.lower = .ok script) ↔
        ∀ site ∈ program.calls, ∀ cause, ¬ site.Refused hierarchy cause) := by
  constructor
  · intro error
    constructor
    · intro hlower
      cases hhierarchy : Hierarchy.ofClasses program.classes with
      | error cause =>
          rw [lower_eq_hierarchy_error hhierarchy] at hlower
          cases hlower
          rfl
      | ok hierarchy =>
          -- No call is refused for a fault of the hierarchy.
          rcases (lower_eq_error_iff hhierarchy).mp hlower with ⟨site, -, hrefused⟩
          cases hrefused
    · exact lower_eq_hierarchy_error
  · intro hierarchy hhierarchy
    exact ⟨fun _ => lower_eq_error_iff hhierarchy, exists_lower_iff hhierarchy⟩

/-- A program with three calls that are refused.  The first of them comes after a
call that is not, and has another one among its arguments. -/
def strayCalls : Program Resolved where
  classes := [⟨⟨"A"⟩, .root, [], [], [], [], [⟨.int, ⟨"f"⟩, [], .returnValue
    (.binary .plus (.call .this ⟨"f"⟩ [] ⟨"A"⟩)
      (.call .this ⟨"g"⟩ [.call .this ⟨"f"⟩ [] ⟨"B"⟩] ⟨"A"⟩))⟩]⟩]
  entry := .exp (.call .this ⟨"f"⟩ [] .root)

theorem lower_reports_first_fault_strayCalls :
    ∃ hierarchy, Hierarchy.ofClasses strayCalls.classes = .ok hierarchy ∧
      strayCalls.lower = .error (.missingSlot ⟨"A"⟩ ⟨"g"⟩) ∧
      (∃ site, IsFirst (fun _ other => ∃ cause, other.Refused hierarchy cause)
        strayCalls.calls site ∧ site.Refused hierarchy (.missingSlot ⟨"A"⟩ ⟨"g"⟩)) ∧
      ¬ ∃ script, strayCalls.lower = .ok script := by
  have hhierarchy : Hierarchy.ofClasses strayCalls.classes =
      .ok ⟨strayCalls.classes, by decide +kernel⟩ := Hierarchy.ofClasses_eq_ok_iff.mpr rfl
  have hlower : strayCalls.lower = .error (.missingSlot ⟨"A"⟩ ⟨"g"⟩) := by
    rw [lower, hierarchy, hhierarchy]
    cbv
  rcases (lower_reports_first_fault strayCalls).2 _ hhierarchy with ⟨herror, -⟩
  exact ⟨_, hhierarchy, hlower, (herror _).mp hlower, by simp [hlower]⟩

end Program

end ClassLang
