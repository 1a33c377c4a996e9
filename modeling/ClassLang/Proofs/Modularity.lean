import ClassLang.Proofs.Inclusion

/-!
# Programs put together from their classes

What the stages make of a class is recorded next to the class: its checked definition,
its dispatch table and its code.  These parts, in source order, and the entry point make
up all that the stages return for a program.

A part is determined by the hierarchy that its class belongs to, and a hierarchy that
includes this one determines the same part.  So the order of the classes only arranges
the parts, and a further class only adds its own.
-/

namespace ClassLang

/-! ## Parts -/

/-- A class with its checked definition, its table and its functions. -/
structure CompiledClass where
  source : ClassDef Plain
  resolved : ClassDef Resolved
  table : DispatchTable
  code : Script.ClassCode

structure CompiledParts where
  classes : List CompiledClass
  resolvedEntry : Stmt Resolved
  entry : Script.Instr

namespace CompiledParts

variable (parts : CompiledParts)

def checked : Program Resolved :=
  ⟨parts.classes.map CompiledClass.resolved, parts.resolvedEntry⟩

def script : Script where
  tables := (.root, .empty) :: parts.classes.map fun part => (part.source.name, part.table)
  classes := parts.classes.map CompiledClass.code
  entry := parts.entry

/-- A class owns one line among the tables and a run of lines among the functions. -/
def lines : List String :=
  Script.preamble
    ++ Script.tableLine .root .empty
    :: parts.classes.map (fun part => Script.tableLine part.source.name part.table)
    ++ parts.classes.flatMap (fun part => part.code.lines)
    ++ parts.entry.lines 0

theorem lines_script : parts.script.lines = parts.lines := by
  simp [script, lines, Script.lines, List.flatMap_map, Function.comp_def]

end CompiledParts

/-- The classes of the program are those of the parts, and all that the stages return for
it is in the parts. -/
structure Program.MadeInto (program : Program Plain) (parts : CompiledParts) : Prop where
  sources : parts.classes.map CompiledClass.source = program.classes
  checked : program.check = .ok parts.checked
  tables : ∃ hierarchy, parts.checked.hierarchy = .ok hierarchy ∧ ∀ part ∈ parts.classes,
    (DispatchTables.build hierarchy).get? part.source.name = some part.table
  compiled : parts.checked.lower = .ok parts.script
  text : parts.script.text = Text.unlines parts.lines

/-! ## Parts of a hierarchy -/

/-- The part is what the stages make of one of the classes of the hierarchy. -/
structure CompiledClass.Fits (part : CompiledClass) (hierarchy : Hierarchy Plain) : Prop where
  declared : part.source ∈ hierarchy.classes
  checked : part.source.check hierarchy = .ok part.resolved
  table : (DispatchTables.build hierarchy).get? part.source.name = some part.table
  code : part.resolved.lower (.build hierarchy) = .ok part.code

structure CompiledParts.Fit (parts : CompiledParts) (hierarchy : Hierarchy Plain)
    (entry : Stmt Plain) : Prop where
  classes : ∀ part ∈ parts.classes, part.Fits hierarchy
  checked : entry.check hierarchy .entry [] = .ok parts.resolvedEntry
  code : parts.resolvedEntry.lower (.build hierarchy) [] = .ok parts.entry

theorem CompiledClass.Fits.erase_resolved {part : CompiledClass} {hierarchy : Hierarchy Plain}
    (hfits : part.Fits hierarchy) : part.resolved.erase = part.source :=
  ((ClassDef.check_eq_ok_iff hfits.declared).mp hfits.checked).2

theorem CompiledClass.Fits.of_subset {small large : Hierarchy Plain}
    (hsub : small.classes ⊆ large.classes) {part : CompiledClass} (hfits : part.Fits small) :
    part.Fits large := by
  have hkept := DispatchTables.build_keptBy_of_subset hsub
  have hdeclared := hsub hfits.declared
  rcases (ClassDef.check_eq_ok_iff hfits.declared).mp hfits.checked with ⟨htyped, herase⟩
  have hchecked : part.source.check large = .ok part.resolved :=
    (ClassDef.check_eq_ok_iff hdeclared).mpr ⟨htyped.of_subset hsub, herase⟩
  exact ⟨hdeclared, hchecked, hkept _ _ hfits.table,
    ClassDef.lower_of_keptBy hkept hfits.code⟩

theorem CompiledParts.Fit.of_subset {small large : Hierarchy Plain} {parts : CompiledParts}
    {entry : Stmt Plain} (hsub : small.classes ⊆ large.classes)
    (hfit : parts.Fit small entry) : parts.Fit large entry := by
  have hkept := DispatchTables.build_keptBy_of_subset hsub
  rcases Stmt.check_eq_ok_iff.mp hfit.checked with ⟨htyped, herase⟩
  have hchecked : entry.check large .entry [] = .ok parts.resolvedEntry :=
    Stmt.check_eq_ok_iff.mpr ⟨htyped.of_subset hsub, herase⟩
  refine ⟨?_, hchecked, Stmt.lower_of_keptBy hkept hfit.code⟩
  intro part hpart
  exact (hfit.classes part hpart).of_subset hsub

section

variable {program : Program Plain} {hierarchy : Hierarchy Plain} {parts : CompiledParts}

theorem mapM_map_eq_ok {ε α β γ : Type} {f : α → Except ε β} {key : γ → α} {value : γ → β}
    {items : List γ} (hitems : ∀ item ∈ items, f (key item) = .ok (value item)) :
    (items.map key).mapM f = .ok (items.map value) := by
  apply mapM_of_forall₂
  rw [List.forall₂_map_left_iff, List.forall₂_map_right_iff, List.forall₂_same]
  exact hitems

theorem CompiledParts.Fit.check_eq_ok (hfit : parts.Fit hierarchy program.entry)
    (hclasses : hierarchy.classes = program.classes)
    (hsources : parts.classes.map CompiledClass.source = program.classes) :
    program.check = .ok parts.checked := by
  have hchecked : program.classes.mapM (ClassDef.check hierarchy) =
      .ok (parts.classes.map CompiledClass.resolved) := by
    rw [← hsources]
    exact mapM_map_eq_ok fun part hpart => (hfit.classes part hpart).checked
  simp only [Program.check, bind_eq_ok_iff, pure_eq_ok_iff, mapError_eq_ok_iff]
  exact ⟨hierarchy, Hierarchy.ofClasses_eq_ok_iff.mpr hclasses, _, hchecked, _, hfit.checked, rfl⟩

theorem DispatchTables.mapM_table_eq_ok {tables : DispatchTables}
    {listed : List (ClassName × DispatchTable)}
    (hlisted : ∀ entry ∈ listed, tables.get? entry.1 = some entry.2) :
    (listed.map Prod.fst).mapM (fun name => do
      let table ← tables.table name
      return (name, table)) = .ok listed := by
  rw [← List.map_id listed, List.map_map]
  apply mapM_map_eq_ok
  intro entry hentry
  rw [Function.comp_apply, id_eq, table, hlisted entry hentry]
  rfl

/-- The tables are built from the checked classes, where a class has the same table as
among the plain ones. -/
theorem CompiledParts.Fit.lower_eq_ok {entry : Stmt Plain} (hfit : parts.Fit hierarchy entry)
    {resolved : Hierarchy Resolved} (hresolved : resolved.classes = parts.checked.classes)
    (hkept : (DispatchTables.build hierarchy).KeptBy (.build resolved)) :
    parts.checked.lower = .ok parts.script := by
  have hnames : ClassName.root :: parts.checked.classes.map ClassDef.name =
      parts.script.tables.map Prod.fst := by
    simp only [CompiledParts.checked, CompiledParts.script, List.map_cons, List.map_map,
      List.cons.injEq, true_and]
    apply List.map_congr_left
    intro part hpart
    rw [Function.comp_apply, Function.comp_apply, ← (hfit.classes part hpart).erase_resolved,
      ClassDef.name_erase]
  have hlisted : ∀ entry ∈ parts.script.tables,
      (DispatchTables.build resolved).get? entry.1 = some entry.2 := by
    rw [CompiledParts.script, List.forall_mem_cons, List.forall_mem_map]
    exact ⟨DispatchTables.get?_build_root resolved,
      fun part hpart => hkept _ _ (hfit.classes part hpart).table⟩
  have htables := DispatchTables.mapM_table_eq_ok hlisted
  rw [← hnames] at htables
  have hcodes : parts.checked.classes.mapM (ClassDef.lower (.build resolved)) =
      .ok parts.script.classes :=
    mapM_map_eq_ok fun part hpart => ClassDef.lower_of_keptBy hkept (hfit.classes part hpart).code
  simp only [Program.lower, bind_eq_ok_iff, pure_eq_ok_iff, mapError_eq_ok_iff]
  exact ⟨resolved, Hierarchy.ofClasses_eq_ok_iff.mpr hresolved, _, htables, _, hcodes, _,
    Stmt.lower_of_keptBy hkept hfit.code, rfl⟩

theorem CompiledParts.Fit.madeInto (hfit : parts.Fit hierarchy program.entry)
    (hclasses : hierarchy.classes = program.classes)
    (hsources : parts.classes.map CompiledClass.source = program.classes) :
    program.MadeInto parts := by
  have herased : parts.checked.classes.map ClassDef.erase = hierarchy.classes := by
    rw [hclasses, ← hsources, CompiledParts.checked, List.map_map]
    exact List.map_congr_left fun part hpart => (hfit.classes part hpart).erase_resolved
  have hformed : ClassDef.FormHierarchy parts.checked.classes := by
    rw [← ClassDef.formHierarchy_map_erase_iff, herased]
    exact hierarchy.formed
  have hkept : (DispatchTables.build hierarchy).KeptBy (.build (.ofFormed hformed)) := by
    intro name table htable
    rw [DispatchTables.get?_build_eq_of_erase herased, htable]
  refine ⟨hsources, hfit.check_eq_ok hclasses hsources,
    ⟨.ofFormed hformed, Hierarchy.ofClasses_eq_ok_iff.mpr rfl, ?_⟩, hfit.lower_eq_ok rfl hkept, ?_⟩
  · intro part hpart
    exact hkept _ _ (hfit.classes part hpart).table
  · rw [Script.text, parts.lines_script]

/-- A program that passes the checker has parts. -/
theorem exists_fit_of_check {checked : Program Resolved} (hcheck : program.check = .ok checked) :
    ∃ (hierarchy : Hierarchy Plain) (parts : CompiledParts),
      hierarchy.classes = program.classes ∧
      parts.classes.map CompiledClass.source = program.classes ∧
      parts.Fit hierarchy program.entry := by
  rcases exists_lower_of_check hcheck with ⟨script, hlower⟩
  rcases Program.check_eq_ok_iff.mp hcheck with ⟨hierarchy, hclasses, htyped, rfl⟩
  rcases Program.compilesTo_of_lower hlower with ⟨resolved, hresolved, hcompiles⟩
  have herased : resolved.classes.map ClassDef.erase = hierarchy.classes := by
    rw [hresolved, hclasses]
    rfl
  have hkept : (DispatchTables.build resolved).KeptBy (.build hierarchy) := by
    intro name table htable
    rw [← DispatchTables.get?_build_eq_of_erase herased, htable]
  have hpart : ∀ source ∈ checked.erase.classes,
      ∃ part : CompiledClass, part.Fits hierarchy ∧ part.source = source := by
    intro source hsource
    rcases List.mem_map.mp hsource with ⟨definition, hdefinition, rfl⟩
    rcases exists_right_of_forall₂ hcompiles.classes hdefinition with ⟨code, -, hcode⟩
    have hdeclared : definition.erase ∈ hierarchy.classes := hclasses ▸ hsource
    have hchecked : definition.erase.check hierarchy = .ok definition :=
      (ClassDef.check_eq_ok_iff hdeclared).mpr ⟨htyped.definitions definition hdefinition, rfl⟩
    have htable : (DispatchTables.build hierarchy).get? definition.erase.name =
        some (hierarchy.table definition.erase.name) := by
      rw [DispatchTables.get?_build, if_pos (Hierarchy.contains_of_mem hdeclared)]
    exact ⟨⟨definition.erase, definition, _, code⟩,
      ⟨hdeclared, hchecked, htable, ClassDef.lower_of_keptBy hkept hcode⟩, rfl⟩
  rcases exists_map_eq (fun _ hexists => hexists) hpart with ⟨classes, hfits, hsources⟩
  have hentry : checked.erase.entry.check hierarchy .entry [] = .ok checked.entry :=
    Stmt.check_eq_ok_iff.mpr ⟨htyped.entry, rfl⟩
  exact ⟨hierarchy, ⟨classes, checked.entry, script.entry⟩, hclasses, hsources, hfits, hentry,
    Stmt.lower_of_keptBy hkept hcompiles.entry⟩

end

/-! ## The order of the classes -/

section

variable {program reordered : Program Plain}

theorem exists_hierarchy_of_perm {small : Hierarchy Plain} {classes : List (ClassDef Plain)}
    (hperm : classes.Perm small.classes) : ∃ large : Hierarchy Plain, large.classes = classes := by
  have hdistinct : (ClassName.root :: classes.map ClassDef.name).Nodup :=
    ((hperm.map ClassDef.name).cons .root).nodup_iff.mpr small.formed.distinct
  have hformed := small.formed.of_subset hperm.symm.subset hdistinct
    fun definition hmem => .inl (hperm.subset hmem)
  exact ⟨.ofFormed hformed, rfl⟩

theorem exists_map_eq_of_perm {α β : Type} {f : α → β} {items : List α} {images : List β}
    (hperm : images.Perm (items.map f)) :
    ∃ moved, List.map f moved = images ∧ moved.Perm items := by
  have hcomp : Relation.Comp (fun images moved => images = List.map f moved) List.Perm
      images items := by
    rw [List.eq_map_comp_perm]
    exact hperm
  rcases hcomp with ⟨moved, himages, hmoved⟩
  exact ⟨moved, himages.symm, hmoved⟩

/-- The parts are rearranged as their classes are. -/
theorem exists_rearranged {checked : Program Resolved} (hcheck : program.check = .ok checked)
    (hentry : reordered.entry = program.entry) (hperm : reordered.classes.Perm program.classes) :
    ∃ (parts : CompiledParts) (rearranged : List CompiledClass),
      rearranged.Perm parts.classes ∧ program.MadeInto parts ∧
      reordered.MadeInto { parts with classes := rearranged } := by
  rcases exists_fit_of_check hcheck with ⟨hierarchy, parts, hclasses, hsources, hfit⟩
  have hmoved : reordered.classes.Perm hierarchy.classes := by
    rw [hclasses]
    exact hperm
  have hsourced : reordered.classes.Perm (parts.classes.map CompiledClass.source) := by
    rw [hsources]
    exact hperm
  rcases exists_hierarchy_of_perm hmoved with ⟨other, hother⟩
  rcases exists_map_eq_of_perm hsourced with ⟨rearranged, hrearranged, hparts⟩
  have hsub : hierarchy.classes ⊆ other.classes := by
    rw [hother]
    exact hmoved.symm.subset
  -- The other hierarchy has the same classes, so it determines the same parts.
  have hlarge := hfit.of_subset hsub
  have hfitOther : CompiledParts.Fit { parts with classes := rearranged } other
      reordered.entry := by
    rw [hentry]
    exact ⟨fun part hpart => hlarge.classes part (hparts.subset hpart), hlarge.checked, hlarge.code⟩
  exact ⟨parts, rearranged, hparts, hfit.madeInto hclasses hsources,
    hfitOther.madeInto hother hrearranged⟩

/-- The order of the classes has no influence on whether a program passes the checker, nor
on what is made of any of its classes or of the entry point: the script is rearranged as
the program is. -/
theorem declaration_order_irrelevant (hentry : reordered.entry = program.entry)
    (hperm : reordered.classes.Perm program.classes) :
    ((∃ checked, program.check = .ok checked) ↔ ∃ checked, reordered.check = .ok checked) ∧
      ∀ checked, program.check = .ok checked →
        ∃ (parts : CompiledParts) (rearranged : List CompiledClass),
          rearranged.Perm parts.classes ∧ program.MadeInto parts ∧
          reordered.MadeInto { parts with classes := rearranged } := by
  refine ⟨⟨?_, ?_⟩, fun checked hcheck => exists_rearranged hcheck hentry hperm⟩
  · rintro ⟨checked, hcheck⟩
    rcases exists_rearranged hcheck hentry hperm with ⟨parts, rearranged, -, -, hmade⟩
    exact ⟨_, hmade.checked⟩
  · rintro ⟨checked, hcheck⟩
    rcases exists_rearranged hcheck hentry.symm hperm.symm with ⟨parts, rearranged, -, -, hmade⟩
    exact ⟨_, hmade.checked⟩

end

theorem check_overridingProgram :
    (overridingProgram ()).check = .ok (overridingProgram ⟨"B"⟩) := by
  rw [Program.check_of_faultless (by decide +kernel)]
  cbv

/-- The class that overrides a method comes before the one that introduces it. -/
def overridingFirst : Program Plain where
  classes := (overridingProgram ()).classes.reverse
  entry := (overridingProgram ()).entry

theorem declaration_order_irrelevant_overridingFirst :
    overridingFirst.classes.Perm (overridingProgram ()).classes ∧
      (overridingProgram ()).check = .ok (overridingProgram ⟨"B"⟩) ∧
      ∃ (parts : CompiledParts) (rearranged : List CompiledClass),
        rearranged.Perm parts.classes ∧ (overridingProgram ()).MadeInto parts ∧
        overridingFirst.MadeInto { parts with classes := rearranged } := by
  have hperm : overridingFirst.classes.Perm (overridingProgram ()).classes :=
    List.reverse_perm _
  have hentry : overridingFirst.entry = (overridingProgram ()).entry := rfl
  exact ⟨hperm, check_overridingProgram,
    (declaration_order_irrelevant hentry hperm).2 _ check_overridingProgram⟩

/-! ## A further class -/

section

variable {before after : List (ClassDef Plain)} {definition : ClassDef Plain}
  {entry : Stmt Plain}

theorem exists_hierarchy_of_insert {small : Hierarchy Plain}
    (hclasses : small.classes = before ++ after)
    (hfresh : ClassDef.declares (before ++ after) definition.name = false)
    (hparent : ClassDef.declares (before ++ after) definition.parent = true) :
    ∃ large : Hierarchy Plain, large.classes = before ++ definition :: after := by
  have hperm : (before ++ definition :: after).Perm (definition :: small.classes) := by
    rw [hclasses]
    exact List.perm_middle
  have hnames : (ClassName.root :: (before ++ definition :: after).map ClassDef.name).Perm
      (definition.name :: ClassName.root :: small.classes.map ClassDef.name) :=
    ((hperm.map ClassDef.name).cons .root).trans (.swap _ _ _)
  have hnew : definition.name ∉ ClassName.root :: small.classes.map ClassDef.name := by
    rw [List.mem_cons, ← ClassDef.declares_iff, hclasses, hfresh]
    exact Bool.false_ne_true
  have hdistinct := hnames.nodup_iff.mpr (List.nodup_cons.mpr ⟨hnew, small.formed.distinct⟩)
  have hsub : small.classes ⊆ before ++ definition :: after := by
    rw [hclasses]
    exact ((List.sublist_cons_self definition after).append_left before).subset
  have hadded : ∀ other ∈ before ++ definition :: after,
      other ∈ small.classes ∨ ClassDef.declares small.classes other.parent = true := by
    intro other hother
    rcases List.mem_cons.mp (hperm.subset hother) with rfl | hold
    · exact .inr (hclasses ▸ hparent)
    · exact .inl hold
  exact ⟨.ofFormed (small.formed.of_subset hsub hdistinct hadded), rfl⟩

/-- A class extends neither itself nor a class that is not there. -/
theorem declares_parent_of_insert {large : Hierarchy Plain}
    (hclasses : large.classes = before ++ definition :: after) :
    ClassDef.declares (before ++ after) definition.parent = true := by
  have hmem : definition ∈ large.classes := by
    rw [hclasses]
    exact List.mem_append_right _ List.mem_cons_self
  have hparent := large.formed.parents definition hmem
  have hne := large.formed.parent_ne_name hmem
  rw [hclasses, ClassDef.declares_iff] at hparent
  rw [ClassDef.declares_iff]
  apply hparent.imp_right
  intro hname
  simpa [hne] using hname

theorem subset_of_insert {small large : Hierarchy Plain}
    (hsmall : small.classes = before ++ after)
    (hlarge : large.classes = before ++ definition :: after) : small.classes ⊆ large.classes := by
  rw [hsmall, hlarge]
  exact ((List.sublist_cons_self definition after).append_left before).subset

theorem ClassDef.exists_check_iff {hierarchy : Hierarchy Plain}
    (hmem : definition ∈ hierarchy.classes) :
    (∃ resolved, definition.check hierarchy = .ok resolved) ↔
      definition.WellTyped hierarchy.classes := by
  simp only [check_eq_ok_iff hmem]
  constructor
  · rintro ⟨resolved, htyped, rfl⟩
    exact htyped.erase
  · exact WellTyped.exists_resolved

theorem Program.exists_check_iff {program : Program Plain} :
    (∃ checked, program.check = .ok checked) ↔
      ∃ hierarchy : Hierarchy Plain, hierarchy.classes = program.classes ∧
        program.WellTyped hierarchy.classes := by
  simp only [check_eq_ok_iff, wellTyped_iff_exists_resolved]
  rw [exists_comm]
  simp only [exists_and_left]

theorem exists_check_insert_iff {checked : Program Resolved}
    (hcheck : Program.check ⟨before ++ after, entry⟩ = .ok checked) :
    (∃ result, Program.check ⟨before ++ definition :: after, entry⟩ = .ok result) ↔
      ClassDef.declares (before ++ after) definition.parent = true ∧
        ∃ hierarchy, Hierarchy.ofClasses (before ++ definition :: after) = .ok hierarchy ∧
          ∃ resolved, definition.check hierarchy = .ok resolved := by
  have hmiddle : definition ∈ before ++ definition :: after :=
    List.mem_append_right _ List.mem_cons_self
  simp only [Program.exists_check_iff, Hierarchy.ofClasses_eq_ok_iff]
  constructor
  · rintro ⟨large, hlarge, htyped⟩
    have hmem : definition ∈ large.classes := hlarge ▸ hmiddle
    exact ⟨declares_parent_of_insert hlarge, large, hlarge,
      (ClassDef.exists_check_iff hmem).mpr (htyped.definitions definition hmiddle)⟩
  · rintro ⟨-, large, hlarge, hchecked⟩
    have hmem : definition ∈ large.classes := hlarge ▸ hmiddle
    have htyped := (ClassDef.exists_check_iff hmem).mp hchecked
    rcases Program.exists_check_iff.mp ⟨checked, hcheck⟩ with ⟨small, hsmall, hold⟩
    have hsub := subset_of_insert hsmall hlarge
    refine ⟨large, hlarge, ?_, hold.entry.of_subset hsub⟩
    intro other hother
    rcases List.mem_cons.mp (List.perm_middle.subset hother) with rfl | hmem
    · exact htyped
    · exact (hold.definitions other hmem).of_subset hsub

theorem exists_parts_of_insert {checked result : Program Resolved}
    (hcheck : Program.check ⟨before ++ after, entry⟩ = .ok checked)
    (hresult : Program.check ⟨before ++ definition :: after, entry⟩ = .ok result) :
    ∃ (earlier later : List CompiledClass) (added : CompiledClass)
        (resolvedEntry : Stmt Resolved) (code : Script.Instr), added.source = definition ∧
      Program.MadeInto ⟨before ++ after, entry⟩ ⟨earlier ++ later, resolvedEntry, code⟩ ∧
      Program.MadeInto ⟨before ++ definition :: after, entry⟩
        ⟨earlier ++ added :: later, resolvedEntry, code⟩ := by
  rcases exists_fit_of_check hcheck with ⟨small, ⟨classes, resolvedEntry, code⟩, hsmall, hsources,
    hfit⟩
  rcases exists_fit_of_check hresult with ⟨large, whole, hlarge, hwhole, hfitWhole⟩
  rcases List.map_eq_append_iff.mp hsources with ⟨earlier, later, rfl, rfl, rfl⟩
  have hmem : definition ∈ whole.classes.map CompiledClass.source := by
    rw [hwhole]
    exact List.mem_append_right _ List.mem_cons_self
  rcases List.mem_map.mp hmem with ⟨added, hadded, rfl⟩
  -- Only the added class is taken from the parts of the extended program; those of the
  -- others are the ones they had before.
  have hkept := hfit.of_subset (subset_of_insert hsmall hlarge)
  have hextended : CompiledParts.Fit ⟨earlier ++ added :: later, resolvedEntry, code⟩ large
      entry := by
    refine ⟨?_, hkept.checked, hkept.code⟩
    intro part hpart
    rcases List.mem_cons.mp (List.perm_middle.subset hpart) with rfl | hold
    · exact hfitWhole.classes part hadded
    · exact hkept.classes part hold
  exact ⟨earlier, later, added, resolvedEntry, code, rfl, hfit.madeInto hsmall hsources,
    hextended.madeInto hlarge (by simp)⟩

/-- A class with a new name may be added wherever one likes if its parent is there and the
class itself is well typed, and nothing else has to be checked or compiled again. -/
theorem added_class_conservative {checked : Program Resolved}
    (hcheck : Program.check ⟨before ++ after, entry⟩ = .ok checked)
    (hfresh : ClassDef.declares (before ++ after) definition.name = false) :
    ((∃ result, Program.check ⟨before ++ definition :: after, entry⟩ = .ok result) ↔
        ClassDef.declares (before ++ after) definition.parent = true ∧
          ∃ hierarchy, Hierarchy.ofClasses (before ++ definition :: after) = .ok hierarchy ∧
            ∃ resolved, definition.check hierarchy = .ok resolved) ∧
      (ClassDef.declares (before ++ after) definition.parent = true →
        ∃ hierarchy, Hierarchy.ofClasses (before ++ definition :: after) = .ok hierarchy) ∧
      ∀ result, Program.check ⟨before ++ definition :: after, entry⟩ = .ok result →
        ∃ (earlier later : List CompiledClass) (added : CompiledClass)
            (resolvedEntry : Stmt Resolved) (code : Script.Instr), added.source = definition ∧
          Program.MadeInto ⟨before ++ after, entry⟩ ⟨earlier ++ later, resolvedEntry, code⟩ ∧
          Program.MadeInto ⟨before ++ definition :: after, entry⟩
            ⟨earlier ++ added :: later, resolvedEntry, code⟩ := by
  refine ⟨exists_check_insert_iff hcheck, ?_, fun _ => exists_parts_of_insert hcheck⟩
  intro hparent
  rcases Program.check_eq_ok_iff.mp hcheck with ⟨small, hsmall, -⟩
  rcases exists_hierarchy_of_insert hsmall hfresh hparent with ⟨large, hlarge⟩
  exact ⟨large, Hierarchy.ofClasses_eq_ok_iff.mpr hlarge⟩

end

/-- A class that calls an inherited method. -/
def callingSubclass {κ : Type} (note : κ) : ClassDef κ :=
  ⟨⟨"C"⟩, ⟨"B"⟩, [], [⟨.int, ⟨"v"⟩⟩], [.var ⟨"v"⟩, .int 0], [],
    [⟨.int, ⟨"next"⟩, [], .returnValue (.call .this ⟨"add"⟩ [.int 1] note)⟩]⟩

/-- The class is put before the one that it extends. -/
def overridingExtended : Program Plain where
  classes := (overridingProgram ()).classes.take 1 ++
    callingSubclass () :: (overridingProgram ()).classes.drop 1
  entry := (overridingProgram ()).entry

theorem added_class_conservative_overridingExtended :
    ∃ (earlier later : List CompiledClass) (added : CompiledClass)
        (resolvedEntry : Stmt Resolved) (code : Script.Instr), added.source = callingSubclass () ∧
      (overridingProgram ()).MadeInto ⟨earlier ++ later, resolvedEntry, code⟩ ∧
      overridingExtended.MadeInto ⟨earlier ++ added :: later, resolvedEntry, code⟩ := by
  have hcheck : Program.check ⟨(overridingProgram ()).classes.take 1 ++
      (overridingProgram ()).classes.drop 1, (overridingProgram ()).entry⟩ =
      .ok (overridingProgram ⟨"B"⟩) := check_overridingProgram
  have hfresh : ClassDef.declares ((overridingProgram ()).classes.take 1 ++
      (overridingProgram ()).classes.drop 1) (callingSubclass ()).name = false := by decide
  have hfaultless : Hierarchy.fault? overridingExtended.classes = none := by decide +kernel
  have hchecked : (callingSubclass ()).check ⟨overridingExtended.classes, hfaultless⟩ =
      .ok (callingSubclass ⟨"C"⟩) := by cbv
  rcases added_class_conservative hcheck hfresh with ⟨haccepted, -, hparts⟩
  rcases haccepted.mpr ⟨by decide, _, Hierarchy.ofClasses_eq_ok_iff.mpr rfl, _, hchecked⟩ with
    ⟨result, hresult⟩
  exact hparts result hresult

end ClassLang
