import ClassLang.Dispatch
import ClassLang.Script
import ClassLang.Proofs.MethodLookup

/-!
# Slots and look-up by name

The tables are built in one pass over the classes in source order, each class
after its ancestors, and a class that was built as the ancestor of another one is
not built again.  Through this pass every class gets the table that a plain
recursion along its line gives: the table of the parent, extended.

Extending a table never moves a slot, and it puts the class into the slots of the
methods that the class defines.  So a call through a slot that was fixed for some
class reaches, in the table of any class below it, the method that a look-up by
name would find there.
-/

namespace ClassLang

variable {κ : Type} {owner : ClassName} {method other : MethodName} {slot : Nat}

namespace DispatchTable

variable {table : DispatchTable} {definition : ClassDef κ}

/-- The entry of the slot that serves a method. -/
def lookup? (table : DispatchTable) (method : MethodName) : Option DispatchEntry :=
  table.entries.find? fun entry => entry.method = method

theorem lookup?_of_slot? (hslot : table.slot? method = some slot) :
    table.entries[slot]? = table.lookup? method := by
  obtain ⟨hlt, hmethod, hbefore⟩ := List.findIdx?_eq_some_iff_getElem.mp hslot
  rw [List.getElem?_eq_getElem hlt, eq_comm]
  unfold lookup?
  rw [List.find?_eq_some_iff_getElem]
  exact ⟨hmethod, slot, hlt, rfl, fun j hj => by simpa using hbefore j hj⟩

theorem slot?_lt_size (hslot : table.slot? method = some slot) : slot < table.size :=
  (List.findIdx?_eq_some_iff_getElem.mp hslot).1

theorem isSome_slot? : (table.slot? method).isSome = (table.lookup? method).isSome := by
  unfold slot? lookup?
  rw [List.findIdx?_isSome, Bool.eq_iff_iff, List.find?_isSome, List.any_eq_true]

theorem lookup?_define :
    (table.define owner method).lookup? other =
      if other = method then some ⟨method, owner⟩ else table.lookup? other := by
  unfold define lookup?
  split
  next hany =>
    rw [List.find?_map]
    have hsame :
        ((fun entry : DispatchEntry => decide (entry.method = other)) ∘
            fun entry => if entry.method = method then ⟨method, owner⟩ else entry) =
          fun entry => decide (entry.method = other) := by
      funext entry
      simp only [Function.comp]
      split <;> simp_all
    rw [hsame]
    by_cases heq : other = method
    · subst heq
      cases hfind : table.entries.find? fun entry => entry.method = other with
      | none =>
          obtain ⟨entry, hmem, hentry⟩ := List.any_eq_true.mp hany
          exact absurd hentry (List.find?_eq_none.mp hfind entry hmem)
      | some entry =>
          have hentry : entry.method = other := by simpa using List.find?_some hfind
          simp [hentry]
    · rw [if_neg heq]
      cases hfind : table.entries.find? fun entry => entry.method = other with
      | none => rfl
      | some entry =>
          have hentry : entry.method = other := by simpa using List.find?_some hfind
          simp [hentry, heq]
  next hany =>
    rw [List.find?_append]
    by_cases heq : other = method
    · subst heq
      have hnone : table.entries.find? (fun entry => entry.method = other) = none := by
        simpa using hany
      simp [hnone]
    · simp [heq, Ne.symm heq]

theorem slot?_define (hslot : table.slot? other = some slot) :
    (table.define owner method).slot? other = some slot := by
  unfold define slot? at *
  split
  next hany =>
    rw [List.findIdx?_map, ← hslot]
    congr 1
    funext entry
    simp only [Function.comp]
    split <;> simp_all
  next hany => simp [List.findIdx?_append, hslot]

theorem lookup?_extend :
    (table.extend definition).lookup? method =
      if method ∈ definition.methods.map MethodDef.name then some ⟨method, definition.name⟩
      else table.lookup? method := by
  unfold extend
  induction definition.methods generalizing table with
  | nil => simp
  | cons first rest ih =>
      rw [List.foldl_cons, ih, lookup?_define]
      by_cases hrest : method ∈ rest.map MethodDef.name
      · simp [hrest]
      · by_cases heq : method = first.name
        · subst heq
          simp [hrest]
        · simp [hrest, heq]

theorem slot?_extend (hslot : table.slot? method = some slot) :
    (table.extend definition).slot? method = some slot := by
  unfold extend
  induction definition.methods generalizing table with
  | nil => exact hslot
  | cons first rest ih =>
      rw [List.foldl_cons]
      exact ih (slot?_define hslot)

end DispatchTable

namespace Hierarchy

variable {hierarchy : Hierarchy κ} {name sub sup : ClassName} {definition : ClassDef κ}

/-- The table of a class by recursion along its line: every class extends the
table of its parent, starting with the empty table of the root. -/
def table (hierarchy : Hierarchy κ) (name : ClassName) : DispatchTable :=
  (hierarchy.lineage name).foldl DispatchTable.extend .empty

theorem table_of_get?_eq_none (hget : hierarchy.get? name = none) :
    hierarchy.table name = .empty := by
  simp [table, lineage_of_get?_eq_none hget]

theorem table_of_get?_eq_some (hget : hierarchy.get? name = some definition) :
    hierarchy.table name = (hierarchy.table definition.parent).extend definition := by
  simp [table, lineage_of_get?_eq_some hget]

/-- The entry of a method names the class that looking it up finds. -/
theorem lookup?_table :
    (hierarchy.table name).lookup? method =
      (hierarchy.method? name method).map fun owned => ⟨method, owned.owner⟩ := by
  induction name using hierarchy.parent_induction with
  | undeclared name hget =>
      rw [table_of_get?_eq_none hget, method?_of_get?_eq_none hget]
      rfl
  | declared name definition hget ih =>
      rw [table_of_get?_eq_some hget, method?_of_get?_eq_some hget,
        DispatchTable.lookup?_extend, Option.map_or]
      cases hown : definition.methods.reverse.find? fun candidate =>
          candidate.name = method with
      | none =>
          have hnot : method ∉ definition.methods.map MethodDef.name := by
            simpa using hown
          simp [hnot, ih]
      | some found =>
          have hfound : found.name = method := by simpa using List.find?_some hown
          have hmem : method ∈ definition.methods.map MethodDef.name := by
            rw [← hfound]
            exact List.mem_map_of_mem (List.mem_reverse.mp (List.mem_of_find?_eq_some hown))
          simp [hmem]

theorem exists_slot?_of_method? {owned : OwnedMethod κ}
    (hfound : hierarchy.method? name method = some owned) :
    ∃ slot, (hierarchy.table name).slot? method = some slot := by
  rw [← Option.isSome_iff_exists, DispatchTable.isSome_slot?, lookup?_table, hfound]
  rfl

/-- A method keeps its slot in all descendants of a class. -/
theorem slot?_of_subclass (hsub : hierarchy.Subclass sub sup)
    (hslot : (hierarchy.table sup).slot? method = some slot) :
    (hierarchy.table sub).slot? method = some slot := by
  induction hsub using Relation.ReflTransGen.head_induction_on with
  | refl => exact hslot
  | head hstep _ ih =>
      obtain ⟨definition, hget, rfl⟩ := ClassDef.extends_iff.mp hstep
      rw [table_of_get?_eq_some hget]
      exact DispatchTable.slot?_extend ih

end Hierarchy

namespace DispatchTables

variable {hierarchy : Hierarchy κ} {tables : DispatchTables} {name : ClassName}
  {definition : ClassDef κ}

/-- What holds while the tables are built: the root has its table, and every
table that is there belongs to a class of the hierarchy and is the one that the
recursion along its line gives. -/
structure Faithful (hierarchy : Hierarchy κ) (tables : DispatchTables) : Prop where
  root : tables.get? .root = some .empty
  known : ∀ name table, tables.get? name = some table →
    hierarchy.contains name = true ∧ table = hierarchy.table name

theorem get?_append (more : DispatchTables) :
    get? (tables ++ more) name = (tables.get? name).or (more.get? name) :=
  List.lookup_append

theorem get?_single {table : DispatchTable} :
    get? [(owner, table)] name = if name = owner then some table else none := by
  unfold get?
  rw [List.lookup_cons]
  by_cases heq : name = owner
  · simp [heq]
  · simp [heq, beq_eq_false_iff_ne.mpr heq]

theorem faithful_initial (hierarchy : Hierarchy κ) :
    Faithful hierarchy [(.root, .empty)] := by
  constructor
  · simp [get?_single]
  · intro name table hget
    rw [get?_single] at hget
    split at hget
    next heq =>
      subst heq
      cases hget
      rw [Hierarchy.table_of_get?_eq_none Hierarchy.get?_root]
      exact ⟨Hierarchy.contains_iff.mpr (.inl rfl), rfl⟩
    next => cases hget

/-- The step that the construction takes for a class: its table is added unless there
is one.  Here the table of the parent is looked up. -/
def add (tables : DispatchTables) (definition : ClassDef κ) : DispatchTables :=
  match tables.get? definition.name with
  | some _ => tables
  | none =>
    let parent := (tables.get? definition.parent).getD .empty
    tables ++ [(definition.name, parent.extend definition)]

theorem get?_add_of_get? {table : DispatchTable} (hget : tables.get? name = some table) :
    (tables.add definition).get? name = some table := by
  unfold add
  split
  next => exact hget
  next => simp [get?_append, hget]

/-- One step of the construction: if the table of the parent is there, the table
of the class is there afterwards and nothing wrong is added. -/
theorem Faithful.add (hfaithful : Faithful hierarchy tables)
    (hmem : definition ∈ hierarchy.classes)
    (hparent : tables.get? definition.parent = some (hierarchy.table definition.parent)) :
    Faithful hierarchy (tables.add definition) ∧
      (tables.add definition).get? definition.name =
        some (hierarchy.table definition.name) := by
  have hget := Hierarchy.get?_of_mem hmem
  cases hbuilt : tables.get? definition.name with
  | some table =>
      have hadd : tables.add definition = tables := by simp [DispatchTables.add, hbuilt]
      rw [hadd, hbuilt, (hfaithful.known _ _ hbuilt).2]
      exact ⟨hfaithful, rfl⟩
  | none =>
      have hadd : tables.add definition =
          tables ++ [(definition.name, hierarchy.table definition.name)] := by
        simp [DispatchTables.add, hbuilt, hparent, Hierarchy.table_of_get?_eq_some hget]
      have hlookup : ∀ name, (tables.add definition).get? name =
          (tables.get? name).or
            (if name = definition.name then some (hierarchy.table definition.name)
              else none) := by
        intro name
        rw [hadd, get?_append, get?_single]
      refine ⟨⟨get?_add_of_get? hfaithful.root, ?_⟩, by simp [hlookup, hbuilt]⟩
      intro name table hname
      rw [hlookup, Option.or_eq_some_iff] at hname
      rcases hname with hold | ⟨-, hnew⟩
      · exact hfaithful.known name table hold
      · split at hnew
        next heq =>
          subst heq
          cases hnew
          exact ⟨Hierarchy.contains_iff.mpr (.inr ⟨definition, hget⟩), rfl⟩
        next => cases hnew

/-- Walking down a line gives every class on it its table. -/
theorem Faithful.foldl_lineage (hfaithful : Faithful hierarchy tables)
    (hknown : hierarchy.contains name = true) :
    Faithful hierarchy ((hierarchy.lineage name).foldl DispatchTables.add tables) ∧
      get? ((hierarchy.lineage name).foldl DispatchTables.add tables) name =
        some (hierarchy.table name) := by
  induction name using hierarchy.parent_induction with
  | undeclared name hget =>
      have hroot : name = .root := by
        rcases Hierarchy.contains_iff.mp hknown with hroot | ⟨definition, hsome⟩
        · exact hroot
        · simp [hget] at hsome
      rw [Hierarchy.lineage_of_get?_eq_none hget, Hierarchy.table_of_get?_eq_none hget, hroot]
      exact ⟨hfaithful, hfaithful.root⟩
  | declared name definition hget ih =>
      obtain ⟨hline, hparent⟩ := ih (Hierarchy.contains_parent hget)
      rw [Hierarchy.lineage_of_get?_eq_some hget, List.foldl_append]
      have hstep := hline.add (Hierarchy.mem_of_get? hget) hparent
      rwa [Hierarchy.name_of_get? hget] at hstep

theorem get?_foldl_of_get? {table : DispatchTable} (hget : tables.get? name = some table)
    (line : List (ClassDef κ)) :
    get? (line.foldl DispatchTables.add tables) name = some table := by
  induction line generalizing tables with
  | nil => exact hget
  | cons definition rest ih =>
      rw [List.foldl_cons]
      exact ih (get?_add_of_get? hget)

/-- On a line below a class the table that is taken along is that of the parent. -/
theorem addLine_eq_foldl_add {line : List (ClassDef κ)} {top : ClassName}
    {table : DispatchTable} (htop : tables.get? top = some table)
    (hfirst : ∀ first ∈ line.head?, first.parent = top)
    (hlinked : line.IsChain fun above below => below.parent = above.name) :
    tables.addLine table line = line.foldl DispatchTables.add tables := by
  induction line generalizing tables top table with
  | nil => rfl
  | cons definition below ih =>
      have hparent : definition.parent = top := hfirst definition rfl
      rw [List.isChain_cons] at hlinked
      rw [addLine, List.foldl_cons, DispatchTables.add, hparent, htop]
      cases hbuilt : tables.get? definition.name with
      | some built => exact ih hbuilt hlinked.1 hlinked.2
      | none =>
          have hadded : get? (tables ++ [(definition.name, table.extend definition)])
              definition.name = some (table.extend definition) := by
            rw [get?_append, hbuilt, get?_single, if_pos rfl, Option.none_or]
          exact ih hadded hlinked.1 hlinked.2

/-- Walking down the lines of several classes gives each of them its table. -/
theorem Faithful.foldl_lineages (hfaithful : Faithful hierarchy tables)
    (classes : List (ClassDef κ)) (hsubset : classes ⊆ hierarchy.classes) :
    let lines := classes.flatMap fun definition => hierarchy.lineage definition.name
    Faithful hierarchy (lines.foldl DispatchTables.add tables) ∧
      ∀ definition ∈ classes,
        get? (lines.foldl DispatchTables.add tables) definition.name =
          some (hierarchy.table definition.name) := by
  induction classes generalizing tables with
  | nil => simpa using hfaithful
  | cons first rest ih =>
      have hfirst : first ∈ hierarchy.classes := hsubset List.mem_cons_self
      have hrest : rest ⊆ hierarchy.classes := fun definition hmem =>
        hsubset (List.mem_cons_of_mem first hmem)
      have hknown : hierarchy.contains first.name = true :=
        Hierarchy.contains_iff.mpr (.inr ⟨first, Hierarchy.get?_of_mem hfirst⟩)
      obtain ⟨hline, htable⟩ := hfaithful.foldl_lineage hknown
      obtain ⟨hlines, htables⟩ := ih hline hrest
      simp only [List.flatMap_cons, List.foldl_append]
      refine ⟨hlines, ?_⟩
      intro definition hmem
      rcases List.mem_cons.mp hmem with heq | hin
      · subst heq
        exact get?_foldl_of_get? htable _
      · exact htables definition hin

/-- Each line starts below the root, whose table is there from the beginning. -/
theorem build_eq_foldl_add (hierarchy : Hierarchy κ) :
    build hierarchy =
      (hierarchy.classes.flatMap fun definition => hierarchy.lineage definition.name).foldl
        DispatchTables.add [(.root, .empty)] := by
  have hroot : get? [(.root, .empty)] .root = some .empty := by simp [get?_single]
  unfold build
  generalize [(ClassName.root, DispatchTable.empty)] = tables at hroot ⊢
  induction hierarchy.classes generalizing tables with
  | nil => rfl
  | cons first rest ih =>
      have hline : addLine tables .empty (hierarchy.lineage first.name) =
          (hierarchy.lineage first.name).foldl DispatchTables.add tables :=
        addLine_eq_foldl_add hroot (fun _ => Hierarchy.parent_of_mem_head?_lineage)
          Hierarchy.isChain_lineage
      rw [List.foldl_cons, List.flatMap_cons, List.foldl_append, hline]
      exact ih _ (get?_foldl_of_get? hroot _)

/-- Every class of the hierarchy has the table that the recursion along its line
gives, in whatever order the classes are declared, and no other name has one. -/
theorem get?_build (hierarchy : Hierarchy κ) (name : ClassName) :
    (build hierarchy).get? name =
      if hierarchy.contains name then some (hierarchy.table name) else none := by
  obtain ⟨hfaithful, hbuilt⟩ := (faithful_initial hierarchy).foldl_lineages
    hierarchy.classes (List.Subset.refl _)
  rw [← build_eq_foldl_add] at hfaithful hbuilt
  split
  next hknown =>
    rcases Hierarchy.contains_iff.mp hknown with hroot | ⟨definition, hget⟩
    · rw [hroot, Hierarchy.table_of_get?_eq_none Hierarchy.get?_root]
      exact hfaithful.root
    · rw [← Hierarchy.name_of_get? hget]
      exact hbuilt definition (Hierarchy.mem_of_get? hget)
  next hunknown =>
    cases hget : (build hierarchy).get? name with
    | none => rfl
    | some table => exact absurd (hfaithful.known name table hget).1 hunknown

theorem get?_build_root (hierarchy : Hierarchy κ) :
    (build hierarchy).get? .root = some .empty := by
  have hcontains : hierarchy.contains .root = true := ClassDef.declares_iff.mpr (.inl rfl)
  rw [get?_build, if_pos hcontains, Hierarchy.table_of_get?_eq_none hierarchy.get?_root]

theorem get?_build_of_method? {method : MethodName} {owned : OwnedMethod κ}
    (hfound : hierarchy.method? name method = some owned) :
    (build hierarchy).get? name = some (hierarchy.table name) := by
  rw [get?_build, if_pos]
  cases hget : hierarchy.get? name with
  | none => simp [Hierarchy.method?_of_get?_eq_none hget] at hfound
  | some definition => exact Hierarchy.contains_iff.mpr (.inr ⟨definition, hget⟩)

/-- Calling through a slot agrees with looking up the name.  A method of `sup`
has one slot in the tables of `sup` and of every class `sub` below it, and the
function in that slot of `sub` has the name of the nearest class on the way up from
`sub` that defines the method, before that of the method. -/
theorem slot_agrees_with_lookup (hierarchy : Hierarchy κ) {sub sup : ClassName}
    {inherited : OwnedMethod κ}
    (hsub : hierarchy.isSubclass sub sup = true)
    (hmem : inherited ∈ hierarchy.methods sup) :
    let method := inherited.definition.name
    ∃ supTable subTable slot overriding,
      (build hierarchy).get? sup = some supTable ∧
      (build hierarchy).get? sub = some subTable ∧
      supTable.slot? method = some slot ∧
      subTable.slot? method = some slot ∧
      slot < subTable.size ∧
      overriding ∈ hierarchy.methods sub ∧
      overriding.definition.name = method ∧
      subTable.entries[slot]? = some ⟨method, overriding.owner⟩ ∧
      (subTable.entries.map Script.entryName)[slot]? =
        some (overriding.owner.text ++ "_" ++ method.text) ∧
      ∃ nearer owner farther,
        hierarchy.ancestors sub = nearer ++ owner :: farther ∧
        owner.name = overriding.owner ∧
        overriding.definition ∈ owner.methods ∧
        ∀ definition ∈ nearer, method ∉ definition.methods.map MethodDef.name := by
  intro method
  have hfound := Hierarchy.mem_methods_iff.mp hmem
  obtain ⟨slot, hsupSlot⟩ := Hierarchy.exists_slot?_of_method? hfound
  have hsubSlot := Hierarchy.slot?_of_subclass (Hierarchy.isSubclass_iff.mp hsub) hsupSlot
  have hentry := DispatchTable.lookup?_of_slot? hsubSlot
  have hlt := DispatchTable.slot?_lt_size hsubSlot
  rw [Hierarchy.lookup?_table, List.getElem?_eq_getElem hlt, eq_comm,
    Option.map_eq_some_iff] at hentry
  obtain ⟨overriding, hoverriding, hentry⟩ := hentry
  obtain ⟨nearer, owner, farther, hsplit, howner, hdefined, hname, hnearer⟩ :=
    Hierarchy.exists_nearest_owner hoverriding
  refine ⟨hierarchy.table sup, hierarchy.table sub, slot, overriding,
    get?_build_of_method? hfound, get?_build_of_method? hoverriding, hsupSlot, hsubSlot,
    hlt, ?_, hname, ?_, ?_, nearer, owner, farther, hsplit, howner, hdefined, hnearer⟩
  · rw [Hierarchy.mem_methods_iff, hname]
    exact hoverriding
  · rw [List.getElem?_eq_getElem hlt, ← hentry]
  · rw [List.getElem?_map, List.getElem?_eq_getElem hlt, ← hentry]
    rfl

/-- A class that overrides a method of its grandparent and is declared before
both of its ancestors. -/
def overridingLine : Hierarchy Plain where
  classes :=
    let method (name : String) : MethodDef Plain := ⟨.void, ⟨name⟩, [], .returnVoid⟩
    [⟨⟨"C"⟩, ⟨"B"⟩, [], [], [], [], [method "h", method "f"]⟩,
      ⟨⟨"A"⟩, .root, [], [], [], [], [method "e", method "f"]⟩,
      ⟨⟨"B"⟩, ⟨"A"⟩, [], [], [], [], [method "g"]⟩]
  faultless := by decide +kernel

theorem slot_agrees_with_lookup_overridingLine :
    overridingLine.isSubclass ⟨"C"⟩ ⟨"A"⟩ = true ∧
      ⟨⟨"A"⟩, ⟨.void, ⟨"f"⟩, [], .returnVoid⟩⟩ ∈ overridingLine.methods ⟨"A"⟩ ∧
      ∃ supTable subTable slot overriding,
        (build overridingLine).get? ⟨"A"⟩ = some supTable ∧
        (build overridingLine).get? ⟨"C"⟩ = some subTable ∧
        supTable.slot? ⟨"f"⟩ = some slot ∧
        subTable.slot? ⟨"f"⟩ = some slot ∧
        slot < subTable.size ∧
        overriding ∈ overridingLine.methods ⟨"C"⟩ ∧
        (subTable.entries.map Script.entryName)[slot]? =
          some (overriding.owner.text ++ "_" ++ "f") := by
  have hsub : overridingLine.isSubclass ⟨"C"⟩ ⟨"A"⟩ = true := by decide +kernel
  have hmem : ⟨⟨"A"⟩, ⟨.void, ⟨"f"⟩, [], .returnVoid⟩⟩ ∈ overridingLine.methods ⟨"A"⟩ :=
    Hierarchy.mem_methods_iff.mpr (by cbv)
  obtain ⟨supTable, subTable, slot, overriding, hsup, hsubTable, hsupSlot, hsubSlot, hlt,
    hoverriding, -, -, hentry, -⟩ := slot_agrees_with_lookup overridingLine hsub hmem
  exact ⟨hsub, hmem, supTable, subTable, slot, overriding, hsup, hsubTable, hsupSlot,
    hsubSlot, hlt, hoverriding, hentry⟩

end DispatchTables

end ClassLang
