import ClassLang.Proofs.SlotTables

/-!
# The construction of dispatch tables

The construction goes down the line of each class in source order and builds the
classes that it comes to for the first time.  It keeps two orders.  Among the
classes, each is built once, when the table of its parent is there.  Among the
slots of a table, those of the parent come first, and the methods that the class
introduces follow in the order of their declaration.

So the tables are those of the recursion along the lines, and the slots of each
are a numbering of the methods that the class has.
-/

namespace ClassLang

variable {κ : Type} {owner : ClassName} {method : MethodName} {slot : Nat}

/-! ## Slots -/

namespace DispatchTable

variable {table : DispatchTable} {definition : ClassDef κ}

/-- Extending a table puts the methods that it does not serve yet after the others,
in the order in which the class declares them. -/
theorem methodNames_extend :
    (table.extend definition).methodNames =
      table.methodNames ++ ((definition.methods.map MethodDef.name).filter
        fun name => name ∉ table.methodNames).eraseDups := by
  unfold extend
  induction definition.methods generalizing table with
  | nil => simp
  | cons first rest ih =>
      rw [List.foldl_cons, ih, methodNames_define, List.map_cons]
      by_cases hmem : first.name ∈ table.methodNames
      · simp [hmem]
      · rw [if_neg hmem, List.filter_cons_of_pos (by simpa using hmem), List.eraseDups_cons,
          List.filter_filter, List.append_assoc, List.singleton_append]
        congr 4
        funext name
        by_cases heq : name = first.name
        · simp [heq]
        · simp [heq]

end DispatchTable

theorem SlotTable.Numbers.congr {table : SlotTable} {names others : List MethodName}
    (hnumbers : table.Numbers names) (hsame : ∀ method, method ∈ names ↔ method ∈ others) :
    table.Numbers others :=
  ⟨fun method => (hnumbers.named method).trans (hsame method), hnumbers.inRange,
    hnumbers.apart, hnumbers.onto⟩

namespace Hierarchy

variable {hierarchy : Hierarchy κ} {name : ClassName} {definition : ClassDef κ}

/-- The names of the methods that a class has, inherited ones included. -/
def methodNames (hierarchy : Hierarchy κ) (name : ClassName) : List MethodName :=
  (hierarchy.methods name).map fun owned => owned.definition.name

/-- The methods of a class that its parent does not have, once each, in the order
in which they are declared. -/
def introduced (hierarchy : Hierarchy κ) (definition : ClassDef κ) : List MethodName :=
  ((definition.methods.map MethodDef.name).filter
    fun name => name ∉ hierarchy.methodNames definition.parent).eraseDups

theorem mem_methodNames_iff :
    method ∈ hierarchy.methodNames name ↔
      ∃ owned, hierarchy.method? name method = some owned := by
  unfold methodNames
  rw [List.mem_map]
  constructor
  · rintro ⟨owned, hmem, rfl⟩
    exact ⟨owned, mem_methods_iff.mp hmem⟩
  · rintro ⟨owned, hfound⟩
    rcases exists_nearest_owner hfound with ⟨-, -, -, -, -, -, hname, -⟩
    exact ⟨owned, mem_methods_iff.mpr (hname ▸ hfound), hname⟩

theorem mem_methodNames_table :
    method ∈ (hierarchy.table name).methodNames ↔ method ∈ hierarchy.methodNames name := by
  rw [← (DispatchTable.numbers_slotTable nodup_table).named, mem_methodNames_iff,
    ← Option.isSome_iff_exists, ← Option.isSome_iff_exists, DispatchTable.slotTable,
    DispatchTable.isSome_slot?, lookup?_table, Option.isSome_map]

theorem numbers_table :
    (hierarchy.table name).slotTable.Numbers (hierarchy.methodNames name) :=
  (DispatchTable.numbers_slotTable nodup_table).congr fun _ => mem_methodNames_table

theorem methodNames_table (hget : hierarchy.get? name = some definition) :
    (hierarchy.table name).methodNames =
      (hierarchy.table definition.parent).methodNames ++ hierarchy.introduced definition := by
  rw [table_of_get?_eq_some hget, DispatchTable.methodNames_extend]
  simp only [introduced, mem_methodNames_table]

theorem size_table (hget : hierarchy.get? name = some definition) :
    (hierarchy.table name).size =
      (hierarchy.table definition.parent).size + (hierarchy.introduced definition).length := by
  rw [← DispatchTable.length_methodNames, methodNames_table hget, List.length_append,
    DispatchTable.length_methodNames]

theorem slot?_introduced (hget : hierarchy.get? name = some definition) {index : Nat}
    (hindex : (hierarchy.introduced definition)[index]? = some method) :
    (hierarchy.table name).slot? method =
      some ((hierarchy.table definition.parent).size + index) := by
  rw [DispatchTable.slot?_eq_some_iff nodup_table, methodNames_table hget,
    ← DispatchTable.length_methodNames, List.getElem?_append_right (Nat.le_add_right _ _),
    Nat.add_sub_cancel_left]
  exact hindex

end Hierarchy

/-! ## Classes -/

namespace DispatchTables

variable {hierarchy : Hierarchy κ} {tables : DispatchTables} {name : ClassName}
  {definition : ClassDef κ}

theorem isSome_get?_iff : (tables.get? name).isSome ↔ name ∈ tables.map Prod.fst := by
  unfold get?
  rw [List.lookup_isSome_iff, List.mem_map]
  simp only [beq_iff_eq, @eq_comm _ name]

theorem isSome_get?_add_self : ((tables.add definition).get? definition.name).isSome := by
  unfold add
  split
  next table hget => simp [hget]
  next => simp [get?_append, get?_single]

/-- One class is built: it has no table yet, and its table extends the one that its
parent has. -/
def Builds (hierarchy : Hierarchy κ) (tables next : DispatchTables) : Prop :=
  ∃ definition ∈ hierarchy.classes, ∃ parent,
    definition.name ∉ tables.map Prod.fst ∧ tables.get? definition.parent = some parent ∧
      next = tables ++ [(definition.name, parent.extend definition)]

theorem reaches_add (hmem : definition ∈ hierarchy.classes)
    (hparent : (tables.get? definition.parent).isSome) :
    Relation.ReflTransGen (Builds hierarchy) tables (tables.add definition) := by
  rcases Option.isSome_iff_exists.mp hparent with ⟨parent, hparent⟩
  unfold add
  split
  next => exact .refl
  next hnone =>
    have hnew : definition.name ∉ tables.map Prod.fst := by
      rw [← isSome_get?_iff, hnone]
      simp
    exact .single ⟨definition, hmem, parent, hnew, hparent, by rw [hparent]; rfl⟩

theorem reaches_foldl_lineage (hroot : (tables.get? .root).isSome)
    (hknown : hierarchy.contains name = true) :
    Relation.ReflTransGen (Builds hierarchy) tables
        ((hierarchy.lineage name).foldl add tables) ∧
      (get? ((hierarchy.lineage name).foldl add tables) name).isSome := by
  induction name using hierarchy.parent_induction with
  | undeclared name hget =>
      rcases Hierarchy.contains_iff.mp hknown with rfl | ⟨definition, hsome⟩
      · rw [Hierarchy.lineage_of_get?_eq_none hget]
        exact ⟨.refl, hroot⟩
      · simp [hget] at hsome
  | declared name definition hget ih =>
      -- The class before this one on the line is its parent.
      rcases ih (Hierarchy.contains_parent hget) with ⟨hup, hparent⟩
      rw [Hierarchy.lineage_of_get?_eq_some hget, List.foldl_append]
      constructor
      · exact hup.trans (reaches_add (Hierarchy.mem_of_get? hget) hparent)
      · rw [← Hierarchy.name_of_get? hget]
        exact isSome_get?_add_self

theorem reaches_foldl_lineages {classes : List (ClassDef κ)}
    (hroot : tables.get? .root = some .empty) (hsubset : classes ⊆ hierarchy.classes) :
    Relation.ReflTransGen (Builds hierarchy) tables
      ((classes.flatMap fun definition => hierarchy.lineage definition.name).foldl add
        tables) := by
  induction classes generalizing tables with
  | nil => exact .refl
  | cons first rest ih =>
      have hknown : hierarchy.contains first.name = true :=
        Hierarchy.contains_of_mem (hsubset List.mem_cons_self)
      have hrootSome : (tables.get? .root).isSome := by simp [hroot]
      rw [List.flatMap_cons, List.foldl_append]
      apply (reaches_foldl_lineage hrootSome hknown).1.trans
      apply ih
      · exact get?_foldl_of_get? hroot _
      · exact fun definition hmem => hsubset (List.mem_cons_of_mem first hmem)

/-- The construction consists of steps that build one class each. -/
theorem reaches_build (hierarchy : Hierarchy κ) :
    Relation.ReflTransGen (Builds hierarchy) [(.root, .empty)] (build hierarchy) :=
  build_eq_foldl_add hierarchy ▸
    reaches_foldl_lineages (by simp [get?_single]) (List.Subset.refl _)

/-- The classes in the order in which they are built: each once, and each after its
parent. -/
structure InOrder (hierarchy : Hierarchy κ) (tables : DispatchTables) : Prop where
  once : (tables.map Prod.fst).Nodup
  parentFirst : ∀ before name table after definition,
    tables = before ++ (name, table) :: after → hierarchy.get? name = some definition →
      definition.parent ∈ before.map Prod.fst

theorem inOrder_initial : InOrder hierarchy [(.root, .empty)] := by
  constructor
  · simp
  · intro before name table after definition hsplit hget
    rcases List.append_eq_cons_iff.mp hsplit.symm with ⟨-, hroot⟩ | ⟨others, -, hnil⟩
    · cases hroot
      simp [Hierarchy.get?_root] at hget
    · simp at hnil

theorem InOrder.of_builds {next : DispatchTables} (hordered : InOrder hierarchy tables)
    (hstep : Builds hierarchy tables next) : InOrder hierarchy next := by
  rcases hstep with ⟨definition, hmem, parent, hnew, hparent, rfl⟩
  constructor
  · rw [List.map_append, List.nodup_append]
    refine ⟨hordered.once, by simp, ?_⟩
    intro name hname added hadded heq
    rw [heq, List.mem_singleton.mp hadded] at hname
    exact hnew hname
  · intro before name table after found hsplit hget
    rcases List.eq_nil_or_concat after with rfl | ⟨others, last, rfl⟩
    · rcases List.append_inj' hsplit rfl with ⟨rfl, hadded⟩
      cases hadded
      rw [Hierarchy.get?_of_mem hmem] at hget
      cases hget
      rw [← isSome_get?_iff, hparent]
      rfl
    · rw [List.concat_eq_append, ← List.cons_append, ← List.append_assoc] at hsplit
      have hinit := (List.append_inj' hsplit rfl).1
      exact hordered.parentFirst before name table others found hinit hget

theorem InOrder.of_reaches {next : DispatchTables} (hordered : InOrder hierarchy tables)
    (hreach : Relation.ReflTransGen (Builds hierarchy) tables next) :
    InOrder hierarchy next := by
  induction hreach with
  | refl => exact hordered
  | tail _ hstep ih => exact ih.of_builds hstep

theorem inOrder_build : InOrder hierarchy (build hierarchy) :=
  inOrder_initial.of_reaches (reaches_build hierarchy)

theorem mem_keys_build_iff :
    name ∈ (build hierarchy).map Prod.fst ↔
      name ∈ ClassName.root :: hierarchy.classes.map ClassDef.name := by
  rw [← isSome_get?_iff, get?_build, ← Hierarchy.contains_iff_mem]
  split
  next hknown => simp [hknown]
  next hunknown => simp [hunknown]

theorem perm_keys_build :
    ((build hierarchy).map Prod.fst).Perm
      (ClassName.root :: hierarchy.classes.map ClassDef.name) := by
  rw [List.perm_ext_iff_of_nodup inOrder_build.once hierarchy.formed.distinct]
  exact fun name => mem_keys_build_iff

theorem exists_parent_before (hmem : definition ∈ hierarchy.classes) :
    ∃ before table after, build hierarchy = before ++ (definition.name, table) :: after ∧
      definition.parent ∈ before.map Prod.fst := by
  have hkey : definition.name ∈ (build hierarchy).map Prod.fst :=
    mem_keys_build_iff.mpr (List.mem_cons_of_mem _ (List.mem_map_of_mem hmem))
  rcases List.mem_map.mp hkey with ⟨⟨name, table⟩, hentry, rfl⟩
  rcases List.append_of_mem hentry with ⟨before, after, hsplit⟩
  exact ⟨before, table, after, hsplit, inOrder_build.parentFirst before definition.name table
    after definition hsplit (Hierarchy.get?_of_mem hmem)⟩

theorem keys_slotTables (tables : DispatchTables) :
    tables.slotTables.map Prod.fst = tables.map Prod.fst := by
  simp [slotTables]

/-- Built with separate slots, the tables are those of the recursion along the lines:
the table of the root is empty and that of a class is derived from the one of its
parent.  The construction never writes out of range.  It lists the tables in the order
in which it builds them, each class once and after its parent, and they have the
functions and the slots of the tables that code is compiled with.  In every table the
slots number the methods of the class, first those of its parent, as in the table of
the parent, then those that the class introduces. -/
theorem build_follows_lines (hierarchy : Hierarchy κ) :
    ∃ tables, SlotTables.build hierarchy = some tables ∧
      tables = (build hierarchy).map (fun entry =>
        (entry.1, ⟨entry.2.entries.map Script.entryName, entry.2.slot?⟩)) ∧
      tables.lookup .root = some .empty ∧
      (∀ definition ∈ hierarchy.classes, ∃ parent table,
        tables.lookup definition.parent = some parent ∧
          parent.derive definition = some table ∧
          tables.lookup definition.name = some table) ∧
      (∀ name, (∃ table, tables.lookup name = some table) ↔
        name ∈ ClassName.root :: hierarchy.classes.map ClassDef.name) ∧
      (tables.map Prod.fst).Perm (ClassName.root :: hierarchy.classes.map ClassDef.name) ∧
      (∀ definition ∈ hierarchy.classes, ∃ before table after,
        tables = before ++ (definition.name, table) :: after ∧
          definition.parent ∈ before.map Prod.fst) ∧
      (∀ name table, tables.lookup name = some table →
        table.Numbers (hierarchy.methodNames name)) ∧
      ∀ definition ∈ hierarchy.classes, ∀ parent table,
        tables.lookup definition.parent = some parent →
        tables.lookup definition.name = some table →
        (∀ method slot, parent.slots method = some slot → table.slots method = some slot) ∧
          table.functions.length =
            parent.functions.length + (hierarchy.introduced definition).length ∧
          ∀ index method, (hierarchy.introduced definition)[index]? = some method →
            table.slots method = some (parent.functions.length + index) := by
  have hlookup (name : ClassName) :
      (build hierarchy).slotTables.lookup name =
        if hierarchy.contains name then some (hierarchy.table name).slotTable else none := by
    rw [lookup_slotTables, get?_build]
    split <;> rfl
  refine ⟨(build hierarchy).slotTables, build_slotTables hierarchy, rfl, ?_, ?_, ?_, ?_, ?_, ?_,
    ?_⟩
  · rw [lookup_slotTables, get?_build_root]
    rfl
  · intro definition hmem
    have hget := Hierarchy.get?_of_mem hmem
    refine ⟨_, _, (hlookup _).trans (if_pos (Hierarchy.contains_parent hget)),
      DispatchTable.derive_slotTable Hierarchy.nodup_table, ?_⟩
    rw [← Hierarchy.table_of_get?_eq_some hget, hlookup, if_pos (Hierarchy.contains_of_mem hmem)]
  · intro name
    rw [← mem_keys_build_iff, ← isSome_get?_iff, ← Option.isSome_iff_exists, lookup_slotTables,
      Option.isSome_map]
  · rw [keys_slotTables]
    exact perm_keys_build
  · intro definition hmem
    rcases exists_parent_before hmem with ⟨before, table, after, hsplit, hparent⟩
    refine ⟨slotTables before, table.slotTable, slotTables after, ?_, ?_⟩
    · rw [hsplit]
      simp [slotTables]
    · rw [keys_slotTables]
      exact hparent
  · intro name table htable
    rw [hlookup] at htable
    split at htable
    next => cases htable; exact Hierarchy.numbers_table
    next => cases htable
  · intro definition hmem parent table hparent htable
    have hget := Hierarchy.get?_of_mem hmem
    rw [hlookup, if_pos (Hierarchy.contains_parent hget)] at hparent
    rw [hlookup, if_pos (Hierarchy.contains_of_mem hmem)] at htable
    cases hparent
    cases htable
    simp only [DispatchTable.length_functions_slotTable]
    refine ⟨?_, Hierarchy.size_table hget, fun _ _ => Hierarchy.slot?_introduced hget⟩
    intro method slot hslot
    rw [Hierarchy.table_of_get?_eq_some hget]
    exact DispatchTable.slot?_extend hslot

def repeatingClass : ClassDef Plain :=
  let method (name : String) : MethodDef Plain := ⟨.void, ⟨name⟩, [], .returnVoid⟩
  ⟨⟨"B"⟩, ⟨"A"⟩, [], [], [], [], [method "g", method "f", method "g", method "k"]⟩

/-- A class that defines one method twice, and after it its parent. -/
def repeatingLine : Hierarchy Plain where
  classes :=
    let method (name : String) : MethodDef Plain := ⟨.void, ⟨name⟩, [], .returnVoid⟩
    [repeatingClass, ⟨⟨"A"⟩, .root, [], [], [], [], [method "e", method "f"]⟩]
  faultless := by decide +kernel

theorem build_follows_lines_repeatingLine :
    repeatingClass ∈ repeatingLine.classes ∧
      repeatingLine.introduced repeatingClass = [⟨"g"⟩, ⟨"k"⟩] ∧
      ∃ tables parent table, SlotTables.build repeatingLine = some tables ∧
        tables.lookup ⟨"A"⟩ = some parent ∧
        tables.lookup ⟨"B"⟩ = some table ∧
        table.Numbers (repeatingLine.methodNames ⟨"B"⟩) ∧
        parent.functions = ["A_e", "A_f"] ∧
        parent.slots ⟨"f"⟩ = some 1 ∧ table.slots ⟨"f"⟩ = some 1 ∧
        table.slots ⟨"k"⟩ = some 3 := by
  rcases build_follows_lines repeatingLine with ⟨tables, hbuild, hentries, -, hderived, -, -, -,
    hnumbers, hslots⟩
  have hmem : repeatingClass ∈ repeatingLine.classes := List.mem_cons_self
  have hintroduced : repeatingLine.introduced repeatingClass = [⟨"g"⟩, ⟨"k"⟩] := by
    simp only [Hierarchy.introduced, Hierarchy.mem_methodNames_iff, ← Option.isSome_iff_exists]
    decide +kernel
  rcases hderived repeatingClass hmem with ⟨parent, table, hparent, -, htable⟩
  rcases hslots repeatingClass hmem parent table hparent htable with ⟨hkept, -, hadded⟩
  have hbuilt : tables.lookup ⟨"A"⟩ =
      some (DispatchTable.slotTable ⟨[⟨⟨"e"⟩, ⟨"A"⟩⟩, ⟨⟨"f"⟩, ⟨"A"⟩⟩]⟩) := by
    have hentry : (build repeatingLine).get? ⟨"A"⟩ =
        some ⟨[⟨⟨"e"⟩, ⟨"A"⟩⟩, ⟨⟨"f"⟩, ⟨"A"⟩⟩]⟩ := by decide +kernel
    rw [hentries]
    exact (lookup_slotTables _).trans (congrArg (Option.map DispatchTable.slotTable) hentry)
  obtain rfl := Option.some.inj (hparent.symm.trans hbuilt)
  have hfirst : (DispatchTable.slotTable ⟨[⟨⟨"e"⟩, ⟨"A"⟩⟩, ⟨⟨"f"⟩, ⟨"A"⟩⟩]⟩).slots ⟨"f"⟩ =
      some 1 := by decide
  exact ⟨hmem, hintroduced, tables, _, table, hbuild, hparent, htable, hnumbers _ _ htable,
    by decide, hfirst, hkept _ _ hfirst, hadded 1 ⟨"k"⟩ (by rw [hintroduced]; rfl)⟩

end DispatchTables

end ClassLang
