import ClassLang.Proofs.DispatchSlots
import Mathlib.Logic.Function.Basic

/-!
# Tables with separate slots

A table may be kept in two parts: the functions in the order of their slots, and a map
from the methods to the slots.  Nothing in such a pair says that a slot is in range or
that two methods have different ones, and writing into a slot that is out of range
fails.

Built by the same steps, starting with no functions and no slots, the pairs hold what
the tables of entries hold, and no write fails.
-/

namespace ClassLang

structure SlotTable where
  functions : List String
  slots : MethodName → Option Nat

namespace SlotTable

def empty : SlotTable := ⟨[], fun _ => none⟩

/-- Puts a function into the slot of a method, or into a new one after all others. -/
def addOrUpdate (table : SlotTable) (method : MethodName) (function : String) :
    Option SlotTable :=
  match table.slots method with
  | some slot =>
    if slot < table.functions.length then
      some ⟨table.functions.set slot function, table.slots⟩
    else none
  | none =>
    some ⟨table.functions ++ [function],
      Function.update table.slots method (some table.functions.length)⟩

/-- The table of a class whose parent has the given table. -/
def derive {κ : Type} (parent : SlotTable) (definition : ClassDef κ) : Option SlotTable :=
  definition.methods.foldlM
    (fun table method =>
      table.addOrUpdate method.name (definition.name.text ++ "_" ++ method.name.text))
    parent

/-- The slots of a table number the given names: these names and no others have a
slot, each within the table, no two names share one, and none is left over. -/
structure Numbers (table : SlotTable) (names : List MethodName) : Prop where
  named : ∀ method, (∃ slot, table.slots method = some slot) ↔ method ∈ names
  inRange : ∀ method slot, table.slots method = some slot → slot < table.functions.length
  apart : ∀ first second slot, table.slots first = some slot →
    table.slots second = some slot → first = second
  onto : ∀ slot, slot < table.functions.length → ∃ method, table.slots method = some slot

end SlotTable

abbrev SlotTables := List (ClassName × SlotTable)

namespace SlotTables

def addLine {κ : Type} (tables : SlotTables) (parent : SlotTable) :
    List (ClassDef κ) → Option SlotTables
  | [] => some tables
  | definition :: below =>
    match tables.lookup definition.name with
    | some built => addLine tables built below
    | none => do
      let table ← parent.derive definition
      addLine (tables ++ [(definition.name, table)]) table below

def build {κ : Type} (hierarchy : Hierarchy κ) : Option SlotTables :=
  hierarchy.classes.foldlM
    (fun tables definition => tables.addLine .empty (hierarchy.lineage definition.name))
    [(.root, .empty)]

end SlotTables

variable {κ : Type} {owner : ClassName} {method : MethodName} {slot : Nat}

/-! ## Entries -/

namespace DispatchTable

/-- The methods that a table serves, in the order of their slots. -/
def methodNames (table : DispatchTable) : List MethodName :=
  table.entries.map DispatchEntry.method

/-- The two parts of a table of entries. -/
def slotTable (table : DispatchTable) : SlotTable :=
  ⟨table.entries.map Script.entryName, table.slot?⟩

variable {table : DispatchTable} {definition : ClassDef κ}

theorem length_methodNames : table.methodNames.length = table.size :=
  List.length_map _

theorem length_functions_slotTable : table.slotTable.functions.length = table.size :=
  List.length_map _

theorem slot?_eq_findIdx? :
    table.slot? method = table.methodNames.findIdx? fun name => name = method := by
  rw [methodNames, List.findIdx?_map]
  rfl

theorem mem_methodNames_iff_any :
    method ∈ table.methodNames ↔
      (table.entries.any fun entry => entry.method = method) = true := by
  simp [methodNames]

theorem methodNames_define :
    (table.define owner method).methodNames =
      if method ∈ table.methodNames then table.methodNames
      else table.methodNames ++ [method] := by
  unfold define
  by_cases hmem : method ∈ table.methodNames
  · rw [if_pos (mem_methodNames_iff_any.mp hmem), if_pos hmem]
    unfold methodNames
    rw [List.map_map]
    apply List.map_congr_left
    intro entry _
    by_cases heq : entry.method = method
    · simp [heq]
    · simp [heq]
  · rw [if_neg (mt mem_methodNames_iff_any.mpr hmem), if_neg hmem]
    simp [methodNames]

theorem nodup_define (hnodup : table.methodNames.Nodup) :
    (table.define owner method).methodNames.Nodup := by
  rw [methodNames_define]
  split
  next => exact hnodup
  next hnew => simpa [List.nodup_append] using ⟨hnodup, fun name hname heq => hnew (heq ▸ hname)⟩

theorem nodup_extend (hnodup : table.methodNames.Nodup) :
    (table.extend definition).methodNames.Nodup := by
  unfold extend
  induction definition.methods generalizing table with
  | nil => exact hnodup
  | cons first rest ih =>
      rw [List.foldl_cons]
      exact ih (nodup_define hnodup)

theorem slot?_eq_some_iff (hnodup : table.methodNames.Nodup) :
    table.slot? method = some slot ↔ table.methodNames[slot]? = some method := by
  rw [slot?_eq_findIdx?, List.findIdx?_eq_some_iff_getElem]
  constructor
  · rintro ⟨hlt, hslot, -⟩
    rw [List.getElem?_eq_getElem hlt, of_decide_eq_true hslot]
  · intro hslot
    rcases List.getElem?_eq_some_iff.mp hslot with ⟨hlt, hname⟩
    refine ⟨hlt, decide_eq_true hname, ?_⟩
    intro earlier hearlier hfound
    have hbefore : earlier < table.methodNames.length := Nat.lt_trans hearlier hlt
    have hsame : table.methodNames[earlier]? = table.methodNames[slot]? := by
      rw [List.getElem?_eq_getElem hbefore, hslot, of_decide_eq_true hfound]
    have heq := (List.getElem?_inj hbefore hnodup).mp hsame
    omega

theorem slot?_eq_none_iff : table.slot? method = none ↔ method ∉ table.methodNames := by
  rw [slot?_eq_findIdx?, List.findIdx?_eq_none_iff]
  constructor
  · intro hnone hmem
    simpa using hnone method hmem
  · intro hmem name hname
    rw [decide_eq_false_iff_not]
    rintro rfl
    exact hmem hname

theorem numbers_slotTable (hnodup : table.methodNames.Nodup) :
    table.slotTable.Numbers table.methodNames := by
  constructor
  · intro method
    show (∃ slot, table.slot? method = some slot) ↔ _
    simp only [slot?_eq_some_iff hnodup, List.mem_iff_getElem?]
  · intro method slot hslot
    rw [length_functions_slotTable]
    exact slot?_lt_size hslot
  · intro first second slot hfirst hsecond
    have hfirstName := (slot?_eq_some_iff hnodup).mp hfirst
    have hsecondName := (slot?_eq_some_iff hnodup).mp hsecond
    exact Option.some.inj (hfirstName.symm.trans hsecondName)
  · intro slot hlt
    rw [length_functions_slotTable, ← length_methodNames] at hlt
    exact ⟨table.methodNames[slot],
      (slot?_eq_some_iff hnodup).mpr (List.getElem?_eq_getElem hlt)⟩

/-- What is defined again keeps the slots as they are and replaces one function. -/
theorem slotTable_define_of_slot? (hnodup : table.methodNames.Nodup)
    (hslot : table.slot? method = some slot) :
    (table.define owner method).slotTable =
      ⟨table.slotTable.functions.set slot (Script.entryName ⟨method, owner⟩),
        table.slotTable.slots⟩ := by
  have hname := (slot?_eq_some_iff hnodup).mp hslot
  have hmem : method ∈ table.methodNames := List.mem_of_getElem? hname
  have hslots : (table.define owner method).slot? = table.slot? := by
    funext other
    rw [slot?_eq_findIdx?, methodNames_define, if_pos hmem, ← slot?_eq_findIdx?]
  have hfunctions : (table.define owner method).entries.map Script.entryName =
      (table.entries.map Script.entryName).set slot (Script.entryName ⟨method, owner⟩) := by
    unfold define
    rw [if_pos (mem_methodNames_iff_any.mp hmem)]
    apply List.ext_getElem?
    intro index
    rw [List.getElem?_set]
    by_cases hindex : slot = index
    · -- At the slot stands the entry of the method.
      subst hindex
      rw [methodNames, List.getElem?_map, Option.map_eq_some_iff] at hname
      rcases hname with ⟨entry, hentry, hserves⟩
      rcases List.getElem?_eq_some_iff.mp hentry with ⟨hlt, rfl⟩
      simp [hserves, hlt]
    · rw [if_neg hindex]
      cases hentry : table.entries[index]? with
      | none => simp [hentry]
      | some entry =>
          have hother : entry.method ≠ method := by
            rintro rfl
            have hsame : table.slot? entry.method = some index := by
              rw [slot?_eq_some_iff hnodup, methodNames, List.getElem?_map, hentry]
              rfl
            rw [hslot] at hsame
            exact hindex (Option.some.inj hsame)
          simp [hentry, hother]
  rw [slotTable, hslots, hfunctions]
  rfl

/-- What is defined for the first time comes after everything else. -/
theorem slotTable_define_of_not_mem (hnew : method ∉ table.methodNames) :
    (table.define owner method).slotTable =
      ⟨table.slotTable.functions ++ [Script.entryName ⟨method, owner⟩],
        Function.update table.slotTable.slots method
          (some table.slotTable.functions.length)⟩ := by
  have hslots : (table.define owner method).slot? =
      Function.update table.slot? method (some table.size) := by
    funext other
    rw [slot?_eq_findIdx?, methodNames_define, if_neg hnew, List.findIdx?_append,
      ← slot?_eq_findIdx?, length_methodNames]
    by_cases hother : other = method
    · subst hother
      simp [slot?_eq_none_iff.mpr hnew]
    · simp [Function.update, hother, Ne.symm hother]
  have hentries : (table.define owner method).entries =
      table.entries ++ [⟨method, owner⟩] := by
    unfold define
    rw [if_neg (mt mem_methodNames_iff_any.mpr hnew)]
  rw [slotTable, hslots, hentries, List.map_append, length_functions_slotTable]
  rfl

theorem addOrUpdate_slotTable (hnodup : table.methodNames.Nodup) :
    table.slotTable.addOrUpdate method (owner.text ++ "_" ++ method.text) =
      some (table.define owner method).slotTable := by
  unfold SlotTable.addOrUpdate
  cases hslot : table.slotTable.slots method with
  | some slot =>
      have hlt : slot < table.slotTable.functions.length := by
        rw [length_functions_slotTable]
        exact slot?_lt_size hslot
      rw [slotTable_define_of_slot? hnodup hslot]
      exact if_pos hlt
  | none =>
      rw [slotTable_define_of_not_mem (slot?_eq_none_iff.mp hslot)]
      rfl

theorem derive_slotTable (hnodup : table.methodNames.Nodup) :
    table.slotTable.derive definition = some (table.extend definition).slotTable := by
  unfold SlotTable.derive extend
  induction definition.methods generalizing table with
  | nil => rfl
  | cons first rest ih =>
      rw [List.foldlM_cons, addOrUpdate_slotTable hnodup, List.foldl_cons]
      exact ih (nodup_define hnodup)

end DispatchTable

/-! ## Classes -/

theorem Hierarchy.nodup_table {hierarchy : Hierarchy κ} {name : ClassName} :
    (hierarchy.table name).methodNames.Nodup := by
  induction name using hierarchy.parent_induction with
  | undeclared name hget =>
      rw [table_of_get?_eq_none hget]
      exact List.nodup_nil
  | declared name definition hget ih =>
      rw [table_of_get?_eq_some hget]
      exact DispatchTable.nodup_extend ih

namespace DispatchTables

variable {tables : DispatchTables}

/-- No table serves a method twice. -/
def Distinct (tables : DispatchTables) : Prop :=
  ∀ entry ∈ tables, entry.2.methodNames.Nodup

def slotTables (tables : DispatchTables) : SlotTables :=
  tables.map fun entry => (entry.1, entry.2.slotTable)

theorem lookup_slotTables (name : ClassName) :
    tables.slotTables.lookup name = (tables.get? name).map DispatchTable.slotTable := by
  unfold slotTables get?
  induction tables with
  | nil => rfl
  | cons entry rest ih =>
      rw [List.map_cons, List.lookup_cons, List.lookup_cons, ih]
      by_cases heq : name == entry.1
      · simp [heq]
      · simp [heq]

theorem Distinct.of_get? (hdistinct : Distinct tables) {name : ClassName}
    {table : DispatchTable} (hget : tables.get? name = some table) :
    table.methodNames.Nodup := by
  rcases List.lookup_eq_some_iff.mp hget with ⟨before, after, hsplit, -⟩
  exact hdistinct (name, table) (hsplit ▸ List.mem_append_right before List.mem_cons_self)

theorem addLine_slotTables {parent : DispatchTable} (hdistinct : Distinct tables)
    (hparent : parent.methodNames.Nodup) (line : List (ClassDef κ)) :
    tables.slotTables.addLine parent.slotTable line = some (tables.addLine parent line).slotTables ∧
      Distinct (tables.addLine parent line) := by
  induction line generalizing tables parent with
  | nil => exact ⟨rfl, hdistinct⟩
  | cons definition below ih =>
      rw [SlotTables.addLine, addLine, lookup_slotTables]
      cases hbuilt : tables.get? definition.name with
      | some built => exact ih hdistinct (hdistinct.of_get? hbuilt)
      | none =>
          have hextended : (parent.extend definition).methodNames.Nodup :=
            DispatchTable.nodup_extend hparent
          have hadded : Distinct (tables ++ [(definition.name, parent.extend definition)]) := by
            intro entry hentry
            rcases List.mem_append.mp hentry with hold | hnew
            · exact hdistinct entry hold
            · rw [List.mem_singleton.mp hnew]
              exact hextended
          have hrest := ih hadded hextended
          rw [slotTables, List.map_append] at hrest
          simp only [Option.map_none, DispatchTable.derive_slotTable hparent]
          exact hrest

theorem foldlM_addLine_slotTables (hierarchy : Hierarchy κ) (hdistinct : Distinct tables)
    (classes : List (ClassDef κ)) :
    classes.foldlM (fun tables definition =>
        SlotTables.addLine tables .empty (hierarchy.lineage definition.name)) tables.slotTables =
      some (classes.foldl (fun tables definition =>
        addLine tables .empty (hierarchy.lineage definition.name)) tables).slotTables := by
  induction classes generalizing tables with
  | nil => rfl
  | cons first rest ih =>
      have hempty : DispatchTable.empty.methodNames.Nodup := List.nodup_nil
      rcases addLine_slotTables hdistinct hempty (hierarchy.lineage first.name) with
        ⟨hline, hkept⟩
      change tables.slotTables.addLine .empty (hierarchy.lineage first.name) = _ at hline
      rw [List.foldlM_cons, List.foldl_cons, hline]
      exact ih hkept

/-- The construction with separate slots takes the same steps, and none of them fails. -/
theorem build_slotTables (hierarchy : Hierarchy κ) :
    SlotTables.build hierarchy = some (build hierarchy).slotTables := by
  have hstart : Distinct [(ClassName.root, DispatchTable.empty)] := by
    simp [Distinct, DispatchTable.empty, DispatchTable.methodNames]
  exact foldlM_addLine_slotTables hierarchy hstart hierarchy.classes

end DispatchTables

end ClassLang
