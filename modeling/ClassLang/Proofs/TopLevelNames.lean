import ClassLang.Proofs.GrammarExactness
import ClassLang.Proofs.NameResolution

/-!
# Names at the top level of a script

The name of a function or of a dispatch table consists of two parts with an
underscore between them.  Names of classes and methods may contain underscores
themselves, so the same text can be made up of different parts.  Apart from that
names are distinct: class names are, the method names of one class are, and no
method can be called `constructor`.

The file states exactly which programs compile to scripts that declare a name
twice.
-/

namespace ClassLang

open Script

/-! ## Names of two parts -/

structure CompoundName where
  owner : String
  member : String
deriving DecidableEq

namespace CompoundName

def text (name : CompoundName) : String :=
  name.owner ++ "_" ++ name.member

/-- The second name takes a piece of the first one's member into its owner. -/
def Overlaps (first second : CompoundName) : Prop :=
  ∃ middle, second.owner = first.owner ++ "_" ++ middle ∧
    first.member = middle ++ "_" ++ second.member

theorem Overlaps.ne {first second : CompoundName} (hoverlaps : first.Overlaps second) :
    first ≠ second := by
  intro hsame
  obtain ⟨middle, howner, -⟩ := hoverlaps
  rw [hsame] at howner
  have hlength := congrArg (fun owner : String => owner.toList.length) howner
  simp at hlength

theorem Overlaps.text_eq {first second : CompoundName} (hoverlaps : first.Overlaps second) :
    first.text = second.text := by
  obtain ⟨middle, howner, hmember⟩ := hoverlaps
  simp [text, howner, hmember, String.append_assoc]

theorem Overlaps.underscore_mem {first second : CompoundName}
    (hoverlaps : first.Overlaps second) : '_' ∈ first.member.toList := by
  obtain ⟨middle, -, hmember⟩ := hoverlaps
  simp [hmember]

theorem toList_text (name : CompoundName) :
    name.text.toList = name.owner.toList ++ '_' :: name.member.toList := by
  simp [text]

theorem eq_or_overlaps {first second : CompoundName} {extra : List Char}
    (howner : second.owner.toList = first.owner.toList ++ extra)
    (hmember : '_' :: first.member.toList = extra ++ '_' :: second.member.toList) :
    first = second ∨ first.Overlaps second := by
  cases extra with
  | nil =>
      rw [List.append_nil, String.toList_inj] at howner
      rw [List.nil_append, List.cons.injEq, String.toList_inj] at hmember
      left
      cases first
      cases second
      simp_all
  | cons c middle =>
      rw [List.cons_append, List.cons.injEq] at hmember
      obtain ⟨rfl, hrest⟩ := hmember
      right
      refine ⟨String.ofList middle, ?_, ?_⟩
      · rw [← String.toList_inj, howner]
        simp
      · rw [← String.toList_inj, hrest]
        simp

/-- Different names have the same text only if they overlap. -/
theorem text_eq_iff {first second : CompoundName} :
    first.text = second.text ↔
      first = second ∨ first.Overlaps second ∨ second.Overlaps first := by
  constructor
  · intro htext
    have hlist := congrArg String.toList htext
    rw [toList_text, toList_text, List.append_eq_append_iff] at hlist
    rcases hlist with ⟨extra, howner, hmember⟩ | ⟨extra, howner, hmember⟩
    · rcases eq_or_overlaps howner hmember with hsame | hoverlaps
      · exact .inl hsame
      · exact .inr (.inl hoverlaps)
    · rcases eq_or_overlaps howner hmember with hsame | hoverlaps
      · exact .inl hsame.symm
      · exact .inr (.inr hoverlaps)
  · intro hcases
    rcases hcases with hsame | hoverlaps | hoverlaps
    · rw [hsame]
    · exact hoverlaps.text_eq
    · exact hoverlaps.text_eq.symm

theorem nodup_map_text_iff {names : List CompoundName} :
    (names.map text).Nodup ↔
      names.Nodup ∧ ∀ first ∈ names, ∀ second ∈ names, ¬ first.Overlaps second := by
  constructor
  · intro hnodup
    refine ⟨hnodup.of_map text, ?_⟩
    intro first hfirst second hsecond hoverlaps
    exact hoverlaps.ne (List.inj_on_of_nodup_map hnodup hfirst hsecond hoverlaps.text_eq)
  · intro hnames
    obtain ⟨hnodup, hapart⟩ := hnames
    rw [List.nodup_map_iff_inj_on hnodup]
    intro first hfirst second hsecond htext
    rcases text_eq_iff.mp htext with hsame | hoverlaps | hoverlaps
    · exact hsame
    · exact absurd hoverlaps (hapart first hfirst second hsecond)
    · exact absurd hoverlaps (hapart second hsecond first hfirst)

end CompoundName

/-! ## Names of a script and of a program -/

/-- The name under which a function is declared. -/
def Script.Function.name (function : Function) : String :=
  functionName function.owner function.member

/-- The names that a script declares outside of all functions and blocks, in the order
of its text. -/
def Script.topLevelNames (script : Script) : List String :=
  ["makeObject", "doCall", constructorName .root]
    ++ script.tables.map (fun (name, _) => tableName name)
    ++ script.functions.map Function.name
    ++ (script.entry.bound?.map VarName.text).toList

section

variable {κ : Type}

def ClassDef.memberNames (definition : ClassDef κ) : List CompoundName :=
  (constructorMember :: definition.methods.map fun method => method.name.text).map
    (CompoundName.mk definition.name.text)

namespace Program

/-- The names of all classes, with the implicit root. -/
def classNames (program : Program κ) : List String :=
  (ClassName.root :: program.classes.map ClassDef.name).map ClassName.text

/-- The names of the tables and the functions that a program becomes. -/
def compoundNames (program : Program κ) : List CompoundName :=
  ⟨ClassName.root.text, constructorMember⟩
    :: (program.classNames.map (CompoundName.mk "vtable")
      ++ program.classes.flatMap ClassDef.memberNames)

/-- No two names at the top level of the script are the same. -/
structure NamesApart (program : Program κ) : Prop where
  /-- A function of a class called `vtable` could be taken for a table. -/
  tables : ∀ definition ∈ program.classes, definition.name.text = "vtable" →
    ∀ method ∈ definition.methods, method.name.text ∉ program.classNames
  parts : ∀ first ∈ program.compoundNames, ∀ second ∈ program.compoundNames,
    ¬ first.Overlaps second
  entry : ∀ var ∈ program.entry.declared?,
    var.name.text ∉ "makeObject" :: "doCall" :: program.compoundNames.map CompoundName.text

end Program

end

section

variable {tables : DispatchTables}

theorem ClassDef.names_lower {definition : ClassDef Resolved} {code : ClassCode}
    (hlower : definition.lower tables = .ok code) :
    (code.constructor :: code.methods).map Function.name =
      definition.memberNames.map CompoundName.text := by
  simp only [ClassDef.lower, lowerConstructor, bind_eq_ok_iff, pure_eq_ok_iff] at hlower
  obtain ⟨constructor, ⟨args, -, body, -, rfl⟩, methods, hmethods, rfl⟩ := hlower
  have hmethod (method : MethodDef Resolved) (function : Function)
      (hfunction : method.lower tables definition.name = .ok function) :
      function.name = functionName definition.name method.name.text := by
    simp only [MethodDef.lower, bind_eq_ok_iff, pure_eq_ok_iff] at hfunction
    obtain ⟨body, -, rfl⟩ := hfunction
    rfl
  simp [map_of_mapM hmethod hmethods, memberNames, Function.name, functionName,
    CompoundName.text]

end

theorem Program.topLevelNames_lower {program : Program Resolved} {script : Script}
    (hlower : program.lower = .ok script) :
    script.topLevelNames =
      "makeObject" :: "doCall" :: program.compoundNames.map CompoundName.text
        ++ (program.entry.declared?.map fun var => var.name.text).toList := by
  simp only [lower, bind_eq_ok_iff, pure_eq_ok_iff] at hlower
  obtain ⟨hierarchy, -, tables, htables, classes, hclasses, entry, hentry, rfl⟩ := hlower
  have hfunctions : (classes.flatMap fun code => code.constructor :: code.methods).map
      Function.name = (program.classes.flatMap ClassDef.memberNames).map CompoundName.text := by
    rw [List.map_flatMap, List.map_flatMap]
    exact flatMap_of_mapM (fun _ _ => ClassDef.names_lower) hclasses
  have htable (name : ClassName) (named : ClassName × DispatchTable)
      (hnamed : (do
        let table ← (DispatchTables.build hierarchy).table name
        return (name, table)) = .ok named) :
      tableName named.1 = (CompoundName.mk "vtable" name.text).text := by
    simp only [bind_eq_ok_iff, pure_eq_ok_iff] at hnamed
    obtain ⟨table, -, rfl⟩ := hnamed
    rfl
  have htableNames := map_of_mapM htable htables
  simp only [Script.topLevelNames, Script.functions, hfunctions, htableNames,
    Stmt.bound?_lower hentry, compoundNames, classNames]
  simp [constructorName, functionName, CompoundName.text, Function.comp_def]

/-! ## When names are distinct -/

theorem ClassName.text_injective : Function.Injective ClassName.text := by
  intro first second htext
  cases first
  cases second
  simpa using htext

theorem MethodName.text_injective : Function.Injective MethodName.text := by
  intro first second htext
  cases first
  cases second
  simpa using htext

theorem CompoundName.underscore_mem_text (name : CompoundName) : '_' ∈ name.text.toList := by
  rw [toList_text]
  simp

section

variable {κ : Type}

theorem ClassDef.mem_memberNames_iff {definition : ClassDef κ} {name : CompoundName} :
    name ∈ definition.memberNames ↔ name.owner = definition.name.text ∧
      (name.member = constructorMember ∨
        ∃ method ∈ definition.methods, method.name.text = name.member) := by
  obtain ⟨owner, member⟩ := name
  simp only [memberNames, List.map_cons, List.map_map, List.mem_cons, List.mem_map,
    CompoundName.mk.injEq, Function.comp_apply]
  grind

/-- What the checker and the scanner leave to collisions: neither the names of classes
nor the members of one class repeat. -/
structure Program.NamesDistinct (program : Program κ) : Prop where
  classes : (ClassName.root :: program.classes.map ClassDef.name).Nodup
  methods : ∀ definition ∈ program.classes, (definition.methods.map MethodDef.name).Nodup
  reservedMethods : ∀ definition ∈ program.classes, ∀ method ∈ definition.methods,
    method.name.text ≠ constructorMember
  reservedClasses : ∀ definition ∈ program.classes, definition.name.text ≠ constructorMember

namespace Program.NamesDistinct

variable {program : Program κ}

theorem nodup_classNames (hdistinct : program.NamesDistinct) : program.classNames.Nodup :=
  hdistinct.classes.map ClassName.text_injective

theorem constructor_not_mem_classNames (hdistinct : program.NamesDistinct) :
    constructorMember ∉ program.classNames := by
  intro hmem
  obtain ⟨name, hname, htext⟩ := List.mem_map.mp hmem
  rcases List.mem_cons.mp hname with rfl | hclass
  · simp [ClassName.root, constructorMember] at htext
  · obtain ⟨definition, hdefinition, rfl⟩ := List.mem_map.mp hclass
    exact hdistinct.reservedClasses definition hdefinition htext

theorem nodup_memberNames (hdistinct : program.NamesDistinct) {definition : ClassDef κ}
    (hdefinition : definition ∈ program.classes) : definition.memberNames.Nodup := by
  have hinjective : Function.Injective (CompoundName.mk definition.name.text) := by
    intro first second hsame
    simpa using hsame
  have hmethods : (definition.methods.map fun method => method.name.text).Nodup := by
    have htexts := (hdistinct.methods definition hdefinition).map MethodName.text_injective
    simpa [Function.comp_def] using htexts
  apply List.Nodup.map hinjective
  rw [List.nodup_cons]
  refine ⟨?_, hmethods⟩
  intro hconstructor
  obtain ⟨method, hmethod, hname⟩ := List.mem_map.mp hconstructor
  exact hdistinct.reservedMethods definition hdefinition method hmethod hname

theorem nodup_flatMap_memberNames (hdistinct : program.NamesDistinct) :
    (program.classes.flatMap ClassDef.memberNames).Nodup := by
  rw [List.nodup_flatMap]
  refine ⟨fun definition hdefinition => hdistinct.nodup_memberNames hdefinition, ?_⟩
  have hnames := (List.nodup_cons.mp hdistinct.classes).2
  refine (List.pairwise_map.mp hnames).imp ?_
  intro first second hne
  rw [Function.onFun, List.disjoint_left]
  intro name hfirst hsecond
  have hone := (ClassDef.mem_memberNames_iff.mp hfirst).1
  have hother := (ClassDef.mem_memberNames_iff.mp hsecond).1
  exact hne (ClassName.text_injective (hone.symm.trans hother))

/-- Two of the names have the same parts only if a table and a method have. -/
theorem nodup_compoundNames_iff (hdistinct : program.NamesDistinct) :
    program.compoundNames.Nodup ↔
      ∀ definition ∈ program.classes, definition.name.text = "vtable" →
        ∀ method ∈ definition.methods, method.name.text ∉ program.classNames := by
  have htables : (program.classNames.map (CompoundName.mk "vtable")).Nodup := by
    apply hdistinct.nodup_classNames.map
    intro first second hsame
    simpa using hsame
  have hroot : CompoundName.mk ClassName.root.text constructorMember ∉
      program.classNames.map (CompoundName.mk "vtable") ++
        program.classes.flatMap ClassDef.memberNames := by
    rw [List.mem_append, not_or]
    constructor
    · intro htable
      obtain ⟨name, -, hname⟩ := List.mem_map.mp htable
      simp [ClassName.root] at hname
    · intro hmember
      obtain ⟨definition, hdefinition, hname⟩ := List.mem_flatMap.mp hmember
      have howner : ClassName.root = definition.name :=
        ClassName.text_injective (ClassDef.mem_memberNames_iff.mp hname).1
      apply (List.nodup_cons.mp hdistinct.classes).1
      rw [howner]
      exact List.mem_map_of_mem hdefinition
  rw [Program.compoundNames, List.nodup_cons, List.nodup_append]
  constructor
  · intro hnodup definition hdefinition hvtable method hmethod hclass
    apply hnodup.2.2.2 ⟨"vtable", method.name.text⟩ (List.mem_map_of_mem hclass) _ _ rfl
    rw [List.mem_flatMap]
    exact ⟨definition, hdefinition,
      ClassDef.mem_memberNames_iff.mpr ⟨hvtable.symm, .inr ⟨method, hmethod, rfl⟩⟩⟩
  · intro hapart
    refine ⟨hroot, htables, hdistinct.nodup_flatMap_memberNames, ?_⟩
    intro table htable function hfunction hsame
    obtain ⟨name, hname, rfl⟩ := List.mem_map.mp htable
    obtain ⟨definition, hdefinition, hmember⟩ := List.mem_flatMap.mp hfunction
    rw [← hsame, ClassDef.mem_memberNames_iff] at hmember
    obtain ⟨howner, hconstructor | ⟨method, hmethod, hmethodName⟩⟩ := hmember
    · exact hdistinct.constructor_not_mem_classNames (hconstructor ▸ hname)
    · exact hapart definition hdefinition howner.symm method hmethod (hmethodName ▸ hname)

theorem nodup_topLevel_iff (hdistinct : program.NamesDistinct) :
    ("makeObject" :: "doCall" :: program.compoundNames.map CompoundName.text
        ++ (program.entry.declared?.map fun var => var.name.text).toList).Nodup ↔
      program.NamesApart := by
  have hplain (name : String) (hname : '_' ∉ name.toList) :
      name ∉ program.compoundNames.map CompoundName.text := by
    intro hmem
    obtain ⟨compound, -, rfl⟩ := List.mem_map.mp hmem
    exact hname compound.underscore_mem_text
  have hfixed : ("makeObject" :: "doCall" :: program.compoundNames.map CompoundName.text).Nodup ↔
      (program.compoundNames.map CompoundName.text).Nodup := by
    have hmake := hplain "makeObject" (by decide)
    have hcall := hplain "doCall" (by decide)
    simp [List.nodup_cons, hmake, hcall]
  rw [List.nodup_append, hfixed, CompoundName.nodup_map_text_iff,
    hdistinct.nodup_compoundNames_iff]
  constructor
  · intro hnodup
    refine ⟨hnodup.1.1, hnodup.1.2, ?_⟩
    intro var hvar hmem
    exact hnodup.2.2 _ hmem var.name.text (by simp [Option.mem_def.mp hvar]) rfl
  · intro hapart
    refine ⟨⟨hapart.tables, hapart.parts⟩, ?_, ?_⟩
    · cases program.entry.declared? <;> simp
    · intro name hname declared hdeclared hsame
      rw [Option.mem_toList, Option.map_eq_some_iff] at hdeclared
      obtain ⟨var, hvar, rfl⟩ := hdeclared
      exact hapart.entry var hvar (hsame ▸ hname)

end Program.NamesDistinct

end

/-! ## Names of a source text -/

namespace Token

/-- No identifier is written like a reserved word. -/
def Unreserved (tokens : List Token) : Prop :=
  ∀ name, .ident name ∈ tokens → Keyword.ofText? name = none

theorem ofText?_of_ofLexeme {offset : Nat} {c : Char} {lexeme : List Char} {name : String}
    (hlexeme : ofLexeme offset c lexeme = .ok (.ident name)) :
    Keyword.ofText? name = none := by
  unfold ofLexeme at hlexeme
  split at hlexeme
  · unfold ofWord at hlexeme
    split at hlexeme
    next => cases hlexeme
    next hnone =>
      cases hlexeme
      exact hnone
  · split at hlexeme
    · dsimp only at hlexeme
      split at hlexeme <;> cases hlexeme
    · split at hlexeme <;> cases hlexeme

theorem unreserved_scanFrom {offset : Nat} {seen : List Token} {text : List Char}
    {tokens : List Token} (hseen : Unreserved seen)
    (hscan : scanFrom offset seen text = .ok tokens) : Unreserved tokens := by
  fun_induction scanFrom offset seen text with
  | case1 offset seen =>
      cases hscan
      intro name hname
      exact hseen name (List.mem_reverse.mp hname)
  | case2 offset seen c rest hblank ih => exact ih hseen hscan
  | case3 offset seen c rest hblank error herror => cases hscan
  | case4 offset seen c rest hblank token htoken ih =>
      refine ih ?_ hscan
      intro name hname
      rcases List.mem_cons.mp hname with rfl | hearlier
      · exact ofText?_of_ofLexeme htoken
      · exact hseen name hearlier

theorem unreserved_scan {source : String} {tokens : List Token}
    (hscan : scan source = .ok tokens) : Unreserved tokens :=
  unreserved_scanFrom (fun _ hname => absurd hname List.not_mem_nil) hscan

end Token

theorem Phrase.Many.exists_part {α : Type} {item : Phrase α} {used : List Token} {as : List α}
    (hmany : Many item used as) {a : α} (ha : a ∈ as) : ∃ part ⊆ used, item part a := by
  induction hmany with
  | nil => cases ha
  | @cons first more b bs hitem hmore ih =>
      rcases List.mem_cons.mp ha with rfl | hlater
      · exact ⟨first, List.subset_append_left first more, hitem⟩
      · obtain ⟨part, hpart, hderives⟩ := ih hlater
        exact ⟨part, List.Subset.trans hpart (List.subset_append_right first more), hderives⟩

theorem MethodDef.Derives.name_mem {used : List Token} {method : MethodDef Plain}
    (hderives : MethodDef.Derives used method) : .ident method.name.text ∈ used := by
  obtain ⟨hty, hparams, hbody⟩ := hderives
  simp

theorem ClassDef.Derives.name_mem {used : List Token} {definition : ClassDef Plain}
    (hderives : ClassDef.Derives used definition) : .ident definition.name.text ∈ used := by
  obtain ⟨hfields, hparams, hsuperArgs, hbody, hmethods⟩ := hderives
  simp

theorem ClassDef.Derives.methodName_mem {used : List Token} {definition : ClassDef Plain}
    (hderives : ClassDef.Derives used definition) {method : MethodDef Plain}
    (hmethod : method ∈ definition.methods) : .ident method.name.text ∈ used := by
  obtain ⟨hfields, hparams, hsuperArgs, hbody, hmethods⟩ := hderives
  obtain ⟨part, hpart, hmethodDerives⟩ := hmethods.exists_part hmethod
  have hname := hpart hmethodDerives.name_mem
  simp [hname]

theorem Program.Derives.reserved {used : List Token} {program : Program Plain}
    (hderives : Program.Derives used program) (hunreserved : Token.Unreserved used) :
    ∀ definition ∈ program.classes, definition.name.text ≠ constructorMember ∧
      ∀ method ∈ definition.methods, method.name.text ≠ constructorMember := by
  obtain @⟨left, right, classes, entry, hclasses, -⟩ := hderives
  intro definition hdefinition
  obtain ⟨part, hpart, hclass⟩ := hclasses.exists_part hdefinition
  have hne (name : String) (hname : .ident name ∈ part) : name ≠ constructorMember := by
    intro hsame
    have hnone := hunreserved name (List.mem_append_left right (hpart hname))
    rw [hsame] at hnone
    exact absurd hnone (by decide)
  exact ⟨hne _ hclass.name_mem, fun method hmethod => hne _ (hclass.methodName_mem hmethod)⟩

theorem Source.namesDistinct {source : String} {program : Program Plain}
    {checked : Program Resolved} (hprogram : Source.program source = .ok program)
    (hcheck : program.check = .ok checked) : program.NamesDistinct := by
  obtain ⟨tokens, hscan, hparse⟩ := Source.program_eq_ok_iff.mp hprogram
  have hderives := (Production.parseAll_ok_iff Grammar.exact_program trivial).mp hparse
  have hreserved := hderives.reserved (Token.unreserved_scan hscan)
  obtain ⟨hierarchy, hclasses, htyped, rfl⟩ := Program.check_eq_ok_iff.mp hcheck
  refine ⟨hclasses ▸ hierarchy.formed.distinct, ?_,
    fun definition hdefinition => (hreserved definition hdefinition).2,
    fun definition hdefinition => (hreserved definition hdefinition).1⟩
  intro definition hdefinition
  obtain ⟨full, hfull, rfl⟩ := List.mem_map.mp hdefinition
  rcases htyped.definitions full hfull with ⟨fields, hwith⟩
  rw [ClassDef.map_name_methods_erase]
  exact hwith.methodNames

theorem ClassDef.memberNames_erase {κ : Type} (definition : ClassDef κ) :
    definition.erase.memberNames = definition.memberNames := by
  simp [memberNames, ClassDef.erase, MethodDef.erase, Function.comp_def]

theorem Program.compoundNames_erase {κ : Type} (program : Program κ) :
    program.erase.compoundNames = program.compoundNames := by
  simp [compoundNames, classNames, Program.erase, ClassDef.memberNames_erase,
    List.flatMap_map, Function.comp_def]

theorem Stmt.declared?_erase {κ : Type} (stmt : Stmt κ) :
    stmt.erase.declared? = stmt.declared? := by
  cases stmt <;> rfl

/-- A compiled source declares no name twice at the top level exactly if its names can
be told apart by their text. -/
theorem compile_nodup_topLevelNames_iff {source text : String}
    (hcompile : compile source = .ok text) :
    ∃ program script, Source.program source = .ok program ∧
      Source.script source = .ok script ∧ script.text = text ∧
        (script.topLevelNames.Nodup ↔ program.NamesApart) := by
  obtain ⟨script, hscript, htext⟩ := compile_eq_ok_iff.mp hcompile
  obtain ⟨program, checked, hprogram, hcheck, hlower⟩ := Source.script_eq_ok_iff.mp hscript
  refine ⟨program, script, hprogram, hscript, htext, ?_⟩
  have hdistinct := Source.namesDistinct hprogram hcheck
  obtain ⟨hierarchy, -, -, rfl⟩ := Program.check_eq_ok_iff.mp hcheck
  rw [← hdistinct.nodup_topLevel_iff, Program.topLevelNames_lower hlower,
    Program.compoundNames_erase, ← Stmt.declared?_erase]
  rfl

/-- A class that extends the root and has one method, which returns a number. -/
def countingClass {κ : Type} (name : ClassName) (method : MethodName) : ClassDef κ where
  name := name
  parent := .root
  fields := []
  params := []
  superArgs := []
  body := []
  methods := [⟨.int, method, [], .returnValue (.int 1)⟩]

def countingTokens (name method : String) : List Token :=
  [.keyword .classKw, .ident name, .keyword .extendsKw, .ident "Object", .symbol .openBrace,
    .keyword .constructorKw, .symbol .openParen, .symbol .closeParen, .symbol .openBrace,
    .keyword .superKw, .symbol .openParen, .symbol .closeParen, .symbol .semicolon,
    .symbol .closeBrace, .keyword .intKw, .ident method, .symbol .openParen,
    .symbol .closeParen, .keyword .returnKw, .integer 1, .symbol .semicolon,
    .symbol .closeBrace]

def plainSource : String :=
  "class A extends Object \x7b constructor() \x7b super(); \x7d int m() return 1; \x7d " ++
    "int x = 1;"

def plainProgram (κ : Type) : Program κ where
  classes := [countingClass ⟨"A"⟩ ⟨"m"⟩]
  entry := .declare ⟨.int, ⟨"x"⟩⟩ (.int 1)

theorem compile_nodup_topLevelNames_iff_plainSource :
    ∃ script : Script, compile plainSource = .ok script.text ∧ script.topLevelNames.Nodup := by
  have hscan : Token.scan plainSource = .ok (countingTokens "A" "m" ++
      [.keyword .intKw, .ident "x", .symbol .assign, .integer 1, .symbol .semicolon]) := by
    cbv
  have hprogram : Source.program plainSource = .ok (plainProgram Plain) :=
    Source.program_eq_ok_iff.mpr ⟨_, hscan, rfl⟩
  have hcheck : (plainProgram Plain).check = .ok (plainProgram Resolved) := by
    rw [Program.check_of_faultless (by decide +kernel)]
    cbv
  have happart : (plainProgram Plain).NamesApart := by
    have hmembers : ∀ name ∈ (plainProgram Plain).compoundNames, '_' ∉ name.member.toList := by
      decide +kernel
    refine ⟨by decide +kernel, ?_, by decide +kernel⟩
    intro first hfirst second hsecond hoverlaps
    exact hmembers first hfirst hoverlaps.underscore_mem
  obtain ⟨script, -, hscript⟩ := Source.exists_script_of_check hprogram hcheck
  have hcompile := compile_eq_ok_iff.mpr ⟨script, hscript, rfl⟩
  obtain ⟨program, other, hother, -, htext, hnodup⟩ := compile_nodup_topLevelNames_iff hcompile
  rw [hprogram] at hother
  obtain rfl := Except.ok.inj hother
  exact ⟨other, htext ▸ hcompile, hnodup.mpr happart⟩

/-- The method `B_m` of the class `A` and the method `m` of the class `A_B`. -/
def collidingSource : String :=
  "class A extends Object \x7b constructor() \x7b super(); \x7d int B_m() return 1; \x7d " ++
    "class A_B extends Object \x7b constructor() \x7b super(); \x7d int m() return 1; \x7d " ++
    "println(1);"

def collidingProgram (κ : Type) : Program κ where
  classes := [countingClass ⟨"A"⟩ ⟨"B_m"⟩, countingClass ⟨"A_B"⟩ ⟨"m"⟩]
  entry := .println (.int 1)

theorem not_nodup_topLevelNames_collidingSource :
    ∃ script, Source.script collidingSource = .ok script ∧
      script.topLevelNames = ["makeObject", "doCall", "Object_constructor", "vtable_Object",
        "vtable_A", "vtable_A_B", "A_constructor", "A_B_m", "A_B_constructor", "A_B_m"] ∧
      ¬ script.topLevelNames.Nodup := by
  have hscan : Token.scan collidingSource =
      .ok (countingTokens "A" "B_m" ++ countingTokens "A_B" "m" ++
        [.keyword .printlnKw, .symbol .openParen, .integer 1, .symbol .closeParen,
          .symbol .semicolon]) := by
    cbv
  have hprogram : Source.program collidingSource = .ok (collidingProgram Plain) :=
    Source.program_eq_ok_iff.mpr ⟨_, hscan, rfl⟩
  have hcheck : (collidingProgram Plain).check = .ok (collidingProgram Resolved) := by
    rw [Program.check_of_faultless (by decide +kernel)]
    cbv
  obtain ⟨script, hlower, hscript⟩ := Source.exists_script_of_check hprogram hcheck
  refine ⟨script, hscript, ?_⟩
  rw [Program.topLevelNames_lower hlower]
  exact ⟨rfl, by decide +kernel⟩

end ClassLang
