import ClassLang.Proofs.BlockStructure
import ClassLang.Proofs.ScopesInStep

/-!
# Where the statements of a sequence stand

The sequences of a program are the bodies of its constructors and of its blocks.  Each of
them has its own place in the script.  Its statements follow each other there, and each one
stands one block deeper than the one before it.
-/

namespace ClassLang

open Script Text

/-! ## Places in a script -/

/-- The lines have a piece that starts with the line of the given number, inside of `depth`
blocks. -/
def Text.StandsAt (lines piece : List String) (start depth : Nat) : Prop :=
  ∃ before after, lines = before ++ piece ++ after ∧ before.length = start ∧
    openBlocks (unlines before).toList = depth

section

variable {lines piece more : List String} {start depth inner : Nat}

theorem Text.StandsAt.left (hstands : StandsAt lines (piece ++ more) start depth) :
    StandsAt lines piece start depth := by
  rcases hstands with ⟨before, after, rfl, hstart, hdepth⟩
  exact ⟨before, more ++ after, by simp, hstart, hdepth⟩

theorem Text.StandsAt.right (hstands : StandsAt lines (piece ++ more) start depth)
    (hinner : (depth : Int) + openBlocks (unlines piece).toList = inner) :
    StandsAt lines more (start + piece.length) inner := by
  rcases hstands with ⟨before, after, rfl, hstart, hdepth⟩
  refine ⟨before ++ piece, after, by simp, by simp [hstart], ?_⟩
  rw [unlines_append, openBlocks_append, hdepth, hinner]

theorem Text.length_blockLines (heading : String) (inside : Nat → List String) (depth : Nat) :
    (blockLines heading inside depth).length = (inside (depth + 1)).length + 2 := by
  simp [blockLines]

theorem Text.length_alternativeLines (heading : String) (inside other : Nat → List String)
    (depth : Nat) :
    (alternativeLines heading inside other depth).length =
      (inside (depth + 1)).length + (other (depth + 1)).length + 3 := by
  simp only [alternativeLines, List.length_append, List.length_cons, List.length_nil]
  omega

theorem Text.openBlocks_opening {heading : String} (hheading : IsHeading heading) (depth : Nat) :
    openBlocks (unlines [indented depth (heading ++ "\x7b")]).toList = 1 := by
  rw [unlines_cons, openBlocks_line, openBlocks_indented, String.toList_append,
    openBlocks_append, hheading.braceFree.openBlocks_eq]
  simp [openBlocks, unlines]

/-- A block has its inside one line further on and one block deeper. -/
theorem Text.StandsAt.inside {heading : String} {inside : Nat → List String}
    (hheading : IsHeading heading)
    (hstands : StandsAt lines (blockLines heading inside depth) start depth) :
    StandsAt lines (inside (depth + 1)) (start + 1) (depth + 1) := by
  rw [blockLines, List.cons_append, ← List.singleton_append] at hstands
  exact (hstands.right (by rw [openBlocks_opening hheading]; rfl)).left

/-- The second of two alternatives follows the first one, equally deep. -/
theorem Text.StandsAt.alternatives {heading : String} {inside other : Nat → List String}
    (hheading : IsHeading heading) (hinside : Lays inside)
    (hstands : StandsAt lines (alternativeLines heading inside other depth) start depth) :
    StandsAt lines (inside (depth + 1)) (start + 1) (depth + 1) ∧
      StandsAt lines (other (depth + 1)) (start + 1 + (inside (depth + 1)).length + 1)
        (depth + 1) := by
  have hsplit : StandsAt lines ([indented depth (heading ++ "\x7b")] ++ (inside (depth + 1) ++
      ([indented depth "\x7d else \x7b"] ++ (other (depth + 1) ++ [indented depth "\x7d"]))))
      start depth := by
    simpa [alternativeLines] using hstands
  have hturning : openBlocks (unlines [indented depth "\x7d else \x7b"]).toList = 0 := by
    rw [unlines_cons, openBlocks_line, openBlocks_indented]
    simp [openBlocks, unlines]
  have hthen := hsplit.right (by rw [openBlocks_opening hheading]; rfl)
  have hturn := hthen.right (by rw [hinside.openBlocks_eq, add_zero])
  have helse := hturn.right (by rw [hturning, add_zero])
  exact ⟨hthen.left, helse.left⟩

end

/-! ## Sequences -/

namespace Stmt

variable {κ : Type}

mutual

/-- The sequences in a statement, in the order of the text. -/
def sequences : Stmt κ → List (List (Stmt κ))
  | ifElse _ thenArm elseArm => thenArm.sequences ++ elseArm.sequences
  | whileLoop _ body => body.sequences
  | block body => body :: sequencesOfAll body
  | _ => []

def sequencesOfAll : List (Stmt κ) → List (List (Stmt κ))
  | [] => []
  | stmt :: rest => stmt.sequences ++ sequencesOfAll rest

end

end Stmt

def ClassDef.sequences {κ : Type} (definition : ClassDef κ) : List (List (Stmt κ)) :=
  definition.body :: Stmt.sequencesOfAll definition.body
    ++ definition.methods.flatMap fun method => method.body.sequences

def Program.sequences {κ : Type} (program : Program κ) : List (List (Stmt κ)) :=
  program.classes.flatMap ClassDef.sequences ++ program.entry.sequences

section

variable (tables : DispatchTables) (lines : List String)

/-- The code of the statement stands at the given line, inside of `depth` blocks. -/
def Stmt.EmittedAt (start depth : Nat) (stmt : Stmt Resolved) : Prop :=
  ∃ locals code, stmt.lower tables locals = .ok code ∧
    StandsAt lines (code.lines depth) start depth

/-- The statements follow each other from the given line on, where `depth` blocks are open.
Counted from zero, the `k`-th of them stands `k` blocks deeper than the first. -/
def Stmt.Descend (depth start : Nat) (body : List (Stmt Resolved)) : Prop :=
  ∃ places : Nat → Nat, places 0 = start ∧ (∀ k, places k < places (k + 1)) ∧
    ∀ k (stmt : Stmt Resolved), body[k]? = some stmt →
      stmt.EmittedAt tables lines (places k) (depth + k)

/-- The sequences stand one after the other between two lines, each from a line of its own
on. -/
def Arranged (low high : Nat) (bodies : List (List (Stmt Resolved))) : Prop :=
  ∃ starts : List Nat, starts.Pairwise (· < ·) ∧ (∀ start ∈ starts, low ≤ start ∧ start < high) ∧
    List.Forall₂ (fun body start => ∃ depth, Stmt.Descend tables lines depth start body)
      bodies starts

end

section

variable {tables : DispatchTables} {lines : List String} {depth start next low middle high : Nat}

theorem Stmt.descend_nil : Stmt.Descend tables lines depth start [] :=
  ⟨fun k => start + k, rfl, by simp, by simp⟩

theorem Stmt.descend_cons {stmt : Stmt Resolved} {rest : List (Stmt Resolved)}
    (hstmt : stmt.EmittedAt tables lines start depth) (hlater : start < next)
    (hrest : Stmt.Descend tables lines (depth + 1) next rest) :
    Stmt.Descend tables lines depth start (stmt :: rest) := by
  rcases hrest with ⟨places, hfirst, hincreasing, hplaces⟩
  refine ⟨fun k => k.casesOn start places, rfl, ?_, ?_⟩
  · intro k
    cases k with
    | zero => simpa [hfirst] using hlater
    | succ k => exact hincreasing k
  · intro k other hother
    cases k with
    | zero =>
        obtain rfl : stmt = other := by simpa using hother
        exact hstmt
    | succ k =>
        have hdeeper := hplaces k other (by simpa using hother)
        rwa [show depth + 1 + k = depth + (k + 1) by omega] at hdeeper

theorem arranged_nil : Arranged tables lines low high [] :=
  ⟨[], by simp, by simp, .nil⟩

theorem Arranged.widen {bodies : List (List (Stmt Resolved))} {lower upper : Nat}
    (harranged : Arranged tables lines low high bodies) (hlow : lower ≤ low)
    (hhigh : high ≤ upper) : Arranged tables lines lower upper bodies := by
  rcases harranged with ⟨starts, hordered, hbounds, hstarts⟩
  refine ⟨starts, hordered, ?_, hstarts⟩
  intro start hstart
  have hbound := hbounds start hstart
  omega

theorem Arranged.append {bodies more : List (List (Stmt Resolved))}
    (harranged : Arranged tables lines low middle bodies)
    (hmore : Arranged tables lines middle high more) (hlow : low ≤ middle) (hhigh : middle ≤ high) :
    Arranged tables lines low high (bodies ++ more) := by
  rcases harranged with ⟨starts, hordered, hbounds, hstarts⟩
  rcases hmore with ⟨others, hothersOrdered, hothersBounds, hothers⟩
  refine ⟨starts ++ others, ?_, ?_, List.rel_append hstarts hothers⟩
  · rw [List.pairwise_append]
    refine ⟨hordered, hothersOrdered, ?_⟩
    intro start hstart other hother
    have hbefore := hbounds start hstart
    have hafter := hothersBounds other hother
    omega
  · rw [List.forall_mem_append]
    constructor
    · intro start hstart
      have hbound := hbounds start hstart
      omega
    · intro other hother
      have hbound := hothersBounds other hother
      omega

theorem Arranged.cons {body : List (Stmt Resolved)} {bodies : List (List (Stmt Resolved))}
    (hbody : Stmt.Descend tables lines depth start body)
    (hbodies : Arranged tables lines (start + 1) high bodies) (hstart : start < high) :
    Arranged tables lines start high (body :: bodies) := by
  have hsingle : Arranged tables lines start (start + 1) [body] :=
    ⟨[start], by simp, by simp, .cons ⟨depth, hbody⟩ .nil⟩
  exact hsingle.append hbodies (by omega) (by omega)

end

/-! ## Sequences in code -/

namespace Stmt

variable {tables : DispatchTables} {lines : List String} {start depth : Nat}

/-- What the code of a statement has to do to its sequences. -/
def ArrangesInside (tables : DispatchTables) (lines : List String) (stmt : Stmt Resolved)
    (code : Instr) : Prop :=
  ∀ start depth, StandsAt lines (code.lines depth) start depth →
    Arranged tables lines (start + 1) (start + (code.lines depth).length) stmt.sequences

theorem eq_nil_of_lowerAll {body : List (Stmt Resolved)} {locals : Locals}
    (hlower : lowerAll tables locals body = .ok []) : body = [] := by
  cases body with
  | nil => rfl
  | cons stmt rest =>
      simp only [lowerAll, bind_eq_ok_iff, pure_eq_ok_iff] at hlower
      rcases hlower with ⟨first, -, others, -, hnil⟩
      cases hnil

/-- Of a sequence each statement after the first one starts after a brace. -/
theorem descend_of_lowerAll {body : List (Stmt Resolved)} {codes : List Instr} {locals : Locals}
    (hnames : ∀ stmt ∈ body, ∀ name ∈ stmt.names, IsIdentifier name)
    (hstmts : ∀ stmt ∈ body, ∀ locals code, stmt.lower tables locals = .ok code →
      stmt.ArrangesInside tables lines code)
    (hlower : lowerAll tables locals body = .ok codes)
    (hstands : StandsAt lines (Instr.linesOfAll depth codes) start depth) :
    Descend tables lines depth start body ∧
      Arranged tables lines (start + 1) (start + (Instr.linesOfAll depth codes).length)
        (sequencesOfAll body) := by
  induction body generalizing codes locals start depth with
  | nil => exact ⟨descend_nil, arranged_nil⟩
  | cons stmt rest ih =>
      rw [List.forall_mem_cons] at hnames hstmts
      simp only [lowerAll, bind_eq_ok_iff, pure_eq_ok_iff] at hlower
      rcases hlower with ⟨first, hfirst, others, hothers, rfl⟩
      rw [Instr.linesOfAll] at hstands ⊢
      have hemitted : stmt.EmittedAt tables lines start depth :=
        ⟨locals, first, hfirst, hstands.left⟩
      have hinside := hstmts.1 locals first hfirst start depth hstands.left
      have hlevel : (depth : Int) + openBlocks (unlines (first.lines depth)).toList = depth := by
        rw [(lays_lower hnames.1 hfirst).1.openBlocks_eq depth, add_zero]
      have hafter := hstands.right hlevel
      -- Braces stand around the rest only if there is any.
      cases others with
      | nil =>
          obtain rfl := eq_nil_of_lowerAll hothers
          refine ⟨descend_cons hemitted (Nat.lt_succ_self start) descend_nil, ?_⟩
          simpa [sequencesOfAll, Instr.braced, Instr.linesOfAll] using hinside
      | cons second more =>
          simp only [Instr.braced, Instr.linesOfAll_singleton, Instr.lines_block] at hafter ⊢
          rcases ih hnames.2 hstmts.2 hothers (hafter.inside Instr.isHeading_nil) with
            ⟨hdescend, hlater⟩
          refine ⟨descend_cons hemitted (by omega) hdescend, ?_⟩
          rw [List.length_append, length_blockLines]
          exact (hinside.widen le_rfl (by omega)).append (hlater.widen le_rfl (by omega))
            (by omega) (by omega)

theorem arranges_unbraced {stmt : Stmt Resolved} {code : Instr} (hunbraced : code.unbraced = [code])
    (hinside : stmt.ArrangesInside tables lines code) :
    stmt.ArrangesInside tables lines code ∧
      ∀ start depth, StandsAt lines (Instr.linesOfAll depth code.unbraced) start depth →
        Arranged tables lines start (start + (Instr.linesOfAll depth code.unbraced).length + 1)
          stmt.sequences := by
  refine ⟨hinside, ?_⟩
  simp only [hunbraced, Instr.linesOfAll_singleton]
  intro start depth hstands
  exact (hinside start depth hstands).widen (by omega) (by omega)

theorem arranges_lower {stmt : Stmt Resolved} {code : Instr} {locals : Locals}
    (hnames : ∀ name ∈ stmt.names, IsIdentifier name)
    (hlower : stmt.lower tables locals = .ok code) :
    stmt.ArrangesInside tables lines code ∧
      ∀ start depth, StandsAt lines (Instr.linesOfAll depth code.unbraced) start depth →
        Arranged tables lines start (start + (Instr.linesOfAll depth code.unbraced).length + 1)
          stmt.sequences := by
  induction stmt generalizing code locals with
  | exp | declare | assign | returnValue | returnVoid | println =>
      simp only [ArrangesInside, sequences]
      exact ⟨fun _ _ _ => arranged_nil, fun _ _ _ => arranged_nil⟩
  | ifElse guard thenArm elseArm ihThen ihElse =>
      simp only [names, List.forall_mem_append] at hnames
      simp only [lower, bind_eq_ok_iff, pure_eq_ok_iff] at hlower
      rcases hlower with ⟨test, htest, thenPart, hthen, elsePart, helse, rfl⟩
      apply arranges_unbraced rfl
      intro start depth hstands
      rw [Instr.lines_ifElse] at hstands ⊢
      rcases hstands.alternatives (Instr.isHeading_if (Exp.legible_of_names hnames.1 htest))
        (lays_lower hnames.2.1 hthen).2 with ⟨hthenStands, helseStands⟩
      have hthenArm := (ihThen hnames.2.1 hthen).2 _ _ hthenStands
      have helseArm := (ihElse hnames.2.2 helse).2 _ _ helseStands
      rw [sequences, length_alternativeLines]
      exact (hthenArm.append helseArm (by omega) (by omega)).widen le_rfl (by omega)
  | whileLoop guard body ih =>
      simp only [names, List.forall_mem_append] at hnames
      simp only [lower, bind_eq_ok_iff, pure_eq_ok_iff] at hlower
      rcases hlower with ⟨test, htest, inner, hinner, rfl⟩
      apply arranges_unbraced rfl
      intro start depth hstands
      rw [Instr.lines_whileLoop] at hstands ⊢
      have hinside := hstands.inside
        (Instr.isHeading_while (Exp.legible_of_names hnames.1 htest))
      have hbody := (ih hnames.2 hinner).2 _ _ hinside
      rw [sequences, length_blockLines]
      exact hbody.widen le_rfl (by omega)
  | block body ih =>
      simp only [names, forall_mem_namesOfAll] at hnames
      simp only [lower, bind_eq_ok_iff, pure_eq_ok_iff] at hlower
      rcases hlower with ⟨codes, hcodes, rfl⟩
      have hbody (start depth : Nat)
          (hstands : StandsAt lines (Instr.linesOfAll depth codes) start depth) :
          Arranged tables lines start (start + (Instr.linesOfAll depth codes).length + 1)
            (sequences (.block body)) := by
        rcases descend_of_lowerAll hnames
          (fun stmt hstmt locals code hstmtLower =>
            (ih stmt hstmt (hnames stmt hstmt) hstmtLower).1) hcodes hstands with
          ⟨hdescend, hlater⟩
        rw [sequences]
        exact Arranged.cons hdescend (hlater.widen le_rfl (by omega)) (by omega)
      refine ⟨?_, hbody⟩
      intro start depth hstands
      rw [Instr.lines_block] at hstands ⊢
      rw [length_blockLines]
      exact (hbody _ _ (hstands.inside Instr.isHeading_nil)).widen le_rfl (by omega)

/-- Without statements there are no braces either, but the sequence keeps its place. -/
theorem arranged_braced {body : List (Stmt Resolved)} {codes : List Instr} {locals : Locals}
    (hnames : ∀ stmt ∈ body, ∀ name ∈ stmt.names, IsIdentifier name)
    (hlower : lowerAll tables locals body = .ok codes)
    (hstands : StandsAt lines (Instr.linesOfAll depth (Instr.braced codes)) start depth) :
    Arranged tables lines start
      (start + (Instr.linesOfAll depth (Instr.braced codes)).length + 1)
      (body :: sequencesOfAll body) := by
  cases codes with
  | nil =>
      obtain rfl := eq_nil_of_lowerAll hlower
      exact Arranged.cons (@descend_nil tables lines depth start) arranged_nil (by omega)
  | cons first rest =>
      simp only [Instr.braced, Instr.linesOfAll_singleton, Instr.lines_block] at hstands ⊢
      rcases descend_of_lowerAll hnames
        (fun stmt hstmt locals code hstmtLower =>
          (arranges_lower (hnames stmt hstmt) hstmtLower).1) hlower
        (hstands.inside Instr.isHeading_nil) with ⟨hdescend, hlater⟩
      rw [length_blockLines]
      have hinside := Arranged.cons hdescend (hlater.widen le_rfl (Nat.le_succ _)) (by omega)
      exact hinside.widen (by omega) (by omega)

end Stmt

section

variable {tables : DispatchTables} {lines : List String} {start : Nat}

theorem arranged_flatMap {α β : Type} {items : List α} {codes : List β} {R : α → β → Prop}
    {linesOf : β → List String} {sequencesOf : α → List (List (Stmt Resolved))}
    (hrelated : List.Forall₂ R items codes)
    (hitems : ∀ item ∈ items, ∀ code, R item code → Runs [] (linesOf code) [] ∧
      ∀ start, StandsAt lines (linesOf code) start 0 →
        Arranged tables lines start (start + (linesOf code).length) (sequencesOf item))
    (hstands : StandsAt lines (codes.flatMap linesOf) start 0) :
    Arranged tables lines start (start + (codes.flatMap linesOf).length)
      (items.flatMap sequencesOf) := by
  induction hrelated generalizing start with
  | nil => exact arranged_nil
  | cons hhere _ ih =>
      rw [List.forall_mem_cons] at hitems
      rw [List.flatMap_cons] at hstands
      rw [List.flatMap_cons, List.flatMap_cons, List.length_append]
      rcases hitems.1 _ hhere with ⟨hrun, hfirst⟩
      have hlater := ih hitems.2 (hstands.right (by rw [hrun.openBlocks_eq]; rfl))
      exact (hfirst start hstands.left).append (hlater.widen le_rfl (by omega)) (by omega)
        (by omega)

theorem MethodDef.arranged_lower {owner : ClassName} {method : MethodDef Resolved}
    {function : Function} (howner : IsIdentifier owner.text)
    (hnames : ∀ name ∈ method.names, IsIdentifier name)
    (hlower : method.lower tables owner = .ok function)
    (hstands : StandsAt lines function.lines start 0) :
    Arranged tables lines start (start + function.lines.length) method.body.sequences := by
  rw [Function.lines_eq] at hstands ⊢
  have hinside := hstands.inside (isHeading_lower howner hnames hlower)
  simp only [names, List.forall_mem_append, List.forall_mem_cons] at hnames
  simp only [lower, bind_eq_ok_iff, pure_eq_ok_iff] at hlower
  rcases hlower with ⟨body, hbody, rfl⟩
  simp only [Instr.linesOfAll_singleton, Instr.lines_block] at hinside
  have harranged := (Stmt.arranges_lower hnames.2.2.2 hbody).2 _ _
    (hinside.inside Instr.isHeading_nil)
  simp only [length_blockLines, Instr.linesOfAll_singleton, Instr.lines_block]
  exact harranged.widen (by omega) (by omega)

namespace ClassDef

variable {definition : ClassDef Resolved}

theorem arranged_lowerConstructor {function : Function}
    (hnames : ∀ name ∈ definition.names, IsIdentifier name)
    (hlower : definition.lowerConstructor tables = .ok function)
    (hstands : StandsAt lines function.lines start 0) :
    Arranged tables lines start (start + function.lines.length)
      (definition.body :: Stmt.sequencesOfAll definition.body) := by
  rw [Function.lines_eq] at hstands ⊢
  have hinside := hstands.inside (isHeading_lowerConstructor hnames hlower)
  simp only [lowerConstructor, bind_eq_ok_iff, pure_eq_ok_iff] at hlower
  rcases hlower with ⟨superCodes, hsuperCodes, codes, hcodes, rfl⟩
  simp only [Instr.linesOfAll, Instr.lines] at hinside
  have hsuper := isSentence_lowerConstructor hnames hsuperCodes
  have hbody := hinside.right (by rw [(lays_line hsuper).openBlocks_eq]; rfl)
  have harranged := Stmt.arranged_braced (names_body hnames) hcodes hbody
  simp only [length_blockLines, Instr.linesOfAll, Instr.lines, List.length_append,
    List.length_singleton] at harranged ⊢
  exact harranged.widen (by omega) (by omega)

theorem arranged_lower {code : ClassCode}
    (hnames : ∀ name ∈ definition.names, IsIdentifier name)
    (hlower : definition.lower tables = .ok code)
    (hstands : StandsAt lines code.lines start 0) :
    Arranged tables lines start (start + code.lines.length) definition.sequences := by
  simp only [lower, bind_eq_ok_iff, pure_eq_ok_iff] at hlower
  rcases hlower with ⟨constructor, hconstructor, methods, hmethods, rfl⟩
  simp only [ClassCode.lines] at hstands ⊢
  have hrun := definition.runs_lowerConstructor hnames hconstructor
  have hidentifiers := names_methods hnames
  have hfirst := arranged_lowerConstructor hnames hconstructor hstands.left
  have hmethod : ∀ method ∈ definition.methods, ∀ function,
      method.lower tables definition.name = .ok function → Runs [] function.lines [] ∧
        ∀ start, StandsAt lines function.lines start 0 →
          Arranged tables lines start (start + function.lines.length) method.body.sequences := by
    intro method hmem function hmethodLower
    have hmethodNames := hidentifiers.2 method hmem
    exact ⟨MethodDef.runs_lower hidentifiers.1 hmethodNames hmethodLower,
      fun start => MethodDef.arranged_lower hidentifiers.1 hmethodNames hmethodLower⟩
  have hlater := arranged_flatMap (forall₂_of_mapM hmethods) hmethod
    (hstands.right (by rw [hrun.openBlocks_eq]; rfl))
  rw [sequences, List.length_append]
  exact hfirst.append (hlater.widen le_rfl (by omega)) (by omega) (by omega)

end ClassDef

end

theorem Program.CompilesTo.arranged {program : Program Resolved} {hierarchy : Hierarchy Resolved}
    {script : Script} {opening : List String} (hcompiles : program.CompilesTo hierarchy script)
    (hnames : ∀ name ∈ program.names, IsIdentifier name) (hopening : Runs [] opening [])
    (hlines : script.lines =
      opening ++ (script.classes.flatMap ClassCode.lines ++ script.entry.lines 0)) :
    Arranged (.build hierarchy) script.lines 0 script.lines.length program.sequences := by
  simp only [names, List.forall_mem_append, List.forall_mem_flatMap] at hnames
  have hstands : StandsAt script.lines
      (opening ++ (script.classes.flatMap ClassCode.lines ++ script.entry.lines 0)) 0 0 :=
    ⟨[], [], by simp [hlines], rfl, by simp [unlines]⟩
  have hclassCode := hstands.right (by rw [hopening.openBlocks_eq]; rfl)
  have hentryCode := hclassCode.right
    (by rw [(hcompiles.runs_classes hnames.1).openBlocks_eq]; rfl)
  have hclass : ∀ definition ∈ program.classes, ∀ code,
      definition.lower (.build hierarchy) = .ok code → Runs [] code.lines [] ∧
        ∀ start, StandsAt script.lines code.lines start 0 →
          Arranged (.build hierarchy) script.lines start (start + code.lines.length)
            definition.sequences := by
    intro definition hmem code hlower
    have hidentifiers := hnames.1 definition hmem
    exact ⟨ClassDef.runs_lower hidentifiers hlower,
      fun start => ClassDef.arranged_lower hidentifiers hlower⟩
  have hbefore := arranged_flatMap hcompiles.classes hclass hclassCode.left
  have hafter := (Stmt.arranges_lower hnames.2 hcompiles.entry).1 _ _ hentryCode
  have hlength := congrArg List.length hlines
  rw [List.length_append, List.length_append] at hlength
  rw [sequences]
  exact (hbefore.append (hafter.widen (Nat.le_succ _) le_rfl) (by omega) (by omega)).widen
    (by omega) (by omega)

/-- In the text of a script the braces come in pairs, each line is indented by the blocks
around it and no block has two declarations.  The sequences of the program have places of
their own, in which each statement stands one block deeper than the one before it. -/
theorem Program.compiled_blocks {program : Program Resolved} {script : Script}
    (hnames : ∀ name ∈ program.names, IsIdentifier name)
    (hlower : program.lower = .ok script) :
    Balanced script.text.toList ∧ IsLines script.text script.lines ∧
      IndentedByBlocks script.lines ∧ DeclaresOncePerBlock script.lines ∧
      ∃ hierarchy, program.hierarchy = .ok hierarchy ∧
        Arranged (.build hierarchy) script.lines 0 script.lines.length program.sequences := by
  rcases compilesTo_of_lower hlower with ⟨hierarchy, hclasses, hcompiles⟩
  have hrun := hcompiles.runs_lines hclasses hnames
  refine ⟨hrun.balanced, hrun.isLines, hrun.indentedByBlocks, hrun.declaresOncePerBlock,
    hierarchy, hierarchy_eq_ok_iff.mpr hclasses, ?_⟩
  have hidentifiers : ∀ definition ∈ program.classes, ∀ name ∈ definition.names,
      IsIdentifier name := by
    simp only [names, List.forall_mem_append, List.forall_mem_flatMap] at hnames
    exact hnames.1
  apply hcompiles.arranged hnames
    (runs_preamble.append (hcompiles.runs_tables hclasses hidentifiers))
  simp only [Script.lines, List.append_assoc]

theorem Program.compiled_blocks_hidingProgram :
    (∀ name ∈ (hidingProgram Resolved).names, IsIdentifier name) ∧
      ∃ script hierarchy, (hidingProgram Resolved).lower = .ok script ∧
        (hidingProgram Resolved).hierarchy = .ok hierarchy ∧
        Balanced script.text.toList ∧ IsLines script.text script.lines ∧
        IndentedByBlocks script.lines ∧ DeclaresOncePerBlock script.lines ∧
        Arranged (.build hierarchy) script.lines 0 script.lines.length
          (hidingProgram Resolved).sequences := by
  have hnames : ∀ name ∈ (hidingProgram Resolved).names, IsIdentifier name := by decide +kernel
  have hcheck : (hidingProgram Plain).check = .ok (hidingProgram Resolved) := by
    rw [Program.check_of_faultless (by decide +kernel)]
    cbv
  rcases exists_lower_of_check hcheck with ⟨script, hlower⟩
  rcases Program.compiled_blocks hnames hlower with
    ⟨hbalanced, hlines, hindented, hdeclares, hierarchy, hhierarchy, harranged⟩
  exact ⟨hnames, script, hierarchy, hlower, hhierarchy, hbalanced, hlines, hindented, hdeclares,
    harranged⟩

end ClassLang
