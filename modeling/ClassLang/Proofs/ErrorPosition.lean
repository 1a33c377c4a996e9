import ClassLang.Proofs.GrammarExactness
import ClassLang.Proofs.PreciseProduction

/-!
# Where reading fails

Every production of the language is precise, from the primary expressions up to
whole programs.  Most are sequences and repetitions, which are precise because
their parts are.  A production that decides by its first token is precise because
each branch is.  The statements that begin with neither a reserved word nor a brace
are read by trying three forms in turn: what one of them got furthest with is also
the furthest that a statement can get.

An error of reading a whole token list therefore stands at the first token that
cannot be right, and what it says was expected there would have been right.
-/

namespace ClassLang

/-- A token that alone decides which statement follows. -/
def Token.decidesStmt (token : Token) : Bool :=
  token ∈ [.keyword .ifKw, .keyword .whileKw, .keyword .returnKw, .keyword .printlnKw,
    .symbol .openBrace]

namespace Grammar

open Production Phrase

theorem lookahead_ends (level : Level) (rest rest' : List Token)
    (hhead : rest.head? = rest'.head?) (hends : level.Ends rest) : level.Ends rest' := by
  unfold Level.Ends
  rw [← hhead]
  exact hends

theorem delimited_exp : (Exp.Derives .loosest).Delimited Level.loosest.Ends :=
  Exact.delimited exact_exp ⟨[.ident "x"], _, .of_primary .var⟩ (lookahead_ends _)

theorem delimited_arguments :
    (Parenthesized (Exp.Derives .loosest)).Delimited fun _ => True :=
  Exact.delimited exact_superArgs ⟨_, _, .nil⟩ fun _ _ _ _ => trivial

section Expressions

variable {bound : Nat} {exp : Production (Exp Plain)}

theorem precise_leftAssociative (op : Op) {operand : Production (Exp Plain)}
    (hoperand : Precise bound operand (Exp.Derives op.operandLevel) op.operandLevel.Ends) :
    Precise bound (leftAssociative op.mark op operand) (Exp.Derives (.operation op))
      (Level.operation op).Ends := by
  have hafter := precise_after op.mark hoperand
  have hloop : PreciseLoop bound (· = .symbol op.mark)
      (fun lhs => do
        symbol op.mark
        let rhs ← operand
        return Exp.binary op lhs rhs)
      (After op.mark (Exp.Derives op.operandLevel)) (Exp.binary op)
      op.operandLevel.Ends := by
    refine ⟨beginsWith_after op.mark, ?_, hafter.delimited, ?_⟩
    · intro used rhs rest hused
      obtain ⟨hrhs⟩ := hused
      exact Level.operandLevel_ends_mark op _
    · intro lhs
      simpa only [bind_assoc] using hafter.map (Exp.binary op lhs)
  apply (hloop.precise_foldedLeft hoperand).congr
  · intro used e
    exact Exp.Derives.operation_iff
  · intro rest
    rw [Level.ends_operation_iff, Stops, stops_before_iff, and_comm]

theorem precise_arguments
    (hexp : Precise bound exp (Exp.Derives .loosest) Level.loosest.Ends) :
    Precise (bound + 1) (parenthesized exp) (Parenthesized (Exp.Derives .loosest))
      fun _ => True := by
  apply precise_parenthesized delimited_arguments _ _ _ hexp
  · exact (Exp.beginsWith_derives .loosest).ne rfl
  · intro rest
    exact Level.ends_symbol (by decide) rest
  · intro rest
    exact Level.ends_symbol (by decide) rest

/-- A call is read in the same way whatever its receiver is. -/
theorem precise_call (hexp : Precise bound exp (Exp.Derives .loosest) Level.loosest.Ends) :
    Precise (bound + 1) (do
        symbol .dot
        let method ← identifier
        let args ← parenthesized exp
        return (⟨method⟩, args))
      Exp.CallDerives fun _ => True := by
  have hcall := (precise_symbol (bound + 1) .dot).then fun _ =>
    (precise_identifier (bound + 1)).then fun method =>
      (precise_arguments hexp).map (Prod.mk (MethodName.mk method))
  apply hcall.congr _ fun _ => Iff.rfl
  intro used call
  constructor
  · intro hused
    obtain @⟨right, method, args, hargs⟩ := hused
    exact ⟨[.symbol .dot], .ident method :: right, (), rfl, rfl, [.ident method], right, method,
      rfl, rfl, args, hargs, rfl⟩
  · intro hused
    obtain ⟨_, _, _, rfl, rfl, _, right, method, rfl, rfl, args, hargs, rfl⟩ := hused
    exact .intro hargs

theorem precise_callChain {receiver : Production (Exp Plain)}
    (hexp : Precise bound exp (Exp.Derives .loosest) Level.loosest.Ends)
    (hreceiver : Precise (bound + 1) receiver (Exp.Derives .primary) fun _ => True) :
    Precise (bound + 1) (callChain exp receiver) (Exp.Derives .chain) Level.chain.Ends := by
  have hcall := precise_call hexp
  have hbegins : Phrase.BeginsWith Exp.CallDerives (· = .symbol .dot) := by
    intro used call hused
    obtain ⟨hargs⟩ := hused
    exact ⟨_, _, rfl, by simp⟩
  have hloop : PreciseLoop (bound + 1) (· = .symbol .dot)
      (fun receiver => do
        symbol .dot
        let method ← identifier
        let args ← parenthesized exp
        return Exp.call receiver ⟨method⟩ args ())
      Exp.CallDerives Exp.applyCall fun _ => True := by
    refine ⟨hbegins, fun _ _ _ _ => trivial, hcall.delimited, ?_⟩
    intro receiver
    have hstep := hcall.map (Exp.applyCall receiver)
    simp only [bind_assoc, pure_bind] at hstep
    exact hstep
  apply (hloop.precise_foldedLeft hreceiver).congr
  · intro used e
    exact Exp.Derives.chain_iff
  · intro rest
    rw [true_and, Stops, stops_before_iff]
    simp [Level.Ends, Level.marks]

theorem viable_primary {next : Token} (hnext : next.beginsExp = true) :
    (Exp.Derives .primary).Viable [next] := by
  cases next with
  | integer value => exact ⟨[], _, .int⟩
  | ident name => exact ⟨[], _, .var⟩
  | keyword word =>
      cases word with
      | trueKw => exact ⟨[], _, .trueLiteral⟩
      | falseKw => exact ⟨[], _, .falseLiteral⟩
      | thisKw => exact ⟨[], _, .this⟩
      | newKw => exact ⟨[.ident "C", .symbol .openParen, .symbol .closeParen], _, .new .nil⟩
      | _ => cases hnext
  | symbol mark =>
      cases mark with
      | openParen =>
          exact ⟨[.ident "x", .symbol .closeParen], _, .parens (.of_primary .var)⟩
      | _ => cases hnext

theorem exact_primary_exp (bound : Nat) :
    Exact bound (primary Grammar.exp) (Exp.Derives .primary) fun _ => True :=
  (exact_primary (exact_exp bound)).of_le (Nat.le_succ bound)

theorem not_derives_nil (level : Level) (e : Exp Plain) : ¬ Exp.Derives level [] e := by
  intro hderives
  obtain ⟨token, tail, htokens, -⟩ := hderives.begins
  cases htokens

theorem preciseAt_parens {tail : List Token}
    (hexp : Precise bound exp (Exp.Derives .loosest) Level.loosest.Ends)
    (hlength : tail.length < bound) :
    PreciseAt (primary exp) (Exp.Derives .primary) (fun _ => True)
      (.symbol .openParen :: tail) := by
  have hends : ∀ rest, Level.loosest.Ends (.symbol .closeParen :: rest) :=
    Level.ends_symbol (by decide)
  have hexact (bound : Nat) := (exact_exp bound).bind
    (fun inner => (precise_symbol bound .closeParen).exact.then fun _ =>
      (precise_pure bound inner).exact)
    (follows_literal hends)
  have hbranch := hexp.bind
    (fun inner => (precise_symbol bound .closeParen).then fun _ => precise_pure bound inner)
    (follows_literal hends)
  exact preciseAt_of_branch exact_primary_exp hexact trivial (fun _ => rfl)
    (not_derives_nil .primary) rfl (hbranch.reads tail hlength)

theorem preciseAt_new {tail : List Token}
    (hexp : Precise bound exp (Exp.Derives .loosest) Level.loosest.Ends)
    (hlength : tail.length < bound) :
    PreciseAt (primary exp) (Exp.Derives .primary) (fun _ => True)
      (.keyword .newKw :: tail) := by
  have hexact (bound : Nat) := (precise_identifier bound).exact.then fun name =>
    (exact_superArgs bound).map (Exp.new ⟨name⟩)
  have hbranch := (precise_identifier bound).then fun name =>
    ((precise_arguments hexp).of_le (Nat.le_succ bound)).map (Exp.new ⟨name⟩)
  exact preciseAt_of_branch exact_primary_exp hexact trivial (fun _ => rfl)
    (not_derives_nil .primary) rfl (hbranch.reads tail hlength)

theorem precise_primary
    (hexp : Precise bound exp (Exp.Derives .loosest) Level.loosest.Ends) :
    Precise (bound + 1) (primary exp) (Exp.Derives .primary) fun _ => True := by
  refine ⟨Exact.delimited exact_primary_exp ⟨[.ident "x"], _, .var⟩ (fun _ _ _ _ => trivial), ?_⟩
  intro tokens hlength
  refine ⟨exact_primary hexp.exact tokens hlength, ?_⟩
  intro failure hfailure
  have hnone (hhead : ∀ token ∈ tokens.head?, token.beginsExp = false) :
      Failure.SharpAfter [] (Exp.Derives .primary) (fun _ => True) ⟨.expression, tokens⟩ :=
    .of_begins (fun _ => viable_primary) (Exp.beginsWith_derives .primary) hhead
  cases tokens with
  | nil =>
      cases hfailure
      exact ⟨[], rfl, hnone (by simp)⟩
  | cons next tail =>
      have hshorter : tail.length < bound := by simpa using hlength
      cases next with
      | integer value | ident name => cases hfailure
      | keyword word =>
          cases word with
          | trueKw | falseKw | thisKw => cases hfailure
          | newKw => exact (preciseAt_new hexp hshorter).sharp failure hfailure
          | _ =>
              cases hfailure
              exact ⟨[], rfl, hnone (by simp [Token.beginsExp])⟩
      | symbol mark =>
          cases mark with
          | openParen => exact (preciseAt_parens hexp hshorter).sharp failure hfailure
          | _ =>
              cases hfailure
              exact ⟨[], rfl, hnone (by simp [Token.beginsExp])⟩

theorem precise_expLevel
    (hexp : Precise bound exp (Exp.Derives .loosest) Level.loosest.Ends) :
    Precise (bound + 1) (expLevel exp) (Exp.Derives .loosest) Level.loosest.Ends := by
  have hchain := precise_callChain hexp (precise_primary hexp)
  have hsum := precise_leftAssociative .plus hchain
  have hcomparison := precise_leftAssociative .less hsum
  exact precise_leftAssociative .equals hcomparison

end Expressions

theorem precise_exp (bound : Nat) :
    Precise bound exp (Exp.Derives .loosest) Level.loosest.Ends :=
  precise_fixed delimited_exp (fun _ _ hexp => precise_expLevel hexp) bound

theorem viable_ty {next : Token} (hnext : next.beginsTy = true) :
    Phrase.Viable Ty.Derives [next] := by
  cases next with
  | ident name => exact ⟨[], _, .object⟩
  | keyword word =>
      cases word with
      | intKw => exact ⟨[], _, .int⟩
      | boolKw => exact ⟨[], _, .bool⟩
      | voidKw => exact ⟨[], _, .void⟩
      | _ => cases hnext
  | _ => cases hnext

theorem precise_ty (bound : Nat) : Precise bound ty Ty.Derives fun _ => True := by
  refine ⟨Exact.delimited exact_ty ⟨_, _, .int⟩ (fun _ _ _ _ => trivial), ?_⟩
  intro tokens hlength
  refine ⟨exact_ty bound tokens hlength, ?_⟩
  intro failure hfailure
  have hnone (hhead : ∀ token ∈ tokens.head?, token.beginsTy = false) :
      Failure.SharpAfter [] Ty.Derives (fun _ => True) ⟨.type, tokens⟩ :=
    .of_begins (fun _ => viable_ty) Ty.beginsWith_derives hhead
  cases tokens with
  | nil =>
      cases hfailure
      exact ⟨[], rfl, hnone (by simp)⟩
  | cons next tail =>
      cases next with
      | ident name => cases hfailure
      | keyword word =>
          cases word with
          | intKw | boolKw | voidKw => cases hfailure
          | _ =>
              cases hfailure
              exact ⟨[], rfl, hnone (by simp [Token.beginsTy])⟩
      | _ =>
          cases hfailure
          exact ⟨[], rfl, hnone (by simp [Token.beginsTy])⟩

theorem precise_varDec (bound : Nat) : Precise bound varDec VarDec.Derives fun _ => True :=
  Precise.of_exact
    (fun bound => (precise_ty bound).then fun ty =>
      (precise_identifier bound).map fun name => VarDec.mk ty ⟨name⟩)
    exact_varDec trivial

theorem loosest_ends_closeParen (rest : List Token) :
    Level.loosest.Ends (.symbol .closeParen :: rest) :=
  Level.ends_symbol (by decide) rest

theorem loosest_ends_semicolon (rest : List Token) :
    Level.loosest.Ends (.symbol .semicolon :: rest) :=
  Level.ends_symbol (by decide) rest

/-- An expression in front of a semicolon. -/
theorem precise_exp_semicolon {α : Type} (bound : Nat) (f : Exp Plain → α) :
    Precise bound (do
        let value ← exp
        symbol .semicolon
        return f value)
      (Then (Exp.Derives .loosest) fun value =>
        Then (Literal (.symbol .semicolon)) fun _ => Return (f value))
      fun _ => True :=
  (precise_exp bound).bind
    (fun value => (precise_symbol bound .semicolon).then fun _ => precise_pure bound (f value))
    (follows_literal loosest_ends_semicolon)

/-- `'(' exp ')'` -/
abbrev Guard : Phrase (Exp Plain) :=
  Then (Literal (.symbol .openParen)) fun _ => Then (Exp.Derives .loosest) fun value =>
    Then (Literal (.symbol .closeParen)) fun _ => Return value

theorem precise_guard (bound : Nat) : Precise bound guard Guard fun _ => True :=
  (precise_symbol bound .openParen).then fun _ => (precise_exp bound).bind
    (fun value => (precise_symbol bound .closeParen).then fun _ => precise_pure bound value)
    (follows_literal loosest_ends_closeParen)

section Statements

variable {bound : Nat} {stmt : Production (Stmt Plain)} {tokens : List Token}

theorem exact_stmtLevel_stmt (bound : Nat) :
    Exact bound (stmtLevel Grammar.stmt) Stmt.Derives fun _ => True :=
  (exact_stmtLevel (exact_stmt bound)).of_le (Nat.le_succ bound)

theorem delimited_stmt : Phrase.Delimited Stmt.Derives fun _ => True :=
  Exact.delimited exact_stmt ⟨_, _, .returnVoid⟩ fun _ _ _ _ => trivial

theorem not_stmt_derives_nil (s : Stmt Plain) : ¬ Stmt.Derives [] s := by
  intro hderives
  obtain ⟨token, tail, htokens, -⟩ := Stmt.beginsWith_derives _ _ hderives
  cases htokens

theorem precise_stmtsOf (hstmt : Precise bound stmt Stmt.Derives fun _ => True) :
    Precise bound (stmtsOf stmt) (Many Stmt.Derives) (Stops (· ≠ .symbol .closeBrace)) := by
  have hbegins : Phrase.BeginsWith Stmt.Derives (· ≠ .symbol .closeBrace) :=
    Stmt.beginsWith_derives.ne rfl
  exact precise_manyWhile hbegins hstmt

theorem preciseAt_if {tail : List Token}
    (hstmt : Precise bound stmt Stmt.Derives fun _ => True) (hlength : tail.length < bound) :
    PreciseAt (stmtLevel stmt) Stmt.Derives (fun _ => True) (.keyword .ifKw :: tail) := by
  have hexact (bound : Nat) := (precise_guard bound).exact.then fun condition =>
    (exact_stmt bound).then fun thenArm =>
      (precise_keyword bound .elseKw).exact.then fun _ =>
        (exact_stmt bound).map (Stmt.ifElse condition thenArm)
  have hbranch := (precise_guard bound).then fun condition =>
    hstmt.then fun thenArm => (precise_keyword bound .elseKw).then fun _ =>
      hstmt.map (Stmt.ifElse condition thenArm)
  exact preciseAt_of_branch exact_stmtLevel_stmt hexact trivial (fun _ => rfl)
    not_stmt_derives_nil rfl (hbranch.reads tail hlength)

theorem preciseAt_while {tail : List Token}
    (hstmt : Precise bound stmt Stmt.Derives fun _ => True) (hlength : tail.length < bound) :
    PreciseAt (stmtLevel stmt) Stmt.Derives (fun _ => True) (.keyword .whileKw :: tail) := by
  have hexact (bound : Nat) := (precise_guard bound).exact.then fun condition =>
    (exact_stmt bound).map (Stmt.whileLoop condition)
  have hbranch := (precise_guard bound).then fun condition =>
    hstmt.map (Stmt.whileLoop condition)
  exact preciseAt_of_branch exact_stmtLevel_stmt hexact trivial (fun _ => rfl)
    not_stmt_derives_nil rfl (hbranch.reads tail hlength)

theorem preciseAt_println {tail : List Token} :
    PreciseAt (stmtLevel stmt) Stmt.Derives (fun _ => True) (.keyword .printlnKw :: tail) := by
  have hbranch (bound : Nat) := (precise_guard bound).then fun value =>
    (precise_symbol bound .semicolon).then fun _ => precise_pure bound (Stmt.println value)
  exact preciseAt_of_branch exact_stmtLevel_stmt (fun bound => (hbranch bound).exact) trivial
    (fun _ => rfl) not_stmt_derives_nil rfl ((hbranch _).reads tail (Nat.lt_succ_self _))

theorem stops_closeBrace (rest : List Token) :
    Stops (· ≠ .symbol .closeBrace) (.symbol .closeBrace :: rest) := by
  simp [Stops]

theorem preciseAt_block {tail : List Token}
    (hstmt : Precise bound stmt Stmt.Derives fun _ => True) (hlength : tail.length < bound) :
    PreciseAt (stmtLevel stmt) Stmt.Derives (fun _ => True) (.symbol .openBrace :: tail) := by
  have hexact (bound : Nat) := (exact_stmtsOf (exact_stmt bound)).bind
    (fun body => (precise_symbol bound .closeBrace).exact.then fun _ =>
      (precise_pure bound (Stmt.block body)).exact)
    (follows_literal stops_closeBrace)
  have hbranch := (precise_stmtsOf hstmt).bind
    (fun body => (precise_symbol bound .closeBrace).then fun _ =>
      precise_pure bound (Stmt.block body))
    (follows_literal stops_closeBrace)
  exact preciseAt_of_branch exact_stmtLevel_stmt hexact trivial (fun _ => rfl)
    not_stmt_derives_nil rfl (hbranch.reads tail hlength)

theorem sharp_return {tail : List Token} {failure : Failure}
    (hfailure : stmtLevel stmt (.keyword .returnKw :: tail) = .error failure) :
    ∃ used, .keyword .returnKw :: tail = used ++ failure.rest ∧
      failure.SharpAfter used Stmt.Derives fun _ => True := by
  by_cases hhead : tail.head? = some (.symbol .semicolon)
  · obtain ⟨rest, rfl⟩ := List.head?_eq_some_iff.1 hhead
    have hvoid : stmtLevel stmt (.keyword .returnKw :: .symbol .semicolon :: rest) =
        .ok (.returnVoid, rest) := rfl
    rw [hvoid] at hfailure
    cases hfailure
  · have hfail : (do
        let value ← exp
        symbol .semicolon
        return Stmt.returnValue value) tail = .error failure := by
      unfold stmtLevel at hfailure
      rw [peek_bind_apply] at hfailure
      simp only [List.head?_cons] at hfailure
      rw [skip_bind_apply, peek_bind_apply, if_neg hhead] at hfailure
      exact hfailure
    obtain ⟨used, rfl, hsharp⟩ := ((precise_exp_semicolon _ Stmt.returnValue).reads tail
      (Nat.lt_succ_self _)).sharp failure hfail
    refine ⟨.keyword .returnKw :: used, rfl, ?_, ?_⟩
    · intro token htoken
      obtain ⟨more, s, _, _, value, hsplit, hvalue, _, _, _, rfl, rfl, rfl, rfl⟩ :=
        hsharp.viable token htoken
      refine ⟨more, .returnValue value, ?_⟩
      rw [List.cons_append, List.cons_append, hsplit]
      exact .returnValue hvalue
    · intro rest hrest left rest' s htokens hderives hfollow
      have hread : stmtLevel Grammar.stmt left = .ok (s, []) :=
        (Exact.ok_iff exact_stmtLevel_stmt).2 ⟨left, by simp, hderives, trivial⟩
      cases left with
      | nil => exact not_stmt_derives_nil s hderives
      | cons next tail =>
          rw [List.cons_append, List.cons_append, List.cons.injEq] at htokens
          obtain ⟨rfl, hsplit⟩ := htokens
          have hhead' : (used ++ failure.rest).head? = (tail ++ rest').head? := by
            rw [← hsplit, List.head?_append, List.head?_append, hrest]
          rcases return_ok_iff.1 hread with ⟨rfl, -⟩ | ⟨left, value, rfl, hvalue, rfl⟩
          · rw [hhead'] at hhead
            exact hhead rfl
          · exact hsharp.blocked rest hrest _ rest' _ hsplit
              ⟨left, _, value, rfl, hvalue, _, [], (), rfl, rfl, rfl, rfl⟩ hfollow

/-! ### Alternatives -/

abbrev Declaration : Phrase (Stmt Plain) :=
  Then VarDec.Derives fun var => Then (Literal (.symbol .assign)) fun _ =>
    Then (Exp.Derives .loosest) fun value =>
      Then (Literal (.symbol .semicolon)) fun _ => Return (.declare var value)

abbrev ExpStmt : Phrase (Stmt Plain) :=
  Then (Exp.Derives .loosest) fun value =>
    Then (Literal (.symbol .semicolon)) fun _ => Return (.exp value)

abbrev Assignment : Phrase (Stmt Plain) :=
  Then Identifier fun target => Then (Literal (.symbol .assign)) fun _ =>
    Then (Exp.Derives .loosest) fun value =>
      Then (Literal (.symbol .semicolon)) fun _ => Return (.assign ⟨target⟩ value)

theorem precise_declaration (bound : Nat) :
    Precise bound declaration Declaration fun _ => True :=
  (precise_varDec bound).then fun var => (precise_symbol bound .assign).then fun _ =>
    precise_exp_semicolon bound (Stmt.declare var)

theorem precise_expStmt (bound : Nat) : Precise bound expStmt ExpStmt fun _ => True :=
  precise_exp_semicolon bound Stmt.exp

theorem precise_assignment (bound : Nat) :
    Precise bound assignment Assignment fun _ => True :=
  (precise_identifier bound).then fun target => (precise_symbol bound .assign).then fun _ =>
    precise_exp_semicolon bound (Stmt.assign ⟨target⟩)

theorem alternatives_iff {used : List Token} {s : Stmt Plain} :
    (Declaration used s ∨ ExpStmt used s ∨ Assignment used s) ↔
      firstOf declaration [expStmt, assignment] used = .ok (s, []) := by
  rw [alternatives_ok_iff, Exact.ok_iff fun bound => (precise_declaration bound).exact,
    Exact.ok_iff fun bound => (precise_expStmt bound).exact,
    Exact.ok_iff fun bound => (precise_assignment bound).exact]
  simp

theorem sharp_alternatives (failure : Failure)
    (hfailure : firstOf declaration [expStmt, assignment] tokens = .error failure) :
    ∃ used, tokens = used ++ failure.rest ∧
      failure.SharpAfter used
        (fun used s => Declaration used s ∨ ExpStmt used s ∨ Assignment used s)
        fun _ => True := by
  have hlength := Nat.lt_succ_self tokens.length
  apply sharp_firstOf ((precise_declaration _).reads tokens hlength).sharp _ failure hfailure
  apply sharp_firstOf ((precise_expStmt _).reads tokens hlength).sharp
  exact ((precise_assignment _).reads tokens hlength).sharp

theorem stmtLevel_of_undecided
    (hhead : ∀ token ∈ tokens.head?, token.decidesStmt = false) :
    stmtLevel stmt tokens = firstOf declaration [expStmt, assignment] tokens := by
  unfold stmtLevel
  rw [peek_bind_apply]
  cases tokens with
  | nil => rfl
  | cons next tail =>
      have hnext := hhead next rfl
      cases next with
      | keyword word =>
          cases word with
          | ifKw | whileKw | returnKw | printlnKw => cases hnext
          | _ => rfl
      | symbol mark =>
          cases mark with
          | openBrace => cases hnext
          | _ => rfl
      | _ => rfl

theorem sharp_undecided (hhead : ∀ token ∈ tokens.head?, token.decidesStmt = false)
    {failure : Failure} (hfailure : stmtLevel stmt tokens = .error failure) :
    ∃ used, tokens = used ++ failure.rest ∧
      failure.SharpAfter used Stmt.Derives fun _ => True := by
  rw [stmtLevel_of_undecided hhead] at hfailure
  obtain ⟨used, rfl, hsharp⟩ := sharp_alternatives failure hfailure
  refine ⟨used, rfl, ?_, ?_⟩
  · intro token htoken
    obtain ⟨more, s, hread⟩ := hsharp.viable token htoken
    obtain ⟨used', hused, hderives⟩ := derives_of_alternatives (alternatives_iff.1 hread)
    rw [List.append_nil] at hused
    exact ⟨more, s, hused ▸ hderives⟩
  · intro rest hrest left rest' s htokens hderives hfollow
    have hundecided : ∀ token ∈ left.head?, token.decidesStmt = false := by
      intro token htoken
      apply hhead token
      rw [List.head?_append, ← hrest, ← List.head?_append, htokens, List.head?_append,
        Option.mem_def.1 htoken]
      rfl
    have hread : stmtLevel Grammar.stmt left = .ok (s, []) :=
      (Exact.ok_iff exact_stmtLevel_stmt).2 ⟨left, by simp, hderives, trivial⟩
    rw [stmtLevel_of_undecided hundecided] at hread
    exact hsharp.blocked rest hrest left rest' s htokens (alternatives_iff.2 hread) hfollow

theorem precise_stmtLevel (hstmt : Precise bound stmt Stmt.Derives fun _ => True) :
    Precise (bound + 1) (stmtLevel stmt) Stmt.Derives fun _ => True := by
  refine ⟨delimited_stmt, ?_⟩
  intro tokens hlength
  refine ⟨exact_stmtLevel hstmt.exact tokens hlength, ?_⟩
  intro failure hfailure
  cases tokens with
  | nil => exact sharp_undecided (by simp) hfailure
  | cons next tail =>
      have hshorter : tail.length < bound := by simpa using hlength
      cases next with
      | keyword word =>
          cases word with
          | ifKw => exact (preciseAt_if hstmt hshorter).sharp failure hfailure
          | whileKw => exact (preciseAt_while hstmt hshorter).sharp failure hfailure
          | returnKw => exact sharp_return hfailure
          | printlnKw => exact preciseAt_println.sharp failure hfailure
          | _ => exact sharp_undecided (by simp [Token.decidesStmt]) hfailure
      | symbol mark =>
          cases mark with
          | openBrace => exact (preciseAt_block hstmt hshorter).sharp failure hfailure
          | _ => exact sharp_undecided (by simp [Token.decidesStmt]) hfailure
      | _ => exact sharp_undecided (by simp [Token.decidesStmt]) hfailure

end Statements

theorem precise_stmt (bound : Nat) : Precise bound stmt Stmt.Derives fun _ => True :=
  precise_fixed delimited_stmt (fun _ _ hstmt => precise_stmtLevel hstmt) bound

/-! ## Classes and programs -/

theorem precise_params (bound : Nat) :
    Precise bound (parenthesized varDec) (Parenthesized VarDec.Derives) fun _ => True := by
  have hdelimited : (Parenthesized VarDec.Derives).Delimited fun _ => True :=
    Exact.delimited exact_params ⟨_, _, .nil⟩ fun _ _ _ _ => trivial
  have hbegins : Phrase.BeginsWith VarDec.Derives (· ≠ .symbol .closeParen) :=
    VarDec.beginsWith_derives.ne rfl
  have hparams := precise_parenthesized hdelimited hbegins (fun _ => trivial) (fun _ => trivial)
    (precise_varDec bound)
  exact hparams.of_le (Nat.le_succ bound)

theorem precise_superArgs (bound : Nat) :
    Precise bound (parenthesized exp) (Parenthesized (Exp.Derives .loosest)) fun _ => True :=
  (precise_arguments (precise_exp bound)).of_le (Nat.le_succ bound)

theorem precise_methodDef (bound : Nat) :
    Precise bound methodDef MethodDef.Derives fun _ => True :=
  Precise.of_exact
    (fun bound => (precise_ty bound).then fun returnTy =>
      (precise_identifier bound).then fun name => (precise_params bound).then fun params =>
        (precise_stmt bound).map (MethodDef.mk returnTy ⟨name⟩ params))
    exact_methodDef trivial

theorem precise_field (bound : Nat) :
    Precise bound field VarDec.FieldDerives fun _ => True :=
  Precise.of_exact
    (fun bound => (precise_varDec bound).then fun var =>
      (precise_symbol bound .semicolon).then fun _ => precise_pure bound var)
    exact_field trivial

theorem precise_fields (bound : Nat) :
    Precise bound (manyWhile (· ≠ .keyword .constructorKw) field) (Many VarDec.FieldDerives)
      (Stops (· ≠ .keyword .constructorKw)) := by
  have hbegins : Phrase.BeginsWith VarDec.FieldDerives (· ≠ .keyword .constructorKw) :=
    VarDec.beginsWith_fieldDerives.ne rfl
  exact precise_manyWhile hbegins (precise_field bound)

theorem precise_methods (bound : Nat) :
    Precise bound (manyWhile (· ≠ .symbol .closeBrace) methodDef) (Many MethodDef.Derives)
      (Stops (· ≠ .symbol .closeBrace)) := by
  have hbegins : Phrase.BeginsWith MethodDef.Derives (· ≠ .symbol .closeBrace) :=
    MethodDef.beginsWith_derives.ne rfl
  exact precise_manyWhile hbegins (precise_methodDef bound)

theorem precise_classDef (bound : Nat) :
    Precise bound classDef ClassDef.Derives fun _ => True :=
  Precise.of_exact
    (fun bound =>
      (precise_keyword bound .classKw).then fun _ => (precise_identifier bound).then fun name =>
      (precise_keyword bound .extendsKw).then fun _ =>
      (precise_identifier bound).then fun parent =>
      (precise_symbol bound .openBrace).then fun _ =>
      (precise_fields bound).bind
        (fun fields => (precise_keyword bound .constructorKw).then fun _ =>
          (precise_params bound).then fun params =>
          (precise_symbol bound .openBrace).then fun _ =>
          (precise_keyword bound .superKw).then fun _ =>
          (precise_superArgs bound).then fun superArgs =>
          (precise_symbol bound .semicolon).then fun _ =>
          (precise_stmtsOf (precise_stmt bound)).bind
            (fun body => (precise_symbol bound .closeBrace).then fun _ =>
              (precise_methods bound).bind
                (fun methods => (precise_symbol bound .closeBrace).then fun _ =>
                  precise_pure bound
                    (ClassDef.mk ⟨name⟩ ⟨parent⟩ fields params superArgs body methods))
                (follows_literal stops_closeBrace))
            (follows_literal stops_closeBrace))
        (follows_literal (by simp [Stops])))
    exact_classDef trivial

theorem precise_program (bound : Nat) :
    Precise bound program Program.Derives fun _ => True := by
  have hclasses (bound : Nat) := precise_manyWhile ClassDef.beginsWith_derives
    (precise_classDef bound)
  refine Precise.of_exact (fun bound => (hclasses bound).bind
    (fun classes => (precise_stmt bound).map (Program.mk classes)) ?_) exact_program trivial
  intro classes used result rest hused _
  obtain ⟨entry, hentry, -⟩ := hused
  exact stops_before_iff.2 ((Stmt.beginsWith_derives.ne rfl).head?_ne hentry rest)

end Grammar

/-! ## Errors -/

namespace ParseError

/-- What could have continued the tokens, if anything could. -/
def expected? : ParseError → Option Expected
  | unexpected expected _ _ => some expected
  | unexpectedEnd expected _ => some expected
  | trailingTokens _ _ => none

/-- The token that was found. -/
def actual? : ParseError → Option Token
  | unexpected _ actual _ => some actual
  | unexpectedEnd _ _ => none
  | trailingTokens actual _ => some actual

/-- The error stands at the first token that cannot be right: the tokens before it
begin something that can be read, with it they do not, and everything that was
expected in its place continues them. -/
structure Pinpoints {α : Type} (parse : List Token → Except ParseError α)
    (tokens : List Token) (error : ParseError) : Prop where
  position_le : error.position ≤ tokens.length
  viable : ∃ more a, parse (tokens.take error.position ++ more) = .ok a
  impossible : error.position < tokens.length →
    ∀ more a, parse (tokens.take (error.position + 1) ++ more) ≠ .ok a
  expected : ∀ expected, error.expected? = some expected →
    (∃ next, expected.admits next = true) ∧
      ∀ next, expected.admits next = true →
        ∃ more a, parse (tokens.take error.position ++ next :: more) = .ok a
  atEnd : (∃ expected position, error = .unexpectedEnd expected position) ↔
    error.position = tokens.length
  actual : error.position < tokens.length → error.actual? = tokens[error.position]?

end ParseError

namespace Production

variable {α : Type} {production : Production α} {phrase : Phrase α}
  {follow : List Token → Prop} {tokens : List Token}

theorem pinpoints_of_failure (hprecise : ∀ bound, Precise bound production phrase follow)
    (hend : follow []) {failure : Failure} (hfailure : production tokens = .error failure) :
    (ParseError.ofFailure tokens failure).Pinpoints production.parseAll tokens := by
  have hparse {used : List Token} {a : α} :
      production.parseAll used = .ok a ↔ phrase used a :=
    parseAll_ok_iff (fun bound => (hprecise bound).exact) hend
  obtain ⟨used, rfl, hviable, hblocked⟩ :=
    ((hprecise _).reads tokens (Nat.lt_succ_self _)).sharp failure hfailure
  obtain ⟨expected, rest⟩ := failure
  have hposition : (ParseError.ofFailure (used ++ rest) ⟨expected, rest⟩).position =
      used.length := by
    cases rest <;> simp [ParseError.ofFailure, ParseError.position]
  have hexpected : (ParseError.ofFailure (used ++ rest) ⟨expected, rest⟩).expected? =
      some expected := by
    cases rest <;> rfl
  have hcontinues (next : Token) (hnext : expected.admits next = true) :
      ∃ more a, production.parseAll (used ++ next :: more) = .ok a := by
    obtain ⟨more, a, hphrase⟩ := hviable next hnext
    exact ⟨more, a, hparse.2 (by simpa using hphrase)⟩
  refine ⟨?_, ?_, ?_, ?_, ?_, ?_⟩
  · rw [hposition, List.length_append]
    omega
  · obtain ⟨next, hnext⟩ := expected.exists_admits
    obtain ⟨more, a, hread⟩ := hcontinues next hnext
    exact ⟨next :: more, a, by rw [hposition, List.take_left]; exact hread⟩
  · intro hlt more a hread
    rw [hposition] at hlt hread
    cases rest with
    | nil => simp at hlt
    | cons next rest =>
        rw [List.take_length_add_append, List.take_one, List.append_assoc, hparse] at hread
        exact hblocked (next :: more) rfl _ [] a (by simp) hread hend
  · intro other hother
    rw [hexpected, Option.some.injEq] at hother
    subst hother
    rw [hposition, List.take_left]
    exact ⟨expected.exists_admits, hcontinues⟩
  · rw [hposition]
    cases rest with
    | nil => simp [ParseError.ofFailure]
    | cons next rest => simp [ParseError.ofFailure]
  · rw [hposition]
    intro hlt
    cases rest with
    | nil => simp at hlt
    | cons next rest => simp [ParseError.ofFailure, ParseError.actual?]

theorem pinpoints_of_trailing (hprecise : ∀ bound, Precise bound production phrase follow)
    (hend : follow []) {next : Token} {rest : List Token} {a : α}
    (hread : production tokens = .ok (a, next :: rest)) :
    (ParseError.trailingTokens next (tokens.length - (next :: rest).length)).Pinpoints
      production.parseAll tokens := by
  have hparse {used : List Token} {a : α} :
      production.parseAll used = .ok a ↔ phrase used a :=
    parseAll_ok_iff (fun bound => (hprecise bound).exact) hend
  obtain ⟨used, rfl, hused, hrest⟩ :=
    (Exact.ok_iff fun bound => (hprecise bound).exact).1 hread
  have hposition : (used ++ next :: rest).length - (next :: rest).length = used.length := by
    simp
  rw [hposition]
  refine ⟨?_, ?_, ?_, ?_, ?_, ?_⟩
  · simp [ParseError.position]
  · exact ⟨[], a, hparse.2 (by simpa [ParseError.position] using hused)⟩
  · intro _ more b hlonger
    change production.parseAll (List.take (used.length + 1) _ ++ more) = _ at hlonger
    rw [List.take_length_add_append, List.take_one, List.append_assoc, hparse] at hlonger
    have hmore : follow (next :: more) :=
      (hprecise 0).delimited.lookahead (next :: rest) (next :: more) rfl hrest
    obtain ⟨hsame, -⟩ := (hprecise 0).delimited.unambiguous used (next :: more) _ [] a b
      (by simp) hused hmore hlonger hend
    simp at hsame
  · intro expected hexpected
    cases hexpected
  · simp [ParseError.position]
  · simp [ParseError.position, ParseError.actual?]

theorem parseAll_pinpoints (hprecise : ∀ bound, Precise bound production phrase follow)
    (hend : follow []) {error : ParseError}
    (herror : production.parseAll tokens = .error error) :
    error.Pinpoints production.parseAll tokens := by
  unfold parseAll at herror
  cases hread : production tokens with
  | error failure =>
      rw [hread] at herror
      obtain rfl := Except.error.inj herror
      exact pinpoints_of_failure hprecise hend hread
  | ok result =>
      obtain ⟨a, rest⟩ := result
      rw [hread] at herror
      cases rest with
      | nil => cases herror
      | cons next rest =>
          obtain rfl := Except.error.inj herror
          exact pinpoints_of_trailing hprecise hend hread

end Production

/-- An error of reading a program, a statement or an expression stands at the first
token that cannot be right. -/
theorem parse_errors_pinpoint :
    (∀ tokens error, Program.parse tokens = .error error →
      error.Pinpoints Program.parse tokens) ∧
    (∀ tokens error, Stmt.parse tokens = .error error → error.Pinpoints Stmt.parse tokens) ∧
    (∀ tokens error, Exp.parse tokens = .error error → error.Pinpoints Exp.parse tokens) := by
  have hend : Level.loosest.Ends [] := by simp [Level.Ends]
  refine ⟨?_, ?_, ?_⟩
  · intro tokens error herror
    exact Production.parseAll_pinpoints Grammar.precise_program trivial herror
  · intro tokens error herror
    exact Production.parseAll_pinpoints Grammar.precise_stmt trivial herror
  · intro tokens error herror
    exact Production.parseAll_pinpoints Grammar.precise_exp hend herror

/-- `if (true) println(1);`, where the other arm is missing. -/
def armlessTokens : List Token :=
  [.keyword .ifKw, .symbol .openParen, .keyword .trueKw, .symbol .closeParen,
    .keyword .printlnKw, .symbol .openParen, .integer 1, .symbol .closeParen,
    .symbol .semicolon]

/-- `x = ;`, which is furthest read as an assignment. -/
def valuelessTokens : List Token :=
  [.ident "x", .symbol .assign, .symbol .semicolon]

theorem parse_errors_pinpoint_missingParts :
    (ParseError.unexpectedEnd (.token (.keyword .elseKw)) 9).Pinpoints Program.parse
        armlessTokens ∧
      (ParseError.unexpected .expression (.symbol .semicolon) 2).Pinpoints Stmt.parse
        valuelessTokens ∧
      (ParseError.trailingTokens (.integer 2) 1).Pinpoints Exp.parse
        [.integer 1, .integer 2] := by
  obtain ⟨hprogram, hstmt, hexp⟩ := parse_errors_pinpoint
  exact ⟨hprogram armlessTokens _ rfl, hstmt valuelessTokens _ rfl, hexp _ _ rfl⟩

end ClassLang
