import ClassLang.Grammar.Program
import ClassLang.Proofs.ProductionExactness

/-!
# The productions read the grammar

Every production of the language is exact for the rule it stands for.  The loops
for calls and operators take as many of them as there are, which is right because
whatever may follow an expression starts with none of their symbols.  Statements,
classes and programs end with a token of their own and may be followed by
anything.

Where neither a keyword nor a brace decides which statement follows, the three
alternatives exclude each other: after the identifier that may begin each of them
comes the name of a declaration, the sign of an assignment or the rest of an
expression.
-/

namespace ClassLang.Grammar

open Production Phrase

section Expressions

variable {bound : Nat} {exp : Production (Exp Plain)}

theorem exact_leftAssociative (op : Op) {operand : Production (Exp Plain)}
    (hoperand : Exact bound operand (Exp.Derives op.operandLevel) op.operandLevel.Ends) :
    Exact bound (leftAssociative op.mark op operand) (Exp.Derives (.operation op))
      (Level.operation op).Ends := by
  have hloop : ExactLoop bound (· = .symbol op.mark)
      (fun lhs => do
        symbol op.mark
        let rhs ← operand
        return Exp.binary op lhs rhs)
      (After op.mark (Exp.Derives op.operandLevel)) (Exp.binary op)
      op.operandLevel.Ends := by
    refine ⟨beginsWith_after op.mark, ?_, ?_⟩
    · intro used rhs rest hafter
      obtain ⟨hrhs⟩ := hafter
      exact Level.operandLevel_ends_mark op _
    · intro lhs
      have hafter := (exact_after op.mark hoperand).of_le (Nat.le_succ bound)
      simpa only [bind_assoc] using hafter.map (Exp.binary op lhs)
  apply (hloop.exact_foldedLeft hoperand).congr
  · intro used e
    exact Exp.Derives.operation_iff
  · intro rest
    rw [Level.ends_operation_iff, stops_before_iff, and_comm]

theorem exact_arguments
    (hexp : Exact bound exp (Exp.Derives .loosest) Level.loosest.Ends) :
    Exact (bound + 1) (parenthesized exp) (Parenthesized (Exp.Derives .loosest))
      fun _ => True := by
  apply exact_parenthesized _ _ _ hexp
  · exact (Exp.beginsWith_derives .loosest).ne rfl
  · intro rest
    exact Level.ends_symbol (by decide) rest
  · intro rest
    exact Level.ends_symbol (by decide) rest

theorem exact_call (receiver : Exp Plain)
    (hexp : Exact bound exp (Exp.Derives .loosest) Level.loosest.Ends) :
    Exact (bound + 1) (do
        symbol .dot
        let method ← identifier
        let args ← parenthesized exp
        return Exp.call receiver ⟨method⟩ args ())
      (fun used next => ∃ call, Exp.CallDerives used call ∧ next = receiver.applyCall call)
      fun _ => True := by
  have hargs := exact_arguments hexp
  intro tokens hlength next rest
  simp only [bind_ok_iff, pure_ok_iff, symbol_ok_iff, identifier_ok_iff]
  constructor
  · intro hresult
    obtain ⟨_, _, rfl, method, middle, rfl, args, _, hrun, rfl, rfl⟩ := hresult
    simp only [List.length_cons] at hlength
    obtain ⟨used, rfl, hused, -⟩ := (hargs middle (by omega) args _).1 hrun
    exact ⟨_, rfl, ⟨_, .intro hused, rfl⟩, trivial⟩
  · intro hresult
    obtain ⟨_, rfl, ⟨_, @⟨used, method, args, hused⟩, rfl⟩, -⟩ := hresult
    have hrun : parenthesized exp (used ++ rest) = .ok (args, rest) := by
      apply (hargs _ _ _ _).2
      · exact ⟨used, rfl, hused, trivial⟩
      · simp only [List.length_append, List.length_cons] at hlength ⊢
        omega
    exact ⟨(), _, rfl, method, _, rfl, args, rest, hrun, rfl, rfl⟩

theorem exact_callChain {receiver : Production (Exp Plain)}
    (hexp : Exact bound exp (Exp.Derives .loosest) Level.loosest.Ends)
    (hreceiver : Exact (bound + 1) receiver (Exp.Derives .primary) fun _ => True) :
    Exact (bound + 1) (callChain exp receiver) (Exp.Derives .chain) Level.chain.Ends := by
  have hbegins : Phrase.BeginsWith Exp.CallDerives (· = .symbol .dot) := by
    intro used call hcall
    obtain ⟨hargs⟩ := hcall
    exact ⟨_, _, rfl, by simp⟩
  have hloop : ExactLoop (bound + 1) (· = .symbol .dot)
      (fun receiver => do
        symbol .dot
        let method ← identifier
        let args ← parenthesized exp
        return Exp.call receiver ⟨method⟩ args ())
      Exp.CallDerives Exp.applyCall fun _ => True :=
    ⟨hbegins, fun _ _ _ _ => trivial, fun receiver => exact_call receiver hexp⟩
  apply (hloop.exact_foldedLeft hreceiver).congr
  · intro used e
    exact Exp.Derives.chain_iff
  · intro rest
    rw [true_and, stops_before_iff]
    simp [Level.Ends, Level.marks]

theorem parens_ok_iff {tokens rest : List Token} {e : Exp Plain}
    (hexp : Exact bound exp (Exp.Derives .loosest) Level.loosest.Ends)
    (hlength : tokens.length < bound) :
    primary exp (.symbol .openParen :: tokens) = .ok (e, rest) ↔
      ∃ used, tokens = used ++ .symbol .closeParen :: rest ∧ Exp.Derives .loosest used e := by
  unfold primary
  rw [peek_bind_apply]
  simp only [List.head?_cons, skip_bind_apply, bind_ok_iff, pure_ok_iff, symbol_ok_iff,
    hexp tokens hlength]
  constructor
  · intro hresult
    obtain ⟨inner, _, ⟨used, rfl, hused, -⟩, _, _, rfl, rfl, rfl⟩ := hresult
    exact ⟨used, rfl, hused⟩
  · intro hresult
    obtain ⟨used, rfl, hused⟩ := hresult
    have hends : Level.loosest.Ends (.symbol .closeParen :: rest) :=
      Level.ends_symbol (by decide) rest
    exact ⟨e, _, ⟨used, rfl, hused, hends⟩, (), rest, rfl, rfl, rfl⟩

theorem new_ok_iff {tokens rest : List Token} {e : Exp Plain}
    (hexp : Exact bound exp (Exp.Derives .loosest) Level.loosest.Ends)
    (hlength : tokens.length < bound) :
    primary exp (.keyword .newKw :: tokens) = .ok (e, rest) ↔
      ∃ name used args, tokens = .ident name :: used ++ rest ∧
        Parenthesized (Exp.Derives .loosest) used args ∧ e = .new ⟨name⟩ args := by
  have hargs := exact_arguments hexp
  unfold primary
  rw [peek_bind_apply]
  simp only [List.head?_cons, skip_bind_apply, bind_ok_iff, pure_ok_iff, identifier_ok_iff]
  constructor
  · intro hresult
    obtain ⟨name, middle, rfl, args, _, hrun, rfl, rfl⟩ := hresult
    simp only [List.length_cons] at hlength
    obtain ⟨used, rfl, hused, -⟩ := (hargs middle (by omega) args _).1 hrun
    exact ⟨name, used, args, rfl, hused, rfl⟩
  · intro hresult
    obtain ⟨name, used, args, rfl, hused, rfl⟩ := hresult
    have hrun : parenthesized exp (used ++ rest) = .ok (args, rest) := by
      apply (hargs _ _ _ _).2
      · exact ⟨used, rfl, hused, trivial⟩
      · simp only [List.cons_append, List.length_cons] at hlength
        omega
    exact ⟨name, _, rfl, args, rest, hrun, rfl, rfl⟩

theorem derives_of_primary {tokens rest : List Token} {e : Exp Plain}
    (hexp : Exact bound exp (Exp.Derives .loosest) Level.loosest.Ends)
    (hlength : tokens.length < bound + 1)
    (hresult : primary exp tokens = .ok (e, rest)) :
    ∃ used, tokens = used ++ rest ∧ Exp.Derives .primary used e := by
  cases tokens with
  | nil =>
      cases hresult
  | cons next tail =>
      have hshorter : tail.length < bound := by simpa using hlength
      cases next with
      | integer value =>
          cases hresult
          exact ⟨_, rfl, .int⟩
      | ident name =>
          cases hresult
          exact ⟨_, rfl, .var⟩
      | keyword word =>
          cases word with
          | trueKw =>
              cases hresult
              exact ⟨_, rfl, .trueLiteral⟩
          | falseKw =>
              cases hresult
              exact ⟨_, rfl, .falseLiteral⟩
          | thisKw =>
              cases hresult
              exact ⟨_, rfl, .this⟩
          | newKw =>
              obtain ⟨name, used, args, rfl, hused, rfl⟩ := (new_ok_iff hexp hshorter).1 hresult
              exact ⟨_, rfl, .new hused⟩
          | _ => cases hresult
      | symbol mark =>
          cases mark with
          | openParen =>
              obtain ⟨used, rfl, hused⟩ := (parens_ok_iff hexp hshorter).1 hresult
              exact ⟨_, by simp, .parens hused⟩
          | _ => cases hresult

theorem exact_primary
    (hexp : Exact bound exp (Exp.Derives .loosest) Level.loosest.Ends) :
    Exact (bound + 1) (primary exp) (Exp.Derives .primary) fun _ => True := by
  intro tokens hlength e rest
  constructor
  · intro hresult
    obtain ⟨used, htokens, hderives⟩ := derives_of_primary hexp hlength hresult
    exact ⟨used, htokens, hderives, trivial⟩
  · intro hresult
    obtain ⟨used, rfl, hderives, -⟩ := hresult
    cases hderives with
    | @parens used _ hused =>
        exact (parens_ok_iff hexp (by simpa using hlength)).2 ⟨used, by simp, hused⟩
    | @new name used args hused =>
        exact (new_ok_iff hexp (by simpa using hlength)).2 ⟨name, used, args, rfl, hused, rfl⟩
    | _ => rfl

theorem exact_expLevel
    (hexp : Exact bound exp (Exp.Derives .loosest) Level.loosest.Ends) :
    Exact (bound + 1) (expLevel exp) (Exp.Derives .loosest) Level.loosest.Ends := by
  have hchain := exact_callChain hexp (exact_primary hexp)
  have hsum := exact_leftAssociative .plus hchain
  have hcomparison := exact_leftAssociative .less hsum
  exact exact_leftAssociative .equals hcomparison

end Expressions

theorem exact_exp (bound : Nat) :
    Exact bound exp (Exp.Derives .loosest) Level.loosest.Ends :=
  exact_fixed (fun _ _ hexp => exact_expLevel hexp) bound

theorem exp_ok_iff {tokens rest : List Token} {e : Exp Plain} :
    exp tokens = .ok (e, rest) ↔
      ∃ used, tokens = used ++ rest ∧ Exp.Derives .loosest used e ∧
        Level.loosest.Ends rest :=
  Exact.ok_iff exact_exp

theorem exact_ty (bound : Nat) : Exact bound ty Ty.Derives fun _ => True := by
  intro tokens _ type rest
  constructor
  · intro hresult
    unfold ty at hresult
    rw [peek_bind_apply] at hresult
    cases tokens with
    | nil =>
        simp [fail_ok_iff] at hresult
    | cons next tail =>
        simp only [List.head?_cons] at hresult
        cases next with
        | ident name =>
            simp only [skip_bind_apply, pure_ok_iff] at hresult
            obtain ⟨rfl, rfl⟩ := hresult
            exact ⟨_, rfl, .object, trivial⟩
        | keyword word =>
            cases word with
            | intKw =>
                simp only [skip_bind_apply, pure_ok_iff] at hresult
                obtain ⟨rfl, rfl⟩ := hresult
                exact ⟨_, rfl, .int, trivial⟩
            | boolKw =>
                simp only [skip_bind_apply, pure_ok_iff] at hresult
                obtain ⟨rfl, rfl⟩ := hresult
                exact ⟨_, rfl, .bool, trivial⟩
            | voidKw =>
                simp only [skip_bind_apply, pure_ok_iff] at hresult
                obtain ⟨rfl, rfl⟩ := hresult
                exact ⟨_, rfl, .void, trivial⟩
            | _ => simp only [fail_ok_iff] at hresult
        | _ => simp only [fail_ok_iff] at hresult
  · intro hresult
    obtain ⟨used, rfl, hderives, -⟩ := hresult
    cases hderives <;> rfl

theorem exact_varDec (bound : Nat) : Exact bound varDec VarDec.Derives fun _ => True := by
  intro tokens _ var rest
  unfold varDec
  simp only [bind_ok_iff, pure_ok_iff, identifier_ok_iff, Exact.ok_iff exact_ty]
  constructor
  · intro hresult
    obtain ⟨type, _, ⟨used, rfl, hty, -⟩, name, _, rfl, rfl, rfl⟩ := hresult
    exact ⟨_, by simp, .intro hty, trivial⟩
  · intro hresult
    obtain ⟨_, rfl, @⟨used, type, name, hty⟩, -⟩ := hresult
    exact ⟨type, _, ⟨used, by simp, hty, trivial⟩, name, rest, rfl, rfl, rfl⟩

section Alternatives

variable {tokens rest : List Token} {s : Stmt Plain}

theorem declaration_ok_iff :
    declaration tokens = .ok (s, rest) ↔
      ∃ left right var value,
        tokens = left ++ .symbol .assign :: right ++ .symbol .semicolon :: rest ∧
        VarDec.Derives left var ∧ Exp.Derives .loosest right value ∧
        s = .declare var value := by
  unfold declaration
  simp only [bind_ok_iff, pure_ok_iff, symbol_ok_iff, exp_ok_iff, Exact.ok_iff exact_varDec]
  constructor
  · intro hresult
    obtain ⟨var, _, ⟨left, rfl, hvar, -⟩, _, _, rfl, value, _, ⟨right, rfl, hvalue, -⟩, _, _,
      rfl, rfl, rfl⟩ := hresult
    exact ⟨left, right, var, value, by simp, hvar, hvalue, rfl⟩
  · intro hresult
    obtain ⟨left, right, var, value, rfl, hvar, hvalue, rfl⟩ := hresult
    have hends : Level.loosest.Ends (.symbol .semicolon :: rest) :=
      Level.ends_symbol (by decide) rest
    exact ⟨var, _, ⟨left, by simp, hvar, trivial⟩, (), _, rfl, value, _,
      ⟨right, rfl, hvalue, hends⟩, (), rest, rfl, rfl, rfl⟩

theorem expStmt_ok_iff :
    expStmt tokens = .ok (s, rest) ↔
      ∃ used value, tokens = used ++ .symbol .semicolon :: rest ∧
        Exp.Derives .loosest used value ∧ s = .exp value := by
  unfold expStmt
  simp only [bind_ok_iff, pure_ok_iff, symbol_ok_iff, exp_ok_iff]
  constructor
  · intro hresult
    obtain ⟨value, _, ⟨used, rfl, hvalue, -⟩, _, _, rfl, rfl, rfl⟩ := hresult
    exact ⟨used, value, rfl, hvalue, rfl⟩
  · intro hresult
    obtain ⟨used, value, rfl, hvalue, rfl⟩ := hresult
    have hends : Level.loosest.Ends (.symbol .semicolon :: rest) :=
      Level.ends_symbol (by decide) rest
    exact ⟨value, _, ⟨used, rfl, hvalue, hends⟩, (), rest, rfl, rfl, rfl⟩

theorem assignment_ok_iff :
    assignment tokens = .ok (s, rest) ↔
      ∃ target used value,
        tokens = .ident target :: .symbol .assign :: used ++ .symbol .semicolon :: rest ∧
        Exp.Derives .loosest used value ∧ s = .assign ⟨target⟩ value := by
  unfold assignment
  simp only [bind_ok_iff, pure_ok_iff, symbol_ok_iff, identifier_ok_iff, exp_ok_iff]
  constructor
  · intro hresult
    obtain ⟨target, _, rfl, _, _, rfl, value, _, ⟨used, rfl, hvalue, -⟩, _, _, rfl, rfl, rfl⟩ :=
      hresult
    exact ⟨target, used, value, rfl, hvalue, rfl⟩
  · intro hresult
    obtain ⟨target, used, value, rfl, hvalue, rfl⟩ := hresult
    have hends : Level.loosest.Ends (.symbol .semicolon :: rest) :=
      Level.ends_symbol (by decide) rest
    exact ⟨target, _, rfl, (), _, rfl, value, _, ⟨used, rfl, hvalue, hends⟩, (), rest, rfl,
      rfl, rfl⟩

/-- An identifier that nothing continues is all of an expression. -/
theorem eq_semicolon_of_expStmt {name : String} {tail : List Token}
    (hends : Level.loosest.Ends tail)
    (hresult : expStmt (.ident name :: tail) = .ok (s, rest)) :
    tail = .symbol .semicolon :: rest := by
  obtain ⟨used, value, htokens, hvalue, -⟩ := expStmt_ok_iff.1 hresult
  have hvar : exp (.ident name :: tail) = .ok (.var ⟨name⟩, tail) :=
    exp_ok_iff.2 ⟨[.ident name], rfl, .of_primary .var, hends⟩
  have hexp : exp (.ident name :: tail) = .ok (value, .symbol .semicolon :: rest) :=
    exp_ok_iff.2 ⟨used, htokens, hvalue, Level.ends_symbol (by decide) rest⟩
  rw [hvar] at hexp
  simp only [Except.ok.injEq, Prod.mk.injEq] at hexp
  exact hexp.2

theorem expStmt_ne_of_declaration (hdeclaration : declaration tokens = .ok (s, rest)) :
    ∀ result, expStmt tokens ≠ .ok result := by
  intro result hresult
  obtain ⟨left, right, var, value, rfl, hvar, -, -⟩ := declaration_ok_iff.1 hdeclaration
  obtain ⟨token, name, rfl, hty⟩ := hvar.eq_pair
  by_cases hexp : token.beginsExp = true
  · obtain ⟨className, rfl⟩ := Token.eq_ident_of_begins hexp hty
    have htail := eq_semicolon_of_expStmt (by simp [Level.Ends]) hresult
    simp at htail
  · obtain ⟨used, value, htokens, hvalue, -⟩ := expStmt_ok_iff.1 hresult
    obtain ⟨first, tail, rfl, hfirst⟩ := hvalue.begins
    simp only [List.cons_append, List.cons.injEq] at htokens
    rw [htokens.1] at hexp
    exact hexp hfirst

theorem expStmt_ne_of_assignment (hassignment : assignment tokens = .ok (s, rest)) :
    ∀ result, expStmt tokens ≠ .ok result := by
  intro result hresult
  obtain ⟨target, used, value, rfl, -, -⟩ := assignment_ok_iff.1 hassignment
  have hends : Level.loosest.Ends
      (.symbol .assign :: used ++ .symbol .semicolon :: rest) :=
    Level.ends_symbol (by decide) _
  have htail := eq_semicolon_of_expStmt hends hresult
  simp at htail

theorem declaration_ne_of_assignment (hassignment : assignment tokens = .ok (s, rest)) :
    ∀ result, declaration tokens ≠ .ok result := by
  intro result hresult
  obtain ⟨target, used, value, rfl, -, -⟩ := assignment_ok_iff.1 hassignment
  obtain ⟨left, right, var, value, htokens, hvar, -, -⟩ := declaration_ok_iff.1 hresult
  obtain ⟨token, name, rfl, -⟩ := hvar.eq_pair
  simp at htokens

theorem alternatives_ok_iff :
    firstOf declaration [expStmt, assignment] tokens = .ok (s, rest) ↔
      declaration tokens = .ok (s, rest) ∨ expStmt tokens = .ok (s, rest) ∨
        assignment tokens = .ok (s, rest) := by
  rw [firstOf_ok_iff, firstOf_ok_iff, firstOf]
  constructor
  · intro hresult
    rcases hresult with hdeclaration | ⟨-, hexp | ⟨-, hassignment⟩⟩
    · exact Or.inl hdeclaration
    · exact Or.inr (Or.inl hexp)
    · exact Or.inr (Or.inr hassignment)
  · intro hresult
    rcases hresult with hdeclaration | hexp | hassignment
    · exact Or.inl hdeclaration
    · have hnot : ∀ result, declaration tokens ≠ .ok result := by
        intro result hdeclaration
        exact expStmt_ne_of_declaration hdeclaration _ hexp
      exact Or.inr ⟨hnot, Or.inl hexp⟩
    · have hdeclaration := declaration_ne_of_assignment hassignment
      have hexp := expStmt_ne_of_assignment hassignment
      exact Or.inr ⟨hdeclaration, Or.inr ⟨hexp, hassignment⟩⟩

theorem derives_of_alternatives
    (hresult : firstOf declaration [expStmt, assignment] tokens = .ok (s, rest)) :
    ∃ used, tokens = used ++ rest ∧ Stmt.Derives used s := by
  rcases alternatives_ok_iff.1 hresult with hdeclaration | hexp | hassignment
  · obtain ⟨left, right, var, value, rfl, hvar, hvalue, rfl⟩ :=
      declaration_ok_iff.1 hdeclaration
    exact ⟨_, by simp, .declare hvar hvalue⟩
  · obtain ⟨used, value, rfl, hvalue, rfl⟩ := expStmt_ok_iff.1 hexp
    exact ⟨_, by simp, .exp hvalue⟩
  · obtain ⟨target, used, value, rfl, hvalue, rfl⟩ := assignment_ok_iff.1 hassignment
    exact ⟨_, by simp, .assign hvalue⟩

theorem guard_ok_iff {e : Exp Plain} :
    guard tokens = .ok (e, rest) ↔
      ∃ used, tokens = .symbol .openParen :: used ++ .symbol .closeParen :: rest ∧
        Exp.Derives .loosest used e := by
  unfold guard
  simp only [bind_ok_iff, pure_ok_iff, symbol_ok_iff, exp_ok_iff]
  constructor
  · intro hresult
    obtain ⟨_, _, rfl, value, _, ⟨used, rfl, hvalue, -⟩, _, _, rfl, rfl, rfl⟩ := hresult
    exact ⟨used, rfl, hvalue⟩
  · intro hresult
    obtain ⟨used, rfl, hvalue⟩ := hresult
    have hends : Level.loosest.Ends (.symbol .closeParen :: rest) :=
      Level.ends_symbol (by decide) rest
    exact ⟨(), _, rfl, e, _, ⟨used, rfl, hvalue, hends⟩, (), rest, rfl, rfl, rfl⟩

end Alternatives

section Statements

variable {bound : Nat} {stmt : Production (Stmt Plain)} {tokens rest : List Token}
  {s : Stmt Plain}

theorem exact_stmtsOf (hstmt : Exact bound stmt Stmt.Derives fun _ => True) :
    Exact bound (stmtsOf stmt) (Many Stmt.Derives)
      fun rest => ∀ token ∈ rest.head?, decide (token ≠ .symbol .closeBrace) = false := by
  have hbegins : Phrase.BeginsWith Stmt.Derives (· ≠ .symbol .closeBrace) :=
    Stmt.beginsWith_derives.ne rfl
  exact exact_manyWhile hbegins hstmt

theorem ifElse_ok_iff (hstmt : Exact bound stmt Stmt.Derives fun _ => True)
    (hlength : tokens.length < bound) :
    stmtLevel stmt (.keyword .ifKw :: tokens) = .ok (s, rest) ↔
      ∃ left middle right condition thenArm elseArm,
        tokens = .symbol .openParen :: left ++ .symbol .closeParen :: middle ++
          .keyword .elseKw :: right ++ rest ∧
        Exp.Derives .loosest left condition ∧ Stmt.Derives middle thenArm ∧
        Stmt.Derives right elseArm ∧ s = .ifElse condition thenArm elseArm := by
  unfold stmtLevel
  rw [peek_bind_apply]
  simp only [List.head?_cons, skip_bind_apply, bind_ok_iff, pure_ok_iff, keyword_ok_iff,
    guard_ok_iff]
  constructor
  · intro hresult
    obtain ⟨condition, _, ⟨left, rfl, hcondition⟩, thenArm, _, hthen, _, final, rfl, elseArm, _,
      helse, rfl, rfl⟩ := hresult
    simp only [List.length_append, List.length_cons] at hlength
    obtain ⟨middle, rfl, hmiddle, -⟩ := (hstmt _ (by omega) _ _).1 hthen
    simp only [List.length_append, List.length_cons] at hlength
    obtain ⟨right, rfl, hright, -⟩ := (hstmt _ (by omega) _ _).1 helse
    exact ⟨left, middle, right, condition, thenArm, elseArm, by simp, hcondition, hmiddle,
      hright, rfl⟩
  · intro hresult
    obtain ⟨left, middle, right, condition, thenArm, elseArm, rfl, hcondition, hmiddle, hright,
      rfl⟩ := hresult
    simp only [List.append_assoc, List.cons_append, List.length_append, List.length_cons]
      at hlength
    have hthen : stmt (middle ++ .keyword .elseKw :: (right ++ rest)) =
        .ok (thenArm, .keyword .elseKw :: (right ++ rest)) :=
      (hstmt _ (by simp; omega) _ _).2 ⟨middle, rfl, hmiddle, trivial⟩
    have helse : stmt (right ++ rest) = .ok (elseArm, rest) :=
      (hstmt _ (by simp; omega) _ _).2 ⟨right, rfl, hright, trivial⟩
    exact ⟨condition, _, ⟨left, by simp, hcondition⟩, thenArm, _, hthen, (), _, rfl, elseArm,
      rest, helse, rfl, rfl⟩

theorem whileLoop_ok_iff (hstmt : Exact bound stmt Stmt.Derives fun _ => True)
    (hlength : tokens.length < bound) :
    stmtLevel stmt (.keyword .whileKw :: tokens) = .ok (s, rest) ↔
      ∃ left right condition body,
        tokens = .symbol .openParen :: left ++ .symbol .closeParen :: right ++ rest ∧
        Exp.Derives .loosest left condition ∧ Stmt.Derives right body ∧
        s = .whileLoop condition body := by
  unfold stmtLevel
  rw [peek_bind_apply]
  simp only [List.head?_cons, skip_bind_apply, bind_ok_iff, pure_ok_iff, guard_ok_iff]
  constructor
  · intro hresult
    obtain ⟨condition, _, ⟨left, rfl, hcondition⟩, body, _, hbody, rfl, rfl⟩ := hresult
    simp only [List.length_append, List.length_cons] at hlength
    obtain ⟨right, rfl, hright, -⟩ := (hstmt _ (by omega) _ _).1 hbody
    exact ⟨left, right, condition, body, by simp, hcondition, hright, rfl⟩
  · intro hresult
    obtain ⟨left, right, condition, body, rfl, hcondition, hright, rfl⟩ := hresult
    simp only [List.append_assoc, List.cons_append, List.length_append, List.length_cons]
      at hlength
    have hbody : stmt (right ++ rest) = .ok (body, rest) :=
      (hstmt _ (by simp; omega) _ _).2 ⟨right, rfl, hright, trivial⟩
    exact ⟨condition, _, ⟨left, by simp, hcondition⟩, body, rest, hbody, rfl, rfl⟩

theorem return_ok_iff :
    stmtLevel stmt (.keyword .returnKw :: tokens) = .ok (s, rest) ↔
      (tokens = .symbol .semicolon :: rest ∧ s = .returnVoid) ∨
        ∃ used value, tokens = used ++ .symbol .semicolon :: rest ∧
          Exp.Derives .loosest used value ∧ s = .returnValue value := by
  unfold stmtLevel
  rw [peek_bind_apply]
  simp only [List.head?_cons]
  rw [skip_bind_apply, peek_bind_apply]
  have hends : Level.loosest.Ends (.symbol .semicolon :: rest) :=
    Level.ends_symbol (by decide) rest
  have hhead : ∀ used value, Exp.Derives .loosest used value →
      (used ++ .symbol .semicolon :: rest).head? ≠ some (.symbol .semicolon) := by
    intro used value hvalue
    exact ((Exp.beginsWith_derives .loosest).ne rfl).head?_ne hvalue _
  by_cases hnext : tokens.head? = some (.symbol .semicolon)
  · obtain ⟨tail, rfl⟩ := List.head?_eq_some_iff.1 hnext
    rw [if_pos hnext]
    simp only [skip_bind_apply, pure_ok_iff]
    constructor
    · intro hresult
      obtain ⟨rfl, rfl⟩ := hresult
      exact Or.inl ⟨rfl, rfl⟩
    · intro hresult
      rcases hresult with ⟨htokens, rfl⟩ | ⟨used, value, htokens, hvalue, -⟩
      · exact ⟨rfl, List.tail_eq_of_cons_eq htokens⟩
      · rw [htokens] at hnext
        exact absurd hnext (hhead used value hvalue)
  · rw [if_neg hnext]
    simp only [bind_ok_iff, pure_ok_iff, symbol_ok_iff, exp_ok_iff]
    constructor
    · intro hresult
      obtain ⟨value, _, ⟨used, rfl, hvalue, -⟩, _, _, rfl, rfl, rfl⟩ := hresult
      exact Or.inr ⟨used, value, rfl, hvalue, rfl⟩
    · intro hresult
      rcases hresult with ⟨rfl, -⟩ | ⟨used, value, rfl, hvalue, rfl⟩
      · exact absurd rfl hnext
      · exact ⟨value, _, ⟨used, rfl, hvalue, hends⟩, (), rest, rfl, rfl, rfl⟩

theorem println_ok_iff :
    stmtLevel stmt (.keyword .printlnKw :: tokens) = .ok (s, rest) ↔
      ∃ used value,
        tokens = .symbol .openParen :: used ++
          .symbol .closeParen :: .symbol .semicolon :: rest ∧
        Exp.Derives .loosest used value ∧ s = .println value := by
  unfold stmtLevel
  rw [peek_bind_apply]
  simp only [List.head?_cons, skip_bind_apply, bind_ok_iff, pure_ok_iff, symbol_ok_iff,
    guard_ok_iff]
  constructor
  · intro hresult
    obtain ⟨value, _, ⟨used, rfl, hvalue⟩, _, _, rfl, rfl, rfl⟩ := hresult
    exact ⟨used, value, rfl, hvalue, rfl⟩
  · intro hresult
    obtain ⟨used, value, rfl, hvalue, rfl⟩ := hresult
    exact ⟨value, _, ⟨used, rfl, hvalue⟩, (), rest, rfl, rfl, rfl⟩

theorem block_ok_iff (hstmt : Exact bound stmt Stmt.Derives fun _ => True)
    (hlength : tokens.length < bound) :
    stmtLevel stmt (.symbol .openBrace :: tokens) = .ok (s, rest) ↔
      ∃ used body, tokens = used ++ .symbol .closeBrace :: rest ∧
        Many Stmt.Derives used body ∧ s = .block body := by
  unfold stmtLevel
  rw [peek_bind_apply]
  simp only [List.head?_cons, skip_bind_apply, bind_ok_iff, pure_ok_iff, symbol_ok_iff,
    exact_stmtsOf hstmt tokens hlength]
  constructor
  · intro hresult
    obtain ⟨body, _, ⟨used, rfl, hbody, -⟩, _, _, rfl, rfl, rfl⟩ := hresult
    exact ⟨used, body, rfl, hbody, rfl⟩
  · intro hresult
    obtain ⟨used, body, rfl, hbody, rfl⟩ := hresult
    exact ⟨body, _, ⟨used, rfl, hbody, by simp⟩, (), rest, rfl, rfl, rfl⟩

theorem stmtLevel_of_begins {token : Token} {tail : List Token}
    (htoken : token.beginsExp = true ∨ token.beginsTy = true) :
    stmtLevel stmt (token :: tail) =
      firstOf declaration [expStmt, assignment] (token :: tail) := by
  unfold stmtLevel
  rw [peek_bind_apply]
  cases token with
  | keyword word =>
      cases word with
      | ifKw | whileKw | returnKw | printlnKw =>
          simp [Token.beginsExp, Token.beginsTy] at htoken
      | _ => rfl
  | symbol mark =>
      cases mark with
      | openBrace =>
          simp [Token.beginsExp, Token.beginsTy] at htoken
      | _ => rfl
  | _ => rfl

theorem derives_of_stmtLevel (hstmt : Exact bound stmt Stmt.Derives fun _ => True)
    (hlength : tokens.length < bound + 1)
    (hresult : stmtLevel stmt tokens = .ok (s, rest)) :
    ∃ used, tokens = used ++ rest ∧ Stmt.Derives used s := by
  cases tokens with
  | nil =>
      exact derives_of_alternatives hresult
  | cons next tail =>
      have hshorter : tail.length < bound := by simpa using hlength
      cases next with
      | keyword word =>
          cases word with
          | ifKw =>
              obtain ⟨left, middle, right, condition, thenArm, elseArm, rfl, hcondition, hmiddle,
                hright, rfl⟩ := (ifElse_ok_iff hstmt hshorter).1 hresult
              exact ⟨_, by simp, .ifElse hcondition hmiddle hright⟩
          | whileKw =>
              obtain ⟨left, right, condition, body, rfl, hcondition, hright, rfl⟩ :=
                (whileLoop_ok_iff hstmt hshorter).1 hresult
              exact ⟨_, by simp, .whileLoop hcondition hright⟩
          | returnKw =>
              rcases return_ok_iff.1 hresult with ⟨rfl, rfl⟩ | ⟨used, value, rfl, hvalue, rfl⟩
              · exact ⟨_, by simp, .returnVoid⟩
              · exact ⟨_, by simp, .returnValue hvalue⟩
          | printlnKw =>
              obtain ⟨used, value, rfl, hvalue, rfl⟩ := println_ok_iff.1 hresult
              exact ⟨_, by simp, .println hvalue⟩
          | _ => exact derives_of_alternatives hresult
      | symbol mark =>
          cases mark with
          | openBrace =>
              obtain ⟨used, body, rfl, hbody, rfl⟩ := (block_ok_iff hstmt hshorter).1 hresult
              exact ⟨_, by simp, .block hbody⟩
          | _ => exact derives_of_alternatives hresult
      | _ => exact derives_of_alternatives hresult

theorem stmtLevel_of_derives (hstmt : Exact bound stmt Stmt.Derives fun _ => True)
    {used : List Token} (hlength : (used ++ rest).length < bound + 1)
    (hderives : Stmt.Derives used s) : stmtLevel stmt (used ++ rest) = .ok (s, rest) := by
  cases hderives with
  | ifElse hcondition hmiddle hright =>
      exact (ifElse_ok_iff hstmt (by simpa using hlength)).2
        ⟨_, _, _, _, _, _, rfl, hcondition, hmiddle, hright, rfl⟩
  | whileLoop hcondition hright =>
      exact (whileLoop_ok_iff hstmt (by simpa using hlength)).2
        ⟨_, _, _, _, rfl, hcondition, hright, rfl⟩
  | returnValue hvalue =>
      exact return_ok_iff.2 (Or.inr ⟨_, _, by simp, hvalue, rfl⟩)
  | returnVoid =>
      exact return_ok_iff.2 (Or.inl ⟨rfl, rfl⟩)
  | println hvalue =>
      exact println_ok_iff.2 ⟨_, _, by simp, hvalue, rfl⟩
  | block hbody =>
      exact (block_ok_iff hstmt (by simpa using hlength)).2 ⟨_, _, by simp, hbody, rfl⟩
  | @declare left right var value hvar hvalue =>
      obtain ⟨token, tail, rfl, htoken⟩ := VarDec.beginsWith_derives _ _ hvar
      rw [List.cons_append, List.cons_append, List.cons_append,
        stmtLevel_of_begins (Or.inr htoken), alternatives_ok_iff, declaration_ok_iff]
      exact Or.inl ⟨token :: tail, right, var, value, by simp, hvar, hvalue, rfl⟩
  | @exp used value hvalue =>
      obtain ⟨token, tail, rfl, htoken⟩ := hvalue.begins
      rw [List.cons_append, List.cons_append, stmtLevel_of_begins (Or.inl htoken),
        alternatives_ok_iff, expStmt_ok_iff]
      exact Or.inr (Or.inl ⟨token :: tail, value, by simp, hvalue, rfl⟩)
  | @assign used target value hvalue =>
      rw [List.cons_append, List.cons_append, stmtLevel_of_begins (Or.inl rfl),
        alternatives_ok_iff, assignment_ok_iff]
      exact Or.inr (Or.inr ⟨target, used, value, by simp, hvalue, rfl⟩)

theorem exact_stmtLevel (hstmt : Exact bound stmt Stmt.Derives fun _ => True) :
    Exact (bound + 1) (stmtLevel stmt) Stmt.Derives fun _ => True := by
  intro tokens hlength s rest
  constructor
  · intro hresult
    obtain ⟨used, htokens, hderives⟩ := derives_of_stmtLevel hstmt hlength hresult
    exact ⟨used, htokens, hderives, trivial⟩
  · intro hresult
    obtain ⟨used, rfl, hderives, -⟩ := hresult
    exact stmtLevel_of_derives hstmt hlength hderives

end Statements

theorem exact_stmt (bound : Nat) : Exact bound stmt Stmt.Derives fun _ => True :=
  exact_fixed (fun _ _ hstmt => exact_stmtLevel hstmt) bound

section Classes

theorem exact_params (bound : Nat) :
    Exact bound (parenthesized varDec) (Parenthesized VarDec.Derives) fun _ => True := by
  have hbegins : Phrase.BeginsWith VarDec.Derives (· ≠ .symbol .closeParen) :=
    VarDec.beginsWith_derives.ne rfl
  have hparams := exact_parenthesized hbegins (fun _ => trivial) (fun _ => trivial)
    (exact_varDec bound)
  exact hparams.of_le (Nat.le_succ bound)

theorem exact_superArgs (bound : Nat) :
    Exact bound (parenthesized exp) (Parenthesized (Exp.Derives .loosest)) fun _ => True :=
  (exact_arguments (exact_exp bound)).of_le (Nat.le_succ bound)

theorem exact_methodDef (bound : Nat) :
    Exact bound methodDef MethodDef.Derives fun _ => True := by
  intro tokens _ method rest
  unfold methodDef
  simp only [bind_ok_iff, pure_ok_iff, identifier_ok_iff, Exact.ok_iff exact_ty,
    Exact.ok_iff exact_params, Exact.ok_iff exact_stmt]
  constructor
  · intro hresult
    obtain ⟨returnTy, _, ⟨left, rfl, hty, -⟩, name, _, rfl, params, _,
      ⟨middle, rfl, hparams, -⟩, body, _, ⟨right, rfl, hbody, -⟩, rfl, rfl⟩ := hresult
    exact ⟨_, by simp, .intro hty hparams hbody, trivial⟩
  · intro hresult
    obtain ⟨_, rfl, hderives, -⟩ := hresult
    obtain @⟨left, middle, right, returnTy, name, params, body, hty, hparams, hbody⟩ := hderives
    exact ⟨returnTy, _, ⟨left, by simp, hty, trivial⟩, name, _, rfl, params, _,
      ⟨middle, rfl, hparams, trivial⟩, body, _, ⟨right, rfl, hbody, trivial⟩, rfl, rfl⟩

theorem exact_field (bound : Nat) :
    Exact bound field VarDec.FieldDerives fun _ => True := by
  intro tokens _ var rest
  unfold field
  simp only [bind_ok_iff, pure_ok_iff, symbol_ok_iff, Exact.ok_iff exact_varDec]
  constructor
  · intro hresult
    obtain ⟨var, _, ⟨used, rfl, hvar, -⟩, _, _, rfl, rfl, rfl⟩ := hresult
    exact ⟨_, by simp, .intro hvar, trivial⟩
  · intro hresult
    obtain ⟨_, rfl, @⟨used, var, hvar⟩, -⟩ := hresult
    exact ⟨var, _, ⟨used, by simp, hvar, trivial⟩, (), rest, rfl, rfl, rfl⟩

theorem exact_fields (bound : Nat) :
    Exact bound (manyWhile (· ≠ .keyword .constructorKw) field) (Many VarDec.FieldDerives)
      fun rest => ∀ token ∈ rest.head?,
        decide (token ≠ .keyword .constructorKw) = false := by
  have hbegins : Phrase.BeginsWith VarDec.FieldDerives (· ≠ .keyword .constructorKw) :=
    VarDec.beginsWith_fieldDerives.ne rfl
  exact exact_manyWhile hbegins (exact_field bound)

theorem exact_methods (bound : Nat) :
    Exact bound (manyWhile (· ≠ .symbol .closeBrace) methodDef) (Many MethodDef.Derives)
      fun rest => ∀ token ∈ rest.head?, decide (token ≠ .symbol .closeBrace) = false := by
  have hbegins : Phrase.BeginsWith MethodDef.Derives (· ≠ .symbol .closeBrace) :=
    MethodDef.beginsWith_derives.ne rfl
  exact exact_manyWhile hbegins (exact_methodDef bound)

theorem exact_stmts (bound : Nat) :
    Exact bound stmts (Many Stmt.Derives)
      fun rest => ∀ token ∈ rest.head?, decide (token ≠ .symbol .closeBrace) = false :=
  exact_stmtsOf (exact_stmt bound)

theorem exact_classDef (bound : Nat) :
    Exact bound classDef ClassDef.Derives fun _ => True := by
  intro tokens _ definition rest
  unfold classDef
  simp only [bind_ok_iff, pure_ok_iff, symbol_ok_iff, keyword_ok_iff, identifier_ok_iff,
    Exact.ok_iff exact_fields, Exact.ok_iff exact_params, Exact.ok_iff exact_superArgs,
    Exact.ok_iff exact_stmts, Exact.ok_iff exact_methods]
  constructor
  · intro hresult
    obtain ⟨_, _, rfl, name, _, rfl, _, _, rfl, parent, _, rfl, _, _, rfl, hmembers⟩ := hresult
    obtain ⟨fields, _, ⟨ofFields, rfl, hfields, -⟩, _, _, rfl, hconstructor⟩ := hmembers
    obtain ⟨params, _, ⟨ofParams, rfl, hparams, -⟩, _, _, rfl, _, _, rfl, hsuper⟩ :=
      hconstructor
    obtain ⟨superArgs, _, ⟨ofSuperArgs, rfl, hsuperArgs, -⟩, _, _, rfl, hstmts⟩ := hsuper
    obtain ⟨body, _, ⟨ofBody, rfl, hbody, -⟩, _, _, rfl, hrest⟩ := hstmts
    obtain ⟨methods, _, ⟨ofMethods, rfl, hmethods, -⟩, _, _, rfl, rfl, rfl⟩ := hrest
    exact ⟨_, by simp, .intro hfields hparams hsuperArgs hbody hmethods, trivial⟩
  · intro hresult
    obtain ⟨_, rfl, hderives, -⟩ := hresult
    obtain @⟨ofFields, ofParams, ofSuperArgs, ofBody, ofMethods, name, parent, fields, params,
      superArgs, body, methods, hfields, hparams, hsuperArgs, hbody, hmethods⟩ := hderives
    simp only [List.cons_append, List.append_assoc, List.nil_append]
    exact ⟨(), _, rfl, name, _, rfl, (), _, rfl, parent, _, rfl, (), _, rfl, fields, _,
      ⟨ofFields, rfl, hfields, by simp⟩, (), _, rfl, params, _,
      ⟨ofParams, rfl, hparams, trivial⟩, (), _, rfl, (), _, rfl, superArgs, _,
      ⟨ofSuperArgs, rfl, hsuperArgs, trivial⟩, (), _, rfl, body, _,
      ⟨ofBody, rfl, hbody, by simp⟩, (), _, rfl, methods, _,
      ⟨ofMethods, rfl, hmethods, by simp⟩, (), _, rfl, rfl, rfl⟩

theorem exact_classes (bound : Nat) :
    Exact bound (manyWhile (· = .keyword .classKw) classDef) (Many ClassDef.Derives)
      fun rest => ∀ token ∈ rest.head?, decide (token = .keyword .classKw) = false :=
  exact_manyWhile ClassDef.beginsWith_derives (exact_classDef bound)

theorem exact_program (bound : Nat) :
    Exact bound program Program.Derives fun _ => True := by
  intro tokens _ result rest
  unfold program
  simp only [bind_ok_iff, pure_ok_iff, Exact.ok_iff exact_classes, Exact.ok_iff exact_stmt]
  constructor
  · intro hresult
    obtain ⟨classes, _, ⟨left, rfl, hclasses, -⟩, entry, _, ⟨right, rfl, hentry, -⟩, rfl,
      rfl⟩ := hresult
    exact ⟨_, by simp, .intro hclasses hentry, trivial⟩
  · intro hresult
    obtain ⟨_, rfl, hderives, -⟩ := hresult
    obtain @⟨left, right, classes, entry, hclasses, hentry⟩ := hderives
    have hstop : (right ++ rest).head? ≠ some (.keyword .classKw) :=
      (Stmt.beginsWith_derives.ne rfl).head?_ne hentry rest
    exact ⟨classes, _, ⟨left, by simp, hclasses, stops_before_iff.2 hstop⟩, entry, _,
      ⟨right, rfl, hentry, trivial⟩, rfl, rfl⟩

end Classes

end ClassLang.Grammar

namespace ClassLang

theorem Production.parseAll_ok_iff {α : Type} {production : Production α} {phrase : Phrase α}
    {follow : List Token → Prop} (hexact : ∀ bound, Exact bound production phrase follow)
    (hend : follow []) {tokens : List Token} {a : α} :
    production.parseAll tokens = .ok a ↔ phrase tokens a := by
  have hread : production tokens = .ok (a, []) ↔ phrase tokens a := by
    rw [Exact.ok_iff hexact]
    simp [hend]
  rw [← hread]
  unfold parseAll
  cases production tokens with
  | error failure =>
      simp
  | ok result =>
      obtain ⟨b, rest⟩ := result
      cases rest with
      | nil =>
          simp
      | cons next rest =>
          simp

/-- A production gives one answer, so a phrase that it reads has one meaning. -/
theorem Production.Exact.unique {α : Type} {production : Production α} {phrase : Phrase α}
    {follow : List Token → Prop} (hexact : ∀ bound, Exact bound production phrase follow)
    (hend : follow []) (tokens : List Token) (a other : α) (ha : phrase tokens a)
    (hother : phrase tokens other) : a = other := by
  have hparse := (parseAll_ok_iff hexact hend).2 ha
  have hparseOther := (parseAll_ok_iff hexact hend).2 hother
  rw [hparse] at hparseOther
  exact Except.ok.inj hparseOther

/-- Reading succeeds with a tree exactly when the tokens derive it, so tokens
derive at most one tree. -/
theorem parse_exact :
    (∀ tokens program,
      Program.parse tokens = .ok program ↔ Program.Derives tokens program) ∧
    (∀ tokens stmt, Stmt.parse tokens = .ok stmt ↔ Stmt.Derives tokens stmt) ∧
    (∀ tokens e, Exp.parse tokens = .ok e ↔ Exp.Derives .loosest tokens e) ∧
    (∀ tokens program other,
      Program.Derives tokens program → Program.Derives tokens other → program = other) ∧
    (∀ tokens stmt other,
      Stmt.Derives tokens stmt → Stmt.Derives tokens other → stmt = other) ∧
    (∀ tokens e other,
      Exp.Derives .loosest tokens e → Exp.Derives .loosest tokens other → e = other) := by
  have hend : Level.loosest.Ends [] := by simp [Level.Ends]
  refine ⟨?_, ?_, ?_, ?_, ?_, ?_⟩
  · intro tokens program
    exact Production.parseAll_ok_iff Grammar.exact_program trivial
  · intro tokens stmt
    exact Production.parseAll_ok_iff Grammar.exact_stmt trivial
  · intro tokens e
    exact Production.parseAll_ok_iff Grammar.exact_exp hend
  · exact Production.Exact.unique Grammar.exact_program trivial
  · exact Production.Exact.unique Grammar.exact_stmt trivial
  · exact Production.Exact.unique Grammar.exact_exp hend

def groupedTokens : List Token :=
  [.ident "x", .symbol .dot, .ident "m", .symbol .openParen, .symbol .openParen, .integer 1,
    .symbol .plus, .integer 2, .symbol .closeParen, .symbol .comma, .ident "y",
    .symbol .closeParen, .symbol .plus, .integer 3, .symbol .plus, .integer 4, .symbol .less,
    .ident "y", .symbol .equals, .keyword .trueKw]

def groupedExp : Exp Plain :=
  let call := Exp.call (.var ⟨"x"⟩) ⟨"m"⟩ [.binary .plus (.int 1) (.int 2), .var ⟨"y"⟩] ()
  let sum := Exp.binary .plus (.binary .plus call (.int 3)) (.int 4)
  .binary .equals (.binary .less sum (.var ⟨"y"⟩)) (.bool true)

def storingTokens : List Token :=
  .ident "b" :: .symbol .assign :: groupedTokens ++ [.symbol .semicolon]

def boxTokens : List Token :=
  [.keyword .classKw, .ident "Box", .keyword .extendsKw, .ident "Object", .symbol .openBrace,
    .keyword .intKw, .ident "n", .symbol .semicolon, .keyword .constructorKw,
    .symbol .openParen, .keyword .intKw, .ident "n", .symbol .closeParen, .symbol .openBrace,
    .keyword .superKw, .symbol .openParen, .symbol .closeParen, .symbol .semicolon,
    .symbol .closeBrace, .keyword .intKw, .ident "m", .symbol .openParen, .symbol .closeParen,
    .keyword .returnKw, .ident "n", .symbol .semicolon, .symbol .closeBrace]

def boxClass : ClassDef Plain :=
  let n : VarDec := ⟨.int, ⟨"n"⟩⟩
  ⟨⟨"Box"⟩, ⟨"Object"⟩, [n], [n], [], [], [⟨.int, ⟨"m"⟩, [], .returnValue (.var ⟨"n"⟩)⟩]⟩

theorem parse_exact_groupedTokens :
    (Program.Derives (boxTokens ++ storingTokens) ⟨[boxClass], .assign ⟨"b"⟩ groupedExp⟩ ∧
      ∀ other, Program.Derives (boxTokens ++ storingTokens) other →
        ⟨[boxClass], .assign ⟨"b"⟩ groupedExp⟩ = other) ∧
    (Stmt.Derives storingTokens (.assign ⟨"b"⟩ groupedExp) ∧
      ∀ other, Stmt.Derives storingTokens other → .assign ⟨"b"⟩ groupedExp = other) ∧
    Exp.Derives .loosest groupedTokens groupedExp ∧
      ∀ other, Exp.Derives .loosest groupedTokens other → groupedExp = other := by
  obtain ⟨hprogram, hstmt, hexp, huniqueProgram, huniqueStmt, huniqueExp⟩ := parse_exact
  have hprogramDerives :
      Program.Derives (boxTokens ++ storingTokens) ⟨[boxClass], .assign ⟨"b"⟩ groupedExp⟩ :=
    (hprogram _ _).1 rfl
  have hstmtDerives : Stmt.Derives storingTokens (.assign ⟨"b"⟩ groupedExp) :=
    (hstmt _ _).1 rfl
  have hexpDerives : Exp.Derives .loosest groupedTokens groupedExp := (hexp _ _).1 rfl
  exact ⟨⟨hprogramDerives, fun other => huniqueProgram _ _ other hprogramDerives⟩,
    ⟨hstmtDerives, fun other => huniqueStmt _ _ other hstmtDerives⟩,
    hexpDerives, fun other => huniqueExp _ _ other hexpDerives⟩

end ClassLang
