import ClassLang.Proofs.GrammarExactness
import ClassLang.Proofs.Positions

/-!
# Progress and lookahead of the grammar

All productions of the language are local: they look at no token behind the one in
front of which they stop.  All but the lists consume a token whenever they succeed.
Both come from the combinators that a production is put together of; only the three
forms that are tried one after the other need that they exclude each other.

For recursion and loops this means that the rounds which they are given are never
used up: every recursive production equals its body with itself in it, and every
loop goes on as long as the next token asks for it.
-/

namespace ClassLang.Grammar

open Production

section Expressions

variable {bound bound' : Nat} {exp exp' : Production (Exp Plain)}

theorem alike_leftAssociative (mark : Symbol) (op : Op) {operand operand' : Production (Exp Plain)}
    (hoperand : Alike true bound bound' operand operand') :
    Alike true bound bound' (leftAssociative mark op operand)
      (leftAssociative mark op operand') := by
  have hstep (lhs : Exp Plain) := (local_symbol mark bound bound').bind fun _ =>
    hoperand.map (Exp.binary op lhs)
  exact hoperand.bind fun first => Alike.whileNext hstep first

theorem alike_call (hexp : Alike true bound bound' exp exp') (receiver : Exp Plain) :
    Alike true (bound + 1) (bound' + 1)
      (do
        symbol .dot
        let method ← identifier
        let args ← parenthesized exp
        return Exp.call receiver ⟨method⟩ args ())
      (do
        symbol .dot
        let method ← identifier
        let args ← parenthesized exp'
        return Exp.call receiver ⟨method⟩ args ()) :=
  (local_symbol .dot _ _).bind fun _ => (local_identifier _ _).bind fun method =>
    hexp.parenthesized.map fun args => Exp.call receiver ⟨method⟩ args ()

theorem alike_callChain {receiver receiver' : Production (Exp Plain)}
    (hexp : Alike true bound bound' exp exp')
    (hreceiver : Alike true (bound + 1) (bound' + 1) receiver receiver') :
    Alike true (bound + 1) (bound' + 1) (callChain exp receiver) (callChain exp' receiver') :=
  hreceiver.bind fun first => Alike.whileNext (fun receiver => alike_call hexp receiver) first

theorem alike_primary (hexp : Alike true bound bound' exp exp') :
    Alike true (bound + 1) (bound' + 1) (primary exp) (primary exp') := by
  have hparens : Alike true bound bound'
      (do
        let inner ← exp
        symbol .closeParen
        return inner)
      (do
        let inner ← exp'
        symbol .closeParen
        return inner) :=
    hexp.bind fun inner => (local_symbol .closeParen _ _).map fun _ => inner
  have hnew : Alike true bound bound'
      (do
        let name ← identifier
        let args ← parenthesized exp
        return Exp.new ⟨name⟩ args)
      (do
        let name ← identifier
        let args ← parenthesized exp'
        return Exp.new ⟨name⟩ args) :=
    (local_identifier _ _).bind fun name =>
      (hexp.parenthesized.map (Exp.new ⟨name⟩)).of_le (Nat.le_succ _) (Nat.le_succ _)
  have hleaf (e : Exp Plain) (tail : List Token) :
      CarriesTo false bound' (pure e : Production (Exp Plain)) (pure e) tail :=
    local_pure e _ bound' tail (Nat.lt_succ_self _)
  have hnone (tokens : List Token) :
      CarriesTo true (bound' + 1) (fail .expression : Production (Exp Plain))
        (fail .expression) tokens :=
    local_fail .expression _ _ tokens (Nat.lt_succ_self _)
  intro tokens hlength
  apply carriesTo_peek
  cases tokens with
  | nil => exact hnone []
  | cons next tail =>
      rw [List.length_cons] at hlength
      cases next with
      | integer value => exact carriesTo_of_branch rfl (fun _ => rfl) (hleaf (.int value) tail)
      | ident name => exact carriesTo_of_branch rfl (fun _ => rfl) (hleaf (.var ⟨name⟩) tail)
      | keyword word =>
          cases word with
          | trueKw => exact carriesTo_of_branch rfl (fun _ => rfl) (hleaf (.bool true) tail)
          | falseKw => exact carriesTo_of_branch rfl (fun _ => rfl) (hleaf (.bool false) tail)
          | thisKw => exact carriesTo_of_branch rfl (fun _ => rfl) (hleaf .this tail)
          | newKw =>
              exact carriesTo_of_branch rfl (fun _ => rfl) (hnew tail (by omega))
          | _ => exact hnone _
      | symbol mark =>
          cases mark with
          | openParen => exact carriesTo_of_branch rfl (fun _ => rfl) (hparens tail (by omega))
          | _ => exact hnone _

theorem alike_expLevel (bound bound' : Nat) (exp exp' : Production (Exp Plain))
    (hexp : Alike true bound bound' exp exp') :
    Alike true (bound + 1) (bound' + 1) (expLevel exp) (expLevel exp') := by
  have hchain := alike_callChain hexp (alike_primary hexp)
  have hsum := alike_leftAssociative .plus .plus hchain
  have hcomparison := alike_leftAssociative .less .less hsum
  exact alike_leftAssociative .equals .equals hcomparison

end Expressions

theorem local_exp : Local true exp :=
  local_fixed alike_expLevel

theorem exp_eq : exp = expLevel exp :=
  fixed_eq alike_expLevel

theorem local_ty : Local true ty := by
  apply Local.of_succ
  intro bound bound' tokens _
  have hleaf (type : Ty) (tail : List Token) :
      CarriesTo false bound' (pure type : Production Ty) (pure type) tail :=
    local_pure type _ bound' tail (Nat.lt_succ_self _)
  have hnone (tokens : List Token) :
      CarriesTo true (bound' + 1) (fail .type : Production Ty) (fail .type) tokens :=
    local_fail .type _ _ tokens (Nat.lt_succ_self _)
  apply carriesTo_peek
  cases tokens with
  | nil => exact hnone []
  | cons next tail =>
      cases next with
      | ident name => exact carriesTo_of_branch rfl (fun _ => rfl) (hleaf (.object ⟨name⟩) tail)
      | keyword word =>
          cases word with
          | intKw => exact carriesTo_of_branch rfl (fun _ => rfl) (hleaf .int tail)
          | boolKw => exact carriesTo_of_branch rfl (fun _ => rfl) (hleaf .bool tail)
          | voidKw => exact carriesTo_of_branch rfl (fun _ => rfl) (hleaf .void tail)
          | _ => exact hnone _
      | _ => exact hnone _

theorem local_varDec : Local true varDec := fun bound bound' =>
  (local_ty bound bound').bind fun type =>
    (local_identifier _ _).map fun name => VarDec.mk type ⟨name⟩

theorem local_guard : Local true guard := fun bound bound' =>
  (local_symbol .openParen bound bound').bind fun _ => (local_exp _ _).bind fun value =>
    (local_symbol .closeParen _ _).map fun _ => value

/-- An expression in front of a semicolon, as most statements end. -/
theorem local_exp_semicolon {α : Type} (f : Exp Plain → α) : Local true (do
    let value ← exp
    symbol .semicolon
    return f value) := fun bound bound' =>
  (local_exp bound bound').bind fun value => (local_symbol .semicolon _ _).map fun _ => f value

theorem local_declaration : Local true declaration := fun bound bound' =>
  (local_varDec bound bound').bind fun var => (local_symbol .assign _ _).bind fun _ =>
    local_exp_semicolon (Stmt.declare var) _ _

theorem local_expStmt : Local true expStmt := local_exp_semicolon Stmt.exp

theorem local_assignment : Local true assignment := fun bound bound' =>
  (local_identifier bound bound').bind fun target => (local_symbol .assign _ _).bind fun _ =>
    local_exp_semicolon (Stmt.assign ⟨target⟩) _ _

theorem local_alternatives : Local true (firstOf declaration [expStmt, assignment]) := by
  have hlast : Local true (firstOf expStmt [assignment]) := by
    refine local_firstOf local_expStmt local_assignment ?_
    intro tokens result hassignment
    exact expStmt_ne_of_assignment hassignment
  refine local_firstOf local_declaration hlast ?_
  intro tokens result hresult result' hdeclaration
  rcases firstOf_ok_iff.1 hresult with hexp | ⟨-, hassignment⟩
  · exact expStmt_ne_of_declaration hdeclaration _ hexp
  · exact declaration_ne_of_assignment hassignment _ hdeclaration

section Statements

variable {bound bound' : Nat} {stmt stmt' : Production (Stmt Plain)}

theorem alike_stmtsOf (hstmt : Alike true bound bound' stmt stmt') :
    Alike false bound bound' (stmtsOf stmt) (stmtsOf stmt') :=
  hstmt.manyWhile

theorem local_return : Local true (do
    if (← peek) = some (.symbol .semicolon) then
      skip
      return Stmt.returnVoid
    else
      let value ← exp
      symbol .semicolon
      return .returnValue value) := by
  apply Local.of_succ
  intro bound bound' tokens hlength
  apply carriesTo_peek
  by_cases hhead : tokens.head? = some (.symbol .semicolon)
  · obtain ⟨tail, rfl⟩ := List.head?_eq_some_iff.1 hhead
    exact carriesTo_of_branch rfl (fun _ => rfl)
      (local_pure Stmt.returnVoid _ bound' tail (Nat.lt_succ_self _))
  · rw [if_neg hhead]
    exact local_exp_semicolon Stmt.returnValue _ _ tokens hlength

theorem alike_stmtLevel (bound bound' : Nat) (stmt stmt' : Production (Stmt Plain))
    (hstmt : Alike true bound bound' stmt stmt') :
    Alike true (bound + 1) (bound' + 1) (stmtLevel stmt) (stmtLevel stmt') := by
  have hif := (local_guard bound bound').bind fun condition =>
    hstmt.bind fun thenArm => (local_keyword .elseKw _ _).bind fun _ =>
      hstmt.map (Stmt.ifElse condition thenArm)
  have hwhile := (local_guard bound bound').bind fun condition =>
    hstmt.map (Stmt.whileLoop condition)
  have hprintln := (local_guard bound bound').bind fun value =>
    (local_symbol .semicolon _ _).map fun _ => Stmt.println value
  have hblock := (alike_stmtsOf hstmt).bind fun body =>
    (local_symbol .closeBrace _ _).map fun _ => Stmt.block body
  intro tokens hlength
  have hundecided := local_alternatives (bound + 1) (bound' + 1) tokens hlength
  apply carriesTo_peek
  cases tokens with
  | nil => exact hundecided
  | cons next tail =>
      rw [List.length_cons] at hlength
      have hshorter : tail.length < bound := by omega
      cases next with
      | keyword word =>
          cases word with
          | ifKw => exact carriesTo_of_branch rfl (fun _ => rfl) (hif tail hshorter)
          | whileKw => exact carriesTo_of_branch rfl (fun _ => rfl) (hwhile tail hshorter)
          | returnKw =>
              refine carriesTo_of_branch ?_ ?_ (local_return bound bound' tail hshorter)
              · rfl
              · exact fun _ => rfl
          | printlnKw => exact carriesTo_of_branch rfl (fun _ => rfl) (hprintln tail hshorter)
          | _ => exact hundecided
      | symbol mark =>
          cases mark with
          | openBrace => exact carriesTo_of_branch rfl (fun _ => rfl) (hblock tail hshorter)
          | _ => exact hundecided
      | _ => exact hundecided

end Statements

theorem local_stmt : Local true stmt :=
  local_fixed alike_stmtLevel

theorem stmt_eq : stmt = stmtLevel stmt :=
  fixed_eq alike_stmtLevel

theorem local_stmts : Local false stmts := fun bound bound' =>
  alike_stmtsOf (local_stmt bound bound')

theorem local_parenthesized {α : Type} {consuming : Bool} {item : Production α}
    (hitem : Local consuming item) : Local true (parenthesized item) :=
  Local.of_succ fun bound bound' => (hitem bound bound').parenthesized

theorem local_methodDef : Local true methodDef := fun bound bound' =>
  (local_ty bound bound').bind fun returnTy => (local_identifier _ _).bind fun name =>
    (local_parenthesized local_varDec _ _).bind fun params =>
      (local_stmt _ _).map (MethodDef.mk returnTy ⟨name⟩ params)

theorem local_field : Local true field := fun bound bound' =>
  (local_varDec bound bound').bind fun var => (local_symbol .semicolon _ _).map fun _ => var

theorem local_classDef : Local true classDef := fun bound bound' =>
  (local_keyword .classKw bound bound').bind fun _ => (local_identifier _ _).bind fun name =>
  (local_keyword .extendsKw _ _).bind fun _ => (local_identifier _ _).bind fun parent =>
  (local_symbol .openBrace _ _).bind fun _ => (local_field _ _).manyWhile.bind fun fields =>
  (local_keyword .constructorKw _ _).bind fun _ =>
  (local_parenthesized local_varDec _ _).bind fun params =>
  (local_symbol .openBrace _ _).bind fun _ => (local_keyword .superKw _ _).bind fun _ =>
  (local_parenthesized local_exp _ _).bind fun superArgs =>
  (local_symbol .semicolon _ _).bind fun _ => (local_stmts _ _).bind fun body =>
  (local_symbol .closeBrace _ _).bind fun _ => (local_methodDef _ _).manyWhile.bind fun methods =>
  (local_symbol .closeBrace _ _).map fun _ =>
    ClassDef.mk ⟨name⟩ ⟨parent⟩ fields params superArgs body methods

theorem local_program : Local true program := fun bound bound' =>
  (local_classDef bound bound').manyWhile.bind fun classes =>
    (local_stmt _ _).map (Program.mk classes)

/-! ## Rules -/

/-- The production of a level of precedence. -/
def levelProduction : Level → Production (Exp Plain)
  | .primary => primary exp
  | .chain => callChain exp (primary exp)
  | .operation .plus => leftAssociative .plus .plus (callChain exp (primary exp))
  | .operation .less =>
    leftAssociative .less .less (leftAssociative .plus .plus (callChain exp (primary exp)))
  | .operation .equals => expLevel exp

/-- The productions of the language by what they read. -/
inductive Rule : Type → Type 1 where
  | token (wanted : Token) : Rule Unit
  | identifier : Rule String
  | ty : Rule Ty
  | varDec : Rule VarDec
  | precedence (level : Level) : Rule (Exp Plain)
  | exp : Rule (Exp Plain)
  | list {α : Type} (item : Rule α) : Rule (List α)
  | parenthesized {α : Type} (item : Rule α) : Rule (List α)
  | guard : Rule (Exp Plain)
  | declaration : Rule (Stmt Plain)
  | expStmt : Rule (Stmt Plain)
  | assignment : Rule (Stmt Plain)
  | stmt : Rule (Stmt Plain)
  | stmts : Rule (List (Stmt Plain))
  | methodDef : Rule (MethodDef Plain)
  | field : Rule VarDec
  | classDef : Rule (ClassDef Plain)
  | program : Rule (Program Plain)
  /-- One round of collecting items, the latest first. -/
  | collected {α : Type} (item : Rule α) (items : List α) : Rule (List α)
  /-- A further item of a list. -/
  | following {α : Type} (item : Rule α) : Rule α
  /-- A further operand, with the operator in front of it. -/
  | operand (op : Op) (lhs : Exp Plain) : Rule (Exp Plain)
  /-- A further call. -/
  | call (receiver : Exp Plain) : Rule (Exp Plain)

def Rule.production : {α : Type} → Rule α → Production α
  | _, .token wanted => expect wanted
  | _, .identifier => Production.identifier
  | _, .ty => Grammar.ty
  | _, .varDec => Grammar.varDec
  | _, .precedence level => levelProduction level
  | _, .exp => Grammar.exp
  | _, .list item => commaSeparated item.production
  | _, .parenthesized item => Production.parenthesized item.production
  | _, .guard => Grammar.guard
  | _, .declaration => Grammar.declaration
  | _, .expStmt => Grammar.expStmt
  | _, .assignment => Grammar.assignment
  | _, .stmt => Grammar.stmt
  | _, .stmts => Grammar.stmts
  | _, .methodDef => Grammar.methodDef
  | _, .field => Grammar.field
  | _, .classDef => Grammar.classDef
  | _, .program => Grammar.program
  | _, .collected item items => do
    let next ← item.production
    return next :: items
  | _, .following item => do
    symbol .comma
    item.production
  | _, .operand op lhs => do
    symbol op.mark
    let rhs ← levelProduction op.operandLevel
    return .binary op lhs rhs
  | _, .call receiver => do
    symbol .dot
    let method ← Production.identifier
    let args ← Production.parenthesized Grammar.exp
    return .call receiver ⟨method⟩ args ()

/-- Whether reading succeeds only if a token is consumed.  A list may be empty. -/
def Rule.consuming : {α : Type} → Rule α → Bool
  | _, .list _ | _, .stmts => false
  | _, .collected item _ => item.consuming
  | _, _ => true

theorem local_level (level : Level) : Local true (levelProduction level) := by
  have hprimary (bound bound' : Nat) := alike_primary (local_exp bound bound')
  have hchain (bound bound' : Nat) := alike_callChain (local_exp bound bound') (hprimary _ _)
  have hsum (bound bound' : Nat) := alike_leftAssociative .plus .plus (hchain bound bound')
  cases level with
  | primary => exact Local.of_succ hprimary
  | chain => exact Local.of_succ hchain
  | operation op =>
      cases op with
      | plus => exact Local.of_succ hsum
      | less =>
          exact Local.of_succ fun bound bound' =>
            alike_leftAssociative .less .less (hsum bound bound')
      | equals => exact Local.of_succ fun bound bound' => alike_expLevel _ _ _ _ (local_exp _ _)

theorem local_rule {α : Type} (rule : Rule α) : Local rule.consuming rule.production := by
  induction rule with
  | token wanted => exact local_expect wanted
  | identifier => exact local_identifier
  | ty => exact local_ty
  | varDec => exact local_varDec
  | precedence level => exact local_level level
  | exp => exact local_exp
  | list item ih => exact fun bound bound' => (ih bound bound').commaSeparated
  | parenthesized item ih => exact local_parenthesized ih
  | guard => exact local_guard
  | declaration => exact local_declaration
  | expStmt => exact local_expStmt
  | assignment => exact local_assignment
  | stmt => exact local_stmt
  | stmts => exact local_stmts
  | methodDef => exact local_methodDef
  | field => exact local_field
  | classDef => exact local_classDef
  | program => exact local_program
  | collected item items ih => exact fun bound bound' => (ih bound bound').map (· :: items)
  | following item ih =>
      exact fun bound bound' => (local_symbol .comma bound bound').bind fun _ => ih _ _
  | operand op lhs =>
      exact fun bound bound' => (local_symbol op.mark bound bound').bind fun _ =>
        (local_level op.operandLevel _ _).map (Exp.binary op lhs)
  | call receiver =>
      exact Local.of_succ fun bound bound' => alike_call (local_exp bound bound') receiver

/-- Whatever is read from a position on ends ahead of it or fails there, and the tokens
up to there settle the outcome.  To read all tokens is to read from the first one and to
end after the last.  Nothing is lost to the number of rounds: the recursive productions are
what their definitions say with themselves in place, and a loop over rounds that consume a
token goes on for as long as the next token asks for it. -/
theorem rules_settle_ahead :
    (∀ (α : Type) (rule : Rule α) (tokens : List Token) (position : Nat),
      position ≤ tokens.length → SettledAt rule.consuming rule.production tokens position) ∧
    (∀ (α : Type) (rule : Rule α) (tokens : List Token),
      rule.production.parseAll tokens = rule.production.readWhole tokens) ∧
    exp = expLevel exp ∧ stmt = stmtLevel stmt ∧
    ∀ (σ : Type) (more : Token → Bool) (step : σ → Rule σ),
      (∀ state, (step state).consuming = true) →
      Unrolls more fun state => (step state).production := by
  refine ⟨?_, fun _ rule _ => (local_rule rule).parseAll_eq, exp_eq, stmt_eq, ?_⟩
  · intro α rule tokens position hposition
    exact (local_rule rule).settledAt hposition
  · intro σ more step hconsuming
    apply Local.unrolls
    intro state
    have hlocal := local_rule (step state)
    rwa [hconsuming state] at hlocal

/-- `println(1) }`, where the semicolon is missing. -/
def unfinishedTokens : List Token :=
  [.keyword .printlnKw, .symbol .openParen, .integer 1, .symbol .closeParen,
    .symbol .closeBrace]

theorem rules_settle_ahead_unfinishedTokens :
    SettledAt true classDef (boxTokens ++ storingTokens) 0 ∧
    classDef.readAt (boxTokens ++ storingTokens) 0 = .ok (boxClass, boxTokens.length) ∧
    SettledAt true stmt unfinishedTokens 0 ∧
    stmt.readAt unfinishedTokens 0 =
      .error (.unexpected (.token (.symbol .semicolon)) (.symbol .closeBrace) 4) ∧
    Unrolls (· ≠ .symbol .closeBrace) (fun items => (Rule.collected .stmt items).production) := by
  obtain ⟨hsettled, -, -, -, hunrolls⟩ := rules_settle_ahead
  exact ⟨hsettled _ .classDef _ 0 (Nat.zero_le _), rfl, hsettled _ .stmt _ 0 (Nat.zero_le _),
    rfl, hunrolls _ _ (fun items => .collected .stmt items) fun _ => rfl⟩

end ClassLang.Grammar
