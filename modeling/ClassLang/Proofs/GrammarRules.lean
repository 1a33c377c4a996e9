import ClassLang.Program
import ClassLang.Token

/-!
# The grammar

The grammar says which token lists derive which trees, without saying how to
find a derivation.  Expressions are stratified into levels of precedence; every
operator takes its left operand from its own level and its right operand from
the next tighter one, so it associates to the left.

The rest of the file is about the grammar alone: the tokens a derivation may
begin with, the tokens that may continue an expression, and the left-recursive
rules as repetitions.
-/

namespace ClassLang

/-- A kind of phrase: which token lists derive which meanings. -/
abbrev Phrase (α : Type) := List Token → α → Prop

namespace Phrase

variable {α : Type}

/-- `item*` -/
inductive Many (item : Phrase α) : Phrase (List α) where
  | nil : Many item [] []
  | cons {first more : List Token} {a : α} {as : List α} :
      item first a → Many item more as → Many item (first ++ more) (a :: as)

/-- A symbol in front of an item. -/
inductive After (mark : Symbol) (item : Phrase α) : Phrase α where
  | intro {used : List Token} {a : α} :
      item used a → After mark item (.symbol mark :: used) a

/-- `'(' [item (',' item)*] ')'` -/
inductive Parenthesized (item : Phrase α) : Phrase (List α) where
  | nil : Parenthesized item [.symbol .openParen, .symbol .closeParen] []
  | cons {first more : List Token} {a : α} {as : List α} :
      item first a → Many (After .comma item) more as →
      Parenthesized item (.symbol .openParen :: first ++ more ++ [.symbol .closeParen])
        (a :: as)

end Phrase

open Phrase

/-- The levels of precedence, the tightest first. -/
inductive Level where
  | primary
  | chain
  | operation (op : Op)

def Level.loosest : Level := .operation .equals

namespace Op

def mark : Op → Symbol
  | plus => .plus
  | less => .less
  | equals => .equals

/-- The next tighter level, where the right operand is taken from. -/
def operandLevel : Op → Level
  | plus => .chain
  | less => .operation .plus
  | equals => .operation .less

end Op

inductive Exp.Derives : Level → Phrase (Exp Plain) where
  | int {value : Int64} : Exp.Derives .primary [.integer value] (.int value)
  | trueLiteral : Exp.Derives .primary [.keyword .trueKw] (.bool true)
  | falseLiteral : Exp.Derives .primary [.keyword .falseKw] (.bool false)
  | var {name : String} : Exp.Derives .primary [.ident name] (.var ⟨name⟩)
  | this : Exp.Derives .primary [.keyword .thisKw] .this
  | parens {used : List Token} {e : Exp Plain} :
      Exp.Derives .loosest used e →
      Exp.Derives .primary (.symbol .openParen :: used ++ [.symbol .closeParen]) e
  | new {name : String} {used : List Token} {args : List (Exp Plain)} :
      Parenthesized (Exp.Derives .loosest) used args →
      Exp.Derives .primary (.keyword .newKw :: .ident name :: used) (.new ⟨name⟩ args)
  | receiver {used : List Token} {e : Exp Plain} :
      Exp.Derives .primary used e → Exp.Derives .chain used e
  | call {left right : List Token} {receiver : Exp Plain} {method : String}
      {args : List (Exp Plain)} :
      Exp.Derives .chain left receiver →
      Parenthesized (Exp.Derives .loosest) right args →
      Exp.Derives .chain (left ++ .symbol .dot :: .ident method :: right)
        (.call receiver ⟨method⟩ args ())
  | operand {op : Op} {used : List Token} {e : Exp Plain} :
      Exp.Derives op.operandLevel used e → Exp.Derives (.operation op) used e
  | binary {op : Op} {left right : List Token} {lhs rhs : Exp Plain} :
      Exp.Derives (.operation op) left lhs → Exp.Derives op.operandLevel right rhs →
      Exp.Derives (.operation op) (left ++ .symbol op.mark :: right) (.binary op lhs rhs)

inductive Ty.Derives : Phrase Ty where
  | int : Ty.Derives [.keyword .intKw] .int
  | bool : Ty.Derives [.keyword .boolKw] .bool
  | void : Ty.Derives [.keyword .voidKw] .void
  | object {name : String} : Ty.Derives [.ident name] (.object ⟨name⟩)

inductive VarDec.Derives : Phrase VarDec where
  | intro {used : List Token} {ty : Ty} {name : String} :
      Ty.Derives used ty → VarDec.Derives (used ++ [.ident name]) ⟨ty, ⟨name⟩⟩

inductive Stmt.Derives : Phrase (Stmt Plain) where
  | ifElse {left middle right : List Token} {guard : Exp Plain}
      {thenArm elseArm : Stmt Plain} :
      Exp.Derives .loosest left guard → Stmt.Derives middle thenArm →
      Stmt.Derives right elseArm →
      Stmt.Derives
        (.keyword .ifKw :: .symbol .openParen :: left ++ .symbol .closeParen :: middle ++
          .keyword .elseKw :: right)
        (.ifElse guard thenArm elseArm)
  | whileLoop {left right : List Token} {guard : Exp Plain} {body : Stmt Plain} :
      Exp.Derives .loosest left guard → Stmt.Derives right body →
      Stmt.Derives
        (.keyword .whileKw :: .symbol .openParen :: left ++ .symbol .closeParen :: right)
        (.whileLoop guard body)
  | returnValue {used : List Token} {value : Exp Plain} :
      Exp.Derives .loosest used value →
      Stmt.Derives (.keyword .returnKw :: used ++ [.symbol .semicolon]) (.returnValue value)
  | returnVoid : Stmt.Derives [.keyword .returnKw, .symbol .semicolon] .returnVoid
  | println {used : List Token} {value : Exp Plain} :
      Exp.Derives .loosest used value →
      Stmt.Derives
        (.keyword .printlnKw :: .symbol .openParen :: used ++
          [.symbol .closeParen, .symbol .semicolon])
        (.println value)
  | block {used : List Token} {body : List (Stmt Plain)} :
      Many Stmt.Derives used body →
      Stmt.Derives (.symbol .openBrace :: used ++ [.symbol .closeBrace]) (.block body)
  | declare {left right : List Token} {var : VarDec} {value : Exp Plain} :
      VarDec.Derives left var → Exp.Derives .loosest right value →
      Stmt.Derives (left ++ .symbol .assign :: right ++ [.symbol .semicolon])
        (.declare var value)
  | exp {used : List Token} {value : Exp Plain} :
      Exp.Derives .loosest used value →
      Stmt.Derives (used ++ [.symbol .semicolon]) (.exp value)
  | assign {used : List Token} {target : String} {value : Exp Plain} :
      Exp.Derives .loosest used value →
      Stmt.Derives (.ident target :: .symbol .assign :: used ++ [.symbol .semicolon])
        (.assign ⟨target⟩ value)

inductive MethodDef.Derives : Phrase (MethodDef Plain) where
  | intro {left middle right : List Token} {returnTy : Ty} {name : String}
      {params : List VarDec} {body : Stmt Plain} :
      Ty.Derives left returnTy → Parenthesized VarDec.Derives middle params →
      Stmt.Derives right body →
      MethodDef.Derives (left ++ .ident name :: middle ++ right)
        ⟨returnTy, ⟨name⟩, params, body⟩

/-- An instance variable. -/
inductive VarDec.FieldDerives : Phrase VarDec where
  | intro {used : List Token} {var : VarDec} :
      VarDec.Derives used var → VarDec.FieldDerives (used ++ [.symbol .semicolon]) var

inductive ClassDef.Derives : Phrase (ClassDef Plain) where
  | intro {ofFields ofParams ofSuperArgs ofBody ofMethods : List Token}
      {name parent : String} {fields params : List VarDec} {superArgs : List (Exp Plain)}
      {body : List (Stmt Plain)} {methods : List (MethodDef Plain)} :
      Many VarDec.FieldDerives ofFields fields →
      Parenthesized VarDec.Derives ofParams params →
      Parenthesized (Exp.Derives .loosest) ofSuperArgs superArgs →
      Many Stmt.Derives ofBody body →
      Many MethodDef.Derives ofMethods methods →
      ClassDef.Derives
        (.keyword .classKw :: .ident name :: .keyword .extendsKw :: .ident parent ::
            .symbol .openBrace :: ofFields ++
          .keyword .constructorKw :: ofParams ++
          .symbol .openBrace :: .keyword .superKw :: ofSuperArgs ++
          .symbol .semicolon :: ofBody ++
          .symbol .closeBrace :: ofMethods ++ [.symbol .closeBrace])
        ⟨⟨name⟩, ⟨parent⟩, fields, params, superArgs, body, methods⟩

inductive Program.Derives : Phrase (Program Plain) where
  | intro {left right : List Token} {classes : List (ClassDef Plain)} {entry : Stmt Plain} :
      Many ClassDef.Derives left classes → Stmt.Derives right entry →
      Program.Derives (left ++ right) ⟨classes, entry⟩

/-- Every phrase begins with a token of the given class. -/
def Phrase.BeginsWith {α : Type} (phrase : Phrase α) (first : Token → Bool) : Prop :=
  ∀ used a, phrase used a → ∃ token tail, used = token :: tail ∧ first token = true

theorem Phrase.BeginsWith.ne {α : Type} {phrase : Phrase α} {first : Token → Bool}
    {token : Token} (hbegins : phrase.BeginsWith first) (htoken : first token = false) :
    phrase.BeginsWith (· ≠ token) := by
  intro used a hused
  obtain ⟨next, tail, rfl, hnext⟩ := hbegins used a hused
  have hne : next ≠ token := by
    intro heq
    rw [heq, htoken] at hnext
    contradiction
  exact ⟨next, tail, rfl, by simpa using hne⟩

theorem Phrase.BeginsWith.head?_ne {α : Type} {phrase : Phrase α} {token : Token}
    {used : List Token} {a : α} (hbegins : phrase.BeginsWith (· ≠ token))
    (hused : phrase used a) (rest : List Token) : (used ++ rest).head? ≠ some token := by
  obtain ⟨next, tail, rfl, hnext⟩ := hbegins used a hused
  simpa using hnext

theorem Phrase.BeginsWith.length_lt {α : Type} {phrase : Phrase α} {first : Token → Bool}
    {used : List Token} {a : α} (hbegins : phrase.BeginsWith first) (hused : phrase used a)
    (rest : List Token) : rest.length < (used ++ rest).length := by
  obtain ⟨token, tail, rfl, -⟩ := hbegins used a hused
  simp only [List.length_append, List.length_cons]
  omega

namespace Token

def beginsExp : Token → Bool
  | integer _ | ident _ => true
  | keyword word => word ∈ [.trueKw, .falseKw, .thisKw, .newKw]
  | symbol mark => mark = .openParen

def beginsTy : Token → Bool
  | ident _ => true
  | keyword word => word ∈ [.intKw, .boolKw, .voidKw]
  | integer _ | symbol _ => false

def beginsStmt (token : Token) : Bool :=
  token.beginsExp || token.beginsTy ||
    token ∈ [keyword .ifKw, keyword .whileKw, keyword .returnKw, keyword .printlnKw,
      symbol .openBrace]

theorem eq_ident_of_begins {token : Token} (hexp : token.beginsExp = true)
    (hty : token.beginsTy = true) : ∃ name, token = .ident name := by
  cases token with
  | ident name =>
      exact ⟨name, rfl⟩
  | keyword word =>
      cases word <;> simp [beginsExp, beginsTy] at hexp hty
  | _ =>
      simp [beginsTy] at hty

end Token

theorem Exp.Derives.begins {level : Level} {used : List Token} {e : Exp Plain} :
    Exp.Derives level used e →
      ∃ token tail, used = token :: tail ∧ token.beginsExp = true
  | .int | .trueLiteral | .falseLiteral | .var | .this | .parens _ | .new _ =>
      ⟨_, _, rfl, rfl⟩
  | .receiver hprimary => hprimary.begins
  | .operand hoperand => hoperand.begins
  | .call hleft _ | .binary hleft _ => by
      obtain ⟨token, tail, rfl, htoken⟩ := hleft.begins
      exact ⟨token, _, rfl, htoken⟩

theorem Exp.Derives.of_primary {used : List Token} {e : Exp Plain}
    (hprimary : Exp.Derives .primary used e) : Exp.Derives .loosest used e := by
  have hsum : Exp.Derives (.operation .plus) used e := .operand (.receiver hprimary)
  have hcomparison : Exp.Derives (.operation .less) used e := .operand hsum
  exact .operand hcomparison

theorem Exp.beginsWith_derives (level : Level) :
    Phrase.BeginsWith (Exp.Derives level) Token.beginsExp := by
  intro used e hderives
  exact hderives.begins

theorem Ty.beginsWith_derives : Phrase.BeginsWith Ty.Derives Token.beginsTy := by
  intro used ty hderives
  cases hderives <;> exact ⟨_, _, rfl, rfl⟩

theorem VarDec.Derives.eq_pair {used : List Token} {var : VarDec}
    (hderives : VarDec.Derives used var) :
    ∃ token name, used = [token, .ident name] ∧ token.beginsTy = true := by
  obtain ⟨hty⟩ := hderives
  cases hty <;> exact ⟨_, _, rfl, rfl⟩

theorem VarDec.beginsWith_derives : Phrase.BeginsWith VarDec.Derives Token.beginsTy := by
  intro used var hderives
  obtain ⟨token, name, rfl, htoken⟩ := hderives.eq_pair
  exact ⟨token, _, rfl, htoken⟩

theorem VarDec.beginsWith_fieldDerives :
    Phrase.BeginsWith VarDec.FieldDerives Token.beginsTy := by
  intro used var hderives
  obtain ⟨hvar⟩ := hderives
  obtain ⟨token, tail, rfl, htoken⟩ := VarDec.beginsWith_derives _ _ hvar
  exact ⟨token, _, rfl, htoken⟩

theorem MethodDef.beginsWith_derives :
    Phrase.BeginsWith MethodDef.Derives Token.beginsTy := by
  intro used method hderives
  obtain ⟨hty, hparams, hbody⟩ := hderives
  obtain ⟨token, tail, rfl, htoken⟩ := Ty.beginsWith_derives _ _ hty
  exact ⟨token, _, rfl, htoken⟩

theorem Stmt.beginsWith_derives : Phrase.BeginsWith Stmt.Derives Token.beginsStmt := by
  intro used stmt hderives
  cases hderives with
  | declare hvar hvalue =>
      obtain ⟨token, tail, rfl, htoken⟩ := VarDec.beginsWith_derives _ _ hvar
      exact ⟨token, _, rfl, by simp [Token.beginsStmt, htoken]⟩
  | exp hvalue =>
      obtain ⟨token, tail, rfl, htoken⟩ := hvalue.begins
      exact ⟨token, _, rfl, by simp [Token.beginsStmt, htoken]⟩
  | _ => exact ⟨_, _, rfl, rfl⟩

theorem ClassDef.beginsWith_derives :
    Phrase.BeginsWith ClassDef.Derives (· = .keyword .classKw) := by
  intro used definition hderives
  obtain ⟨hfields, hparams, hsuperArgs, hbody, hmethods⟩ := hderives
  exact ⟨_, _, rfl, by simp⟩

namespace Level

/-- The symbols that continue an expression of a level. -/
def marks : Level → List Symbol
  | primary => []
  | chain => [.dot]
  | operation .plus => [.plus, .dot]
  | operation .less => [.less, .plus, .dot]
  | operation .equals => [.equals, .less, .plus, .dot]

theorem marks_operation (op : Op) :
    (operation op).marks = op.mark :: op.operandLevel.marks := by
  cases op <;> rfl

/-- No symbol that continues an expression of the level comes next. -/
def Ends (level : Level) (rest : List Token) : Prop :=
  ∀ mark ∈ level.marks, rest.head? ≠ some (.symbol mark)

theorem ends_operation_iff {op : Op} {rest : List Token} :
    (operation op).Ends rest ↔
      rest.head? ≠ some (.symbol op.mark) ∧ op.operandLevel.Ends rest := by
  simp [Ends, marks_operation]

theorem ends_symbol {level : Level} {mark : Symbol} (hmark : mark ∉ level.marks)
    (rest : List Token) : level.Ends (.symbol mark :: rest) := by
  intro other hother hhead
  simp only [List.head?_cons, Option.some.injEq, Token.symbol.injEq] at hhead
  exact hmark (hhead ▸ hother)

theorem operandLevel_ends_mark (op : Op) (rest : List Token) :
    op.operandLevel.Ends (.symbol op.mark :: rest) := by
  apply ends_symbol
  cases op <;> decide

end Level

theorem Phrase.Many.concat {α : Type} {item : Phrase α} {used last : List Token}
    {as : List α} {a : α} (hmany : Many item used as) (hitem : item last a) :
    Many item (used ++ last) (as ++ [a]) := by
  induction hmany with
  | nil =>
      have hone : Many item (last ++ []) [a] := .cons hitem .nil
      simpa using hone
  | cons hfirst hmore ih =>
      simpa using Many.cons hfirst ih

/-- `base item*`, with the items folded into the meaning of the base. -/
def Phrase.FoldedLeft {σ α : Type} (base : Phrase σ) (item : Phrase α) (fold : σ → α → σ) :
    Phrase σ :=
  fun used result => ∃ first others start as, used = first ++ others ∧ base first start ∧
    Many item others as ∧ result = as.foldl fold start

/-- A call without its receiver. -/
inductive Exp.CallDerives : Phrase (MethodName × List (Exp Plain)) where
  | intro {used : List Token} {method : String} {args : List (Exp Plain)} :
      Parenthesized (Exp.Derives .loosest) used args →
      Exp.CallDerives (.symbol .dot :: .ident method :: used) (⟨method⟩, args)

def Exp.applyCall (receiver : Exp Plain) (call : MethodName × List (Exp Plain)) :
    Exp Plain :=
  .call receiver call.1 call.2 ()

namespace Exp.Derives

variable {op : Op} {left right : List Token} {lhs : Exp Plain}

theorem foldedLeft_of_operation {used : List Token} {e : Exp Plain} :
    Exp.Derives (.operation op) used e →
      FoldedLeft (Exp.Derives op.operandLevel) (After op.mark (Exp.Derives op.operandLevel))
        (Exp.binary op) used e
  | .operand hoperand => ⟨used, [], e, [], by simp, hoperand, .nil, rfl⟩
  | .binary hleft hright => by
      obtain ⟨first, others, lhs, rhss, rfl, hfirst, hothers, rfl⟩ :=
        foldedLeft_of_operation hleft
      exact ⟨first, _, lhs, _, List.append_assoc first others _, hfirst,
        hothers.concat (.intro hright), by simp⟩
termination_by used.length

theorem foldl_binary {rhss : List (Exp Plain)}
    (hmore : Many (After op.mark (Exp.Derives op.operandLevel)) right rhss)
    (hleft : Exp.Derives (.operation op) left lhs) :
    Exp.Derives (.operation op) (left ++ right) (rhss.foldl (Exp.binary op) lhs) := by
  induction hmore generalizing left lhs with
  | nil =>
      simpa using hleft
  | cons hitem hmore ih =>
      obtain ⟨hrhs⟩ := hitem
      simpa using ih (.binary hleft hrhs)

theorem foldedLeft_of_chain {used : List Token} {e : Exp Plain} :
    Exp.Derives .chain used e →
      FoldedLeft (Exp.Derives .primary) Exp.CallDerives Exp.applyCall used e
  | .receiver hprimary => ⟨used, [], e, [], by simp, hprimary, .nil, rfl⟩
  | .call hleft hargs => by
      obtain ⟨first, others, receiver, calls, rfl, hfirst, hothers, rfl⟩ :=
        foldedLeft_of_chain hleft
      exact ⟨first, _, receiver, _, List.append_assoc first others _, hfirst,
        hothers.concat (.intro hargs), by simp [Exp.applyCall]⟩
termination_by used.length

theorem foldl_applyCall {calls : List (MethodName × List (Exp Plain))}
    (hmore : Many Exp.CallDerives right calls)
    (hleft : Exp.Derives .chain left lhs) :
    Exp.Derives .chain (left ++ right) (calls.foldl Exp.applyCall lhs) := by
  induction hmore generalizing left lhs with
  | nil =>
      simpa using hleft
  | cons hitem hmore ih =>
      obtain ⟨hargs⟩ := hitem
      simpa [Exp.applyCall] using ih (.call hleft hargs)

theorem operation_iff {used : List Token} {e : Exp Plain} :
    Exp.Derives (.operation op) used e ↔
      FoldedLeft (Exp.Derives op.operandLevel) (After op.mark (Exp.Derives op.operandLevel))
        (Exp.binary op) used e := by
  constructor
  · exact foldedLeft_of_operation
  · intro hfolded
    obtain ⟨first, others, lhs, rhss, rfl, hfirst, hothers, rfl⟩ := hfolded
    exact foldl_binary hothers (.operand hfirst)

theorem chain_iff {used : List Token} {e : Exp Plain} :
    Exp.Derives .chain used e ↔
      FoldedLeft (Exp.Derives .primary) Exp.CallDerives Exp.applyCall used e := by
  constructor
  · exact foldedLeft_of_chain
  · intro hfolded
    obtain ⟨first, others, receiver, calls, rfl, hfirst, hothers, rfl⟩ := hfolded
    exact foldl_applyCall hothers (.receiver hfirst)

end Exp.Derives

end ClassLang
