import ClassLang.Proofs.Erasure
import ClassLang.Proofs.GrammarExactness
import Mathlib.Computability.Language

/-!
# Ways to write a tree

A tree does not say with which parentheses it was written.  They are needed around a
binary expression that is a receiver, an operand of a tighter operator, or the right
operand of an operator of the same level.  They may stand around every expression, any
number of times.  All other tokens of a tree are fixed.

So the ways to write a tree form a language, put together along the tree.  The lists in
it are those that derive the tree: each of them is read back as the tree, and no other
list is.
-/

namespace ClassLang

open Phrase

/-! ## Written forms -/

namespace Exp

/-- Where an expression stands. -/
inductive Position where
  | whole
  | receiver
  | left (op : Op)
  | right (op : Op)

end Exp

/-- The operators from the tightest to the loosest. -/
def Op.looseness : Op → Nat
  | plus => 0
  | less => 1
  | equals => 2

/-- Some pairs of parentheses around tokens. -/
def Token.nested : Nat → List Token → List Token
  | 0, tokens => tokens
  | count + 1, tokens =>
    .symbol .openParen :: nested count tokens ++ [.symbol .closeParen]

/-- `'(' [item (',' item)*] ')'` -/
def Token.listed : List (Language Token) → Language Token
  | [] => {[.symbol .openParen, .symbol .closeParen]}
  | first :: rest =>
    {[.symbol .openParen]} * first * (rest.map ({[.symbol .comma]} * ·)).prod *
      {[.symbol .closeParen]}

namespace Exp

namespace Position

/-- A binary expression needs parentheses as a receiver, as an operand of a tighter operator
and as the right operand of an operator of the same level. -/
def needsParens : Position → Exp Plain → Bool
  | receiver, .binary _ _ _ => true
  | left outer, .binary inner _ _ => outer.looseness < inner.looseness
  | right outer, .binary inner _ _ => outer.looseness ≤ inner.looseness
  | _, _ => false

/-- An expression at a position, if `bare` holds the ways to write it without parentheses
around the whole of it. -/
def enclosed (position : Position) (value : Exp Plain) (bare : Language Token) :
    Language Token :=
  {tokens | ∃ count, ∃ used ∈ bare, (position.needsParens value = true → 0 < count) ∧
    tokens = Token.nested count used}

end Position

mutual

/-- The ways to write an expression without parentheses around the whole of it. -/
def bare : Exp Plain → Language Token
  | int value => {[.integer value]}
  | bool true => {[.keyword .trueKw]}
  | bool false => {[.keyword .falseKw]}
  | var name => {[.ident name.text]}
  | this => {[.keyword .thisKw]}
  | binary op lhs rhs =>
    Position.enclosed (.left op) lhs lhs.bare * {[.symbol op.mark]} *
      Position.enclosed (.right op) rhs rhs.bare
  | call receiver method args _ =>
    Position.enclosed .receiver receiver receiver.bare *
      {[.symbol .dot, .ident method.text]} * Token.listed (argWritings args)
  | new name args => {[.keyword .newKw, .ident name.text]} * Token.listed (argWritings args)

def argWritings : List (Exp Plain) → List (Language Token)
  | [] => []
  | arg :: rest => Position.enclosed .whole arg arg.bare :: argWritings rest

end

/-- The ways to write an expression. -/
def writings (value : Exp Plain) : Language Token :=
  Position.enclosed .whole value value.bare

end Exp

def Ty.token : Ty → Token
  | int => .keyword .intKw
  | bool => .keyword .boolKw
  | void => .keyword .voidKw
  | object name => .ident name.text

def VarDec.tokens (var : VarDec) : List Token :=
  [var.ty.token, .ident var.name.text]

namespace Stmt

mutual

def writings : Stmt Plain → Language Token
  | exp value => value.writings * {[.symbol .semicolon]}
  | declare var value =>
    {var.tokens ++ [.symbol .assign]} * value.writings * {[.symbol .semicolon]}
  | assign target value =>
    {[.ident target.text, .symbol .assign]} * value.writings * {[.symbol .semicolon]}
  | ifElse guard thenArm elseArm =>
    {[.keyword .ifKw, .symbol .openParen]} * guard.writings * {[.symbol .closeParen]} *
      thenArm.writings * {[.keyword .elseKw]} * elseArm.writings
  | whileLoop guard body =>
    {[.keyword .whileKw, .symbol .openParen]} * guard.writings * {[.symbol .closeParen]} *
      body.writings
  | returnValue value =>
    {[.keyword .returnKw]} * value.writings * {[.symbol .semicolon]}
  | returnVoid => {[.keyword .returnKw, .symbol .semicolon]}
  | println value =>
    {[.keyword .printlnKw, .symbol .openParen]} * value.writings *
      {[.symbol .closeParen, .symbol .semicolon]}
  | block body =>
    {[.symbol .openBrace]} * writingsOfAll body * {[.symbol .closeBrace]}

def writingsOfAll : List (Stmt Plain) → Language Token
  | [] => 1
  | stmt :: rest => stmt.writings * writingsOfAll rest

end

end Stmt

def VarDec.paramWritings (params : List VarDec) : Language Token :=
  Token.listed (params.map fun param => {param.tokens})

def MethodDef.writings (method : MethodDef Plain) : Language Token :=
  {[method.returnTy.token, .ident method.name.text]} * VarDec.paramWritings method.params *
    method.body.writings

def ClassDef.writings (definition : ClassDef Plain) : Language Token :=
  {[.keyword .classKw, .ident definition.name.text, .keyword .extendsKw,
      .ident definition.parent.text, .symbol .openBrace]} *
    (definition.fields.map fun field => {field.tokens ++ [.symbol .semicolon]}).prod *
    {[.keyword .constructorKw]} * VarDec.paramWritings definition.params *
    {[.symbol .openBrace, .keyword .superKw]} *
    Token.listed (definition.superArgs.map Exp.writings) * {[.symbol .semicolon]} *
    Stmt.writingsOfAll definition.body * {[.symbol .closeBrace]} *
    (definition.methods.map MethodDef.writings).prod * {[.symbol .closeBrace]}

def Program.writings (program : Program Plain) : Language Token :=
  (program.classes.map ClassDef.writings).prod * program.entry.writings

/-! ## Lists of phrases -/

theorem Token.mem_word {tokens word : List Token} :
    tokens ∈ ({word} : Language Token) ↔ tokens = word :=
  Iff.rfl

theorem Token.word_append_mem {tokens : List Token} {phrases : Language Token}
    (word : List Token) (htokens : tokens ∈ phrases) : word ++ tokens ∈ {word} * phrases :=
  Language.append_mem_mul (Token.mem_word.mpr rfl) htokens

theorem Token.append_word_mem {tokens : List Token} {phrases : Language Token}
    (word : List Token) (htokens : tokens ∈ phrases) : tokens ++ word ∈ phrases * {word} :=
  Language.append_mem_mul htokens (Token.mem_word.mpr rfl)

namespace Phrase

variable {α : Type} {item : Phrase α} {writings : α → Language Token} {items : List α}
  {tokens : List Token}

theorem many_of_mem_prod (hitems : ∀ a ∈ items, ∀ used ∈ writings a, item used a)
    (htokens : tokens ∈ (items.map writings).prod) : Many item tokens items := by
  induction items generalizing tokens with
  | nil =>
      rw [List.map_nil, List.prod_nil, Language.mem_one] at htokens
      subst htokens
      exact .nil
  | cons a rest ih =>
      rw [List.map_cons, List.prod_cons, Language.mem_mul] at htokens
      rcases htokens with ⟨first, hfirst, more, hmore, rfl⟩
      rw [List.forall_mem_cons] at hitems
      exact .cons (hitems.1 first hfirst) (ih hitems.2 hmore)

theorem Many.mem_prod (hmany : Many item tokens items)
    (hitems : ∀ a ∈ items, ∀ used, used.length ≤ tokens.length → item used a →
      used ∈ writings a) :
    tokens ∈ (items.map writings).prod := by
  induction hmany with
  | nil => exact Language.nil_mem_one
  | @cons first more a rest hfirst hmore ih =>
      rw [List.forall_mem_cons] at hitems
      rw [List.map_cons, List.prod_cons]
      apply Language.append_mem_mul
      · exact hitems.1 first (by simp) hfirst
      · apply ih
        intro other hother used hlength
        exact hitems.2 other hother used (by simp only [List.length_append]; omega)

theorem parenthesized_of_mem_listed (hitems : ∀ a ∈ items, ∀ used ∈ writings a, item used a)
    (htokens : tokens ∈ Token.listed (items.map writings)) :
    Parenthesized item tokens items := by
  cases items with
  | nil =>
      rw [List.map_nil, Token.listed, Token.mem_word] at htokens
      subst htokens
      exact .nil
  | cons a rest =>
      rw [List.forall_mem_cons] at hitems
      simp only [List.map_cons, List.map_map, Token.listed, Language.mem_mul,
        Token.mem_word] at htokens
      rcases htokens with ⟨_, ⟨_, ⟨_, rfl, first, hfirst, rfl⟩, more, hmore, rfl⟩, _, rfl, rfl⟩
      apply Parenthesized.cons (hitems.1 first hfirst)
      apply many_of_mem_prod _ hmore
      intro other hother used hused
      rcases Language.mem_mul.mp hused with ⟨_, rfl, part, hpart, rfl⟩
      exact .intro (hitems.2 other hother part hpart)

theorem Parenthesized.mem_listed (hparenthesized : Parenthesized item tokens items)
    (hitems : ∀ a ∈ items, ∀ used, used.length < tokens.length → item used a →
      used ∈ writings a) :
    tokens ∈ Token.listed (items.map writings) := by
  cases hparenthesized with
  | nil => exact Token.mem_word.mpr rfl
  | @cons first more a rest hfirst hmore =>
      rw [List.forall_mem_cons] at hitems
      rw [List.map_cons, Token.listed, List.map_map]
      apply Token.append_word_mem
      apply Language.append_mem_mul
      · refine Token.word_append_mem _ (hitems.1 first ?_ hfirst)
        simp only [List.length_append, List.length_cons]
        omega
      · apply hmore.mem_prod
        intro other hother used hlength hused
        rcases hused with ⟨hpart⟩
        apply Token.word_append_mem [.symbol .comma]
        refine hitems.2 other hother _ ?_ hpart
        simp only [List.length_cons, List.length_append] at hlength ⊢
        omega

end Phrase

/-! ## Expressions -/

namespace Level

def rank : Level → Nat
  | primary => 0
  | chain => 1
  | operation op => op.looseness + 2

theorem rank_injective : Function.Injective rank := by
  intro level other heq
  rcases level with _ | _ | op <;> rcases other with _ | _ | op'
  case operation.operation => cases op <;> cases op' <;> cases heq <;> rfl
  all_goals cases heq <;> rfl

@[simp] theorem rank_primary : primary.rank = 0 := rfl

@[simp] theorem rank_chain : chain.rank = 1 := rfl

@[simp] theorem rank_operation (op : Op) : (operation op).rank = op.looseness + 2 := rfl

@[simp] theorem rank_operandLevel (op : Op) : op.operandLevel.rank = op.looseness + 1 := by
  cases op <;> rfl

theorem rank_le_loosest (level : Level) : level.rank ≤ loosest.rank := by
  rcases level with _ | _ | (_ | _ | _) <;> decide

end Level

/-- The tightest level whose rules build the expression. -/
def Exp.level : Exp Plain → Level
  | .binary op _ _ => .operation op
  | .call _ _ _ _ => .chain
  | _ => .primary

/-- The level from which the grammar takes what stands at a position. -/
def Exp.Position.level : Exp.Position → Level
  | whole => .loosest
  | receiver => .chain
  | left op => .operation op
  | right op => op.operandLevel

theorem Exp.Position.needsParens_iff {position : Exp.Position} {value : Exp Plain} :
    position.needsParens value = true ↔ position.level.rank < value.level.rank := by
  cases value with
  | binary inner lhs rhs =>
      cases position with
      | whole =>
          have hloosest := Level.rank_le_loosest (.operation inner)
          simpa [needsParens, level, Exp.level] using hloosest
      | receiver => simp [needsParens, level, Exp.level]
      | left outer => simp [needsParens, level, Exp.level]
      | right outer =>
          simp only [needsParens, level, Exp.level, decide_eq_true_eq, Level.rank_operandLevel,
            Level.rank_operation]
          omega
  | call receiver method args note =>
      cases position <;> simp [needsParens, level, Exp.level, Level.loosest]
  | _ => simp [needsParens, Exp.level]

namespace Exp.Derives

variable {level : Level} {tokens : List Token} {value : Exp Plain}

theorem of_rank_le {tight loose : Level} (hderives : Exp.Derives tight tokens value)
    (hrank : tight.rank ≤ loose.rank) : Exp.Derives loose tokens value := by
  cases hloose : loose with
  | primary =>
      have hsame : tight = .primary := Level.rank_injective (by simp_all [Level.rank])
      exact hsame ▸ hderives
  | chain =>
      cases tight with
      | primary => exact .receiver hderives
      | chain => exact hderives
      | operation op => simp [hloose, Level.rank] at hrank
  | operation op =>
      rcases Nat.eq_or_lt_of_le hrank with heq | hlt
      · exact hloose ▸ Level.rank_injective heq ▸ hderives
      · have htighter : tight.rank ≤ op.operandLevel.rank := by
          rw [hloose] at hlt
          rw [Level.rank_operandLevel]
          exact Nat.le_of_lt_succ hlt
        exact .operand (of_rank_le hderives htighter)
termination_by loose.rank
decreasing_by
  rw [hloose, Level.rank_operandLevel]
  exact Nat.lt_succ_self _

theorem nested_succ (hderives : Exp.Derives level tokens value) (count : Nat) :
    Exp.Derives .primary (Token.nested (count + 1) tokens) value := by
  induction count with
  | zero => exact .parens (hderives.of_rank_le (Level.rank_le_loosest level))
  | succ count ih => exact .parens ih.of_primary

end Exp.Derives

namespace Exp

theorem argWritings_eq_map (args : List (Exp Plain)) : argWritings args = args.map writings := by
  induction args with
  | nil => rfl
  | cons arg rest ih => rw [argWritings, ih, List.map_cons, writings]

/-- The ways to write an expression where the grammar wants one of the given level. -/
def formsAt (level : Level) (value : Exp Plain) : Language Token :=
  {tokens | ∃ count, ∃ used ∈ value.bare, (level.rank < value.level.rank → 0 < count) ∧
    tokens = Token.nested count used}

theorem enclosed_bare (position : Position) (value : Exp Plain) :
    position.enclosed value value.bare = value.formsAt position.level := by
  apply Language.ext
  intro tokens
  change (∃ count, ∃ used ∈ value.bare, (position.needsParens value = true → 0 < count) ∧
    tokens = Token.nested count used) ↔ _
  rw [Position.needsParens_iff]
  rfl

section

variable {level : Level} {value : Exp Plain} {tokens : List Token}

theorem mem_formsAt_of_bare (htokens : tokens ∈ value.bare) :
    tokens ∈ value.formsAt value.level :=
  ⟨0, tokens, htokens, fun hlooser => absurd hlooser (Nat.lt_irrefl _), rfl⟩

theorem mem_formsAt_of_rank_le {tight : Level} (hrank : tight.rank ≤ level.rank)
    (htokens : tokens ∈ value.formsAt tight) : tokens ∈ value.formsAt level := by
  rcases htokens with ⟨count, used, hused, hneeded, rfl⟩
  exact ⟨count, used, hused, fun hlooser => hneeded (Nat.lt_of_le_of_lt hrank hlooser), rfl⟩

theorem parens_mem_formsAt {inner : Level} (htokens : tokens ∈ value.formsAt inner) :
    .symbol .openParen :: tokens ++ [.symbol .closeParen] ∈ value.formsAt level := by
  rcases htokens with ⟨count, used, hused, -, rfl⟩
  exact ⟨count + 1, used, hused, fun _ => Nat.succ_pos count, rfl⟩

theorem derives_of_mem_formsAt
    (hbare : ∀ used ∈ value.bare, Exp.Derives value.level used value)
    (htokens : tokens ∈ value.formsAt level) : Exp.Derives level tokens value := by
  rcases htokens with ⟨count, used, hused, hneeded, rfl⟩
  cases count with
  | zero =>
      have hfits : ¬ level.rank < value.level.rank := fun hlooser =>
        Nat.lt_irrefl 0 (hneeded hlooser)
      exact (hbare used hused).of_rank_le (Nat.le_of_not_lt hfits)
  | succ count => exact ((hbare used hused).nested_succ count).of_rank_le (Nat.zero_le _)

end

theorem derives_of_mem_bare {value : Exp Plain} {tokens : List Token}
    (htokens : tokens ∈ value.bare) : Exp.Derives value.level tokens value := by
  induction value generalizing tokens with
  | int value =>
      rw [bare, Token.mem_word] at htokens
      subst htokens
      exact .int
  | bool value =>
      cases value <;> rw [bare, Token.mem_word] at htokens <;> subst htokens
      · exact .falseLiteral
      · exact .trueLiteral
  | var name =>
      rw [bare, Token.mem_word] at htokens
      subst htokens
      exact .var
  | this =>
      rw [bare, Token.mem_word] at htokens
      subst htokens
      exact .this
  | binary op lhs rhs ihLhs ihRhs =>
      simp only [bare, enclosed_bare, Language.mem_mul, Token.mem_word] at htokens
      rcases htokens with ⟨_, ⟨left, hleft, _, rfl, rfl⟩, right, hright, rfl⟩
      rw [List.append_assoc]
      exact .binary (derives_of_mem_formsAt (fun _ => ihLhs) hleft)
        (derives_of_mem_formsAt (fun _ => ihRhs) hright)
  | call receiver method args note ihReceiver ihArgs =>
      simp only [bare, enclosed_bare, argWritings_eq_map, Language.mem_mul,
        Token.mem_word] at htokens
      rcases htokens with ⟨_, ⟨left, hleft, _, rfl, rfl⟩, right, hright, rfl⟩
      rw [List.append_assoc]
      apply Exp.Derives.call (derives_of_mem_formsAt (fun _ => ihReceiver) hleft)
      apply parenthesized_of_mem_listed _ hright
      intro arg harg used hused
      rw [writings, enclosed_bare] at hused
      exact derives_of_mem_formsAt (fun _ => ihArgs arg harg) hused
  | new name args ihArgs =>
      simp only [bare, argWritings_eq_map, Language.mem_mul, Token.mem_word] at htokens
      rcases htokens with ⟨_, rfl, right, hright, rfl⟩
      apply Exp.Derives.new
      apply parenthesized_of_mem_listed _ hright
      intro arg harg used hused
      rw [writings, enclosed_bare] at hused
      exact derives_of_mem_formsAt (fun _ => ihArgs arg harg) hused

/-- A derivation is the rule for the top of the tree inside of some parentheses.  Rules that
keep the tokens go to a tighter level, all others to a shorter list. -/
theorem Derives.mem_formsAt {level : Level} {tokens : List Token} {value : Exp Plain} :
    Exp.Derives level tokens value → tokens ∈ value.formsAt level
  | .int | .trueLiteral | .falseLiteral | .var | .this =>
      mem_formsAt_of_bare (Token.mem_word.mpr rfl)
  | .parens hinner => parens_mem_formsAt hinner.mem_formsAt
  | @Derives.new name used args hargs => by
      apply mem_formsAt_of_bare
      rw [bare, argWritings_eq_map]
      apply Token.word_append_mem [.keyword .newKw, .ident name]
      apply hargs.mem_listed
      intro arg harg part hlength hpart
      rw [writings, enclosed_bare]
      exact hpart.mem_formsAt
  | .receiver hprimary => mem_formsAt_of_rank_le (Nat.zero_le _) hprimary.mem_formsAt
  | @Derives.call left right target method args hleft hargs => by
      apply mem_formsAt_of_bare
      rw [bare, argWritings_eq_map, enclosed_bare]
      rw [show left ++ .symbol .dot :: .ident method :: right =
        left ++ [.symbol .dot, .ident method] ++ right by simp]
      apply Language.append_mem_mul (Token.append_word_mem _ hleft.mem_formsAt)
      apply hargs.mem_listed
      intro arg harg part hlength hpart
      rw [writings, enclosed_bare]
      exact hpart.mem_formsAt
  | @Derives.operand op _ _ hoperand => by
      apply mem_formsAt_of_rank_le _ hoperand.mem_formsAt
      simp
  | @Derives.binary op left right lhs rhs hleft hright => by
      apply mem_formsAt_of_bare
      rw [bare, enclosed_bare, enclosed_bare]
      rw [show left ++ .symbol op.mark :: right = left ++ [.symbol op.mark] ++ right by simp]
      exact Language.append_mem_mul (Token.append_word_mem _ hleft.mem_formsAt)
        hright.mem_formsAt
termination_by (tokens.length, level.rank)

theorem mem_writings_iff {value : Exp Plain} {tokens : List Token} :
    tokens ∈ value.writings ↔ Exp.Derives .loosest tokens value := by
  rw [writings, enclosed_bare]
  constructor
  · exact derives_of_mem_formsAt fun _ => derives_of_mem_bare
  · exact Derives.mem_formsAt

end Exp

/-! ## Statements, classes and programs -/

theorem Ty.derives_iff {ty : Ty} {tokens : List Token} :
    Ty.Derives tokens ty ↔ tokens = [ty.token] := by
  constructor
  · intro hderives
    cases hderives <;> rfl
  · rintro rfl
    cases ty with
    | int => exact .int
    | bool => exact .bool
    | void => exact .void
    | object name => exact .object

theorem VarDec.derives_iff {var : VarDec} {tokens : List Token} :
    VarDec.Derives tokens var ↔ tokens = var.tokens := by
  constructor
  · rintro ⟨hty⟩
    rw [Ty.derives_iff.mp hty]
    rfl
  · rintro rfl
    exact .intro (Ty.derives_iff.mpr rfl)

theorem VarDec.fieldDerives_iff {var : VarDec} {tokens : List Token} :
    VarDec.FieldDerives tokens var ↔ tokens = var.tokens ++ [.symbol .semicolon] := by
  constructor
  · rintro ⟨hvar⟩
    rw [VarDec.derives_iff.mp hvar]
  · rintro rfl
    exact .intro (VarDec.derives_iff.mpr rfl)

/-- Phrases that follow each other, if the ways to write one are known. -/
theorem Phrase.mem_prod_iff {α : Type} {item : Phrase α} {writings : α → Language Token}
    {items : List α} {tokens : List Token}
    (hitems : ∀ a ∈ items, ∀ used, used ∈ writings a ↔ item used a) :
    tokens ∈ (items.map writings).prod ↔ Many item tokens items := by
  constructor
  · exact many_of_mem_prod fun a ha used => (hitems a ha used).mp
  · intro hmany
    exact hmany.mem_prod fun a ha used _ => (hitems a ha used).mpr

theorem Phrase.mem_listed_iff {α : Type} {item : Phrase α} {writings : α → Language Token}
    {items : List α} {tokens : List Token}
    (hitems : ∀ a used, used ∈ writings a ↔ item used a) :
    tokens ∈ Token.listed (items.map writings) ↔ Parenthesized item tokens items := by
  constructor
  · exact parenthesized_of_mem_listed fun a _ used => (hitems a used).mp
  · intro hparenthesized
    exact hparenthesized.mem_listed fun a _ used _ => (hitems a used).mpr

theorem VarDec.mem_paramWritings_iff {params : List VarDec} {tokens : List Token} :
    tokens ∈ VarDec.paramWritings params ↔ Parenthesized VarDec.Derives tokens params :=
  mem_listed_iff fun _ _ => VarDec.derives_iff.symm

namespace Stmt

theorem writingsOfAll_eq_prod (body : List (Stmt Plain)) :
    writingsOfAll body = (body.map writings).prod := by
  induction body with
  | nil => rfl
  | cons stmt rest ih => rw [writingsOfAll, ih, List.map_cons, List.prod_cons]

theorem mem_writings_iff {stmt : Stmt Plain} {tokens : List Token} :
    tokens ∈ stmt.writings ↔ Stmt.Derives tokens stmt := by
  induction stmt generalizing tokens with
  | exp value =>
      simp only [writings, Language.mem_mul, Token.mem_word, Exp.mem_writings_iff]
      constructor
      · rintro ⟨used, hused, _, rfl, rfl⟩
        exact .exp hused
      · intro hderives
        cases hderives with
        | exp hused => exact ⟨_, hused, _, rfl, rfl⟩
  | declare var value =>
      simp only [writings, Language.mem_mul, Token.mem_word, Exp.mem_writings_iff]
      constructor
      · rintro ⟨_, ⟨_, rfl, right, hright, rfl⟩, _, rfl, rfl⟩
        rw [List.append_assoc var.tokens]
        exact .declare (VarDec.derives_iff.mpr rfl) hright
      · intro hderives
        cases hderives with
        | declare hvar hright =>
            rw [VarDec.derives_iff.mp hvar]
            exact ⟨_, ⟨_, rfl, _, hright, rfl⟩, _, rfl, by simp⟩
  | assign target value =>
      simp only [writings, Language.mem_mul, Token.mem_word, Exp.mem_writings_iff]
      constructor
      · rintro ⟨_, ⟨_, rfl, used, hused, rfl⟩, _, rfl, rfl⟩
        exact .assign hused
      · intro hderives
        cases hderives with
        | assign hused => exact ⟨_, ⟨_, rfl, _, hused, rfl⟩, _, rfl, rfl⟩
  | ifElse guard thenArm elseArm ihThen ihElse =>
      simp only [writings, Language.mem_mul, Token.mem_word, Exp.mem_writings_iff, ihThen, ihElse]
      constructor
      · rintro ⟨_, ⟨_, ⟨_, ⟨_, ⟨_, rfl, left, hleft, rfl⟩, _, rfl, rfl⟩, middle, hmiddle, rfl⟩,
          _, rfl, rfl⟩, right, hright, rfl⟩
        have hderives := Stmt.Derives.ifElse hleft hmiddle hright
        simpa using hderives
      · intro hderives
        cases hderives with
        | ifElse hleft hmiddle hright =>
            exact ⟨_, ⟨_, ⟨_, ⟨_, ⟨_, rfl, _, hleft, rfl⟩, _, rfl, rfl⟩, _, hmiddle, rfl⟩,
              _, rfl, rfl⟩, _, hright, by simp⟩
  | whileLoop guard body ih =>
      simp only [writings, Language.mem_mul, Token.mem_word, Exp.mem_writings_iff, ih]
      constructor
      · rintro ⟨_, ⟨_, ⟨_, rfl, left, hleft, rfl⟩, _, rfl, rfl⟩, right, hright, rfl⟩
        have hderives := Stmt.Derives.whileLoop hleft hright
        simpa using hderives
      · intro hderives
        cases hderives with
        | whileLoop hleft hright =>
            exact ⟨_, ⟨_, ⟨_, rfl, _, hleft, rfl⟩, _, rfl, rfl⟩, _, hright, by simp⟩
  | returnValue value =>
      simp only [writings, Language.mem_mul, Token.mem_word, Exp.mem_writings_iff]
      constructor
      · rintro ⟨_, ⟨_, rfl, used, hused, rfl⟩, _, rfl, rfl⟩
        exact .returnValue hused
      · intro hderives
        cases hderives with
        | returnValue hused => exact ⟨_, ⟨_, rfl, _, hused, rfl⟩, _, rfl, rfl⟩
  | returnVoid =>
      rw [writings, Token.mem_word]
      constructor
      · rintro rfl
        exact .returnVoid
      · intro hderives
        cases hderives
        rfl
  | println value =>
      simp only [writings, Language.mem_mul, Token.mem_word, Exp.mem_writings_iff]
      constructor
      · rintro ⟨_, ⟨_, rfl, used, hused, rfl⟩, _, rfl, rfl⟩
        exact .println hused
      · intro hderives
        cases hderives with
        | println hused => exact ⟨_, ⟨_, rfl, _, hused, rfl⟩, _, rfl, rfl⟩
  | block body ih =>
      simp only [writings, writingsOfAll_eq_prod, Language.mem_mul, Token.mem_word,
        mem_prod_iff fun stmt hstmt used => ih stmt hstmt]
      constructor
      · rintro ⟨_, ⟨_, rfl, used, hused, rfl⟩, _, rfl, rfl⟩
        exact .block hused
      · intro hderives
        cases hderives with
        | block hused => exact ⟨_, ⟨_, rfl, _, hused, rfl⟩, _, rfl, rfl⟩

end Stmt

theorem MethodDef.mem_writings_iff {method : MethodDef Plain} {tokens : List Token} :
    tokens ∈ method.writings ↔ MethodDef.Derives tokens method := by
  simp only [writings, Language.mem_mul, Token.mem_word, VarDec.mem_paramWritings_iff,
    Stmt.mem_writings_iff]
  constructor
  · rintro ⟨_, ⟨_, rfl, middle, hmiddle, rfl⟩, right, hright, rfl⟩
    exact .intro (Ty.derives_iff.mpr rfl) hmiddle hright
  · rintro ⟨hty, hmiddle, hright⟩
    rw [Ty.derives_iff.mp hty]
    exact ⟨_, ⟨_, rfl, _, hmiddle, rfl⟩, _, hright, by simp⟩

theorem ClassDef.mem_writings_iff {definition : ClassDef Plain} {tokens : List Token} :
    tokens ∈ definition.writings ↔ ClassDef.Derives tokens definition := by
  have hfields (used : List Token) :
      used ∈ (definition.fields.map fun field =>
          ({field.tokens ++ [.symbol .semicolon]} : Language Token)).prod ↔
        Many VarDec.FieldDerives used definition.fields :=
    mem_prod_iff fun _ _ _ => VarDec.fieldDerives_iff.symm
  have hsuperArgs (used : List Token) :
      used ∈ Token.listed (definition.superArgs.map Exp.writings) ↔
        Parenthesized (Exp.Derives .loosest) used definition.superArgs :=
    mem_listed_iff fun _ _ => Exp.mem_writings_iff
  have hbody (used : List Token) :
      used ∈ Stmt.writingsOfAll definition.body ↔ Many Stmt.Derives used definition.body := by
    rw [Stmt.writingsOfAll_eq_prod]
    exact mem_prod_iff fun _ _ _ => Stmt.mem_writings_iff
  have hmethods (used : List Token) :
      used ∈ (definition.methods.map MethodDef.writings).prod ↔
        Many MethodDef.Derives used definition.methods :=
    mem_prod_iff fun _ _ _ => MethodDef.mem_writings_iff
  simp only [writings, Language.mem_mul, Token.mem_word, VarDec.mem_paramWritings_iff, hfields,
    hsuperArgs, hbody, hmethods]
  constructor
  · rintro ⟨_, ⟨_, ⟨_, ⟨_, ⟨_, ⟨_, ⟨_, ⟨_, ⟨_, ⟨_, rfl, ofFields, hofFields, rfl⟩, _, rfl, rfl⟩,
      ofParams, hofParams, rfl⟩, _, rfl, rfl⟩, ofSuperArgs, hofSuperArgs, rfl⟩, _, rfl, rfl⟩,
      ofBody, hofBody, rfl⟩, _, rfl, rfl⟩, ofMethods, hofMethods, rfl⟩, _, rfl, rfl⟩
    have hderives : ClassDef.Derives _ definition :=
      .intro hofFields hofParams hofSuperArgs hofBody hofMethods
    simpa using hderives
  · rintro ⟨hofFields, hofParams, hofSuperArgs, hofBody, hofMethods⟩
    exact ⟨_, ⟨_, ⟨_, ⟨_, ⟨_, ⟨_, ⟨_, ⟨_, ⟨_, ⟨_, rfl, _, hofFields, rfl⟩, _, rfl, rfl⟩,
      _, hofParams, rfl⟩, _, rfl, rfl⟩, _, hofSuperArgs, rfl⟩, _, rfl, rfl⟩,
      _, hofBody, rfl⟩, _, rfl, rfl⟩, _, hofMethods, rfl⟩, _, rfl, by simp⟩

theorem Program.mem_writings_iff {program : Program Plain} {tokens : List Token} :
    tokens ∈ program.writings ↔ Program.Derives tokens program := by
  have hclasses (used : List Token) :
      used ∈ (program.classes.map ClassDef.writings).prod ↔
        Many ClassDef.Derives used program.classes :=
    mem_prod_iff fun _ _ _ => ClassDef.mem_writings_iff
  simp only [writings, Language.mem_mul, hclasses, Stmt.mem_writings_iff]
  constructor
  · rintro ⟨left, hleft, right, hright, rfl⟩
    exact .intro hleft hright
  · rintro ⟨hleft, hright⟩
    exact ⟨_, hleft, _, hright, rfl⟩

/-! ## Every tree has a written form -/

namespace Token

theorem exists_mem_word (word : List Token) : ∃ tokens, tokens ∈ ({word} : Language Token) :=
  ⟨word, mem_word.mpr rfl⟩

theorem exists_mem_mul_iff {first second : Language Token} :
    (∃ tokens, tokens ∈ first * second) ↔
      (∃ tokens, tokens ∈ first) ∧ ∃ tokens, tokens ∈ second := by
  constructor
  · rintro ⟨_, left, hleft, right, hright, rfl⟩
    exact ⟨⟨left, hleft⟩, right, hright⟩
  · rintro ⟨⟨left, hleft⟩, right, hright⟩
    exact ⟨left ++ right, Language.append_mem_mul hleft hright⟩

variable {α : Type} {writings : α → Language Token}

theorem exists_mem_prod (items : List α) (hitems : ∀ a ∈ items, ∃ tokens, tokens ∈ writings a) :
    ∃ tokens, tokens ∈ (items.map writings).prod := by
  induction items with
  | nil => exact ⟨[], Language.nil_mem_one⟩
  | cons a rest ih =>
      rw [List.forall_mem_cons] at hitems
      rw [List.map_cons, List.prod_cons, exists_mem_mul_iff]
      exact ⟨hitems.1, ih hitems.2⟩

theorem exists_mem_listed (items : List α)
    (hitems : ∀ a ∈ items, ∃ tokens, tokens ∈ writings a) :
    ∃ tokens, tokens ∈ listed (items.map writings) := by
  cases items with
  | nil => exact exists_mem_word _
  | cons a rest =>
      rw [List.forall_mem_cons] at hitems
      simp only [List.map_cons, List.map_map, listed, exists_mem_mul_iff, exists_mem_word,
        true_and, and_true]
      refine ⟨hitems.1, exists_mem_prod rest fun other hother => ?_⟩
      exact exists_mem_mul_iff.mpr ⟨exists_mem_word _, hitems.2 other hother⟩

end Token

open Token

theorem Exp.exists_mem_enclosed {position : Exp.Position} {value : Exp Plain}
    {bare : Language Token} (hbare : ∃ tokens, tokens ∈ bare) :
    ∃ tokens, tokens ∈ position.enclosed value bare := by
  rcases hbare with ⟨used, hused⟩
  exact ⟨_, 1, used, hused, fun _ => Nat.one_pos, rfl⟩

theorem Exp.exists_mem_writings (value : Exp Plain) : ∃ tokens, tokens ∈ value.writings := by
  apply exists_mem_enclosed
  induction value with
  | int | var | this => exact exists_mem_word _
  | bool value => cases value <;> exact exists_mem_word _
  | binary op lhs rhs ihLhs ihRhs =>
      simp only [bare, exists_mem_mul_iff]
      exact ⟨⟨exists_mem_enclosed ihLhs, exists_mem_word _⟩, exists_mem_enclosed ihRhs⟩
  | call receiver method args note ihReceiver ihArgs =>
      simp only [bare, argWritings_eq_map, exists_mem_mul_iff]
      refine ⟨⟨exists_mem_enclosed ihReceiver, exists_mem_word _⟩, exists_mem_listed args ?_⟩
      exact fun arg harg => exists_mem_enclosed (ihArgs arg harg)
  | new name args ihArgs =>
      simp only [bare, argWritings_eq_map, exists_mem_mul_iff]
      refine ⟨exists_mem_word _, exists_mem_listed args ?_⟩
      exact fun arg harg => exists_mem_enclosed (ihArgs arg harg)

theorem Stmt.exists_mem_writings (stmt : Stmt Plain) : ∃ tokens, tokens ∈ stmt.writings := by
  induction stmt with
  | returnVoid => exact exists_mem_word _
  | ifElse guard thenArm elseArm ihThen ihElse =>
      simp only [writings, exists_mem_mul_iff, exists_mem_word, Exp.exists_mem_writings, ihThen,
        ihElse, and_self]
  | whileLoop guard body ih =>
      simp only [writings, exists_mem_mul_iff, exists_mem_word, Exp.exists_mem_writings, ih,
        and_self]
  | block body ih =>
      simp only [writings, writingsOfAll_eq_prod, exists_mem_mul_iff, exists_mem_word,
        exists_mem_prod body ih, and_self]
  | _ =>
      simp only [writings, exists_mem_mul_iff, exists_mem_word, Exp.exists_mem_writings, and_self]

theorem Program.exists_mem_writings (program : Program Plain) :
    ∃ tokens, tokens ∈ program.writings := by
  have hparams (params : List VarDec) : ∃ tokens, tokens ∈ VarDec.paramWritings params :=
    exists_mem_listed params fun _ _ => exists_mem_word _
  have hmethod (method : MethodDef Plain) : ∃ tokens, tokens ∈ method.writings := by
    simp only [MethodDef.writings, exists_mem_mul_iff, exists_mem_word, hparams,
      Stmt.exists_mem_writings, and_self]
  have hclass (definition : ClassDef Plain) : ∃ tokens, tokens ∈ definition.writings := by
    have hfields := exists_mem_prod definition.fields fun field _ =>
      exists_mem_word (field.tokens ++ [.symbol .semicolon])
    have hsuperArgs := exists_mem_listed definition.superArgs fun arg _ =>
      arg.exists_mem_writings
    have hbody := exists_mem_prod definition.body fun stmt _ =>
      stmt.exists_mem_writings
    have hmethods := exists_mem_prod definition.methods fun method _ => hmethod method
    simp only [ClassDef.writings, Stmt.writingsOfAll_eq_prod, exists_mem_mul_iff,
      exists_mem_word, hparams, hfields, hsuperArgs, hbody, hmethods, and_self]
  have hclasses := exists_mem_prod program.classes fun definition _ => hclass definition
  exact exists_mem_mul_iff.mpr ⟨hclasses, program.entry.exists_mem_writings⟩

/-- Every tree can be written down, and the token lists that are read as a tree are the ways
to write it. -/
theorem writings_read_back :
    (∀ value : Exp Plain, (∃ tokens, tokens ∈ value.writings) ∧
      ∀ tokens, tokens ∈ value.writings ↔ Exp.parse tokens = .ok value) ∧
    (∀ stmt : Stmt Plain, (∃ tokens, tokens ∈ stmt.writings) ∧
      ∀ tokens, tokens ∈ stmt.writings ↔ Stmt.parse tokens = .ok stmt) ∧
    (∀ program : Program Plain, (∃ tokens, tokens ∈ program.writings) ∧
      ∀ tokens, tokens ∈ program.writings ↔ Program.parse tokens = .ok program) := by
  have hend : Level.loosest.Ends [] := by simp [Level.Ends]
  refine ⟨?_, ?_, ?_⟩
  · intro value
    refine ⟨value.exists_mem_writings, fun tokens => ?_⟩
    rw [Exp.mem_writings_iff]
    exact (Production.parseAll_ok_iff Grammar.exact_exp hend).symm
  · intro stmt
    refine ⟨stmt.exists_mem_writings, fun tokens => ?_⟩
    rw [Stmt.mem_writings_iff]
    exact (Production.parseAll_ok_iff Grammar.exact_stmt trivial).symm
  · intro program
    refine ⟨program.exists_mem_writings, fun tokens => ?_⟩
    rw [Program.mem_writings_iff]
    exact (Production.parseAll_ok_iff Grammar.exact_program trivial).symm

end ClassLang
