import ClassLang.Proofs.Identifiers
import ClassLang.Proofs.Linking
import ClassLang.Proofs.TopLevelNames
import ClassLang.Proofs.WrittenVariables

/-!
# Expressions are told apart by their code

The code of an expression is a single word, such as a literal or a variable, or it has its
parts between parentheses.  So it can be seen where it ends, and the code can be read back
from its text as long as no binding has the name of the receiver.

A call keeps only the slot of its method.  The method can be found again in the table of
the class of the receiver, and the code of the receiver tells which class that is.
-/

namespace ClassLang

open Script

namespace Script.Expr

/-! ## Words -/

/-- The characters of a word in the code of an expression. -/
def isWordPart (c : Char) : Bool :=
  Token.isWordChar c || c = '-' || c = '.'

/-- What can follow an expression in code. -/
def Ends (rest : List Char) : Prop :=
  ∀ c ∈ rest.head?, isWordPart c = false ∧ c ≠ '('

theorem ends_nil : Ends [] := by simp [Ends]

theorem ends_space (rest : List Char) : Ends (' ' :: rest) := by
  simpa [Ends] using (by decide : isWordPart ' ' = false)

theorem ends_comma (rest : List Char) : Ends (',' :: rest) := by
  simpa [Ends] using (by decide : isWordPart ',' = false)

theorem ends_paren (rest : List Char) : Ends (')' :: rest) := by
  simpa [Ends] using (by decide : isWordPart ')' = false)

theorem isWordPart_of_isIdentifier {name : String} (hname : IsIdentifier name) :
    ∀ c ∈ name.toList, isWordPart c = true := by
  intro c hc
  simp [isWordPart, hname.isWordChar c hc]

theorem isWordPart_literal {literal : String} (hall : literal.toList.all isWordPart = true) :
    ∀ c ∈ literal.toList, isWordPart c = true :=
  List.all_eq_true.mp hall

theorem isWordPart_of_isNumeralChar {c : Char} (hc : isNumeralChar c = true) :
    isWordPart c = true := by
  simp only [isNumeralChar, Bool.or_eq_true, decide_eq_true_eq] at hc
  rcases hc with hdigit | rfl
  · simp [isWordPart, Token.isWordChar_of_isDigit hdigit]
  · rfl

/-- Code whose names are identifiers, those of bindings being of a given kind. -/
inductive Legible (bindable : VarName → Prop) : Expr → Prop where
  | int (value : Int64) : Legible bindable (.int value)
  | bool (value : Bool) : Legible bindable (.bool value)
  | binding {name : VarName} :
      IsIdentifier name.text → bindable name → Legible bindable (.read (.binding name))
  | member {name : VarName} :
      IsIdentifier name.text → Legible bindable (.read (.member name))
  | receiver : Legible bindable .receiver
  | binary (op : Op) {lhs rhs : Expr} :
      Legible bindable lhs → Legible bindable rhs → Legible bindable (.binary op lhs rhs)
  | dispatch {target : Expr} (slot : Nat) {args : List Expr} :
      Legible bindable target → (∀ arg ∈ args, Legible bindable arg) →
      Legible bindable (.dispatch target slot args)
  | make {name : ClassName} {args : List Expr} :
      IsIdentifier name.text → (∀ arg ∈ args, Legible bindable arg) →
      Legible bindable (.make name args)

/-- The word before the first parenthesis, if there is one. -/
def opening? : Expr → Option String
  | binary .. => some ""
  | dispatch .. => some "doCall"
  | make .. => some "makeObject"
  | _ => none

variable {bindable : VarName → Prop} {code other : Expr}

theorem text_bool (value : Bool) : (bool value).text = if value then "true" else "false" := by
  cases value <;> rfl

theorem toList_text_binary (op : Op) (lhs rhs : Expr) :
    (binary op lhs rhs).text.toList =
      '(' :: (lhs.text.toList ++ ' ' :: (op.text.toList ++ ' ' :: (rhs.text.toList ++ [')']))) := by
  simp [text]

theorem toList_text_dispatch (target : Expr) (slot : Nat) (args : List Expr) :
    (dispatch target slot args).text.toList =
      "doCall(".toList ++ (target.text.toList ++
        ',' :: ' ' :: (slot.repr.toList ++ ((furtherText args).toList ++ [')']))) := by
  simp [text]

theorem toList_text_make (name : ClassName) (args : List Expr) :
    (make name args).text.toList =
      "makeObject(vtable_".toList ++ (name.text.toList ++
        ',' :: ' ' :: ((constructorName name).toList ++ ((furtherText args).toList ++ [')']))) := by
  simp [text, tableName]

theorem Legible.isWordPart_of_mem (hcode : code.Legible bindable)
    (hopening : code.opening? = none) : ∀ c ∈ code.text.toList, isWordPart c = true := by
  cases hcode with
  | int value =>
      intro c hc
      exact isWordPart_of_isNumeralChar (isNumeralChar_of_mem_repr hc)
  | bool value =>
      cases value with
      | true => exact isWordPart_literal rfl
      | false => exact isWordPart_literal rfl
  | binding hname => exact isWordPart_of_isIdentifier hname
  | member hname =>
      simp only [text, Place.text, String.toList_append, List.forall_mem_append]
      exact ⟨isWordPart_literal rfl, isWordPart_of_isIdentifier hname⟩
  | receiver => exact isWordPart_literal rfl
  | binary | dispatch | make => simp [opening?] at hopening

theorem exists_text_of_opening? {word : String} (hopening : code.opening? = some word) :
    (∀ c ∈ word.toList, isWordPart c = true) ∧
      ∃ inside, code.text.toList = word.toList ++ '(' :: inside := by
  cases code with
  | int | bool | read | receiver => simp [opening?] at hopening
  | binary op lhs rhs =>
      obtain rfl : "" = word := by simpa [opening?] using hopening
      exact ⟨by simp, _, by simp [text]; rfl⟩
  | dispatch target slot args =>
      obtain rfl : "doCall" = word := by simpa [opening?] using hopening
      exact ⟨isWordPart_literal rfl, _, by simp [text]; rfl⟩
  | make name args =>
      obtain rfl : "makeObject" = word := by simpa [opening?] using hopening
      exact ⟨isWordPart_literal rfl, _, by simp [text]; rfl⟩

/-- The first word of the code shows whether there is more to it than that word. -/
theorem Legible.opening?_eq (hcode : code.Legible bindable) (hother : other.Legible bindable)
    {rest after : List Char} (hrest : Ends rest) (hafter : Ends after)
    (htext : code.text.toList ++ rest = other.text.toList ++ after) :
    code.opening? = other.opening? := by
  have hends {text : List Char} (htext : Ends text) :
      ∀ c ∈ text.head?, isWordPart c = false := fun c hc => (htext c hc).1
  have hparen (inside rest : List Char) :
      ∀ c ∈ ('(' :: inside ++ rest).head?, isWordPart c = false :=
    head_cons_of_class (by decide) _
  cases hopening : code.opening? with
  | none =>
      cases hothers : other.opening? with
      | none => rfl
      | some word =>
          rcases exists_text_of_opening? hothers with ⟨hword, inside, hinside⟩
          rw [hinside, List.append_assoc] at htext
          have hcut := append_inj_of_class (hcode.isWordPart_of_mem hopening) hword (hends hrest)
            (hparen _ _) htext
          exact absurd rfl (hrest '(' (by simp [hcut.2])).2
  | some word =>
      rcases exists_text_of_opening? hopening with ⟨hword, inside, hinside⟩
      rw [hinside, List.append_assoc] at htext
      cases hothers : other.opening? with
      | none =>
          have hcut := append_inj_of_class hword (hother.isWordPart_of_mem hothers) (hparen _ _)
            (hends hafter) htext
          exact absurd rfl (hafter '(' (by simp [← hcut.2])).2
      | some second =>
          rcases exists_text_of_opening? hothers with ⟨hsecond, more, hmore⟩
          rw [hmore, List.append_assoc] at htext
          have hcut := append_inj_of_class hword hsecond (hparen _ _) (hparen _ _) htext
          rw [String.toList_inj.mp hcut.1]

/-! ## What a word stands for -/

inductive WordKind where
  | number | truth | receiver | binding | member
deriving DecidableEq

def WordKind.ofText (text : String) : WordKind :=
  if '.' ∈ text.toList then .member
  else if text = receiverName.text then .receiver
  else if text = "true" ∨ text = "false" then .truth
  else if text.toList.all isNumeralChar then .number
  else .binding

def wordKind : Expr → WordKind
  | int _ => .number
  | bool _ => .truth
  | read (.binding _) => .binding
  | read (.member _) => .member
  | _ => .receiver

theorem Legible.ofText_text (hcode : code.Legible bindable) (hopening : code.opening? = none)
    (hfree : ¬ bindable receiverName) : WordKind.ofText code.text = code.wordKind := by
  cases hcode with
  | int value =>
      have hnumeral : ∀ c ∈ value.toInt.repr.toList, isNumeralChar c = true :=
        fun c hc => isNumeralChar_of_mem_repr hc
      have hword {word : String} {c : Char} (hc : c ∈ word.toList)
          (hletter : isNumeralChar c = false) : value.toInt.repr ≠ word := by
        rintro rfl
        simp [hnumeral c hc] at hletter
      have hdot : '.' ∉ value.toInt.repr.toList := fun hmem => by
        exact absurd (hnumeral '.' hmem) (by decide)
      have hself : value.toInt.repr ≠ receiverName.text :=
        hword (c := 's') (by simp [receiverName]) (by decide)
      have htrue : value.toInt.repr ≠ "true" := hword (c := 't') (by simp) (by decide)
      have hfalse : value.toInt.repr ≠ "false" := hword (c := 'f') (by simp) (by decide)
      simp [WordKind.ofText, wordKind, text, hdot, hself, htrue, hfalse,
        List.all_eq_true.mpr hnumeral]
  | bool value => cases value <;> simp [text_bool, WordKind.ofText, wordKind, receiverName]
  | @binding name hname hbindable =>
      have hdot : '.' ∉ name.text.toList := fun hmem =>
        absurd (hname.isWordChar '.' hmem) (by decide)
      have hself : name.text ≠ receiverName.text := by
        intro hsame
        cases name
        cases hsame
        exact hfree hbindable
      have htrue : name.text ≠ "true" := fun hsame => hname.2 .trueKw hsame.symm
      have hfalse : name.text ≠ "false" := fun hsame => hname.2 .falseKw hsame.symm
      have hletter : name.text.toList.all isNumeralChar = false := by
        rcases hname.exists_cons with ⟨c, rest, hlist, hstart⟩
        have hdash : c ≠ '-' := by
          rintro rfl
          simp [Token.isWordStart] at hstart
        simp [hlist, isNumeralChar, Token.isDigit_of_isWordStart hstart, hdash]
      simp [WordKind.ofText, wordKind, text, Place.text, hdot, hself, htrue, hfalse, hletter]
  | member hname => simp [text, Place.text, WordKind.ofText, wordKind]
  | receiver => simp [text, WordKind.ofText, wordKind, receiverName]
  | binary | dispatch | make => simp [opening?] at hopening

theorem Legible.word_inj (hcode : code.Legible bindable) (hother : other.Legible bindable)
    (hopening : code.opening? = none) (hothers : other.opening? = none)
    (hfree : ¬ bindable receiverName) (htext : code.text = other.text) : code = other := by
  have hkind : code.wordKind = other.wordKind := by
    rw [← hcode.ofText_text hopening hfree, htext, hother.ofText_text hothers hfree]
  cases hcode with
  | int value =>
      cases hother with
      | int second =>
          rw [Int64.toInt_inj.mp (Int.repr_inj.mp htext)]
      | bool | binding | member | receiver => cases hkind
      | binary | dispatch | make => cases hothers
  | bool value =>
      cases hother with
      | bool second =>
          rw [text_bool, text_bool] at htext
          cases value <;> cases second <;> simp_all
      | int | binding | member | receiver => cases hkind
      | binary | dispatch | make => cases hothers
  | @binding name hname =>
      cases hother with
      | @binding second hsecond =>
          cases name
          cases second
          cases htext
          rfl
      | int | bool | member | receiver => cases hkind
      | binary | dispatch | make => cases hothers
  | @member name hname =>
      cases hother with
      | @member second hsecond =>
          cases name
          cases second
          simpa [text, Place.text] using htext
      | int | bool | binding | receiver => cases hkind
      | binary | dispatch | make => cases hothers
  | receiver =>
      cases hother with
      | receiver => rfl
      | int | bool | binding | member => cases hkind
      | binary | dispatch | make => cases hothers
  | binary | dispatch | make => cases hopening

/-! ## Reading code back -/

/-- The code can be told from all other code, and its end can be seen. -/
def ReadsBack (bindable : VarName → Prop) (code : Expr) : Prop :=
  ∀ other rest after, other.Legible bindable → Ends rest → Ends after →
    code.text.toList ++ rest = other.text.toList ++ after → code = other ∧ rest = after

theorem readsBack_of_word (hcode : code.Legible bindable) (hopening : code.opening? = none)
    (hfree : ¬ bindable receiverName) : code.ReadsBack bindable := by
  intro other rest after hother hrest hafter htext
  have hothers : other.opening? = none := by
    rw [← hcode.opening?_eq hother hrest hafter htext, hopening]
  rcases append_inj_of_class (hcode.isWordPart_of_mem hopening)
    (hother.isWordPart_of_mem hothers) (fun c hc => (hrest c hc).1)
    (fun c hc => (hafter c hc).1) htext with ⟨hword, hsame⟩
  exact ⟨hcode.word_inj hother hopening hothers hfree (String.toList_inj.mp hword), hsame⟩

theorem toList_furtherText_cons (arg : Expr) (args : List Expr) :
    (furtherText (arg :: args)).toList =
      ',' :: ' ' :: (arg.text.toList ++ (furtherText args).toList) := by
  simp [furtherText]

theorem ends_furtherText (args : List Expr) (rest : List Char) :
    Ends ((furtherText args).toList ++ ')' :: rest) := by
  cases args with
  | nil => simpa [furtherText] using ends_paren rest
  | cons arg others =>
      rw [toList_furtherText_cons]
      exact ends_comma _

theorem furtherText_inj {args others : List Expr} {rest after : List Char}
    (hargs : ∀ arg ∈ args, arg.ReadsBack bindable)
    (hothers : ∀ arg ∈ others, arg.Legible bindable)
    (htext : (furtherText args).toList ++ ')' :: rest =
      (furtherText others).toList ++ ')' :: after) : args = others ∧ rest = after := by
  induction args generalizing others with
  | nil =>
      cases others with
      | nil => simpa [furtherText] using htext
      | cons other more => simp [furtherText] at htext
  | cons arg args ih =>
      cases others with
      | nil => simp [furtherText] at htext
      | cons other more =>
          rw [List.forall_mem_cons] at hargs hothers
          simp only [toList_furtherText_cons, List.cons_append, List.append_assoc,
            List.cons.injEq, true_and] at htext
          rcases hargs.1 other _ _ hothers.1 (ends_furtherText _ _) (ends_furtherText _ _) htext
            with ⟨rfl, hmore⟩
          rcases ih hargs.2 hothers.2 hmore with ⟨rfl, rfl⟩
          exact ⟨rfl, rfl⟩

theorem Op.text_append_inj {op second : Op} {rest after : List Char}
    (htext : op.text.toList ++ ' ' :: rest = second.text.toList ++ ' ' :: after) :
    op = second ∧ rest = after := by
  cases op <;> cases second <;> simp_all [Op.text]

theorem slot_append_inj {slot second : Nat} {args others : List Expr} {rest after : List Char}
    (htext : slot.repr.toList ++ ((furtherText args).toList ++ ')' :: rest) =
      second.repr.toList ++ ((furtherText others).toList ++ ')' :: after)) :
    slot = second ∧ (furtherText args).toList ++ ')' :: rest =
      (furtherText others).toList ++ ')' :: after := by
  have hdigits (number : Nat) : ∀ c ∈ number.repr.toList, isWordPart c = true := by
    intro c hc
    rw [Nat.toList_repr] at hc
    have hdigit := (Token.isNumber_toDigits number).chars c hc
    simp [isWordPart, Token.isWordChar_of_isDigit hdigit]
  rcases append_inj_of_class (hdigits slot) (hdigits second)
    (fun c hc => (ends_furtherText _ _ c hc).1) (fun c hc => (ends_furtherText _ _ c hc).1)
    htext with ⟨hslot, hargs⟩
  exact ⟨Nat.repr_inj.mp (String.toList_inj.mp hslot), hargs⟩

theorem Legible.readsBack (hcode : code.Legible bindable) (hfree : ¬ bindable receiverName) :
    code.ReadsBack bindable := by
  -- The induction is on one piece of code.  Its first word leaves one form for the other.
  induction hcode with
  | int | bool | binding | member | receiver =>
      exact readsBack_of_word (by constructor <;> assumption) rfl hfree
  | @binary op lhs rhs hlhs hrhs ihLhs ihRhs =>
      intro other rest after hother hrest hafter htext
      have hopening := (hlhs.binary op hrhs).opening?_eq hother hrest hafter htext
      cases hother with
      | @binary second left right hleft hright =>
          simp only [toList_text_binary, List.cons_append, List.append_assoc, List.nil_append,
            List.cons.injEq, true_and] at htext
          rcases ihLhs left _ _ hleft (ends_space _) (ends_space _) htext with ⟨rfl, hop⟩
          rcases Op.text_append_inj (List.cons.inj hop).2 with ⟨rfl, hoperand⟩
          rcases ihRhs right _ _ hright (ends_paren _) (ends_paren _) hoperand with ⟨rfl, hend⟩
          exact ⟨rfl, (List.cons.inj hend).2⟩
      | int | bool | binding | member | receiver => cases hopening
      | dispatch | make => simp [opening?] at hopening
  | @dispatch target slot args htarget hargs ihTarget ihArgs =>
      intro other rest after hother hrest hafter htext
      have hopening := (htarget.dispatch slot hargs).opening?_eq hother hrest hafter htext
      cases hother with
      | @dispatch callee second more hcallee hmore =>
          simp only [toList_text_dispatch, List.append_assoc, List.append_cancel_left_eq,
            List.cons_append, List.nil_append] at htext
          rcases ihTarget callee _ _ hcallee (ends_comma _) (ends_comma _) htext with
            ⟨rfl, hslot⟩
          simp only [List.cons.injEq, true_and] at hslot
          rcases slot_append_inj hslot with ⟨rfl, hmoreText⟩
          rcases furtherText_inj ihArgs hmore hmoreText with ⟨rfl, rfl⟩
          exact ⟨rfl, rfl⟩
      | int | bool | binding | member | receiver => cases hopening
      | binary | make => simp [opening?] at hopening
  | @make name args hname hargs ihArgs =>
      intro other rest after hother hrest hafter htext
      have hopening := (Legible.make hname hargs).opening?_eq hother hrest hafter htext
      cases hother with
      | @make second more hsecond hmore =>
          simp only [toList_text_make, List.append_assoc, List.append_cancel_left_eq,
            List.cons_append, List.nil_append] at htext
          rcases hname.append_inj hsecond (head_cons_of_class (by decide) _)
            (head_cons_of_class (by decide) _) htext with ⟨hsame, hargsText⟩
          obtain rfl : name = second := ClassName.text_injective hsame
          simp only [List.cons.injEq, true_and, List.append_cancel_left_eq] at hargsText
          rcases furtherText_inj ihArgs hmore hargsText with ⟨rfl, rfl⟩
          exact ⟨rfl, rfl⟩
      | int | bool | binding | member | receiver => cases hopening
      | binary | dispatch => simp [opening?] at hopening

end Script.Expr

/-! ## The code of typed expressions -/

section

variable {hierarchy : Hierarchy Plain} {context : Context} {scope : Scope}
  {tables : DispatchTables} {locals : Locals}

theorem Locals.place_inj {name other : VarName} (hplace : locals.place name = locals.place other) :
    name = other := by
  unfold Locals.place at hplace
  split at hplace <;> split at hplace <;> simp_all

theorem DispatchTable.slot?_inj {table : DispatchTable} {method other : MethodName} {slot : Nat}
    (hslot : table.slot? method = some slot) (hother : table.slot? other = some slot) :
    method = other := by
  rcases List.findIdx?_eq_some_iff_getElem.mp hslot with ⟨hlt, hmethod, -⟩
  rcases List.findIdx?_eq_some_iff_getElem.mp hother with ⟨_, hsecond, -⟩
  rw [← of_decide_eq_true hmethod, ← of_decide_eq_true hsecond]

theorem DispatchTables.slot_inj {name : ClassName} {method other : MethodName} {slot : Nat}
    (hslot : tables.slot name method = .ok slot) (hother : tables.slot name other = .ok slot) :
    method = other := by
  rcases slot_eq_ok_iff.mp hslot with ⟨table, htable, hmethod⟩
  rcases slot_eq_ok_iff.mp hother with ⟨second, hsecond, hmethods⟩
  obtain rfl : table = second := Option.some.inj (htable.symm.trans hsecond)
  exact DispatchTable.slot?_inj hmethod hmethods

namespace Exp

/-- What an expression becomes, with its parts. -/
inductive Becomes (tables : DispatchTables) (locals : Locals) : Exp Resolved → Expr → Prop where
  | int (value : Int64) : Becomes tables locals (.int value) (.int value)
  | bool (value : Bool) : Becomes tables locals (.bool value) (.bool value)
  | var {name : VarName} {place : Place} :
      locals.place name = place → Becomes tables locals (.var name) (.read place)
  | this : Becomes tables locals .this .receiver
  | binary (op : Op) {lhs rhs : Exp Resolved} {left right : Expr} :
      lhs.lower tables locals = .ok left → rhs.lower tables locals = .ok right →
      Becomes tables locals (.binary op lhs rhs) (.binary op left right)
  | call {receiver : Exp Resolved} {method : MethodName} {args : List (Exp Resolved)}
      {name : ClassName} {target : Expr} {slot : Nat} {codes : List Expr} :
      tables.slot name method = .ok slot → receiver.lower tables locals = .ok target →
      lowerAll tables locals args = .ok codes →
      Becomes tables locals (.call receiver method args name) (.dispatch target slot codes)
  | new {name : ClassName} {args : List (Exp Resolved)} {codes : List Expr} :
      lowerAll tables locals args = .ok codes →
      Becomes tables locals (.new name args) (.make name codes)

theorem becomes_of_lower {value : Exp Resolved} {code : Expr}
    (hlower : value.lower tables locals = .ok code) : value.Becomes tables locals code := by
  cases value with
  | int | bool | this =>
      cases hlower
      constructor
  | var name =>
      cases hlower
      exact .var rfl
  | binary op lhs rhs =>
      simp only [lower, bind_eq_ok_iff, pure_eq_ok_iff] at hlower
      rcases hlower with ⟨left, hleft, right, hright, rfl⟩
      exact .binary op hleft hright
  | call receiver method args name =>
      simp only [lower, bind_eq_ok_iff, pure_eq_ok_iff] at hlower
      rcases hlower with ⟨slot, hslot, target, htarget, codes, hcodes, rfl⟩
      exact .call hslot htarget hcodes
  | new name args =>
      simp only [lower, bind_eq_ok_iff, pure_eq_ok_iff] at hlower
      rcases hlower with ⟨codes, hcodes, rfl⟩
      exact .new hcodes

theorem legible_lowerAll {bindable : VarName → Prop} {values : List (Exp Resolved)}
    {codes : List Expr}
    (hvalues : ∀ value ∈ values, ∀ code, value.lower tables locals = .ok code →
      code.Legible bindable)
    (hlower : lowerAll tables locals values = .ok codes) :
    ∀ code ∈ codes, code.Legible bindable := by
  induction values generalizing codes with
  | nil =>
      cases hlower
      simp
  | cons value rest ih =>
      rw [List.forall_mem_cons] at hvalues
      simp only [lowerAll, bind_eq_ok_iff, pure_eq_ok_iff] at hlower
      rcases hlower with ⟨first, hfirst, others, hothers, rfl⟩
      exact List.forall_mem_cons.mpr ⟨hvalues.1 first hfirst, ih hvalues.2 hothers⟩

theorem mem_subjectsOfAll {κ : Type} {values : List (Exp κ)} {subject : Subject} :
    subject ∈ subjectsOfAll values ↔ ∃ value ∈ values, subject ∈ value.subjects := by
  induction values with
  | nil => simp [subjectsOfAll]
  | cons value rest ih => simp [subjectsOfAll, ih]

theorem legible_lower {bindable : VarName → Prop} {value : Exp Resolved} {code : Expr}
    (hnames : ∀ name ∈ value.erase.names, IsIdentifier name)
    (hvars : ∀ name, .var name .read ∈ value.subjects → bindable name)
    (hlower : value.lower tables locals = .ok code) : code.Legible bindable := by
  induction value generalizing code with
  | int value =>
      cases hlower
      exact .int value
  | bool value =>
      cases hlower
      exact .bool value
  | var name =>
      cases hlower
      have hname : IsIdentifier name.text := hnames name.text (by simp [erase, names])
      unfold Locals.place
      split
      next => exact .binding hname (hvars name (by simp [subjects]))
      next => exact .member hname
  | this =>
      cases hlower
      exact .receiver
  | binary op lhs rhs ihLhs ihRhs =>
      simp only [erase, names, List.forall_mem_append] at hnames
      simp only [subjects, List.mem_append, or_imp, forall_and] at hvars
      cases becomes_of_lower hlower with
      | binary _ hleft hright =>
          exact .binary op (ihLhs hnames.1 hvars.1 hleft) (ihRhs hnames.2 hvars.2 hright)
  | call receiver method args note ihReceiver ihArgs =>
      simp only [erase, names, List.forall_mem_append, List.forall_mem_cons,
        forall_mem_namesOfAll, eraseAll_eq_map, List.forall_mem_map] at hnames
      simp only [subjects, List.mem_append, or_imp, forall_and, mem_subjectsOfAll] at hvars
      cases becomes_of_lower hlower with
      | call hslot htarget hcodes =>
          refine .dispatch _ (ihReceiver hnames.1 hvars.1 htarget) (legible_lowerAll ?_ hcodes)
          intro arg harg code
          exact ihArgs arg harg (hnames.2.2.1 arg harg) fun name hname =>
            hvars.2 name ⟨arg, harg, hname⟩
  | new name args ihArgs =>
      simp only [erase, names, List.forall_mem_cons, forall_mem_namesOfAll, eraseAll_eq_map,
        List.forall_mem_map] at hnames
      simp only [subjects, mem_subjectsOfAll] at hvars
      cases becomes_of_lower hlower with
      | new hcodes =>
          refine .make hnames.1 (legible_lowerAll ?_ hcodes)
          intro arg harg code
          exact ihArgs arg harg (hnames.2 arg harg) fun name hname =>
            hvars name ⟨arg, harg, hname⟩

theorem HasType.unique {value : Exp Resolved} {ty other : Ty}
    (htype : value.HasType hierarchy.classes context scope ty)
    (hother : value.HasType hierarchy.classes context scope other) : ty = other := by
  have hsame := (check_erase htype).symm.trans (check_erase hother)
  simpa using hsame

theorem lowerAll_inj {values others : List (Exp Resolved)} {params more : List VarDec}
    {codes : List Expr}
    (hvalues : ∀ value ∈ values, ∀ other code ty otherTy,
      value.HasType hierarchy.classes context scope ty →
      other.HasType hierarchy.classes context scope otherTy →
      value.lower tables locals = .ok code → other.lower tables locals = .ok code →
      value = other)
    (hfit : Fit hierarchy.classes context scope values params)
    (hothers : Fit hierarchy.classes context scope others more)
    (hlower : lowerAll tables locals values = .ok codes)
    (hsame : lowerAll tables locals others = .ok codes) : values = others := by
  induction values generalizing others codes params more with
  | nil =>
      cases hlower
      cases others with
      | nil => rfl
      | cons other rest =>
          simp only [lowerAll, bind_eq_ok_iff, pure_eq_ok_iff] at hsame
          rcases hsame with ⟨_, _, _, _, hnil⟩
          cases hnil
  | cons value rest ih =>
      simp only [lowerAll, bind_eq_ok_iff, pure_eq_ok_iff] at hlower
      rcases hlower with ⟨code, hcode, restCodes, hrestCodes, rfl⟩
      cases others with
      | nil => cases hsame
      | cons other after =>
          simp only [lowerAll, bind_eq_ok_iff, pure_eq_ok_iff, List.cons.injEq] at hsame
          rcases hsame with ⟨_, hother, _, hafter, hcodes⟩
          obtain ⟨rfl, rfl⟩ := hcodes
          rw [List.forall_mem_cons] at hvalues
          cases hfit with
          | cons htype _ hrest =>
              cases hothers with
              | cons hotherType _ hafterFit =>
                  rw [hvalues.1 other _ _ _ htype hotherType hcode hother,
                    ih hvalues.2 hrest hafterFit hrestCodes hafter]

/-- Typed expressions with the same code are the same: the code of the receiver tells its
class, and the slot tells the method of that class. -/
theorem HasType.lower_inj {value other : Exp Resolved} {code : Expr} {ty otherTy : Ty}
    (htype : value.HasType hierarchy.classes context scope ty)
    (hother : other.HasType hierarchy.classes context scope otherTy)
    (hlower : value.lower tables locals = .ok code)
    (hsame : other.lower tables locals = .ok code) : value = other := by
  induction value generalizing other code ty otherTy with
  | int | bool | this =>
      cases hlower
      cases becomes_of_lower hsame
      rfl
  | var name =>
      cases hlower
      cases becomes_of_lower hsame with
      | var hplace => rw [Locals.place_inj hplace]
  | binary op lhs rhs ihLhs ihRhs =>
      cases becomes_of_lower hlower with
      | binary _ hleft hright =>
          cases becomes_of_lower hsame with
          | binary _ hotherLeft hotherRight =>
              cases htype with
              | binary hlhs hrhs =>
                  cases hother with
                  | binary hotherLhs hotherRhs =>
                      rw [ihLhs hlhs hotherLhs hleft hotherLeft,
                        ihRhs hrhs hotherRhs hright hotherRight]
  | call receiver method args note ihReceiver ihArgs =>
      cases becomes_of_lower hlower with
      | call hslot htarget hcodes =>
          cases becomes_of_lower hsame with
          | @call second _ _ noted _ _ _ hotherSlot hotherTarget hotherCodes =>
              cases htype with
              | call hreceiver _ hfit hnote =>
                  cases hother with
                  | call hotherReceiver _ hotherFit hotherNote =>
                      -- Equal receivers have one class, and its table tells the method.
                      obtain rfl : receiver = second :=
                        ihReceiver hreceiver hotherReceiver htarget hotherTarget
                      obtain rfl : note = noted := by
                        have hclass := hreceiver.unique hotherReceiver
                        rw [show note = _ from hnote, show noted = _ from hotherNote]
                        exact Ty.object.inj hclass
                      rw [DispatchTables.slot_inj hslot hotherSlot,
                        lowerAll_inj (fun arg harg other code _ _ => ihArgs arg harg) hfit
                          hotherFit hcodes hotherCodes]
  | new name args ihArgs =>
      cases becomes_of_lower hlower with
      | new hcodes =>
          cases becomes_of_lower hsame with
          | new hotherCodes =>
              cases htype with
              | new _ hfit =>
                  cases hother with
                  | new _ hotherFit =>
                      rw [lowerAll_inj (fun arg harg other code _ _ => ihArgs arg harg) hfit
                        hotherFit hcodes hotherCodes]

theorem HasType.exists_lower {κ : Type} {annotated : Hierarchy κ} {value : Exp Resolved} {ty : Ty}
    (hclasses : annotated.classes.map ClassDef.erase = hierarchy.classes) (locals : Locals)
    (htype : value.HasType hierarchy.classes context scope ty) :
    ∃ code, value.lower (DispatchTables.build annotated) locals = .ok code := by
  rw [← verdict_eq_ok_iff, verdict_lower]
  exact htype.answers.resolve_build hclasses

/-- Where no variable has the name of the receiver, expressions that the checker accepts
compile, and those with the same code are the same. -/
theorem code_tells_apart {κ : Type} {annotated : Hierarchy κ}
    (hclasses : annotated.classes.map ClassDef.erase = hierarchy.classes)
    (hself : receiverName ∉ scope.map VarDec.name) (locals : Locals)
    {first second : Exp Plain} (hfirst : ∀ name ∈ first.names, IsIdentifier name)
    (hsecond : ∀ name ∈ second.names, IsIdentifier name)
    {firstChecked secondChecked : Exp Resolved} {firstTy secondTy : Ty}
    (hfirstCheck : first.check hierarchy context scope = .ok (firstChecked, firstTy))
    (hsecondCheck : second.check hierarchy context scope = .ok (secondChecked, secondTy)) :
    ∃ firstCode secondCode,
      firstChecked.lower (DispatchTables.build annotated) locals = .ok firstCode ∧
        secondChecked.lower (DispatchTables.build annotated) locals = .ok secondCode ∧
        (firstCode.text = secondCode.text → first = second) := by
  rcases hasType_of_check hfirstCheck with ⟨hfirstType, rfl⟩
  rcases hasType_of_check hsecondCheck with ⟨hsecondType, rfl⟩
  rcases hfirstType.exists_lower hclasses locals with ⟨firstCode, hfirstLower⟩
  rcases hsecondType.exists_lower hclasses locals with ⟨secondCode, hsecondLower⟩
  refine ⟨firstCode, secondCode, hfirstLower, hsecondLower, ?_⟩
  intro htext
  have hbindable {value : Exp Resolved} {ty : Ty}
      (htype : value.HasType hierarchy.classes context scope ty) :
      ∀ name, .var name .read ∈ value.subjects → name ≠ receiverName := by
    intro name hsubject
    exact ne_of_mem_of_not_mem (htype.mem_scope hsubject) hself
  have hfirstLegible := legible_lower hfirst (hbindable hfirstType) hfirstLower
  have hsecondLegible := legible_lower hsecond (hbindable hsecondType) hsecondLower
  have hcode := (hfirstLegible.readsBack (by simp) secondCode [] [] hsecondLegible Expr.ends_nil
    Expr.ends_nil (by rw [htext])).1
  rw [← hcode] at hsecondLower
  rw [hfirstType.lower_inj hsecondType hfirstLower hsecondLower]

end Exp

end

/-- A class with two methods that take a number. -/
def twoMethods : Hierarchy Plain where
  classes := [⟨⟨"A"⟩, .root, [⟨.int, ⟨"y"⟩⟩], [], [], [],
    [⟨.int, ⟨"f"⟩, [⟨.int, ⟨"x"⟩⟩], .returnValue (.var ⟨"x"⟩)⟩,
      ⟨.int, ⟨"g"⟩, [⟨.int, ⟨"x"⟩⟩], .returnValue (.var ⟨"x"⟩)⟩]⟩]
  faultless := by decide +kernel

theorem Exp.code_tells_apart_twoMethods :
    ∃ first second : Exp Resolved,
      (Exp.call .this ⟨"f"⟩ [.var ⟨"x"⟩] ()).check twoMethods ⟨some ⟨"A"⟩, none⟩
          [⟨.int, ⟨"x"⟩⟩, ⟨.int, ⟨"y"⟩⟩] = .ok (first, .int) ∧
        (Exp.call .this ⟨"g"⟩ [.var ⟨"y"⟩] ()).check twoMethods ⟨some ⟨"A"⟩, none⟩
          [⟨.int, ⟨"x"⟩⟩, ⟨.int, ⟨"y"⟩⟩] = .ok (second, .int) ∧
        ∃ firstCode secondCode,
          first.lower (DispatchTables.build twoMethods) [⟨"x"⟩] = .ok firstCode ∧
            second.lower (DispatchTables.build twoMethods) [⟨"x"⟩] = .ok secondCode ∧
            firstCode.text ≠ secondCode.text := by
  have hfirst : (Exp.call .this ⟨"f"⟩ [.var ⟨"x"⟩] ()).check twoMethods ⟨some ⟨"A"⟩, none⟩
      [⟨.int, ⟨"x"⟩⟩, ⟨.int, ⟨"y"⟩⟩] = .ok (.call .this ⟨"f"⟩ [.var ⟨"x"⟩] ⟨"A"⟩, .int) := by
    cbv
  have hsecond : (Exp.call .this ⟨"g"⟩ [.var ⟨"y"⟩] ()).check twoMethods ⟨some ⟨"A"⟩, none⟩
      [⟨.int, ⟨"x"⟩⟩, ⟨.int, ⟨"y"⟩⟩] = .ok (.call .this ⟨"g"⟩ [.var ⟨"y"⟩] ⟨"A"⟩, .int) := by
    cbv
  have hclasses : twoMethods.classes.map ClassDef.erase = twoMethods.classes := by rfl
  rcases Exp.code_tells_apart hclasses (by decide) [⟨"x"⟩] (by decide +kernel) (by decide +kernel)
    hfirst hsecond with ⟨firstCode, secondCode, hfirstLower, hsecondLower, hsame⟩
  refine ⟨_, _, hfirst, hsecond, firstCode, secondCode, hfirstLower, hsecondLower, ?_⟩
  intro htext
  have hequal := hsame htext
  simp at hequal

end ClassLang
