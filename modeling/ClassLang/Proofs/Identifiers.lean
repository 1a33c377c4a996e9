import ClassLang.Proofs.Respacing

/-!
# Names that a source text can give

A tree may have any texts as names.  The names in a tree that was read from a source
text are identifiers, words that are not reserved.  This file lists the names of a tree,
those in the notes on its calls included.

In a printed text an identifier reaches up to the next character that belongs to no
word, so it can be told from what follows it.
-/

namespace ClassLang

open Token

/-- A word that is not reserved. -/
abbrev IsIdentifier (name : String) : Prop :=
  (Token.ident name).Lexable

/-- Whether a text is an identifier. -/
def isIdentifier (name : String) : Bool :=
  name.toList.head?.any isWordStart && name.toList.all isWordChar
    && (Keyword.ofText? name).isNone

theorem isIdentifier_iff {name : String} : isIdentifier name = true ↔ IsIdentifier name := by
  simp only [isIdentifier, Bool.and_eq_true, Option.any_eq_true, List.all_eq_true,
    Option.isNone_iff_eq_none, Keyword.ofText?_eq_none_iff]
  constructor
  · intro hname
    exact ⟨⟨hname.1.1, hname.1.2⟩, hname.2⟩
  · intro hname
    exact ⟨⟨hname.1.starts, hname.1.chars⟩, hname.2⟩

instance : DecidablePred IsIdentifier := fun _ => decidable_of_iff _ isIdentifier_iff

theorem IsIdentifier.isWordChar {name : String} (hname : IsIdentifier name) :
    ∀ c ∈ name.toList, isWordChar c = true :=
  hname.1.chars

theorem IsIdentifier.exists_cons {name : String} (hname : IsIdentifier name) :
    ∃ c rest, name.toList = c :: rest ∧ isWordStart c = true := by
  rcases hname.1.starts with ⟨c, hc, hstart⟩
  cases hlist : name.toList with
  | nil => simp [hlist] at hc
  | cons first rest =>
      obtain rfl : first = c := by simpa [hlist] using hc
      exact ⟨first, rest, rfl, hstart⟩

theorem head_cons_of_class {α : Type} {p : α → Bool} {item : α} (hitem : p item = false)
    (rest : List α) : ∀ c ∈ (item :: rest).head?, p c = false := by
  intro c hc
  cases hc
  exact hitem

theorem takeWhile_append_of_class {α : Type} {p : α → Bool} {first rest : List α}
    (hfirst : ∀ c ∈ first, p c = true) (hrest : ∀ c ∈ rest.head?, p c = false) :
    (first ++ rest).takeWhile p = first := by
  rw [List.takeWhile_append_of_pos hfirst]
  cases rest with
  | nil => simp
  | cons c others => simp [hrest c rfl]

/-- A run of items of one class reaches up to the first item of another class. -/
theorem append_inj_of_class {α : Type} {p : α → Bool} {first second rest others : List α}
    (hfirst : ∀ c ∈ first, p c = true) (hsecond : ∀ c ∈ second, p c = true)
    (hrest : ∀ c ∈ rest.head?, p c = false) (hothers : ∀ c ∈ others.head?, p c = false)
    (htext : first ++ rest = second ++ others) : first = second ∧ rest = others := by
  have hsame : first = second := by
    rw [← takeWhile_append_of_class hfirst hrest, htext,
      takeWhile_append_of_class hsecond hothers]
  subst hsame
  exact ⟨rfl, List.append_cancel_left htext⟩

theorem IsIdentifier.append_inj {name other : String} {rest others : List Char}
    (hname : IsIdentifier name) (hother : IsIdentifier other)
    (hrest : ∀ c ∈ rest.head?, Token.isWordChar c = false)
    (hothers : ∀ c ∈ others.head?, Token.isWordChar c = false)
    (htext : name.toList ++ rest = other.toList ++ others) : name = other ∧ rest = others := by
  rcases append_inj_of_class hname.isWordChar hother.isWordChar hrest hothers htext with
    ⟨hsame, hafter⟩
  exact ⟨String.toList_inj.mp hsame, hafter⟩

/-! ## Numerals -/

/-- The characters of an integer in decimal notation. -/
def isNumeralChar (c : Char) : Bool :=
  c.isDigit || c = '-'

theorem isNumeralChar_of_mem_repr {value : Int} {c : Char} (hc : c ∈ value.repr.toList) :
    isNumeralChar c = true := by
  have hdigit (number : Nat) (hmem : c ∈ Nat.toDigits 10 number) : isNumeralChar c = true := by
    simp [isNumeralChar, (isNumber_toDigits number).chars c hmem]
  cases value with
  | ofNat number => exact hdigit number (by simpa [Int.repr] using hc)
  | negSucc number =>
      have hcases : c = '-' ∨ c ∈ Nat.toDigits 10 (number + 1) := by simpa [Int.repr] using hc
      rcases hcases with rfl | hmem
      · rfl
      · exact hdigit (number + 1) hmem

/-! ## The names of a tree -/

/-- Notes on calls, with the names that they mention. -/
class NamedNote (κ : Type) where
  names : κ → List String

instance : NamedNote Plain where
  names _ := []

instance : NamedNote Resolved where
  names receiver := [receiver.text]

def Ty.names : Ty → List String
  | object name => [name.text]
  | int | bool | void => []

def VarDec.names (var : VarDec) : List String :=
  var.ty.names ++ [var.name.text]

variable {κ : Type} [NamedNote κ]

namespace Exp

mutual

def names : Exp κ → List String
  | int _ | bool _ | this => []
  | var name => [name.text]
  | binary _ lhs rhs => lhs.names ++ rhs.names
  | call receiver method args note =>
    receiver.names ++ method.text :: (namesOfAll args ++ NamedNote.names note)
  | new name args => name.text :: namesOfAll args

def namesOfAll : List (Exp κ) → List String
  | [] => []
  | value :: rest => value.names ++ namesOfAll rest

end

theorem forall_mem_namesOfAll {values : List (Exp κ)} {P : String → Prop} :
    (∀ name ∈ namesOfAll values, P name) ↔ ∀ value ∈ values, ∀ name ∈ value.names, P name := by
  induction values with
  | nil => simp [namesOfAll]
  | cons value rest ih => rw [namesOfAll, List.forall_mem_append, List.forall_mem_cons, ih]

end Exp

namespace Stmt

mutual

def names : Stmt κ → List String
  | exp value | returnValue value | println value => value.names
  | declare var value => var.names ++ value.names
  | assign target value => target.text :: value.names
  | ifElse guard thenArm elseArm => guard.names ++ (thenArm.names ++ elseArm.names)
  | whileLoop guard body => guard.names ++ body.names
  | returnVoid => []
  | block body => namesOfAll body

def namesOfAll : List (Stmt κ) → List String
  | [] => []
  | stmt :: rest => stmt.names ++ namesOfAll rest

end

theorem forall_mem_namesOfAll {body : List (Stmt κ)} {P : String → Prop} :
    (∀ name ∈ namesOfAll body, P name) ↔ ∀ stmt ∈ body, ∀ name ∈ stmt.names, P name := by
  induction body with
  | nil => simp [namesOfAll]
  | cons stmt rest ih => rw [namesOfAll, List.forall_mem_append, List.forall_mem_cons, ih]

end Stmt

def MethodDef.names (method : MethodDef κ) : List String :=
  method.returnTy.names ++ method.name.text ::
    (method.params.flatMap VarDec.names ++ method.body.names)

def ClassDef.names (definition : ClassDef κ) : List String :=
  definition.name.text :: definition.parent.text ::
    (definition.fields.flatMap VarDec.names ++ definition.params.flatMap VarDec.names
      ++ Exp.namesOfAll definition.superArgs ++ Stmt.namesOfAll definition.body
      ++ definition.methods.flatMap MethodDef.names)

def Program.names (program : Program κ) : List String :=
  program.classes.flatMap ClassDef.names ++ program.entry.names

end ClassLang
