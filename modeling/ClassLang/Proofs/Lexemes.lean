import ClassLang.Token.Scan
import Mathlib

/-!
# Lexemes

A lexeme is a word, a number or a symbol.  The three kinds are told apart by the
first character, and cutting characters off the end of a lexeme leaves a lexeme
until nothing is left.  So a lexeme is the longest one at its position exactly if it
cannot be extended by the single character that follows it.

The scanner cuts a text by character classes.  What it cuts off is the longest
lexeme wherever there is a lexeme at all, and the token that it makes of it is the
one that the lexeme denotes.
-/

namespace ClassLang.Token

/-- A text that starts with a character of one class and consists of characters of
another. -/
structure IsRun (start inside : Char → Bool) (lexeme : List Char) : Prop where
  starts : ∃ c ∈ lexeme.head?, start c = true
  chars : ∀ c ∈ lexeme, inside c = true

/-- A letter or an underscore, followed by letters, digits and underscores. -/
abbrev IsWord : List Char → Prop := IsRun isWordStart isWordChar

abbrev IsNumber : List Char → Prop := IsRun Char.isDigit Char.isDigit

def IsMark (lexeme : List Char) : Prop :=
  ∃ mark : Symbol, lexeme = mark.text.toList

def IsLexeme (lexeme : List Char) : Prop :=
  IsWord lexeme ∨ IsNumber lexeme ∨ IsMark lexeme

/-- No longer piece of the text is a lexeme. -/
structure Longest (lexeme rest : List Char) : Prop where
  isLexeme : IsLexeme lexeme
  maximal : ∀ other, IsLexeme other → other <+: lexeme ++ rest → other.length ≤ lexeme.length

/-- The value of decimal digits, the last of which counts ones. -/
def decimalValue (digits : List Char) : Nat :=
  Nat.ofDigits 10 (digits.reverse.map fun c => c.toNat - '0'.toNat)

/-- What a lexeme stands for.  A word that is reserved is no identifier, and a number
that no 64-bit integer equals stands for nothing. -/
inductive Denotes : List Char → Token → Prop where
  | keyword (word : Keyword) : Denotes word.text.toList (.keyword word)
  | ident {name : String} :
      IsWord name.toList → (∀ word : Keyword, word.text ≠ name) →
      Denotes name.toList (.ident name)
  | integer {digits : List Char} {value : Int64} :
      IsNumber digits → value.toInt = decimalValue digits → Denotes digits (.integer value)
  | symbol (mark : Symbol) : Denotes mark.text.toList (.symbol mark)

/-! ## Kinds of lexemes -/

section

variable {c : Char} {lexeme rest : List Char} {start inside : Char → Bool}

theorem isRun_cons_iff :
    IsRun start inside (c :: rest) ↔
      start c = true ∧ inside c = true ∧ ∀ d ∈ rest, inside d = true := by
  constructor
  · intro hrun
    have hstart : start c = true := by simpa using hrun.starts
    have hchars := List.forall_mem_cons.mp hrun.chars
    exact ⟨hstart, hchars⟩
  · rintro ⟨hstart, hchars⟩
    exact ⟨⟨c, rfl, hstart⟩, List.forall_mem_cons.mpr hchars⟩

theorem not_isRun_nil : ¬ IsRun start inside [] := by
  intro hrun
  simpa using hrun.starts

theorem IsRun.of_prefix {part : List Char} (hrun : IsRun start inside lexeme)
    (hpart : part <+: lexeme) (hne : part ≠ []) : IsRun start inside part := by
  constructor
  · have hhead : part.head? = lexeme.head? := by
      rcases hpart with ⟨rest, rfl⟩
      cases part with
      | nil => contradiction
      | cons d others => rfl
    rw [hhead]
    exact hrun.starts
  · intro d hd
    exact hrun.chars d (hpart.subset hd)

theorem isMark_ne_nil (hmark : IsMark lexeme) : lexeme ≠ [] := by
  rcases hmark with ⟨mark, rfl⟩
  cases mark <;> decide

theorem IsLexeme.ne_nil (hlexeme : IsLexeme lexeme) : lexeme ≠ [] := by
  rintro rfl
  rcases hlexeme with hword | hnumber | hmark
  · exact not_isRun_nil hword
  · exact not_isRun_nil hnumber
  · exact isMark_ne_nil hmark rfl

theorem isDigit_of_isWordStart (hstart : isWordStart c = true) : c.isDigit = false := by
  simp only [isWordStart, Bool.or_eq_true, decide_eq_true_eq] at hstart
  rcases hstart with halpha | rfl
  · simp only [Char.isAlpha, Char.isUpper, Char.isLower, Char.isDigit] at halpha ⊢
    grind
  · decide

theorem isWordStart_of_isDigit (hdigit : c.isDigit = true) : isWordStart c = false := by
  by_contra hstart
  simp [isDigit_of_isWordStart (by simpa using hstart)] at hdigit

theorem isWordChar_of_isWordStart (hstart : isWordStart c = true) : isWordChar c = true := by
  simp only [isWordStart, isWordChar, Char.isAlphanum, Bool.or_eq_true] at hstart ⊢
  tauto

theorem isWordChar_of_isDigit (hdigit : c.isDigit = true) : isWordChar c = true := by
  simp [isWordChar, Char.isAlphanum, hdigit]

/-- A symbol starts with a character that starts no word and no number. -/
theorem IsMark.head_class (hmark : IsMark (c :: rest)) :
    isWordStart c = false ∧ c.isDigit = false := by
  rcases hmark with ⟨mark, hmark⟩
  have hhead : mark.text.toList.head? = some c := by rw [← hmark]; rfl
  cases mark <;> (cases hhead; decide)

theorem IsLexeme.isWord (hlexeme : IsLexeme (c :: rest)) (hstart : isWordStart c = true) :
    IsWord (c :: rest) := by
  rcases hlexeme with hword | hnumber | hmark
  · exact hword
  · have hdigit := (isRun_cons_iff.mp hnumber).1
    simp [isDigit_of_isWordStart hstart] at hdigit
  · simp [hmark.head_class] at hstart

theorem IsLexeme.isNumber (hlexeme : IsLexeme (c :: rest)) (hdigit : c.isDigit = true) :
    IsNumber (c :: rest) := by
  rcases hlexeme with hword | hnumber | hmark
  · have hstart := (isRun_cons_iff.mp hword).1
    simp [isDigit_of_isWordStart hstart] at hdigit
  · exact hnumber
  · simp [hmark.head_class] at hdigit

theorem IsLexeme.isMark (hlexeme : IsLexeme (c :: rest)) (hstart : isWordStart c = false)
    (hdigit : c.isDigit = false) : IsMark (c :: rest) := by
  rcases hlexeme with hword | hnumber | hmark
  · simp [isRun_cons_iff, hstart] at hword
  · simp [isRun_cons_iff, hdigit] at hnumber
  · exact hmark

/-! ## The longest lexeme -/

theorem IsMark.of_prefix {part : List Char} (hmark : IsMark lexeme) (hpart : part <+: lexeme)
    (hne : part ≠ []) : IsMark part := by
  rcases hmark with ⟨mark, rfl⟩
  by_cases hequals : mark = .equals
  · subst hequals
    have hcases : ∃ more, part = '=' :: more ∧ (more = [] ∨ more = ['=']) := by
      simpa [Symbol.text, List.prefix_cons_iff, hne] using hpart
    rcases hcases with ⟨more, rfl, rfl | rfl⟩
    · exact ⟨.assign, rfl⟩
    · exact ⟨.equals, rfl⟩
  · have hlength : mark.text.toList.length = 1 := by
      cases mark <;> first | rfl | contradiction
    refine ⟨mark, hpart.eq_of_length_le ?_⟩
    have hpos : 0 < part.length := List.length_pos_iff.mpr hne
    omega

theorem IsLexeme.of_prefix {part : List Char} (hlexeme : IsLexeme lexeme)
    (hpart : part <+: lexeme) (hne : part ≠ []) : IsLexeme part := by
  rcases hlexeme with hword | hnumber | hmark
  · exact .inl (hword.of_prefix hpart hne)
  · exact .inr (.inl (hnumber.of_prefix hpart hne))
  · exact .inr (.inr (hmark.of_prefix hpart hne))

/-- It is enough to look at one more character. -/
theorem longest_iff :
    Longest lexeme rest ↔
      IsLexeme lexeme ∧ ∀ c ∈ rest.head?, ¬ IsLexeme (lexeme ++ [c]) := by
  constructor
  · intro hlongest
    refine ⟨hlongest.isLexeme, ?_⟩
    intro c hc hlonger
    have hpart : lexeme ++ [c] <+: lexeme ++ rest := by
      rw [List.prefix_append_right_inj]
      cases rest with
      | nil => cases hc
      | cons d after =>
          cases hc
          exact ⟨after, rfl⟩
    have hlength := hlongest.maximal _ hlonger hpart
    simp at hlength
  · rintro ⟨hlexeme, hnext⟩
    refine ⟨hlexeme, ?_⟩
    intro other hother hpart
    by_contra hlength
    have hinner : lexeme <+: other :=
      List.prefix_of_prefix_length_le (List.prefix_append lexeme rest) hpart (by omega)
    rcases hinner with ⟨more, rfl⟩
    rw [List.prefix_append_right_inj] at hpart
    cases more with
    | nil => simp at hlength
    | cons c others =>
        rcases hpart with ⟨after, rfl⟩
        apply hnext c rfl
        exact hother.of_prefix ⟨others, by simp⟩ (by simp)

/-- There is at most one longest lexeme at a position. -/
theorem Longest.unique {other after : List Char} (hlongest : Longest lexeme rest)
    (hother : Longest other after) (htext : lexeme ++ rest = other ++ after) :
    lexeme = other ∧ rest = after := by
  have hle := hother.maximal lexeme hlongest.isLexeme (htext ▸ List.prefix_append lexeme rest)
  have hge := hlongest.maximal other hother.isLexeme (htext ▸ List.prefix_append other after)
  exact List.append_inj htext (by omega)

theorem isRun_append_iff (hrun : IsRun start inside lexeme) :
    IsRun start inside (lexeme ++ [c]) ↔ inside c = true := by
  constructor
  · intro hlonger
    exact hlonger.chars c (by simp)
  · intro hinside
    constructor
    · rcases hrun.starts with ⟨first, hfirst, hstart⟩
      exact ⟨first, by simp [List.head?_append, Option.mem_def.mp hfirst], hstart⟩
    · intro d hd
      rcases List.mem_append.mp hd with hold | hnew
      · exact hrun.chars d hold
      · rw [List.mem_singleton.mp hnew]
        exact hinside

theorem IsWord.isLexeme_append_iff (hword : IsWord lexeme) :
    IsLexeme (lexeme ++ [c]) ↔ isWordChar c = true := by
  rw [← isRun_append_iff hword]
  refine ⟨?_, .inl⟩
  intro hlonger
  cases lexeme with
  | nil => exact absurd hword not_isRun_nil
  | cons first others => exact hlonger.isWord (isRun_cons_iff.mp hword).1

theorem IsNumber.isLexeme_append_iff (hnumber : IsNumber lexeme) :
    IsLexeme (lexeme ++ [c]) ↔ c.isDigit = true := by
  rw [← isRun_append_iff hnumber]
  refine ⟨?_, fun hlonger => .inr (.inl hlonger)⟩
  intro hlonger
  cases lexeme with
  | nil => exact absurd hnumber not_isRun_nil
  | cons first others => exact hlonger.isNumber (isRun_cons_iff.mp hnumber).1

/-- Only one symbol can be extended. -/
theorem isLexeme_mark_append_iff (mark : Symbol) :
    IsLexeme (mark.text.toList ++ [c]) ↔ mark = .assign ∧ c = '=' := by
  constructor
  · intro hlonger
    have hmark : IsMark (mark.text.toList ++ [c]) := by
      rcases hlist : mark.text.toList with _ | ⟨first, others⟩
      · exact absurd hlist (isMark_ne_nil ⟨mark, rfl⟩)
      · have hclass : isWordStart first = false ∧ first.isDigit = false :=
          IsMark.head_class ⟨mark, hlist.symm⟩
        rw [hlist] at hlonger
        exact hlonger.isMark hclass.1 hclass.2
    rcases hmark with ⟨longer, hlonger⟩
    cases mark <;> cases longer <;> simp [Symbol.text] at hlonger ⊢
    exact hlonger
  · rintro ⟨rfl, rfl⟩
    exact .inr (.inr ⟨.equals, rfl⟩)

/-! ## Cutting a text -/

theorem isRun_takeWhile (hstart : start c = true) (hinside : inside c = true) :
    IsRun start inside (c :: rest.takeWhile inside) :=
  isRun_cons_iff.mpr ⟨hstart, hinside, List.all_eq_true.mp List.all_takeWhile⟩

theorem head?_dropWhile (p : Char → Bool) (text : List Char) :
    ∀ d ∈ (text.dropWhile p).head?, p d = false := by
  intro d hd
  have hstop := List.head?_dropWhile_not p text
  rw [Option.mem_def.mp hd] at hstop
  exact hstop

theorem cut_append (c : Char) (rest : List Char) :
    (cut c rest).1 ++ (cut c rest).2 = c :: rest := by
  unfold cut
  split
  · simp
  · split
    · simp
    · split <;> simp_all

theorem cut_of_isWordStart (hstart : isWordStart c = true) :
    cut c rest = (c :: rest.takeWhile isWordChar, rest.dropWhile isWordChar) := by
  simp [cut, hstart]

theorem cut_of_isDigit (hdigit : c.isDigit = true) :
    cut c rest = (c :: rest.takeWhile Char.isDigit, rest.dropWhile Char.isDigit) := by
  simp [cut, isWordStart_of_isDigit hdigit, hdigit]

theorem longest_cut_of_isWordStart (hstart : isWordStart c = true) :
    Longest (cut c rest).1 (cut c rest).2 := by
  rw [cut_of_isWordStart hstart, longest_iff]
  have hword : IsWord (c :: rest.takeWhile isWordChar) :=
    isRun_takeWhile hstart (isWordChar_of_isWordStart hstart)
  refine ⟨.inl hword, ?_⟩
  intro d hd hlonger
  rw [IsWord.isLexeme_append_iff hword, head?_dropWhile isWordChar rest d hd] at hlonger
  contradiction

theorem longest_cut_of_isDigit (hdigit : c.isDigit = true) :
    Longest (cut c rest).1 (cut c rest).2 := by
  rw [cut_of_isDigit hdigit, longest_iff]
  have hnumber : IsNumber (c :: rest.takeWhile Char.isDigit) := isRun_takeWhile hdigit hdigit
  refine ⟨.inr (.inl hnumber), ?_⟩
  intro d hd hlonger
  rw [IsNumber.isLexeme_append_iff hnumber, head?_dropWhile Char.isDigit rest d hd] at hlonger
  contradiction

theorem cut_of_other (hstart : isWordStart c = false) (hdigit : c.isDigit = false) :
    cut c rest =
      if c = '=' ∧ rest.head? = some '=' then (['=', '='], rest.tail) else ([c], rest) := by
  unfold cut
  rw [if_neg (by simp [hstart]), if_neg (by simp [hdigit])]
  split
  next after => simp
  next hnot =>
    rw [if_neg]
    rintro ⟨hc, hnext⟩
    cases rest with
    | nil => cases hnext
    | cons d after =>
        cases hnext
        exact hnot after hc rfl

theorem longest_cut_of_isMark {mark : Symbol} (hmark : mark.text.toList <+: c :: rest) :
    Longest (cut c rest).1 (cut c rest).2 := by
  have hfirst : [c] <+: mark.text.toList := by
    rcases List.prefix_cons_iff.mp hmark with hnil | ⟨others, hothers, -⟩
    · exact absurd hnil (isMark_ne_nil ⟨mark, rfl⟩)
    · exact ⟨others, hothers.symm⟩
  have hsingle : IsMark [c] := IsMark.of_prefix ⟨mark, rfl⟩ hfirst (by simp)
  rw [longest_iff, cut_of_other hsingle.head_class.1 hsingle.head_class.2]
  by_cases hequals : c = '=' ∧ rest.head? = some '='
  · rw [if_pos hequals]
    refine ⟨.inr (.inr ⟨.equals, rfl⟩), ?_⟩
    intro d _ hlonger
    have hassign := (isLexeme_mark_append_iff .equals).mp hlonger
    simp at hassign
  · rw [if_neg hequals]
    refine ⟨.inr (.inr hsingle), ?_⟩
    intro d hd hlonger
    rcases hsingle with ⟨single, hsingle⟩
    rw [hsingle, isLexeme_mark_append_iff] at hlonger
    rcases hlonger with ⟨rfl, rfl⟩
    have hc : c = '=' := by simpa [Symbol.text] using hsingle
    exact hequals ⟨hc, hd⟩

/-- Where there is a lexeme, the longest one is cut off. -/
theorem longest_cut (hlexeme : IsLexeme lexeme) (hpart : lexeme <+: c :: rest) :
    Longest (cut c rest).1 (cut c rest).2 := by
  rcases List.prefix_cons_iff.mp hpart with hnil | ⟨others, rfl, -⟩
  · exact absurd hnil hlexeme.ne_nil
  · by_cases hstart : isWordStart c = true
    · exact longest_cut_of_isWordStart hstart
    · by_cases hdigit : c.isDigit = true
      · exact longest_cut_of_isDigit hdigit
      · rcases hlexeme.isMark (by simpa using hstart) (by simpa using hdigit) with ⟨mark, hmark⟩
        exact longest_cut_of_isMark (hmark ▸ hpart)

theorem eq_cut_of_longest {after : List Char} (hlongest : Longest lexeme after)
    (htext : lexeme ++ after = c :: rest) : lexeme = (cut c rest).1 ∧ after = (cut c rest).2 := by
  have hcut := longest_cut hlongest.isLexeme ⟨after, htext⟩
  exact hlongest.unique hcut (htext.trans (cut_append c rest).symm)

end

end ClassLang.Token

namespace ClassLang

/-! ## Denoting tokens -/

theorem Keyword.ofText?_text (word : Keyword) : ofText? word.text = some word := by
  cases word <;> decide

theorem Keyword.ofText?_eq_some_iff {name : String} {word : Keyword} :
    ofText? name = some word ↔ word.text = name := by
  constructor
  · intro hfound
    simpa using List.find?_some hfound
  · rintro rfl
    exact word.ofText?_text

theorem Keyword.ofText?_eq_none_iff {name : String} :
    ofText? name = none ↔ ∀ word : Keyword, word.text ≠ name := by
  rw [Option.eq_none_iff_forall_ne_some]
  simp only [ne_eq, ofText?_eq_some_iff]

theorem Symbol.ofText?_text (mark : Symbol) : ofText? mark.text = some mark := by
  cases mark <;> decide

theorem Symbol.ofText?_eq_some_iff {name : String} {mark : Symbol} :
    ofText? name = some mark ↔ mark.text = name := by
  constructor
  · intro hfound
    simpa using List.find?_some hfound
  · rintro rfl
    exact mark.ofText?_text

namespace Token

variable {c : Char} {lexeme rest : List Char} {offset : Nat} {token : Token}

theorem ofDigitChars_eq_decimalValue (digits : List Char) :
    Nat.ofDigitChars 10 digits 0 = decimalValue digits := by
  rw [decimalValue, Nat.ofDigits_eq_foldr, List.foldr_map, List.foldr_reverse,
    Nat.ofDigitChars_eq_foldl]
  simp [Nat.add_comm]

theorem isWord_text (word : Keyword) : IsWord word.text.toList := by
  have hchars : word.text.toList.all isWordChar = true := by cases word <;> rfl
  refine ⟨?_, List.all_eq_true.mp hchars⟩
  cases word <;> exact ⟨_, rfl, rfl⟩

theorem Denotes.isLexeme (hdenotes : Denotes lexeme token) : IsLexeme lexeme := by
  cases hdenotes with
  | keyword word => exact .inl (isWord_text word)
  | ident hword _ => exact .inl hword
  | integer hnumber _ => exact .inr (.inl hnumber)
  | symbol mark => exact .inr (.inr ⟨mark, rfl⟩)

theorem denotes_ofWord {name : String} (hword : IsWord name.toList) :
    Denotes name.toList (ofWord name) := by
  unfold ofWord
  split
  next word hfound =>
    rw [← Keyword.ofText?_eq_some_iff.mp hfound]
    exact .keyword word
  next hnone => exact .ident hword (Keyword.ofText?_eq_none_iff.mp hnone)

theorem denotes_ofNat {digits : List Char} (hnumber : IsNumber digits)
    (hbound : decimalValue digits < integerBound) :
    Denotes digits (.integer (Int64.ofNat (decimalValue digits))) :=
  .integer hnumber (Int64.toInt_ofNat_of_lt hbound)

theorem ofLexeme_of_large (hnumber : IsNumber (c :: rest))
    (hbound : integerBound ≤ decimalValue (c :: rest)) :
    ofLexeme offset c (c :: rest) =
      .error (.integerOutOfBounds (String.ofList (c :: rest)) offset) := by
  have hdigit := (isRun_cons_iff.mp hnumber).1
  simp [ofLexeme, isWordStart_of_isDigit hdigit, hdigit, ofDigitChars_eq_decimalValue,
    Nat.not_lt.mpr hbound]

/-- Every lexeme but a number that is too large denotes a token. -/
theorem ofLexeme_of_isLexeme (hlexeme : IsLexeme (c :: rest)) :
    (∃ token, ofLexeme offset c (c :: rest) = .ok token ∧ Denotes (c :: rest) token) ∨
      IsNumber (c :: rest) ∧ integerBound ≤ decimalValue (c :: rest) := by
  by_cases hstart : isWordStart c = true
  · left
    have hword : IsWord (String.ofList (c :: rest)).toList := by
      simpa using hlexeme.isWord hstart
    refine ⟨ofWord (String.ofList (c :: rest)), by simp [ofLexeme, hstart], ?_⟩
    simpa using denotes_ofWord hword
  · by_cases hdigit : c.isDigit = true
    · have hnumber := hlexeme.isNumber hdigit
      have hvalue := ofDigitChars_eq_decimalValue (c :: rest)
      by_cases hbound : decimalValue (c :: rest) < integerBound
      · left
        exact ⟨_, by simp [ofLexeme, hstart, hdigit, hvalue, hbound],
          denotes_ofNat hnumber hbound⟩
      · right
        exact ⟨hnumber, by omega⟩
    · left
      rcases hlexeme.isMark (by simpa using hstart) (by simpa using hdigit) with ⟨mark, hmark⟩
      refine ⟨.symbol mark, ?_, hmark ▸ .symbol mark⟩
      simp [ofLexeme, hstart, hdigit, hmark, Symbol.ofText?_text]

theorem ofLexeme_of_denotes (hdenotes : Denotes lexeme token) (hlexeme : lexeme = c :: rest) :
    ofLexeme offset c lexeme = .ok token := by
  have hclass (hword : IsWord lexeme) : isWordStart c = true := by
    rw [hlexeme] at hword
    exact (isRun_cons_iff.mp hword).1
  cases hdenotes with
  | keyword word =>
      simp [ofLexeme, hclass (isWord_text word), ofWord, Keyword.ofText?_text]
  | @ident name hword hunreserved =>
      simp [ofLexeme, hclass hword, ofWord, Keyword.ofText?_eq_none_iff.mpr hunreserved]
  | @integer digits value hnumber hvalue =>
      have hdigit : c.isDigit = true := by
        rw [hlexeme] at hnumber
        exact (isRun_cons_iff.mp hnumber).1
      have hstart : isWordStart c = false := isWordStart_of_isDigit hdigit
      have hbound : decimalValue lexeme < integerBound := by
        have hlt := Int64.toInt_lt value
        unfold integerBound
        omega
      have hsame : Int64.ofNat (decimalValue lexeme) = value := by
        rw [← Int64.toInt_inj, Int64.toInt_ofNat_of_lt hbound, hvalue]
      simp [ofLexeme, hstart, hdigit, ofDigitChars_eq_decimalValue, hbound, hsame]
  | symbol mark =>
      have hmark : IsMark (c :: rest) := ⟨mark, hlexeme.symm⟩
      simp [ofLexeme, hmark.head_class, Symbol.ofText?_text]

end Token

end ClassLang
