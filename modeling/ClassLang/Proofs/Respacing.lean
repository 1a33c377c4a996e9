import ClassLang.Compile
import ClassLang.Proofs.MaximalMunch

/-!
# Tokens and the blanks between them

The texts of tokens, written one after the other with blanks before, between and
after them, are scanned to these tokens again.  Between two tokens the blanks may be
left out unless the first one could be taken to go on with the second: a word before a
word or a number, a number before a number, and `=` before `=` or `==`.

So the blanks of a source text do not matter: spacing its tokens in another way gives
a text with the same tokens, which compiles to the same script or is refused for the
same reason.
-/

namespace ClassLang

namespace Token

/-- Some text is scanned to the token. -/
def Lexable : Token → Prop
  | keyword _ | symbol _ => True
  | ident name => IsWord name.toList ∧ ∀ word : Keyword, word.text ≠ name
  | integer value => 0 ≤ value.toInt

/-- Whether the second token, written right after the first one, is taken for a part of
it. -/
def clings : Token → Token → Bool
  | keyword _, keyword _ | keyword _, ident _ | keyword _, integer _ => true
  | ident _, keyword _ | ident _, ident _ | ident _, integer _ => true
  | integer _, integer _ => true
  | symbol .assign, symbol .assign | symbol .assign, symbol .equals => true
  | _, _ => false

def IsBlankText (text : String) : Prop :=
  ∀ c ∈ text.toList, isBlank c = true

end Token

/-- Tokens, each with the text that follows it, and the text before them. -/
structure Layout where
  lead : String
  items : List (Token × String)

namespace Layout

open Token

def tokens (layout : Layout) : List Token :=
  layout.items.map Prod.fst

def text (layout : Layout) : String :=
  layout.lead ++ String.join (layout.items.map fun (token, gap) => token.text ++ gap)

structure WellSpaced (layout : Layout) : Prop where
  lead : IsBlankText layout.lead
  gaps : ∀ item ∈ layout.items, IsBlankText item.2
  apart : layout.items.IsChain fun first second =>
    first.2 = "" → first.1.clings second.1 = false

end Layout

namespace Token

variable {token next : Token} {lexeme : List Char} {c : Char}

theorem isNumber_toDigits (number : Nat) : IsNumber (Nat.toDigits 10 number) := by
  have hdigit : ∀ d ∈ Nat.toDigits 10 number, d.isDigit = true := by
    intro d hd
    exact Nat.isDigit_of_mem_toDigits (by decide) (by decide) hd
  rcases hdigits : Nat.toDigits 10 number with _ | ⟨first, others⟩
  · exact absurd hdigits Nat.toDigits_ne_nil
  · rw [hdigits] at hdigit
    exact ⟨⟨first, rfl, hdigit first List.mem_cons_self⟩, hdigit⟩

theorem exists_text_integer {value : Int64} (hlexable : (integer value).Lexable) :
    ∃ number : Nat, value.toInt = number ∧
      (integer value).text.toList = Nat.toDigits 10 number := by
  rcases Int.eq_ofNat_of_zero_le hlexable with ⟨number, hnumber⟩
  refine ⟨number, hnumber, ?_⟩
  rw [text, hnumber]
  exact Nat.toList_repr

theorem denotes_text (hlexable : token.Lexable) : Denotes token.text.toList token := by
  cases token with
  | keyword word => exact .keyword word
  | symbol mark => exact .symbol mark
  | ident name => exact .ident hlexable.1 hlexable.2
  | integer value =>
      rcases exists_text_integer hlexable with ⟨number, hnumber, htext⟩
      rw [htext]
      refine .integer (isNumber_toDigits number) ?_
      rw [hnumber, ← ofDigitChars_eq_decimalValue, Nat.ofDigitChars_ten_toDigits]

theorem Denotes.lexable (hdenotes : Denotes lexeme token) : token.Lexable := by
  cases hdenotes with
  | keyword | symbol => trivial
  | ident hword hunreserved => exact ⟨hword, hunreserved⟩
  | integer _ hvalue =>
      change 0 ≤ _
      rw [hvalue]
      exact Int.natCast_nonneg _

theorem Munches.lexable {text rest : List Char} {tokens : List Token}
    (hmunches : Munches text tokens rest) : ∀ token ∈ tokens, token.Lexable := by
  induction hmunches with
  | done => simp
  | blank _ _ ih => exact ih
  | lexeme _ hdenotes _ ih => exact List.forall_mem_cons.mpr ⟨hdenotes.lexable, ih⟩

/-! ## Neighbours -/

theorem isWordChar_of_mark {mark : Symbol} (hc : c ∈ mark.text.toList.head?) :
    isWordChar c = false := by
  cases mark <;> (cases hc; decide)

/-- Words and numbers are recognized by their first character. -/
theorem IsRun.starts_with {start inside : Char → Bool} (hrun : IsRun start inside lexeme)
    (hc : c ∈ lexeme.head?) : start c = true := by
  rcases hrun.starts with ⟨first, hfirst, hstart⟩
  rw [Option.mem_unique hc hfirst]
  exact hstart

/-- What a token starts with. -/
def headClass : Token → Char → Bool
  | keyword _ | ident _ => isWordStart
  | integer _ => Char.isDigit
  | symbol _ => fun c => !isWordChar c

theorem headClass_of_head (hlexable : token.Lexable) (hc : c ∈ token.text.toList.head?) :
    token.headClass c = true := by
  cases token with
  | keyword word => exact (isWord_text word).starts_with hc
  | ident name => exact hlexable.1.starts_with hc
  | integer value =>
      rcases exists_text_integer hlexable with ⟨number, -, htext⟩
      rw [htext] at hc
      exact (isNumber_toDigits number).starts_with hc
  | symbol mark => simp [headClass, isWordChar_of_mark hc]

/-- A token that does not cling to the one before it starts with a character that does
not extend that one. -/
theorem not_isLexeme_append (hlexable : token.Lexable) (hnext : next.Lexable)
    (happart : token.clings next = false) (hc : c ∈ next.text.toList.head?) :
    ¬ IsLexeme (token.text.toList ++ [c]) := by
  intro hlonger
  have hclass := headClass_of_head hnext hc
  cases token with
  | keyword word =>
      rw [text, IsWord.isLexeme_append_iff (isWord_text word)] at hlonger
      cases next with
      | symbol mark => simp [headClass, hlonger] at hclass
      | keyword | ident | integer => cases happart
  | ident name =>
      rw [text, IsWord.isLexeme_append_iff hlexable.1] at hlonger
      cases next with
      | symbol mark => simp [headClass, hlonger] at hclass
      | keyword | ident | integer => cases happart
  | integer value =>
      rcases exists_text_integer hlexable with ⟨number, -, htext⟩
      rw [htext, IsNumber.isLexeme_append_iff (isNumber_toDigits number)] at hlonger
      cases next with
      | symbol mark => simp [headClass, isWordChar_of_isDigit hlonger] at hclass
      | keyword | ident => simp [isDigit_of_isWordStart hclass] at hlonger
      | integer => cases happart
  | symbol mark =>
      -- Only `=` can be extended, and only by another one.
      rcases (isLexeme_mark_append_iff mark).mp hlonger with ⟨rfl, rfl⟩
      cases next with
      | symbol other =>
          have hassign : other = .assign ∨ other = .equals := by
            clear hclass
            revert hc
            cases other <;> decide
          rcases hassign with rfl | rfl <;> cases happart
      | keyword | ident | integer => cases hclass

/-! ## Reading a layout -/

theorem Munches.blanks {gap text rest : List Char} {tokens : List Token}
    (hgap : ∀ c ∈ gap, isBlank c = true) (hmunches : Munches text tokens rest) :
    Munches (gap ++ text) tokens rest := by
  induction gap with
  | nil => exact hmunches
  | cons c others ih =>
      rw [List.forall_mem_cons] at hgap
      exact .blank hgap.1 (ih hgap.2)

theorem not_isLexeme_append_of_blank (hblank : isBlank c = true) :
    ¬ IsLexeme (lexeme ++ [c]) := by
  intro hlonger
  have hother := hlonger.isBlank_of_mem (List.mem_append_right lexeme List.mem_cons_self)
  simp [hblank] at hother

end Token

namespace Layout

open Token

/-- The characters of tokens and of the texts that follow them. -/
def chars (items : List (Token × String)) : List Char :=
  items.flatMap fun (token, gap) => token.text.toList ++ gap.toList

theorem toList_text (layout : Layout) :
    layout.text.toList = layout.lead.toList ++ chars layout.items := by
  simp [text, chars, String.toList_join, List.flatMap_map]

/-- What follows a token, a gap or the next token, does not extend it. -/
theorem longest_text {token : Token} {gap : String} {items : List (Token × String)}
    (hlexable : ∀ item ∈ (token, gap) :: items, item.1.Lexable) (hgap : IsBlankText gap)
    (happart : ((token, gap) :: items).IsChain fun first second =>
      first.2 = "" → first.1.clings second.1 = false) :
    Longest token.text.toList (gap.toList ++ chars items) := by
  rw [List.forall_mem_cons] at hlexable
  rw [longest_iff]
  refine ⟨(denotes_text hlexable.1).isLexeme, ?_⟩
  intro c hc
  by_cases hempty : gap = ""
  · subst hempty
    rcases items with _ | ⟨⟨next, after⟩, others⟩
    · simp [chars] at hc
    · have hnext : next.Lexable := hlexable.2 (next, after) List.mem_cons_self
      have hfirst : c ∈ next.text.toList.head? := by
        have hne := (denotes_text hnext).isLexeme.ne_nil
        simpa [chars, List.head?_append, List.head?_eq_some_head hne] using hc
      rw [List.isChain_cons_cons] at happart
      exact not_isLexeme_append hlexable.1 hnext (happart.1 rfl) hfirst
  · have hfirst : c ∈ gap.toList := by
      have hne : gap.toList ≠ [] := by simpa using hempty
      rw [List.head?_append_of_ne_nil _ hne] at hc
      exact List.mem_of_mem_head? hc
    exact not_isLexeme_append_of_blank (hgap c hfirst)

theorem munches_chars {items : List (Token × String)}
    (hlexable : ∀ item ∈ items, item.1.Lexable) (hgaps : ∀ item ∈ items, IsBlankText item.2)
    (happart : items.IsChain fun first second =>
      first.2 = "" → first.1.clings second.1 = false) :
    Munches (chars items) (items.map Prod.fst) [] := by
  induction items with
  | nil => exact .done []
  | cons item others ih =>
      rcases item with ⟨token, gap⟩
      have hlongest := longest_text hlexable (hgaps _ List.mem_cons_self) happart
      rw [List.forall_mem_cons] at hlexable hgaps
      have hothers := ih hlexable.2 hgaps.2 happart.tail
      have hsplit : chars ((token, gap) :: others) =
          token.text.toList ++ (gap.toList ++ chars others) := by
        simp [chars]
      rw [hsplit]
      exact .lexeme hlongest (denotes_text hlexable.1) (hothers.blanks hgaps.1)

theorem scan_text {layout : Layout} (hspaced : layout.WellSpaced)
    (hlexable : ∀ token ∈ layout.tokens, token.Lexable) :
    scan layout.text = .ok layout.tokens := by
  rw [scan_eq_ok_iff, toList_text]
  have hitems : ∀ item ∈ layout.items, item.1.Lexable := by
    intro item hitem
    exact hlexable item.1 (List.mem_map_of_mem hitem)
  exact (munches_chars hitems hspaced.gaps hspaced.apart).blanks hspaced.lead

end Layout

/-- Compiling looks at the tokens of a text only. -/
theorem compile_eq_of_scan {source other : String}
    (hscan : Token.scan source = Token.scan other) : compile source = compile other := by
  simp only [compile, Source.script, Source.program, Source.tokens, hscan]

/-- Tokens written with blanks around them, wherever one could be taken for a part of
the other, are scanned to themselves.  Scanned tokens are of this kind, so that a source
text can be spaced anew without a change to what it compiles to. -/
theorem respacing_keeps_tokens :
    (∀ source tokens, Token.scan source = .ok tokens → ∀ token ∈ tokens, token.Lexable) ∧
    (∀ layout : Layout, layout.WellSpaced → (∀ token ∈ layout.tokens, token.Lexable) →
      Token.scan layout.text = .ok layout.tokens) ∧
    ∀ (source : String) (layout : Layout), Token.scan source = .ok layout.tokens →
      layout.WellSpaced → compile layout.text = compile source := by
  have hlexable : ∀ source tokens, Token.scan source = .ok tokens →
      ∀ token ∈ tokens, token.Lexable := by
    intro source tokens hscan
    exact (Token.scan_eq_ok_iff.mp hscan).lexable
  refine ⟨hlexable, fun layout => Layout.scan_text, ?_⟩
  intro source layout hscan hspaced
  apply compile_eq_of_scan
  rw [hscan]
  exact Layout.scan_text hspaced (hlexable source layout.tokens hscan)

/-- The tokens of `a=b==c`, with blanks where they need none. -/
def comparisonLayout : Layout where
  lead := "\t"
  items := [(.ident "a", " "), (.symbol .assign, ""), (.ident "b", ""),
    (.symbol .equals, "\r\n"), (.ident "c", "")]

theorem respacing_keeps_tokens_comparisonLayout :
    Token.scan "a=b==c" = .ok comparisonLayout.tokens ∧ comparisonLayout.WellSpaced ∧
      Token.scan "\ta =b==\r\nc" = .ok comparisonLayout.tokens ∧
      compile "\ta =b==\r\nc" = compile "a=b==c" := by
  have hscan : Token.scan "a=b==c" = .ok comparisonLayout.tokens := by cbv
  have hspaced : comparisonLayout.WellSpaced := by
    refine ⟨?_, ?_, by decide⟩
    · simp [comparisonLayout, Token.IsBlankText, Token.isBlank]
    · simp [comparisonLayout, Token.IsBlankText, Token.isBlank]
  have htext : comparisonLayout.text = "\ta =b==\r\nc" := by rfl
  have hlexable := respacing_keeps_tokens.1 _ _ hscan
  have hagain := respacing_keeps_tokens.2.1 comparisonLayout hspaced hlexable
  have hcompile := respacing_keeps_tokens.2.2 _ comparisonLayout hscan hspaced
  rw [htext] at hagain hcompile
  exact ⟨hscan, hspaced, hagain, hcompile⟩

end ClassLang
