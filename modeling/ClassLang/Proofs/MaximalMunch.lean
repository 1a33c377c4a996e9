import ClassLang.Proofs.Lexemes
import ClassLang.Text.Bytes

/-!
# Scanning takes the longest lexeme

A text is read from the left.  Blanks are skipped, and at every other place the
longest lexeme is taken, whatever follows it.  Reading ends at the end of the text or
at the first place where no lexeme starts or a number is too large.  Scanning a text
gives the tokens of its lexemes in the first case and the error of that place in the
second, with its offset in the UTF-8 encoding.

What stands before a faulty place can be scanned without it, because a lexeme that is
the longest one in a text is still the longest one if the end of the text is missing.
-/

namespace ClassLang

def ScanError.offset : ScanError → Nat
  | unexpectedChar _ offset | integerOutOfBounds _ offset => offset

namespace Token

/-- The text starts with lexemes for the given tokens, with blanks around them, and
goes on with the rest. -/
inductive Munches : List Char → List Token → List Char → Prop where
  | done (rest : List Char) : Munches rest [] rest
  | blank {c : Char} {text rest : List Char} {tokens : List Token} :
      isBlank c = true → Munches text tokens rest → Munches (c :: text) tokens rest
  | lexeme {lexeme text rest : List Char} {token : Token} {tokens : List Token} :
      Longest lexeme text → Denotes lexeme token → Munches text tokens rest →
      Munches (lexeme ++ text) (token :: tokens) rest

/-- What is wrong with a text from the given offset on. -/
inductive Fault (offset : Nat) : List Char → ScanError → Prop where
  | unexpectedChar {c : Char} {rest : List Char} :
      isBlank c = false → (∀ lexeme, IsLexeme lexeme → ¬ lexeme <+: c :: rest) →
      Fault offset (c :: rest) (.unexpectedChar c offset)
  | integerOutOfBounds {digits rest : List Char} :
      IsNumber digits → Longest digits rest → 2 ^ 63 ≤ decimalValue digits →
      Fault offset (digits ++ rest) (.integerOutOfBounds (String.ofList digits) offset)

/-! ## One lexeme -/

section

variable {c : Char} {lexeme rest : List Char} {offset : Nat} {token : Token}
  {error : ScanError}

theorem isWordChar_of_isBlank (hblank : isBlank c = true) : isWordChar c = false := by
  simp only [isBlank, Bool.or_eq_true, decide_eq_true_eq] at hblank
  rcases hblank with (((rfl | rfl) | rfl) | rfl) | rfl <;> decide

theorem IsLexeme.isBlank_of_mem (hlexeme : IsLexeme lexeme) (hc : c ∈ lexeme) :
    isBlank c = false := by
  by_contra hblank
  have hother := isWordChar_of_isBlank (by simpa using hblank)
  rcases hlexeme with hword | hnumber | ⟨mark, rfl⟩
  · simp [hword.chars c hc] at hother
  · simp [isWordChar_of_isDigit (hnumber.chars c hc)] at hother
  · have hmark : mark.text.toList.all (fun d => !isBlank d) = true := by cases mark <;> rfl
    apply hblank
    simpa using List.all_eq_true.mp hmark c hc

theorem Fault.isBlank_head {text : List Char} (hfault : Fault offset text error) :
    ∃ c rest, text = c :: rest ∧ isBlank c = false := by
  cases hfault with
  | unexpectedChar hblank _ => exact ⟨_, _, rfl, hblank⟩
  | @integerOutOfBounds digits rest hnumber hlongest _ =>
      cases digits with
      | nil => exact absurd hnumber not_isRun_nil
      | cons c others => exact 
          ⟨c, others ++ rest, rfl, hlongest.isLexeme.isBlank_of_mem List.mem_cons_self⟩

theorem exists_cut_eq_cons (c : Char) (rest : List Char) :
    ∃ body, (cut c rest).1 = c :: body := by
  unfold cut
  split
  · exact ⟨_, rfl⟩
  · split
    · exact ⟨_, rfl⟩
    · split <;> exact ⟨_, rfl⟩

theorem cut_part (c : Char) (rest : List Char) : (cut c rest).1 <+: c :: rest :=
  ⟨(cut c rest).2, cut_append c rest⟩

/-- Cutting gives a lexeme unless it gives a character that starts none. -/
theorem longest_cut_or_ofLexeme (offset : Nat) (c : Char) (rest : List Char) :
    Longest (cut c rest).1 (cut c rest).2 ∨
      (∀ lexeme, IsLexeme lexeme → ¬ lexeme <+: c :: rest) ∧
        ofLexeme offset c (cut c rest).1 = .error (.unexpectedChar c offset) := by
  by_cases hsome : ∃ lexeme, IsLexeme lexeme ∧ lexeme <+: c :: rest
  · left
    rcases hsome with ⟨lexeme, hlexeme, hpart⟩
    exact longest_cut hlexeme hpart
  · right
    have hnone : ∀ lexeme, IsLexeme lexeme → ¬ lexeme <+: c :: rest := by
      intro lexeme hlexeme hpart
      exact hsome ⟨lexeme, hlexeme, hpart⟩
    have hstart : ¬ isWordStart c = true := fun hstart =>
      hnone _ (longest_cut_of_isWordStart hstart).isLexeme (cut_part c rest)
    have hdigit : ¬ c.isDigit = true := fun hdigit =>
      hnone _ (longest_cut_of_isDigit hdigit).isLexeme (cut_part c rest)
    have hmark : Symbol.ofText? (String.ofList (cut c rest).1) = none := by
      rw [Option.eq_none_iff_forall_ne_some]
      intro mark hmark
      have htext : mark.text.toList = (cut c rest).1 := by
        rw [Symbol.ofText?_eq_some_iff.mp hmark, String.toList_ofList]
      exact hnone _ (.inr (.inr ⟨mark, htext.symm⟩)) (cut_part c rest)
    exact ⟨hnone, by simp [ofLexeme, hstart, hdigit, hmark]⟩

theorem ofLexeme_cut_eq_ok_iff :
    ofLexeme offset c (cut c rest).1 = .ok token ↔
      Longest (cut c rest).1 (cut c rest).2 ∧ Denotes (cut c rest).1 token := by
  rcases exists_cut_eq_cons c rest with ⟨body, hbody⟩
  constructor
  · intro hok
    rcases longest_cut_or_ofLexeme offset c rest with hlongest | ⟨-, herror⟩
    · refine ⟨hlongest, ?_⟩
      have hlexeme := hlongest.isLexeme
      rw [hbody] at hlexeme hok ⊢
      rcases ofLexeme_of_isLexeme hlexeme with ⟨denoted, hdenoted, hdenotes⟩ | ⟨hnumber, hbound⟩
      · rw [hdenoted] at hok
        cases hok
        exact hdenotes
      · rw [ofLexeme_of_large hnumber hbound] at hok
        cases hok
    · rw [herror] at hok
      cases hok
  · rintro ⟨-, hdenotes⟩
    exact ofLexeme_of_denotes hdenotes hbody

theorem fault_of_ofLexeme_cut (hblank : isBlank c = false)
    (herror : ofLexeme offset c (cut c rest).1 = .error error) :
    Fault offset (c :: rest) error := by
  rcases longest_cut_or_ofLexeme offset c rest with hlongest | ⟨hnone, hchar⟩
  · rcases exists_cut_eq_cons c rest with ⟨body, hbody⟩
    have hlexeme := hlongest.isLexeme
    rw [hbody] at hlexeme herror
    rcases ofLexeme_of_isLexeme hlexeme with ⟨token, hok, -⟩ | ⟨hnumber, hbound⟩
    · rw [hok] at herror
      cases herror
    · rw [ofLexeme_of_large hnumber hbound] at herror
      cases herror
      rw [← hbody] at hnumber hbound ⊢
      rw [← cut_append c rest]
      exact .integerOutOfBounds hnumber hlongest hbound
  · rw [hchar] at herror
    cases herror
    exact .unexpectedChar hblank hnone

theorem ofLexeme_cut_of_fault {text : List Char} (hfault : Fault offset text error)
    (htext : text = c :: rest) : ofLexeme offset c (cut c rest).1 = .error error := by
  cases hfault with
  | unexpectedChar hblank hnone =>
      cases htext
      rcases longest_cut_or_ofLexeme offset c rest with hlongest | ⟨-, hchar⟩
      · exact absurd (cut_part c rest) (hnone _ hlongest.isLexeme)
      · exact hchar
  | @integerOutOfBounds digits after hnumber hlongest hbound =>
      rcases exists_cut_eq_cons c rest with ⟨body, hbody⟩
      have hdigits := (eq_cut_of_longest hlongest htext).1
      rw [hdigits, hbody] at hnumber hbound
      rw [hdigits, hbody]
      exact ofLexeme_of_large hnumber hbound

end

/-! ## Whole texts -/

section

variable {c : Char} {text rest after : List Char} {offset : Nat} {token : Token}
  {tokens seen : List Token} {error : ScanError}

theorem munches_nil_iff : Munches [] tokens after ↔ tokens = [] ∧ after = [] := by
  constructor
  · generalize htext : ([] : List Char) = text
    intro hmunches
    cases hmunches with
    | done => exact ⟨rfl, rfl⟩
    | blank => cases htext
    | lexeme hlongest _ _ =>
        exact absurd (List.append_eq_nil_iff.mp htext.symm).1 hlongest.isLexeme.ne_nil
  · rintro ⟨rfl, rfl⟩
    exact .done []

/-- A text is read in the way in which it is scanned. -/
theorem munches_cons_iff (offset : Nat) :
    Munches (c :: rest) tokens after ↔
      tokens = [] ∧ after = c :: rest ∨
      isBlank c = true ∧ Munches rest tokens after ∨
      ∃ token more, ofLexeme offset c (cut c rest).1 = .ok token ∧ tokens = token :: more ∧
        Munches (cut c rest).2 more after := by
  constructor
  · generalize htext : c :: rest = text
    intro hmunches
    cases hmunches with
    | done => exact .inl ⟨rfl, rfl⟩
    | blank hblank hrest =>
        cases htext
        exact .inr (.inl ⟨hblank, hrest⟩)
    | @lexeme lexeme others _ token more hlongest hdenotes hmore =>
        rcases eq_cut_of_longest hlongest htext.symm with ⟨rfl, rfl⟩
        exact .inr (.inr ⟨token, more, ofLexeme_cut_eq_ok_iff.mpr ⟨hlongest, hdenotes⟩, rfl, hmore⟩)
  · rintro (⟨rfl, rfl⟩ | ⟨hblank, hrest⟩ | ⟨token, more, hok, rfl, hmore⟩)
    · exact .done _
    · exact .blank hblank hrest
    · rcases ofLexeme_cut_eq_ok_iff.mp hok with ⟨hlongest, hdenotes⟩
      rw [← cut_append c rest]
      exact .lexeme hlongest hdenotes hmore

theorem munches_cons_iff_of_blank (hblank : isBlank c = true)
    (hafter : ∀ d ∈ after.head?, isBlank d = false) :
    Munches (c :: rest) tokens after ↔ Munches rest tokens after := by
  rw [munches_cons_iff 0]
  constructor
  · rintro (⟨-, rfl⟩ | ⟨-, hrest⟩ | ⟨token, more, hok, -⟩)
    · simp [hblank] at hafter
    · exact hrest
    · have hlexeme := (ofLexeme_cut_eq_ok_iff.mp hok).1.isLexeme
      rcases exists_cut_eq_cons c rest with ⟨body, hbody⟩
      simp [hlexeme.isBlank_of_mem (hbody ▸ List.mem_cons_self)] at hblank
  · intro hrest
    exact .inr (.inl ⟨hblank, hrest⟩)

theorem munches_cons_iff_of_ok (hblank : isBlank c = false)
    (hok : ofLexeme offset c (cut c rest).1 = .ok token) (hafter : after ≠ c :: rest) :
    Munches (c :: rest) tokens after ↔
      ∃ more, tokens = token :: more ∧ Munches (cut c rest).2 more after := by
  rw [munches_cons_iff offset]
  simp [hblank, hok, hafter]

theorem munches_cons_iff_of_error (hblank : isBlank c = false)
    (herror : ofLexeme offset c (cut c rest).1 = .error error) :
    Munches (c :: rest) tokens after ↔ tokens = [] ∧ after = c :: rest := by
  rw [munches_cons_iff offset]
  simp [hblank, herror]

/-- Where a token was cut off nothing is wrong. -/
theorem Fault.ne_of_ok {other : Nat} (hfault : Fault other after error)
    (hok : ofLexeme offset c (cut c rest).1 = .ok token) : after ≠ c :: rest := by
  intro hafter
  have herror := ofLexeme_cut_of_fault hfault hafter
  rw [ofLexeme_cut_eq_ok_iff.mpr (ofLexeme_cut_eq_ok_iff.mp hok)] at herror
  cases herror

theorem scanFrom_eq_ok_iff :
    scanFrom offset seen text = .ok tokens ↔
      ∃ more, tokens = seen.reverse ++ more ∧ Munches text more [] := by
  fun_induction scanFrom offset seen text with
  | case1 offset seen => simp [munches_nil_iff, eq_comm]
  | case2 offset seen c rest hblank ih =>
      rw [ih]
      simp only [munches_cons_iff_of_blank hblank (show ∀ d ∈ [].head?, _ by simp)]
  | case3 offset seen c rest hblank error herror =>
      simp [munches_cons_iff_of_error (by simpa using hblank) herror]
  | case4 offset seen c rest hblank token htoken ih =>
      rw [ih]
      simp only [munches_cons_iff_of_ok (by simpa using hblank) htoken
        (List.cons_ne_nil c rest).symm]
      constructor
      · rintro ⟨more, rfl, hmore⟩
        exact ⟨token :: more, by simp, more, rfl, hmore⟩
      · rintro ⟨_, rfl, more, rfl, hmore⟩
        exact ⟨more, by simp, hmore⟩

/-! ## Offsets -/

theorem byteCount_append (first second : List Char) :
    Text.byteCount (first ++ second) = Text.byteCount first + Text.byteCount second := by
  induction first with
  | nil => simp [Text.byteCount]
  | cons c others ih =>
      rw [List.cons_append, Text.byteCount, Text.byteCount, ih]
      omega

theorem utf8ByteSize_eq_byteCount (text : String) :
    text.utf8ByteSize = Text.byteCount text.toList := by
  have hchars (chars : List Char) :
      (String.ofList chars).utf8ByteSize = Text.byteCount chars := by
    induction chars with
    | nil => rfl
    | cons c others ih =>
        have hsplit : String.ofList (c :: others) = String.singleton c ++ String.ofList others := by
          rw [String.singleton_eq_ofList, ← String.ofList_append, List.singleton_append]
        rw [hsplit, String.utf8ByteSize_append, String.utf8ByteSize_singleton, ih,
          Text.byteCount]
  rw [← hchars, String.ofList_toList]

theorem utf8Size_of_isBlank (hblank : isBlank c = true) : c.utf8Size = 1 := by
  simp only [isBlank, Bool.or_eq_true, decide_eq_true_eq] at hblank
  rcases hblank with (((rfl | rfl) | rfl) | rfl) | rfl <;> decide

theorem utf8Size_of_isWordChar (hchar : isWordChar c = true) : c.utf8Size = 1 := by
  rw [Char.utf8Size_eq_one_iff]
  simp only [isWordChar, Char.isAlphanum, Bool.or_eq_true, decide_eq_true_eq] at hchar
  rcases hchar with hletter | rfl
  · simp only [Char.isAlpha, Char.isUpper, Char.isLower, Char.isDigit] at hletter
    grind
  · decide

/-- Every character of a lexeme takes one byte. -/
theorem IsLexeme.byteCount_eq {lexeme : List Char} (hlexeme : IsLexeme lexeme) :
    Text.byteCount lexeme = lexeme.length := by
  have hchars : ∀ c ∈ lexeme, c.utf8Size = 1 := by
    rcases hlexeme with hword | hnumber | ⟨mark, rfl⟩
    · exact fun c hc => utf8Size_of_isWordChar (hword.chars c hc)
    · exact fun c hc => utf8Size_of_isWordChar (isWordChar_of_isDigit (hnumber.chars c hc))
    · have hmark : mark.text.toList.all (fun d => d.utf8Size = 1) = true := by
        cases mark <;> rfl
      simpa using hmark
  clear hlexeme
  induction lexeme with
  | nil => rfl
  | cons c others ih =>
      rw [List.forall_mem_cons] at hchars
      rw [Text.byteCount, hchars.1, ih hchars.2, List.length_cons]
      omega

theorem scanFrom_eq_error_iff :
    scanFrom offset seen text = .error error ↔
      ∃ tokens after, Munches text tokens after ∧
        Fault (offset + Text.byteCount text - Text.byteCount after) after error := by
  fun_induction scanFrom offset seen text with
  | case1 offset seen =>
      simp only [munches_nil_iff, reduceCtorEq, false_iff]
      rintro ⟨tokens, after, ⟨-, rfl⟩, hfault⟩
      simpa using hfault.isBlank_head
  | case2 offset seen c rest hblank ih =>
      have hcount : offset + Text.byteCount (c :: rest) = offset + 1 + Text.byteCount rest := by
        rw [Text.byteCount, utf8Size_of_isBlank hblank]
        omega
      rw [ih, hcount]
      refine exists₂_congr fun tokens after => and_congr_left fun hfault => ?_
      rcases hfault.isBlank_head with ⟨d, others, rfl, hhead⟩
      exact (munches_cons_iff_of_blank hblank (by simpa using hhead)).symm
  | case3 offset seen c rest hblank stuck hstuck =>
      have hnonblank : isBlank c = false := by simpa using hblank
      simp only [munches_cons_iff_of_error hnonblank hstuck, Except.error.injEq]
      constructor
      · rintro rfl
        refine ⟨[], c :: rest, ⟨rfl, rfl⟩, ?_⟩
        simpa using fault_of_ofLexeme_cut hnonblank hstuck
      · rintro ⟨_, _, ⟨rfl, rfl⟩, hfault⟩
        have herror := ofLexeme_cut_of_fault hfault rfl
        rw [Nat.add_sub_cancel, hstuck] at herror
        exact Except.error.inj herror
  | case4 offset seen c rest hblank token htoken ih =>
      have hcount : offset + Text.byteCount (c :: rest) =
          offset + (cut c rest).1.length + Text.byteCount (cut c rest).2 := by
        have hlexeme := (ofLexeme_cut_eq_ok_iff.mp htoken).1.isLexeme
        rw [← cut_append c rest, byteCount_append, hlexeme.byteCount_eq]
        omega
      rw [ih, hcount]
      constructor
      · rintro ⟨more, after, hmore, hfault⟩
        refine ⟨token :: more, after, ?_, hfault⟩
        rw [munches_cons_iff_of_ok (by simpa using hblank) htoken (hfault.ne_of_ok htoken)]
        exact ⟨more, rfl, hmore⟩
      · rintro ⟨tokens, after, hmunches, hfault⟩
        rw [munches_cons_iff_of_ok (by simpa using hblank) htoken (hfault.ne_of_ok htoken)]
          at hmunches
        rcases hmunches with ⟨more, rfl, hmore⟩
        exact ⟨more, after, hmore, hfault⟩

theorem Longest.of_append {lexeme : List Char} (hlongest : Longest lexeme (text ++ rest)) :
    Longest lexeme text := by
  refine ⟨hlongest.isLexeme, ?_⟩
  intro other hother hpart
  apply hlongest.maximal other hother
  rw [← List.append_assoc]
  exact hpart.trans (List.prefix_append _ rest)

/-- What has been read can be read without the rest. -/
theorem Munches.exists_before (hmunches : Munches text tokens rest) :
    ∃ before, text = before ++ rest ∧ Munches before tokens [] := by
  induction hmunches with
  | done rest => exact ⟨[], rfl, .done []⟩
  | @blank c _ _ _ hblank _ ih =>
      rcases ih with ⟨before, rfl, hbefore⟩
      exact ⟨c :: before, rfl, .blank hblank hbefore⟩
  | @lexeme lexeme _ _ _ _ hlongest hdenotes _ ih =>
      rcases ih with ⟨before, rfl, hbefore⟩
      exact ⟨lexeme ++ before, by simp, .lexeme hlongest.of_append hdenotes hbefore⟩

theorem Fault.offset_eq (hfault : Fault offset text error) : error.offset = offset := by
  cases hfault <;> rfl

end

theorem scan_eq_ok_iff {source : String} {tokens : List Token} :
    scan source = .ok tokens ↔ Munches source.toList tokens [] := by
  simp [scan, scanFrom_eq_ok_iff]

theorem scan_eq_error_iff {source : String} {error : ScanError} :
    scan source = .error error ↔
      ∃ before after tokens, source = before ++ after ∧
        Munches source.toList tokens after.toList ∧
        Fault before.utf8ByteSize after.toList error := by
  rw [scan, scanFrom_eq_error_iff]
  constructor
  · rintro ⟨tokens, after, hmunches, hfault⟩
    rcases hmunches.exists_before with ⟨before, hsource, -⟩
    have hoffset : 0 + Text.byteCount source.toList - Text.byteCount after =
        (String.ofList before).utf8ByteSize := by
      rw [hsource, byteCount_append, utf8ByteSize_eq_byteCount, String.toList_ofList]
      omega
    rw [hoffset] at hfault
    refine ⟨String.ofList before, String.ofList after, tokens, ?_, by simpa using hmunches,
      by simpa using hfault⟩
    rw [← String.ofList_append, ← hsource, String.ofList_toList]
  · rintro ⟨before, after, tokens, rfl, hmunches, hfault⟩
    refine ⟨tokens, after.toList, hmunches, ?_⟩
    have hoffset : 0 + Text.byteCount (before ++ after).toList - Text.byteCount after.toList =
        before.utf8ByteSize := by
      rw [String.toList_append, byteCount_append, utf8ByteSize_eq_byteCount]
      omega
    rw [hoffset]
    exact hfault

/-- A text is a sequence of tokens exactly if taking the longest lexeme again and again
consumes it.  Any other text is refused at the first place where this gets stuck, and
what stands before that place is a sequence of tokens. -/
theorem scan_exact (source : String) :
    (∀ tokens, scan source = .ok tokens ↔ Munches source.toList tokens []) ∧
    (∀ error, scan source = .error error ↔
      ∃ before after tokens, source = before ++ after ∧
        Munches source.toList tokens after.toList ∧
        Fault before.utf8ByteSize after.toList error) ∧
    ∀ error, scan source = .error error →
      ∃ before after tokens, source = before ++ after ∧
        before.utf8ByteSize = error.offset ∧ scan before = .ok tokens := by
  refine ⟨fun _ => scan_eq_ok_iff, fun _ => scan_eq_error_iff, ?_⟩
  intro error herror
  rcases scan_eq_error_iff.mp herror with ⟨before, after, tokens, rfl, hmunches, hfault⟩
  rcases hmunches.exists_before with ⟨read, hsplit, hread⟩
  have hbefore : before.toList = read := by
    rw [String.toList_append] at hsplit
    exact List.append_cancel_right hsplit
  exact ⟨before, after, tokens, rfl, hfault.offset_eq.symm,
    scan_eq_ok_iff.mpr (hbefore ▸ hread)⟩

/-- A reserved word at the start of a longer word is a part of it, zeros may lead a
number, and a letter with an accent starts no lexeme. -/
theorem scan_exact_mixed :
    scan "if(ifx==007é" = .error (.unexpectedChar 'é' 11) ∧
      ∃ before after tokens, "if(ifx==007é" = before ++ after ∧
        before.utf8ByteSize = 11 ∧ scan before = .ok tokens := by
  have herror : scan "if(ifx==007é" = .error (.unexpectedChar 'é' 11) := by cbv
  exact ⟨herror, (scan_exact _).2.2 _ herror⟩

end Token

end ClassLang
