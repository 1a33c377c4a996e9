import ClassLang.Proofs.Respacing

/-!
# Texts with blanks between them

A blank ends every lexeme.  So what is read of a text does not change when a blank and
anything else is written after it: the lexemes are still the longest ones, and a faulty
place stays faulty.  Two texts with blanks between them are read one after the other,
as each of them is read alone.

The second text starts further on, by the bytes of the first one and of the blanks, and
the offset of an error in it grows by that number.
-/

namespace ClassLang

/-- The same error in a text that starts the given number of bytes further on. -/
def ScanError.shift (bytes : Nat) : ScanError → ScanError
  | unexpectedChar char offset => unexpectedChar char (offset + bytes)
  | integerOutOfBounds literal offset => integerOutOfBounds literal (offset + bytes)

namespace Token

variable {c : Char} {lexeme text rest after : List Char} {tokens others : List Token}
  {offset : Nat} {error : ScanError}

/-! ## What a blank leaves as it is -/

theorem Longest.append_blank (hlongest : Longest lexeme rest) (hblank : isBlank c = true)
    (more : List Char) : Longest lexeme (rest ++ c :: more) := by
  rw [longest_iff] at hlongest ⊢
  refine ⟨hlongest.1, ?_⟩
  intro d hd
  cases rest with
  | nil =>
      cases hd
      exact not_isLexeme_append_of_blank hblank
  | cons next others => exact hlongest.2 d hd

theorem Munches.append_blank (hmunches : Munches text tokens rest) (hblank : isBlank c = true)
    (more : List Char) : Munches (text ++ c :: more) tokens (rest ++ c :: more) := by
  induction hmunches with
  | done rest => exact .done _
  | blank hother _ ih => exact .blank hother ih
  | @lexeme lexeme text rest token tokens hlongest hdenotes _ ih =>
      rw [List.append_assoc]
      exact .lexeme (hlongest.append_blank hblank more) hdenotes ih

theorem Fault.append_blank (hfault : Fault offset text error) (hblank : isBlank c = true)
    (more : List Char) : Fault offset (text ++ c :: more) error := by
  cases hfault with
  | @unexpectedChar first rest hfirst hnone =>
      refine .unexpectedChar hfirst ?_
      intro lexeme hlexeme hpart
      -- A lexeme there would start with a lexeme of one character.
      cases lexeme with
      | nil => exact hlexeme.ne_nil rfl
      | cons d body =>
          obtain rfl : d = first := (List.cons_prefix_cons.mp hpart).1
          have hsingle : IsLexeme [d] := hlexeme.of_prefix ⟨body, rfl⟩ (by simp)
          exact hnone [d] hsingle ⟨rest, rfl⟩
  | @integerOutOfBounds digits rest hnumber hlongest hbound =>
      rw [List.append_assoc]
      exact .integerOutOfBounds hnumber (hlongest.append_blank hblank more) hbound

/-! ## One text after the other -/

theorem Munches.trans (hmunches : Munches text tokens rest) (hothers : Munches rest others after) :
    Munches text (tokens ++ others) after := by
  induction hmunches with
  | done => exact hothers
  | blank hblank _ ih => exact .blank hblank (ih hothers)
  | lexeme hlongest hdenotes _ ih => exact .lexeme hlongest hdenotes (ih hothers)

theorem Fault.shift (hfault : Fault offset text error) (bytes : Nat) :
    Fault (offset + bytes) text (error.shift bytes) := by
  cases hfault with
  | unexpectedChar hblank hnone => exact .unexpectedChar hblank hnone
  | integerOutOfBounds hnumber hlongest hbound =>
      exact .integerOutOfBounds hnumber hlongest hbound

/-- A text that is read to its end is read in the same way before blanks, and what
follows these is read next. -/
theorem Munches.juxtapose {gap : List Char} (hmunches : Munches text tokens [])
    (hgap : ∀ c ∈ gap, isBlank c = true) (hne : gap ≠ []) (hothers : Munches rest others after) :
    Munches (text ++ gap ++ rest) (tokens ++ others) after := by
  cases gap with
  | nil => exact absurd rfl hne
  | cons c blanks =>
      have hfirst : Munches (text ++ c :: (blanks ++ rest)) tokens (c :: (blanks ++ rest)) :=
        hmunches.append_blank (hgap c List.mem_cons_self) _
      rw [List.append_assoc]
      exact hfirst.trans (hothers.blanks hgap)

/-- Scanning two texts with blanks between them is scanning the first one and then, if
nothing is wrong with it, the second one. -/
theorem scan_juxtaposed {first gap second : String} (hgap : IsBlankText gap) (hne : gap ≠ "") :
    (∀ error, scan first = .error error → scan (first ++ gap ++ second) = .error error) ∧
    (∀ tokens others, scan first = .ok tokens → scan second = .ok others →
      scan (first ++ gap ++ second) = .ok (tokens ++ others)) ∧
    ∀ tokens error, scan first = .ok tokens → scan second = .error error →
      scan (first ++ gap ++ second) = .error (error.shift (first ++ gap).utf8ByteSize) := by
  have hchars : gap.toList ≠ [] := by simpa using hne
  refine ⟨?_, ?_, ?_⟩
  · intro error herror
    rw [scan_eq_error_iff] at herror ⊢
    rcases herror with ⟨before, after, tokens, rfl, hmunches, hfault⟩
    rcases List.exists_cons_of_ne_nil hchars with ⟨c, blanks, hcons⟩
    have hblank : isBlank c = true := hgap c (by simp [hcons])
    refine ⟨before, after ++ gap ++ second, tokens, by simp [String.append_assoc], ?_, ?_⟩
    · simpa [hcons] using hmunches.append_blank hblank (blanks ++ second.toList)
    · simpa [hcons] using hfault.append_blank hblank (blanks ++ second.toList)
  · intro tokens others hfirst hsecond
    rw [scan_eq_ok_iff] at hfirst hsecond ⊢
    simpa using hfirst.juxtapose hgap hchars hsecond
  · intro tokens error hfirst hsecond
    rw [scan_eq_ok_iff] at hfirst
    rw [scan_eq_error_iff] at hsecond ⊢
    rcases hsecond with ⟨before, after, others, rfl, hmunches, hfault⟩
    refine ⟨first ++ gap ++ before, after, tokens ++ others, by simp [String.append_assoc], ?_, ?_⟩
    · simpa using hfirst.juxtapose hgap hchars hmunches
    · have hoffset : (first ++ gap ++ before).utf8ByteSize =
          before.utf8ByteSize + (first ++ gap).utf8ByteSize := by
        rw [String.utf8ByteSize_append (s := first ++ gap)]
        omega
      rw [hoffset]
      exact hfault.shift _

/-- A letter with an accent before the blanks is reported where it stands, and one after
them further on by their bytes and those of the text before. -/
theorem scan_juxtaposed_accents :
    scan "a==é" = .error (.unexpectedChar 'é' 3) ∧
      scan ("a==é" ++ "\t\n" ++ "é") = .error (.unexpectedChar 'é' 3) ∧
      scan ("a=" ++ "\r " ++ "=b") =
        .ok [.ident "a", .symbol .assign, .symbol .assign, .ident "b"] ∧
      scan ("a=" ++ " " ++ "= é") = .error (.unexpectedChar 'é' 5) := by
  have hfault : scan "a==é" = .error (.unexpectedChar 'é' 3) := by cbv
  have hfirst : scan "a=" = .ok [.ident "a", .symbol .assign] := by cbv
  have hsecond : scan "=b" = .ok [.symbol .assign, .ident "b"] := by cbv
  have hlate : scan "= é" = .error (.unexpectedChar 'é' 2) := by cbv
  refine ⟨hfault, ?_, ?_, ?_⟩
  · exact (scan_juxtaposed (by simp [IsBlankText, isBlank]) (by decide)).1 _ hfault
  · exact (scan_juxtaposed (by simp [IsBlankText, isBlank]) (by decide)).2.1 _ _ hfirst hsecond
  · exact (scan_juxtaposed (by simp [IsBlankText, isBlank]) (by decide)).2.2 _ _ hfirst hlate

end Token

end ClassLang
