import ClassLang.Proofs.IndentedLines

/-!
# Blocks and the lines they consist of

Braces delimit blocks.  Lines are read one after the other together with the blocks that
are open, each of which is marked once it has a declaration.  What one line does to the
open blocks is said for each kind of line.  It follows for any number of lines that the
indentation shows the open blocks and that no block has two declarations.
-/

namespace ClassLang.Text

/-! ## Counting braces -/

/-- The blocks that a text opens less those that it closes. -/
def openBlocks (text : List Char) : Int :=
  text.count '{' - text.count '}'

/-- No part of the text closes more blocks than it opens and `depth` more. -/
def ClosesAtMost (depth : Int) (text : List Char) : Prop :=
  ∀ part, part <+: text → 0 ≤ depth + openBlocks part

/-- The braces of the text come in pairs. -/
structure Balanced (text : List Char) : Prop where
  nonneg : ∀ part, part <+: text → 0 ≤ openBlocks part
  closed : openBlocks text = 0

def BraceFree (text : List Char) : Prop :=
  '{' ∉ text ∧ '}' ∉ text

variable {depth : Int} {text first second : List Char}

@[simp] theorem openBlocks_nil : openBlocks [] = 0 := rfl

theorem openBlocks_open : openBlocks ['{'] = 1 := rfl

theorem openBlocks_close : openBlocks ['}'] = -1 := rfl

theorem openBlocks_append :
    openBlocks (first ++ second) = openBlocks first + openBlocks second := by
  simp only [openBlocks, List.count_append, Nat.cast_add]
  omega

theorem BraceFree.openBlocks_eq (hfree : BraceFree text) : openBlocks text = 0 := by
  simp [openBlocks, List.count_eq_zero.mpr hfree.1, List.count_eq_zero.mpr hfree.2]

@[simp] theorem closesAtMost_nil : ClosesAtMost depth [] ↔ 0 ≤ depth := by
  simp [ClosesAtMost]

theorem closesAtMost_append :
    ClosesAtMost depth (first ++ second) ↔
      ClosesAtMost depth first ∧ ClosesAtMost (depth + openBlocks first) second := by
  constructor
  · intro hcloses
    constructor
    · intro part hpart
      exact hcloses part (hpart.trans (List.prefix_append first second))
    · intro part hpart
      have hbound := hcloses (first ++ part) ((List.prefix_append_right_inj first).mpr hpart)
      rw [openBlocks_append] at hbound
      omega
  · intro hcloses part hpart
    rcases List.prefix_or_prefix_of_prefix hpart (List.prefix_append first second) with
      hinside | ⟨more, rfl⟩
    · exact hcloses.1 part hinside
    · have hbound := hcloses.2 more ((List.prefix_append_right_inj first).mp hpart)
      rw [openBlocks_append]
      omega

theorem BraceFree.closesAtMost (hfree : BraceFree text) (hdepth : 0 ≤ depth) :
    ClosesAtMost depth text := by
  intro part hpart
  have hpartFree : BraceFree part :=
    ⟨fun hmem => hfree.1 (hpart.subset hmem), fun hmem => hfree.2 (hpart.subset hmem)⟩
  rw [hpartFree.openBlocks_eq]
  omega

theorem closesAtMost_cons {c : Char} :
    ClosesAtMost depth (c :: text) ↔ 0 ≤ depth ∧ ClosesAtMost (depth + openBlocks [c]) text := by
  have hsingle : ClosesAtMost depth [c] ↔ 0 ≤ depth ∧ 0 ≤ depth + openBlocks [c] := by
    simp [ClosesAtMost, List.prefix_cons_iff]
  rw [← List.singleton_append, closesAtMost_append, hsingle]
  constructor
  · intro hcloses
    exact ⟨hcloses.1.1, hcloses.2⟩
  · intro hcloses
    exact ⟨⟨hcloses.1, by simpa using hcloses.2 [] List.nil_prefix⟩, hcloses.2⟩

theorem balanced_iff : Balanced text ↔ ClosesAtMost 0 text ∧ openBlocks text = 0 := by
  simp only [ClosesAtMost, zero_add]
  constructor
  · intro hbalanced
    exact ⟨hbalanced.nonneg, hbalanced.closed⟩
  · intro hcounts
    exact ⟨hcounts.1, hcounts.2⟩

theorem Balanced.closesAtMost (hbalanced : Balanced text) (hdepth : 0 ≤ depth) :
    ClosesAtMost depth text := by
  intro part hpart
  have hbound := hbalanced.nonneg part hpart
  omega

theorem BraceFree.balanced (hfree : BraceFree text) : Balanced text :=
  balanced_iff.mpr ⟨hfree.closesAtMost le_rfl, hfree.openBlocks_eq⟩

theorem braceFree_replicate (count : Nat) : BraceFree (List.replicate count ' ') := by
  simp [BraceFree]

/-! ## Lines -/

/-- The text on a line starts a declaration. -/
def BeginsLet (content : String) : Prop :=
  "let ".toList <+: content.toList

/-- A line that is complete in itself. -/
structure IsSentence (content : String) : Prop where
  label : Outline.IsLabel content
  balanced : Balanced content.toList

/-- What stands on a line before the brace that opens a block. -/
structure IsHeading (heading : String) : Prop where
  label : Outline.IsLabel (heading ++ "\x7b")
  braceFree : BraceFree heading.toList
  not_beginsLet : ¬ BeginsLet (heading ++ "\x7b")

/-- The open blocks, the innermost first, each with a mark if it has a declaration. -/
abbrev Nesting := List Bool

/-- What a line does to the open blocks. -/
inductive LineStep : Nesting → String → Nesting → Prop where
  | sentence {nesting : Nesting} {content : String} :
      IsSentence content → ¬ BeginsLet content →
      LineStep nesting (indented nesting.length content) nesting
  | outermost {content : String} :
      IsSentence content → LineStep [] (indented 0 content) []
  | declaration {nesting : Nesting} {content : String} :
      IsSentence content →
      LineStep (false :: nesting) (indented (nesting.length + 1) content) (true :: nesting)
  | opening {nesting : Nesting} {heading : String} :
      IsHeading heading →
      LineStep nesting (indented nesting.length (heading ++ "\x7b")) (false :: nesting)
  | closing {nesting : Nesting} {declared : Bool} :
      LineStep (declared :: nesting) (indented nesting.length "\x7d") nesting
  | turning {nesting : Nesting} {declared : Bool} :
      LineStep (declared :: nesting) (indented nesting.length "\x7d else \x7b") (false :: nesting)

inductive Runs : Nesting → List String → Nesting → Prop where
  | nil {nesting : Nesting} : Runs nesting [] nesting
  | cons {nesting next last : Nesting} {line : String} {rest : List String} :
      LineStep nesting line next → Runs next rest last → Runs nesting (line :: rest) last

section

variable {nesting next last : Nesting} {line : String}

theorem openBlocks_indented (level : Nat) (content : String) :
    openBlocks (indented level content).toList = openBlocks content.toList := by
  rw [toList_indented, openBlocks_append, (braceFree_replicate _).openBlocks_eq, zero_add]

theorem closesAtMost_indented {level : Nat} {content : String} (hdepth : 0 ≤ depth)
    (hcontent : ClosesAtMost depth content.toList) :
    ClosesAtMost depth (indented level content).toList := by
  rw [toList_indented, closesAtMost_append, (braceFree_replicate _).openBlocks_eq, add_zero]
  exact ⟨(braceFree_replicate _).closesAtMost hdepth, hcontent⟩

theorem IsHeading.closesAtMost {heading : String} (hheading : IsHeading heading)
    (hdepth : 0 ≤ depth) : ClosesAtMost depth (heading ++ "\x7b").toList := by
  rw [String.toList_append, closesAtMost_append, hheading.braceFree.openBlocks_eq, add_zero]
  refine ⟨hheading.braceFree.closesAtMost hdepth, ?_⟩
  simp only [String.reduceToList, closesAtMost_cons, closesAtMost_nil, openBlocks_open]
  omega

theorem head?_ne_of_closesAtMost (hcloses : ClosesAtMost 0 text) : text.head? ≠ some '}' := by
  intro hhead
  rcases List.head?_eq_some_iff.mp hhead with ⟨rest, hrest⟩
  have hbound := hcloses ['}'] (by simp [hrest])
  simp [openBlocks] at hbound

theorem LineStep.openBlocks_eq (hstep : LineStep nesting line next) :
    openBlocks line.toList = next.length - nesting.length := by
  cases hstep with
  | sentence hcontent | outermost hcontent | declaration hcontent =>
      rw [openBlocks_indented, hcontent.balanced.closed]
      simp
  | opening hheading =>
      rw [openBlocks_indented, String.toList_append, openBlocks_append,
        hheading.braceFree.openBlocks_eq]
      simp [openBlocks]
  | closing | turning =>
      rw [openBlocks_indented]
      simp [openBlocks]

theorem LineStep.closesAtMost (hstep : LineStep nesting line next) :
    ClosesAtMost nesting.length line.toList := by
  have hnonneg : (0 : Int) ≤ nesting.length := Int.natCast_nonneg _
  have hword : BraceFree " else ".toList := by simp [BraceFree]
  cases hstep with
  | sentence hcontent | outermost hcontent | declaration hcontent =>
      exact closesAtMost_indented hnonneg (hcontent.balanced.closesAtMost hnonneg)
  | opening hheading =>
      exact closesAtMost_indented hnonneg (hheading.closesAtMost hnonneg)
  | @closing nesting declared =>
      apply closesAtMost_indented hnonneg
      simp only [String.reduceToList, closesAtMost_cons, closesAtMost_nil, openBlocks_close,
        List.length_cons]
      omega
  | @turning nesting declared =>
      apply closesAtMost_indented hnonneg
      rw [show "\x7d else \x7b".toList = '}' :: (" else ".toList ++ ['{']) from rfl,
        closesAtMost_cons, closesAtMost_append, closesAtMost_cons, closesAtMost_nil,
        openBlocks_close, hword.openBlocks_eq, openBlocks_open, List.length_cons]
      have hdepth : (0 : Int) ≤ (nesting.length + 1 : Nat) + -1 := by omega
      exact ⟨hnonneg, hword.closesAtMost hdepth, by omega⟩

theorem LineStep.newline_not_mem (hstep : LineStep nesting line next) : '\n' ∉ line.toList := by
  cases hstep with
  | sentence hcontent | outermost hcontent | declaration hcontent =>
      simp [toList_indented, hcontent.label.1]
  | opening hheading =>
      have hnone := hheading.label.1
      simp only [toList_indented, List.mem_append, List.mem_replicate, not_or]
      exact ⟨by simp, hnone⟩
  | closing | turning => simp [toList_indented]

/-- A line is indented by two spaces for each of the blocks that are open where it starts,
without the one that it closes first. -/
def ShowsDepth (depth : Int) (line : String) : Prop :=
  ∃ (level : Nat) (content : List Char), line.toList = List.replicate (2 * level) ' ' ++ content ∧
    (∀ c ∈ content.head?, c ≠ ' ') ∧
    (level : Int) = if content.head? = some '}' then depth - 1 else depth

theorem LineStep.showsDepth (hstep : LineStep nesting line next) :
    ShowsDepth nesting.length line := by
  have hflush {level : Nat} {content : String} (hlabel : Outline.IsLabel content)
      (hcloses : ClosesAtMost 0 content.toList) : ShowsDepth level (indented level content) := by
    refine ⟨level, content.toList, toList_indented level content, hlabel.2, ?_⟩
    rw [if_neg (head?_ne_of_closesAtMost hcloses)]
  cases hstep with
  | sentence hcontent | outermost hcontent =>
      exact hflush hcontent.label (hcontent.balanced.closesAtMost le_rfl)
  | declaration hcontent => exact hflush hcontent.label (hcontent.balanced.closesAtMost le_rfl)
  | opening hheading => exact hflush hheading.label (hheading.closesAtMost le_rfl)
  | closing | turning => exact ⟨_, _, toList_indented _ _, by simp, by simp⟩

/-- The line holds a declaration. -/
def IsDeclaration (line : String) : Prop :=
  ∃ level rest, line.toList = List.replicate (2 * level) ' ' ++ "let ".toList ++ rest

/-- Only a block without a declaration takes one. -/
theorem LineStep.of_isDeclaration (hstep : LineStep nesting line next)
    (hline : IsDeclaration line) :
    nesting = [] ∧ next = [] ∨ ∃ outer, nesting = false :: outer ∧ next = true :: outer := by
  have hindented : ∃ level rest, line = indented level ("let " ++ rest) := by
    rcases hline with ⟨level, rest, hline⟩
    refine ⟨level, String.ofList rest, String.toList_inj.mp ?_⟩
    simp [hline, toList_indented]
  rcases hindented with ⟨level, rest, hline⟩
  have hbegins {other : Nat} {content : String} (hflush : ∀ c ∈ content.toList.head?, c ≠ ' ')
      (hsame : indented other content = indented level ("let " ++ rest)) : BeginsLet content := by
    rw [(indented_inj hflush (by simp) hsame).2]
    simp [BeginsLet]
  cases hstep with
  | sentence hcontent hplain => exact absurd (hbegins hcontent.label.2 hline) hplain
  | outermost => exact .inl ⟨rfl, rfl⟩
  | declaration => exact .inr ⟨_, rfl, rfl⟩
  | opening hheading => exact absurd (hbegins hheading.label.2 hline) hheading.not_beginsLet
  | closing | turning =>
      have hlet := hbegins (by simp) hline
      simp [BeginsLet] at hlet

/-- A block that has its declaration stays open, and keeps the mark, unless a line closes
it. -/
theorem LineStep.keeps_marked {inner outer : Nesting}
    (hstep : LineStep (inner ++ true :: outer) line next)
    (hcloses : ClosesAtMost inner.length line.toList) :
    ∃ later, next = later ++ true :: outer := by
  generalize hstart : inner ++ true :: outer = nesting at hstep
  have hinner {level : Nat} {content : String} {rest : List Char}
      (hcontent : content.toList = '}' :: rest)
      (hbound : ClosesAtMost inner.length (indented level content).toList) : inner ≠ [] := by
    rintro rfl
    rw [toList_indented, hcontent, closesAtMost_append, closesAtMost_cons,
      (braceFree_replicate _).openBlocks_eq] at hbound
    have hnil := hbound.2.2 [] List.nil_prefix
    simp [openBlocks_close] at hnil
  cases hstep with
  | sentence => exact ⟨inner, hstart.symm⟩
  | outermost => simp at hstart
  | declaration =>
      cases inner with
      | nil => simp at hstart
      | cons declared inside => exact ⟨true :: inside, by simp_all⟩
  | opening => exact ⟨false :: inner, by simp [hstart]⟩
  | closing =>
      cases inner with
      | nil => exact absurd rfl (hinner (by rfl) hcloses)
      | cons declared inside => exact ⟨inside, by simp_all⟩
  | turning =>
      cases inner with
      | nil => exact absurd rfl (hinner (by rfl) hcloses)
      | cons declared inside => exact ⟨false :: inside, by simp_all⟩

/-! ## Runs of lines -/

variable {lines : List String}

theorem unlines_append (before after : List String) :
    (unlines (before ++ after)).toList = (unlines before).toList ++ (unlines after).toList := by
  simp [toList_unlines]

theorem unlines_cons (line : String) (rest : List String) :
    (unlines (line :: rest)).toList = line.toList ++ '\n' :: (unlines rest).toList := by
  simp [toList_unlines]

theorem openBlocks_newline : openBlocks ['\n'] = 0 := rfl

theorem openBlocks_line :
    openBlocks (first ++ '\n' :: second) = openBlocks first + openBlocks second := by
  rw [← List.singleton_append, openBlocks_append, openBlocks_append, openBlocks_newline, zero_add]

theorem closesAtMost_line (hdepth : 0 ≤ depth + openBlocks first) :
    ClosesAtMost depth (first ++ '\n' :: second) ↔
      ClosesAtMost depth first ∧ ClosesAtMost (depth + openBlocks first) second := by
  rw [closesAtMost_append, closesAtMost_cons, openBlocks_newline, add_zero]
  constructor
  · intro hcloses
    exact ⟨hcloses.1, hcloses.2.2⟩
  · intro hcloses
    exact ⟨hcloses.1, hdepth, hcloses.2⟩

theorem Runs.append {more : List String} (hrun : Runs nesting lines next)
    (hmore : Runs next more last) : Runs nesting (lines ++ more) last := by
  induction hrun with
  | nil => exact hmore
  | cons hstep _ ih => exact .cons hstep (ih hmore)

theorem Runs.split {before after : List String} (hrun : Runs nesting (before ++ after) last) :
    ∃ middle, Runs nesting before middle ∧ Runs middle after last := by
  induction before generalizing nesting with
  | nil => exact ⟨nesting, .nil, hrun⟩
  | cons line rest ih =>
      cases hrun with
      | cons hstep hrest =>
          rcases ih hrest with ⟨middle, hbefore, hafter⟩
          exact ⟨middle, .cons hstep hbefore, hafter⟩

theorem runs_flatMap {α : Type} {items : List α} {linesOf : α → List String}
    (hitems : ∀ item ∈ items, Runs nesting (linesOf item) nesting) :
    Runs nesting (items.flatMap linesOf) nesting := by
  induction items with
  | nil => exact .nil
  | cons item rest ih =>
      rw [List.forall_mem_cons] at hitems
      rw [List.flatMap_cons]
      exact hitems.1.append (ih hitems.2)

theorem Runs.openBlocks_eq (hrun : Runs nesting lines last) :
    openBlocks (unlines lines).toList = last.length - nesting.length := by
  induction hrun with
  | nil => simp [unlines]
  | cons hstep _ ih =>
      rw [unlines_cons, openBlocks_line, hstep.openBlocks_eq, ih]
      omega

theorem Runs.closesAtMost (hrun : Runs nesting lines last) :
    ClosesAtMost nesting.length (unlines lines).toList := by
  induction hrun with
  | nil => simp [unlines]
  | @cons nesting next last line rest hstep _ ih =>
      have hdepth : (nesting.length : Int) + openBlocks line.toList = next.length := by
        rw [hstep.openBlocks_eq]
        omega
      rw [unlines_cons, closesAtMost_line (by omega), hdepth]
      exact ⟨hstep.closesAtMost, ih⟩

theorem Runs.keeps_marked {inner outer : Nesting}
    (hrun : Runs (inner ++ true :: outer) lines last)
    (hcloses : ClosesAtMost inner.length (unlines lines).toList) :
    ∃ later, last = later ++ true :: outer := by
  -- `inner` are the blocks that were opened since, which the induction lets change.
  generalize hstart : inner ++ true :: outer = nesting at hrun
  induction hrun generalizing inner with
  | nil => exact ⟨inner, hstart.symm⟩
  | @cons nesting next last line rest hstep _ ih =>
      subst hstart
      rw [unlines_cons, closesAtMost_append, closesAtMost_cons, openBlocks_newline,
        add_zero] at hcloses
      rcases hstep.keeps_marked hcloses.1 with ⟨later, rfl⟩
      apply ih _ rfl
      have hdepth := hstep.openBlocks_eq
      simp only [List.length_append, List.length_cons] at hdepth
      rw [show (later.length : Int) = inner.length + openBlocks line.toList by omega]
      exact hcloses.2.2

/-- The text is cut at its line breaks. -/
structure IsLines (text : String) (lines : List String) : Prop where
  text_eq : text = unlines lines
  unbroken : ∀ line ∈ lines, '\n' ∉ line.toList

theorem Runs.isLines (hrun : Runs nesting lines last) : IsLines (unlines lines) lines := by
  refine ⟨rfl, ?_⟩
  induction hrun with
  | nil => simp
  | cons hstep _ ih => exact List.forall_mem_cons.mpr ⟨hstep.newline_not_mem, ih⟩

theorem Runs.balanced (hrun : Runs [] lines []) : Balanced (unlines lines).toList :=
  balanced_iff.mpr ⟨hrun.closesAtMost, hrun.openBlocks_eq⟩

/-- Every line is indented by the blocks around it. -/
def IndentedByBlocks (lines : List String) : Prop :=
  ∀ before line after, lines = before ++ line :: after →
    ShowsDepth (openBlocks (unlines before).toList) line

theorem Runs.indentedByBlocks (hrun : Runs [] lines last) : IndentedByBlocks lines := by
  rintro before line after rfl
  rcases hrun.split with ⟨middle, hbefore, hline⟩
  cases hline with
  | cons hstep _ =>
      rw [hbefore.openBlocks_eq]
      simpa using hstep.showsDepth

/-- Between two declarations inside of blocks the block of the first one is closed, so that
no block has both. -/
def DeclaresOncePerBlock (lines : List String) : Prop :=
  ∀ before first between second after,
    lines = before ++ (first :: between) ++ second :: after →
    IsDeclaration first → IsDeclaration second → 0 < openBlocks (unlines before).toList →
    ¬ Balanced (unlines (first :: between)).toList

theorem Runs.declaresOncePerBlock (hrun : Runs [] lines last) : DeclaresOncePerBlock lines := by
  rintro before first between second after rfl hfirst hsecond hopen hbalanced
  rcases hrun.split with ⟨there, hthere, hafter⟩
  rcases hthere.split with ⟨here, hbefore, hbetween⟩
  have hsame := hbetween.openBlocks_eq
  rw [hbefore.openBlocks_eq] at hopen
  cases hbetween with
  | cons hstep hinside =>
      rcases hstep.of_isDeclaration hfirst with ⟨rfl, -⟩ | ⟨outer, rfl, rfl⟩
      · simp at hopen
      · have hcloses := hbalanced.closesAtMost le_rfl
        have hclosed := hbalanced.closed
        rw [unlines_cons, closesAtMost_append, closesAtMost_cons, openBlocks_newline,
          hstep.openBlocks_eq] at hcloses
        rcases @Runs.keeps_marked _ _ [] outer hinside (by simpa using hcloses.2.2) with
          ⟨later, rfl⟩
        -- The marked block is the innermost one again, so it takes no second declaration.
        obtain rfl : later = [] := by
          rw [hclosed] at hsame
          simp only [List.length_append, List.length_cons] at hsame
          exact List.eq_nil_of_length_eq_zero (by omega)
        cases hafter with
        | cons hlast _ =>
            rcases hlast.of_isDeclaration hsecond with ⟨hnil, -⟩ | ⟨_, hfalse, -⟩
            · simp at hnil
            · simp at hfalse

end

/-! ## Making lines -/

/-- A character that neither opens nor closes a block nor ends a line. -/
def isInert (c : Char) : Bool :=
  c ≠ '{' && c ≠ '}' && c ≠ '\n'

section

variable {content heading : String} {lines more : Nat → List String}

theorem braceFree_of_isInert (hinert : ∀ c ∈ text, isInert c = true) : BraceFree text :=
  ⟨fun hmem => by simpa [isInert] using hinert _ hmem,
    fun hmem => by simpa [isInert] using hinert _ hmem⟩

theorem head_append_ne (hfirst : ∀ c ∈ first.head?, c ≠ ' ')
    (hsecond : ∀ c ∈ second.head?, c ≠ ' ') : ∀ c ∈ (first ++ second).head?, c ≠ ' ' := by
  cases first with
  | nil => exact hsecond
  | cons c rest => exact hfirst

theorem isInert_literal {literal : String} (hall : literal.toList.all isInert = true) :
    ∀ c ∈ literal.toList, isInert c = true :=
  List.all_eq_true.mp hall

theorem indented_zero (content : String) : indented 0 content = content := by
  simp [indented]

theorem isInert_intercalate {parts : List String}
    (hparts : ∀ part ∈ parts, ∀ c ∈ part.toList, isInert c = true) :
    ∀ c ∈ (", ".intercalate parts).toList, isInert c = true := by
  induction parts with
  | nil => simp
  | cons part rest ih =>
      rw [List.forall_mem_cons] at hparts
      cases rest with
      | nil => simpa using hparts.1
      | cons next others =>
          rw [String.intercalate_cons_cons]
          simp only [String.toList_append, List.forall_mem_append]
          exact ⟨⟨hparts.1, isInert_literal rfl⟩, ih hparts.2⟩

theorem isLabel_of_isInert (hinert : ∀ c ∈ content.toList, isInert c = true)
    (hflush : ∀ c ∈ content.toList.head?, c ≠ ' ') : Outline.IsLabel content :=
  ⟨fun hmem => by simpa [isInert] using hinert _ hmem, hflush⟩

theorem isSentence_of_isInert (hinert : ∀ c ∈ content.toList, isInert c = true)
    (hflush : ∀ c ∈ content.toList.head?, c ≠ ' ') : IsSentence content :=
  ⟨isLabel_of_isInert hinert hflush, (braceFree_of_isInert hinert).balanced⟩

/-- A pair of braces may stand in a sentence. -/
theorem isSentence_pair {before after : String}
    (hbefore : ∀ c ∈ before.toList, isInert c = true)
    (hafter : ∀ c ∈ after.toList, isInert c = true)
    (hflush : ∀ c ∈ before.toList.head?, c ≠ ' ') :
    IsSentence (before ++ "\x7b\x7d" ++ after) := by
  have hfree := braceFree_of_isInert hbefore
  have hrest := braceFree_of_isInert hafter
  have hpair : openBlocks "\x7b\x7d".toList = 0 := by simp [openBlocks]
  refine ⟨⟨?_, ?_⟩, balanced_iff.mpr ⟨?_, ?_⟩⟩
  · simpa using ⟨(isLabel_of_isInert hbefore hflush).1,
      fun hmem => by simpa [isInert] using hafter _ hmem⟩
  · rw [String.toList_append, List.head?_append_of_ne_nil _ (by simp), String.toList_append]
    exact head_append_ne hflush (by simp)
  · rw [String.toList_append, String.toList_append, closesAtMost_append, closesAtMost_append,
      openBlocks_append, hfree.openBlocks_eq, hpair]
    exact ⟨⟨hfree.closesAtMost le_rfl, by simp [closesAtMost_cons, openBlocks]⟩,
      hrest.closesAtMost le_rfl⟩
  · rw [String.toList_append, String.toList_append, openBlocks_append, openBlocks_append, hpair,
      hfree.openBlocks_eq, hrest.openBlocks_eq]
    rfl

theorem isHeading_of_isInert (hinert : ∀ c ∈ heading.toList, isInert c = true)
    (hflush : ∀ c ∈ heading.toList.head?, c ≠ ' ') (hplain : ¬ BeginsLet (heading ++ "\x7b")) :
    IsHeading heading := by
  refine ⟨⟨?_, ?_⟩, braceFree_of_isInert hinert, hplain⟩
  · simpa using (isLabel_of_isInert hinert hflush).1
  · rw [String.toList_append]
    exact head_append_ne hflush (by simp)

/-- Lines that can stand in a block without a declaration, and at most add one to it. -/
def Lays (lines : Nat → List String) : Prop :=
  ∀ nesting : Nesting, nesting.head? ≠ some true →
    ∃ next, Runs nesting (lines nesting.length) next ∧ next.length = nesting.length ∧
      next.tail = nesting.tail

/-- Lines that add no declaration to the block around them. -/
def Leaves (lines : Nat → List String) : Prop :=
  ∀ nesting : Nesting, Runs nesting (lines nesting.length) nesting

/-- A block with a heading before its brace. -/
def blockLines (heading : String) (inside : Nat → List String) (depth : Nat) : List String :=
  indented depth (heading ++ "\x7b") :: inside (depth + 1) ++ [indented depth "\x7d"]

/-- Two blocks, the second of which is the alternative to the first. -/
def alternativeLines (heading : String) (inside other : Nat → List String) (depth : Nat) :
    List String :=
  indented depth (heading ++ "\x7b") :: inside (depth + 1)
    ++ indented depth "\x7d else \x7b" :: other (depth + 1) ++ [indented depth "\x7d"]

theorem Leaves.lays (hleaves : Leaves lines) : Lays lines :=
  fun nesting _ => ⟨nesting, hleaves nesting, rfl, rfl⟩

theorem lays_line (hcontent : IsSentence content) : Lays fun depth => [indented depth content] := by
  intro nesting hfresh
  cases nesting with
  | nil => exact ⟨[], .cons (.outermost hcontent) .nil, rfl, rfl⟩
  | cons declared outer =>
      cases declared with
      | true => simp at hfresh
      | false => exact ⟨true :: outer, .cons (.declaration hcontent) .nil, rfl, rfl⟩

theorem Lays.append (hlays : Lays lines) (hmore : Leaves more) :
    Lays fun depth => lines depth ++ more depth := by
  intro nesting hfresh
  rcases hlays nesting hfresh with ⟨next, hrun, hlength, htail⟩
  have hafter := hmore next
  rw [hlength] at hafter
  exact ⟨next, hrun.append hafter, hlength, htail⟩

/-- A new block has no declaration yet, and its lines only change its own mark. -/
theorem Lays.exists_inside (hlays : Lays lines) (nesting : Nesting) :
    ∃ declared, Runs (false :: nesting) (lines (nesting.length + 1)) (declared :: nesting) := by
  rcases hlays (false :: nesting) (by simp) with ⟨next, hrun, hlength, htail⟩
  cases next with
  | nil => simp at hlength
  | cons declared outer =>
      obtain rfl : outer = nesting := htail
      exact ⟨declared, hrun⟩

theorem leaves_blockLines (hheading : IsHeading heading) (hlays : Lays lines) :
    Leaves (blockLines heading lines) := by
  intro nesting
  rcases hlays.exists_inside nesting with ⟨declared, hinside⟩
  exact .cons (.opening hheading) (hinside.append (.cons .closing .nil))

theorem leaves_alternativeLines (hheading : IsHeading heading) (hlays : Lays lines)
    (hmore : Lays more) : Leaves (alternativeLines heading lines more) := by
  intro nesting
  rcases hlays.exists_inside nesting with ⟨declared, hinside⟩
  rcases hmore.exists_inside nesting with ⟨redeclared, hother⟩
  have hturn := Runs.cons (@LineStep.turning nesting declared) hother
  exact .append (.cons (.opening hheading) (hinside.append hturn)) (.cons .closing .nil)

theorem Lays.openBlocks_eq (hlays : Lays lines) (depth : Nat) :
    openBlocks (unlines (lines depth)).toList = 0 := by
  have hfresh : (List.replicate depth false).head? ≠ some true := by
    cases depth <;> simp [List.replicate_succ]
  rcases hlays (List.replicate depth false) hfresh with ⟨next, hrun, hlength, -⟩
  rw [List.length_replicate] at hrun hlength
  rw [hrun.openBlocks_eq, hlength, List.length_replicate, Int.sub_self]

end

end ClassLang.Text
