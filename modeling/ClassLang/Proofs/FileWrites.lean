import ClassLang.Command.FileStore
import ClassLang.Proofs.Results
import Mathlib.Data.List.Basic

/-!
# Writing to one location

A text is written in a directory that exists, under a name that is no directory.
So a write that succeeds changes what a store has at one location only: no
directory appears or disappears, and every path that led somewhere through
directories still leads there.  In particular the path that was written to leads
to the new text.
-/

namespace ClassLang.Command

theorem fromUTF8?_eq_some_iff {content : ByteArray} {text : String} :
    String.fromUTF8? content = some text ↔ content = text.toUTF8 := by
  unfold String.fromUTF8?
  constructor
  · intro hread
    split at hread
    next hvalid => cases hread; rfl
    next => cases hread
  · rintro rfl
    exact dif_pos text.isValidUTF8

theorem lookup_filter_of_ne {α β : Type} [DecidableEq α] {entries : List (α × β)}
    {key other : α} (hne : other ≠ key) :
    (entries.filter fun entry => entry.1 ≠ key).lookup other = entries.lookup other := by
  induction entries with
  | nil => rfl
  | cons first rest ih =>
      by_cases hfirst : first.1 = key
      · have hother : (other == first.1) = false := by simp [hfirst, hne]
        rw [List.filter_cons_of_neg (by simpa using hfirst), ih, List.lookup_cons, hother]
      · rw [List.filter_cons_of_pos (by simpa using hfirst), List.lookup_cons,
          List.lookup_cons, ih]

namespace Location

variable {location other above holder : Location} {name : String}

theorem isBelow_iff :
    location.isBelow other = true ↔ location.origin = other.origin ∧
      other.names <+: location.names ∧ other.names.length < location.names.length := by
  simp [isBelow, and_assoc]

theorem isBelow_trans (hbelow : location.isBelow other = true)
    (habove : other.isBelow above = true) : location.isBelow above = true := by
  rw [isBelow_iff] at hbelow habove ⊢
  exact ⟨hbelow.1.trans habove.1, habove.2.1.trans hbelow.2.1,
    Nat.lt_trans habove.2.2 hbelow.2.2⟩

/-- A name in a directory lies below the directory and all that this lies below. -/
theorem isBelow_child_iff :
    isBelow ⟨holder.origin, holder.names ++ [name]⟩ other = true ↔
      other = holder ∨ holder.isBelow other = true := by
  simp only [isBelow_iff, List.prefix_concat_iff, List.length_append, List.length_singleton]
  constructor
  · rintro ⟨horigin, hwhole | hprefix, hlength⟩
    · simp [hwhole] at hlength
    · rcases Nat.lt_succ_iff_lt_or_eq.mp hlength with hshorter | hsame
      · exact .inr ⟨horigin, hprefix, hshorter⟩
      · cases other
        cases horigin
        cases hprefix.eq_of_length hsame
        exact .inl rfl
  · rintro (rfl | ⟨horigin, hprefix, hlength⟩)
    · exact ⟨rfl, .inr (List.prefix_refl _), Nat.lt_succ_self _⟩
    · exact ⟨horigin, .inr hprefix, Nat.lt_succ_of_lt hlength⟩

theorem isBelow_parent (hnames : location.names ≠ []) :
    location.isBelow location.parent = true := by
  rw [isBelow_iff, parent, if_neg hnames]
  refine ⟨rfl, List.dropLast_prefix _, ?_⟩
  rw [List.length_dropLast]
  exact Nat.sub_lt (List.length_pos_of_ne_nil hnames) Nat.one_pos

end Location

namespace FileStore

variable {store after : FileStore} {location other : Location} {content : ByteArray}
  {path text : String}

theorem entry_eq_file_iff :
    store.entry location = .file content ↔ store.get? location = some content := by
  unfold entry
  split
  next found hget => simp [hget]
  next hget =>
    split
    · simp [hget]
    · simp [hget]

theorem entry_eq_directory_iff :
    store.entry location = .directory ↔
      store.get? location = none ∧ store.isDirectory location = true := by
  unfold entry
  split
  next found hget => simp [hget]
  next hget =>
    split
    next hdirectory => simp [hget, hdirectory]
    next hdirectory => simp [hget, hdirectory]

theorem checkDirectory_eq_ok_iff {result : Unit} :
    store.checkDirectory location = .ok result ↔ store.entry location = .directory := by
  unfold checkDirectory
  split
  next hentry => simp [hentry]
  next hentry => simp [hentry]
  next hentry => simp [hentry]

theorem isDirectory_iff :
    store.isDirectory location = true ↔ location.names = [] ∨
      location ∈ store.directories ∨
      (∃ other ∈ store.directories, other.isBelow location = true) ∨
      ∃ file ∈ store.files, file.1.isBelow location = true := by
  simp [isDirectory, or_assoc]

/-- Whatever lies above a directory is a directory. -/
theorem isDirectory_of_isBelow (hbelow : location.isBelow other = true)
    (hdirectory : store.isDirectory location = true) : store.isDirectory other = true := by
  rw [isDirectory_iff] at hdirectory ⊢
  rcases hdirectory with hnil | hmade | ⟨inner, hmem, hinner⟩ | ⟨file, hmem, hinner⟩
  · have hlength := (Location.isBelow_iff.mp hbelow).2.2
    simp [hnil] at hlength
  · exact .inr (.inr (.inl ⟨location, hmade, hbelow⟩))
  · exact .inr (.inr (.inl ⟨inner, hmem, Location.isBelow_trans hinner hbelow⟩))
  · exact .inr (.inr (.inr ⟨file, hmem, Location.isBelow_trans hinner hbelow⟩))

theorem isDirectory_parent (hdirectory : store.isDirectory location = true) :
    store.isDirectory location.parent = true := by
  by_cases hnames : location.names = []
  · rw [isDirectory_iff, Location.parent, if_pos hnames]
    exact .inl rfl
  · exact isDirectory_of_isBelow (Location.isBelow_parent hnames) hdirectory

theorem get?_set :
    (store.set location content).get? other =
      if other = location then some content else store.get? other := by
  unfold get? set
  rw [List.lookup_append]
  by_cases heq : other = location
  · have hnone : (store.files.filter fun file => file.1 ≠ location).lookup other = none := by
      simp [List.lookup_eq_none_iff, heq, @eq_comm _ location]
    rw [hnone, heq]
    simp
  · rw [lookup_filter_of_ne heq]
    simp [List.lookup_cons, beq_false_of_ne heq, heq]

theorem isDirectory_set :
    (store.set location content).isDirectory other = true ↔
      store.isDirectory other = true ∨ location.isBelow other = true := by
  simp only [isDirectory_iff, set, List.mem_append, List.mem_filter, List.mem_singleton,
    decide_eq_true_eq, or_assoc]
  constructor
  · rintro (hnil | hmade | hinner | ⟨file, ⟨hmem, -⟩ | rfl, hbelow⟩)
    · exact .inl hnil
    · exact .inr (.inl hmade)
    · exact .inr (.inr (.inl hinner))
    · exact .inr (.inr (.inr (.inl ⟨file, hmem, hbelow⟩)))
    · exact .inr (.inr (.inr (.inr hbelow)))
  · rintro (hnil | hmade | hinner | ⟨file, hmem, hbelow⟩ | hbelow)
    · exact .inl hnil
    · exact .inr (.inl hmade)
    · exact .inr (.inr (.inl hinner))
    · by_cases hfile : file.1 = location
      · exact .inr (.inr (.inr ⟨(location, content), .inr rfl, hfile ▸ hbelow⟩))
      · exact .inr (.inr (.inr ⟨file, .inl ⟨hmem, hfile⟩, hbelow⟩))
    · exact .inr (.inr (.inr ⟨(location, content), .inr rfl, hbelow⟩))

/-! ## Following paths -/

theorem checkPath_eq_ok_iff {parsed : Path} :
    checkPath path = .ok parsed ↔
      path ≠ "" ∧ path.utf8ByteSize ≤ pathLimit ∧ Path.ofText path = parsed := by
  unfold checkPath
  split
  next hempty => simp [hempty]
  next hnamed =>
    split
    next hlong => simp [Nat.not_le_of_lt hlong]
    next hshort => simp [hnamed, Nat.le_of_not_lt hshort]

theorem step_eq_ok_iff {part : String} {next : Location} :
    store.step location part = .ok next ↔ store.entry location = .directory ∧
      part.utf8ByteSize ≤ nameLimit ∧ location.follow part = next := by
  unfold step
  simp only [bind_eq_ok_iff, exists_const, checkDirectory_eq_ok_iff]
  split
  next hlong => simp [Nat.not_le_of_lt hlong]
  next hshort => simp [Nat.le_of_not_lt hshort]

theorem walk_cons_eq_ok_iff {first : String} {rest : List String} {next : Location} :
    store.walk location (first :: rest) = .ok next ↔
      ∃ inner, store.step location first = .ok inner ∧ store.walk inner rest = .ok next := by
  unfold walk
  rw [List.foldlM_cons, bind_eq_ok_iff]

theorem walk_concat_eq_ok_iff {parts : List String} {last : String} {next : Location} :
    store.walk location (parts ++ [last]) = .ok next ↔
      ∃ holder, store.walk location parts = .ok holder ∧ store.step holder last = .ok next := by
  unfold walk
  rw [List.foldlM_append, bind_eq_ok_iff]
  simp

/-- Where a way through directories ends follows from its parts. -/
theorem eq_foldl_of_walk {parts : List String} {next : Location}
    (hwalk : store.walk location parts = .ok next) :
    next = parts.foldl Location.follow location := by
  induction parts generalizing location with
  | nil => cases hwalk; rfl
  | cons first rest ih =>
      obtain ⟨inner, hstep, hrest⟩ := walk_cons_eq_ok_iff.mp hwalk
      obtain ⟨-, -, rfl⟩ := step_eq_ok_iff.mp hstep
      exact ih hrest

/-- A way leads to the same place in every store that keeps the directories. -/
theorem walk_of_directories {parts : List String} {next : Location}
    (hkept : ∀ other, store.entry other = .directory → after.entry other = .directory)
    (hwalk : store.walk location parts = .ok next) : after.walk location parts = .ok next := by
  induction parts generalizing location with
  | nil => exact hwalk
  | cons first rest ih =>
      obtain ⟨inner, hstep, hrest⟩ := walk_cons_eq_ok_iff.mp hwalk
      obtain ⟨hdirectory, hfits⟩ := step_eq_ok_iff.mp hstep
      exact walk_cons_eq_ok_iff.mpr
        ⟨inner, step_eq_ok_iff.mpr ⟨hkept _ hdirectory, hfits⟩, ih hrest⟩

/-- A path leads to a location: it is neither empty nor too long, all on the way are
directories, and it does not ask for a directory at its end. -/
structure LeadsTo (store : FileStore) (path : String) (location : Location) : Prop where
  named : path ≠ ""
  short : path.utf8ByteSize ≤ pathLimit
  unslashed : (Path.ofText path).slashed = false
  walked : store.walk (Path.ofText path).start (Path.ofText path).parts = .ok location

theorem LeadsTo.eq_location (hleads : store.LeadsTo path location) :
    location = (Path.ofText path).location :=
  eq_foldl_of_walk hleads.walked

theorem LeadsTo.of_directories (hleads : store.LeadsTo path location)
    (hkept : ∀ other, store.entry other = .directory → after.entry other = .directory) :
    after.LeadsTo path location :=
  ⟨hleads.named, hleads.short, hleads.unslashed, walk_of_directories hkept hleads.walked⟩

/-- What is read is the text of the file that the path leads to. -/
theorem readText_eq_ok_iff :
    store.readText path = .ok text ↔
      ∃ location, store.LeadsTo path location ∧ store.entry location = .file text.toUTF8 := by
  unfold readText
  simp only [bind_eq_ok_iff, checkPath_eq_ok_iff]
  constructor
  · rintro ⟨-, ⟨hnamed, hshort, rfl⟩, location, hwalk, hread⟩
    split at hread
    next => cases hread
    next => cases hread
    next content hentry =>
      split at hread
      next => cases hread
      next hunslashed =>
        split at hread
        next found hvalid =>
          cases hread
          rw [fromUTF8?_eq_some_iff] at hvalid
          exact ⟨location, ⟨hnamed, hshort, by simpa using hunslashed, hwalk⟩,
            hvalid ▸ hentry⟩
        next => cases hread
  · rintro ⟨location, hleads, hentry⟩
    refine ⟨_, ⟨hleads.named, hleads.short, rfl⟩, location, hleads.walked, ?_⟩
    simp only [hentry, hleads.unslashed, Bool.false_eq_true, if_false,
      fromUTF8?_eq_some_iff.mpr rfl]

/-! ## The place of a new text -/

/-- A place for a text: a name in a directory that is no directory itself. -/
structure IsFree (store : FileStore) (location : Location) : Prop where
  free : store.isDirectory location = false
  held : ∃ holder : Location, ∃ name, store.entry holder = .directory ∧
    location = ⟨holder.origin, holder.names ++ [name]⟩

theorem isFree_follow {holder : Location} {part : String}
    (hholder : store.entry holder = .directory)
    (hfree : store.isDirectory (holder.follow part) = false) :
    store.IsFree (holder.follow part) := by
  have hdirectory := (entry_eq_directory_iff.mp hholder).2
  refine ⟨hfree, holder, part, hholder, ?_⟩
  unfold Location.follow at hfree ⊢
  split at hfree
  next => simp [hdirectory] at hfree
  next hstay =>
    split at hfree
    next => simp [isDirectory_parent hdirectory] at hfree
    next hup => rw [if_neg hstay, if_neg hup]

theorem of_destination (hdestination : store.destination path = .ok location) :
    store.LeadsTo path location ∧ store.IsFree location := by
  unfold destination at hdestination
  simp only [bind_eq_ok_iff, checkPath_eq_ok_iff] at hdestination
  obtain ⟨-, ⟨hnamed, hshort, rfl⟩, hdestination⟩ := hdestination
  split at hdestination
  next => cases hdestination
  next last hlast =>
    simp only [bind_eq_ok_iff, exists_const, checkDirectory_eq_ok_iff] at hdestination
    obtain ⟨holder, hwalk, hholder, hplace⟩ := hdestination
    split at hplace
    next => cases hplace
    next hunslashed =>
      obtain ⟨next, hstep, hplace⟩ := bind_eq_ok_iff.mp hplace
      split at hplace
      next => cases hplace
      next hfree =>
        cases hplace
        obtain ⟨-, -, rfl⟩ := step_eq_ok_iff.mp hstep
        refine ⟨⟨hnamed, hshort, by simpa using hunslashed, ?_⟩,
          isFree_follow hholder (by simpa using hfree)⟩
        rw [← List.dropLast_append_getLast? last hlast]
        exact walk_concat_eq_ok_iff.mpr ⟨holder, hwalk, hstep⟩

/-- Two stores have the same at every location but one, where the second has a file with
the given content. -/
structure Replaced (before after : FileStore) (location : Location) (content : ByteArray) :
    Prop where
  here : after.entry location = .file content
  elsewhere : ∀ other, other ≠ location → after.entry other = before.entry other

theorem IsFree.replaced_set (hplace : store.IsFree location) :
    store.Replaced (store.set location content) location content := by
  obtain ⟨-, holder, name, hholder, rfl⟩ := hplace
  constructor
  · exact entry_eq_file_iff.mpr (by rw [get?_set, if_pos rfl])
  · intro other hne
    -- Above the new file there were directories before.
    have hdirectory : (store.set ⟨holder.origin, holder.names ++ [name]⟩ content).isDirectory
        other = store.isDirectory other := by
      rw [Bool.eq_iff_iff, isDirectory_set, Location.isBelow_child_iff, or_iff_left_iff_imp]
      have hheld := (entry_eq_directory_iff.mp hholder).2
      rintro (rfl | hbelow)
      · exact hheld
      · exact isDirectory_of_isBelow hbelow hheld
    unfold entry
    rw [get?_set, if_neg hne, hdirectory]

theorem Replaced.keeps_directories (hreplaced : store.Replaced after location content)
    (hplace : store.IsFree location) (other : Location)
    (hentry : store.entry other = .directory) : after.entry other = .directory := by
  rw [hreplaced.elsewhere, hentry]
  rintro rfl
  simp [entry_eq_directory_iff, hplace.free] at hentry

/-- A write that succeeds replaces the file that its path leads to, and nothing else. -/
theorem of_writeText (hwrite : store.writeText path text = .ok after) :
    store.Replaced after (Path.ofText path).location text.toUTF8 ∧
      after.readText path = .ok text := by
  unfold writeText at hwrite
  obtain ⟨location, hdestination, hwrite⟩ := bind_eq_ok_iff.mp hwrite
  split at hwrite
  next => cases hwrite
  next =>
    obtain ⟨hleads, hplace⟩ := of_destination hdestination
    obtain rfl := pure_eq_ok_iff.mp hwrite
    have hreplaced : store.Replaced (store.set location text.toUTF8) location text.toUTF8 :=
      hplace.replaced_set
    refine ⟨hleads.eq_location ▸ hreplaced, readText_eq_ok_iff.mpr ⟨location, ?_,
      hreplaced.here⟩⟩
    exact hleads.of_directories (hreplaced.keeps_directories hplace)

end FileStore

end ClassLang.Command
