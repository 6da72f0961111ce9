import Mathlib.Tactic.SplitIfs
import Overlay.Settings.Loading

/-!
# Files of loaded settings

The name of a settings file has a suffix, so it stands in a directory (`Path.exists_parent?`), and
the override files that it names are files of that directory (`load_eq_ok_iff`). If the settings file
is named from the root, so are they (`isAbsolute_of_load`).
-/

namespace Overlay

variable {path directory : String}

/-! ## Paths from the root -/

namespace Path

theorem isAbsolute_iff : isAbsolute path = true ↔ ∃ cs, path.toList = '/' :: cs := by
  unfold isAbsolute
  cases path.toList <;> simp

/-- The first part of a path from the root is empty. -/
theorem parts_of_isAbsolute (h : isAbsolute path = true) : ∃ rest, parts path = "" :: rest := by
  rcases isAbsolute_iff.1 h with ⟨cs, hcs⟩
  refine ⟨(Text.splitAtChar '/' cs).map String.ofList, ?_⟩
  rw [parts, hcs, Text.splitAtChar, if_pos rfl, List.map_cons]

theorem isAbsolute_join (h : isAbsolute directory = true) (path : String) :
    isAbsolute (join directory path) = true := by
  rcases isAbsolute_iff.1 h with ⟨cs, hcs⟩
  unfold join
  split_ifs with hpath
  · exact hpath
  · exact isAbsolute_iff.2 ⟨cs ++ path.toList, by rw [String.toList_append, hcs]; rfl⟩
  · refine isAbsolute_iff.2 ⟨cs ++ '/' :: path.toList, ?_⟩
    rw [String.toList_append, String.toList_append, hcs, List.append_assoc]
    rfl

/-- The directory of a path from the root is one. -/
theorem isAbsolute_parent (h : isAbsolute path = true) (hparent : parent? path = some directory) :
    isAbsolute directory = true := by
  rcases parts_of_isAbsolute h with ⟨rest, hparts⟩
  unfold parent? at hparent
  rw [hparts, trimParts] at hparent
  generalize (rest.reverse.dropWhile isIdle).reverse = kept at hparent
  cases kept with
  | nil => cases hparent
  | cons second others =>
    simp only [List.dropLast_cons_cons, trimParts] at hparent
    generalize ((second :: others).dropLast.reverse.dropWhile isIdle).reverse = front at hparent
    cases front with
    | nil =>
      cases hparent
      rfl
    | cons next more =>
      cases hparent
      refine isAbsolute_iff.2 ⟨("/".intercalate (next :: more)).toList, ?_⟩
      rw [String.intercalate_cons_cons, String.toList_append]
      rfl

/-- A path with a suffix leads through a directory. -/
theorem exists_parent? {suffix : String} (h : extension? path = some suffix) :
    ∃ directory, parent? path = some directory := by
  rcases Option.bind_eq_some_iff.1 h with ⟨name, hname, -⟩
  unfold fileName? at hname
  unfold parent?
  cases hparts : trimParts (parts path) with
  | nil =>
    rw [hparts] at hname
    cases hname
  | cons first rest =>
    cases rest with
    | nil =>
      refine ⟨"", if_neg ?_⟩
      rintro rfl
      rw [hparts] at hname
      cases hname
    | cons second others =>
      dsimp only
      split
      · exact ⟨_, rfl⟩
      · exact ⟨_, rfl⟩

end Path

/-! ## Loading -/

namespace Settings

variable {readers : Readers} {formats : FormatReaders} {settings : Settings}

theorem exists_parent?_of_format? {format : Format} (h : format? path = some format) :
    ∃ directory, Path.parent? path = some directory := by
  cases hsuffix : Path.extension? path with
  | some suffix => exact Path.exists_parent? hsuffix
  | none =>
    have hlower : Path.lowerExtension path = "" := by
      rw [Path.lowerExtension, hsuffix]
      rfl
    rw [format?, hlower] at h
    cases h

/-- Settings are loaded from a text in the format of its suffix, and the files that they name are
files of the directory of the settings. -/
theorem load_eq_ok_iff :
    load readers path formats = .ok settings ↔
      ∃ text format directory found, readers.file path = .ok text ∧ format? path = some format ∧
        Path.parent? path = some directory ∧ parse formats format text = .ok found ∧
          settings = { found with files := found.files.map (Path.join directory) } := by
  unfold load
  cases hfile : readers.file path with
  | error fault => simp [bind, Except.bind, Except.mapError]
  | ok text =>
    cases hformat : format? path with
    | none => simp [bind, Except.bind, Except.mapError]
    | some format =>
      rcases exists_parent?_of_format? hformat with ⟨directory, hdirectory⟩
      cases hfound : parse formats format text with
      | error problem => simp [bind, Except.bind, Except.mapError, hfound]
      | ok found =>
        simp [bind, Except.bind, Except.mapError, hfound, pure, Except.pure, relativeTo,
          hdirectory, eq_comm]

/-- Settings that are loaded from the root name files from the root. -/
theorem isAbsolute_of_load (hpath : Path.isAbsolute path = true)
    (h : load readers path formats = .ok settings) :
    ∀ file ∈ settings.files, Path.isAbsolute file = true := by
  rcases load_eq_ok_iff.1 h with ⟨text, format, directory, found, -, -, hdirectory, -, rfl⟩
  intro file hfile
  rcases List.mem_map.1 hfile with ⟨name, -, rfl⟩
  exact Path.isAbsolute_join (Path.isAbsolute_parent hpath hdirectory) name

end Settings

end Overlay
