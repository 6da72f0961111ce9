import Mathlib.Data.List.Basic
import Overlay.Source.FileTree

/-!
# Reading the files of a tree

The file that was added last under a path is read under that path, whether the path starts at the
root or in the working directory (`FileTree.read_add`). The path must not lead upwards, and has to
end with the name of the file.
-/

namespace Overlay.FileTree

variable {tree : FileTree} {here parts : List String} {path : String}

/-- The parts of a path that name something. -/
def naming (parts : List String) : List String := parts.filter fun p => !Path.isIdle p

/-- What is in front of the names of a file leads to a directory. -/
theorem isDirectory_of_file {f : File} (hf : f ∈ tree.files) {names : List String}
    (hnames : names ≠ []) (hfile : f.names = here ++ names) : tree.isDirectory here = true := by
  refine Bool.or_eq_true_iff.2 (.inr (List.any_eq_true.2 ⟨f, hf, ?_⟩))
  have hlength : 0 < names.length := List.length_pos_iff.2 hnames
  rw [hfile]
  simp [hlength]

/-- The parts of a path that does not lead upwards are followed to the file that they name. -/
theorem follow_naming {f : File} (hf : f ∈ tree.files) (hfile : f.names = here ++ naming parts)
    (hup : ∀ part ∈ parts, part ≠ "..")
    (hlast : ∀ part, parts.getLast? = some part → Path.isIdle part = false) :
    tree.follow here parts = .ok (here ++ naming parts) := by
  induction parts generalizing here with
  | nil =>
    rw [follow]
    simp [naming]
  | cons part rest ih =>
    have hne : naming (part :: rest) ≠ [] := by
      cases hend : (part :: rest).getLast? with
      | none => simp at hend
      | some last =>
        exact List.ne_nil_of_mem (List.mem_filter.2
          ⟨List.mem_of_getLast? hend, by simp [hlast last hend]⟩)
    have hrest : ∀ last, rest.getLast? = some last → Path.isIdle last = false := by
      intro last hend
      refine hlast last ?_
      rw [List.getLast?_cons, hend]
      rfl
    rw [List.forall_mem_cons] at hup
    rw [follow, if_pos (isDirectory_of_file hf hne hfile)]
    by_cases hidle : Path.isIdle part = true
    · have hskip : naming (part :: rest) = naming rest :=
        List.filter_cons_of_neg (by simp [hidle])
      rw [hskip] at hfile ⊢
      rw [if_pos hidle, ih hfile hup.2 hrest]
    · have htake : naming (part :: rest) = part :: naming rest :=
        List.filter_cons_of_pos (by simpa using hidle)
      rw [htake, List.append_cons] at hfile
      rw [htake, if_neg hidle, if_neg hup.1, ih hfile hup.2 hrest, List.append_assoc]
      rfl

/-- The file that was added last under a path is read under that path. -/
theorem read_add (tree : FileTree) {content : ByteArray}
    (hup : ∀ part ∈ Path.parts path, part ≠ "..")
    (hlast : ∀ part, (Path.parts path).getLast? = some part → Path.isIdle part = false) :
    (tree.add path content).read path =
      match String.fromUTF8? content with
      | some text => .ok text
      | none => .error .notText := by
  have hne : path ≠ "" := by
    rintro rfl
    exact absurd (hlast "" rfl) (by decide)
  have hstart : (tree.add path content).start path = tree.start path := rfl
  have hfollow := @follow_naming (tree.add path content) (tree.start path) (Path.parts path)
    ⟨tree.start path ++ names path, content⟩ List.mem_cons_self rfl hup hlast
  have hfound : (tree.add path content).file? (tree.start path ++ names path) =
      some ⟨tree.start path ++ names path, content⟩ := by
    simp [file?, add]
  have hnames : naming (Path.parts path) = names path := rfl
  rw [hnames] at hfollow
  rw [read, if_neg hne, hstart, hfollow]
  simp only [bind, Except.bind, pure, Except.pure, hfound]
  cases String.fromUTF8? content <;> rfl

end Overlay.FileTree
