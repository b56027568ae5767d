import Mathlib.Tactic.Common
import NoteScript.Command.Run

/-!
# What happens to the files

A command writes one file at most, and it may make the directories that the file is in. How the tree of
files afterwards is related to the one before:

* `FileTree.GrowsTo`: everything is as before, but for directories where nothing stood. No file is touched.
* `FileTree.WritesFile`: one file is written, and the rest is so.
* `FileWrite.perform_outcome`: a write ends in one of the two, and it is the second exactly if it returns.
-/

namespace NoteScript.Command

namespace FileTree

variable {t t' t'' : FileTree} {place other : List String}

/-! ### Entries -/

theorem entry?_nil (t : FileTree) : t.entry? [] = some .directory := rfl

theorem entry?_eq_find? (t : FileTree) (nonempty : place ≠ []) : t.entry? place = (t.entries.find? (·.1 == place)).map (·.2) := by
  unfold entry?
  simp [nonempty]

theorem entry?_put_self (t : FileTree) (nonempty : place ≠ []) (e : Entry) : entry? (t.put place e) place = some e := by
  have gone : (t.entries.filter (·.1 != place)).find? (·.1 == place) = none := by
    rw [List.find?_eq_none]
    intro pair mem
    simpa using (List.mem_filter.mp mem).2
  rw [entry?_eq_find? _ nonempty, put, List.find?_append, gone]
  simp

theorem entry?_put_other (t : FileTree) (apart : other ≠ place) (e : Entry) : entry? (t.put place e) other = t.entry? other := by
  by_cases empty : other = []
  · rw [empty, entry?_nil, entry?_nil]
  have kept : (t.entries.filter (·.1 != place)).find? (·.1 == other) = t.entries.find? (·.1 == other) := by
    rw [List.find?_filter]
    congr 1
    funext pair
    by_cases here : pair.1 = other
    · simp [here, apart]
    · simp [here]
  have notNew : [(place, e)].find? (·.1 == other) = none := by simp [Ne.symm apart]
  rw [entry?_eq_find? _ empty, entry?_eq_find? _ empty, put, List.find?_append, kept, notNew, Option.or_none]

/-! ### Growth -/

/-- `t.GrowsTo t'`: every entry is as before, but for directories where nothing stood. -/
def GrowsTo (t t' : FileTree) : Prop :=
  ∀ place, t'.entry? place = t.entry? place ∨ t.entry? place = none ∧ t'.entry? place = some .directory

theorem GrowsTo.refl (t : FileTree) : t.GrowsTo t := fun _ => .inl rfl

theorem GrowsTo.trans (h : t.GrowsTo t') (h' : t'.GrowsTo t'') : t.GrowsTo t'' := by
  intro place
  rcases h place with same | ⟨nothing, made⟩ <;> rcases h' place with same' | ⟨nothing', made'⟩
  · exact .inl (same'.trans same)
  · exact .inr ⟨same.symm.trans nothing', made'⟩
  · exact .inr ⟨nothing, same'.trans made⟩
  · rw [made] at nothing'
    cases nothing'

theorem growsTo_makeDirectory {p : Path} (made : t.makeDirectory p = .ok t') : t.GrowsTo t' := by
  unfold makeDirectory at made
  rcases leads : t.place p with fault | place <;> rw [leads] at made
  · cases made
  simp only [bind, Except.bind] at made
  split at made
  · cases made
  · rename_i nothing
    cases made
    intro other
    by_cases here : other = place
    · subst here
      have nonempty : other ≠ [] := by
        rintro rfl
        cases nothing
      exact .inr ⟨nothing, entry?_put_self t nonempty _⟩
    · exact .inl (entry?_put_other t here _)

theorem growsTo_ensureDirectory {p : Path} (made : t.ensureDirectory p = .ok t') : t.GrowsTo t' := by
  unfold ensureDirectory at made
  split at made
  · rename_i after ran
    cases made
    exact growsTo_makeDirectory ran
  · cases made
  · split at made <;> cases made
    exact .refl t

theorem growsTo_attempt {change : FileTree → Except PathFault FileTree} (t : FileTree)
    (grows : ∀ t', change t = .ok t' → t.GrowsTo t') : t.GrowsTo (t.attempt change).2 := by
  unfold attempt
  split
  · exact grows _ ‹_›
  · exact .refl t

/-- Making directories adds directories only, also where one of them is refused. -/
theorem growsTo_ensureFrom (t : FileTree) (slashes : Nat) (parts : List String) : t.GrowsTo (t.ensureFrom slashes parts).2 := by
  have attempted (t : FileTree) (p : Path) : t.GrowsTo (t.attempt (·.ensureDirectory p)).2 :=
    growsTo_attempt t fun _ => growsTo_ensureDirectory
  induction parts generalizing t with
  | nil => exact attempted t _
  | cons part outer ih =>
    rw [ensureFrom]
    split
    · have outside := ih t
      split
      · rename_i after ran
        rw [ran] at outside
        exact outside.trans (attempted after _)
      · exact outside
    · exact attempted t _

/-! ### One file -/

/-- `t.WritesFile t' place content`: a file with the content is written at the place, where no directory stood,
and every other entry is as before, but for directories where nothing stood. -/
structure WritesFile (t t' : FileTree) (place : List String) (content : String) : Prop where
  written : t'.entry? place = some (.file (some content))
  noDirectory : t.entry? place ≠ some .directory
  others : ∀ other, other ≠ place → t'.entry? other = t.entry? other ∨ t.entry? other = none ∧ t'.entry? other = some .directory

/-- A walk passes directories only, so it goes the same way with another file. -/
theorem walk_put_file {start parts : List String} (content : Option String) (notDirectory : t.entry? other ≠ some .directory)
    (leads : t.walk start parts = .ok place) : (t.put other (.file content)).walk start parts = .ok place := by
  induction parts generalizing start with
  | nil => exact leads
  | cons part parts ih =>
    rw [walk] at leads ⊢
    rcases stands : t.entry? start with _ | _ | found <;> rw [stands] at leads
    · cases leads
    · have apart : start ≠ other := by
        rintro rfl
        exact notDirectory stands
      rw [entry?_put_other t apart, stands]
      exact ih leads
    · cases leads

theorem writesFile_write {p : Path} {content : String} (wrote : t.write p content = .ok t') :
    ∃ place, t'.place p = .ok place ∧ t.WritesFile t' place content := by
  unfold write at wrote
  rcases leads : t.place p with fault | place <;> rw [leads] at wrote
  · cases wrote
  simp only [bind, Except.bind] at wrote
  split at wrote
  · cases wrote
  · rename_i notDirectory
    have noDirectory : t.entry? place ≠ some .directory := notDirectory
    cases wrote
    have nonempty : place ≠ [] := by
      rintro rfl
      exact noDirectory (entry?_nil t)
    refine ⟨place, walk_put_file _ noDirectory leads, entry?_put_self t nonempty _, noDirectory, ?_⟩
    intro other apart
    exact .inl (entry?_put_other t apart _)

/-- A file is written after directories were made for it. -/
theorem GrowsTo.writesFile {content : String} (grows : t.GrowsTo t') (writes : t'.WritesFile t'' place content) :
    t.WritesFile t'' place content where
  written := writes.written
  noDirectory stood := by
    rcases grows place with same | ⟨nothing, _⟩
    · exact writes.noDirectory (same.trans stood)
    · simp [nothing] at stood
  others other apart := by
    rcases grows other with same | ⟨nothing, made⟩ <;> rcases writes.others other apart with same' | ⟨nothing', made'⟩
    · exact .inl (same'.trans same)
    · exact .inr ⟨same.symm.trans nothing', made'⟩
    · exact .inr ⟨nothing, same'.trans made⟩
    · rw [made] at nothing'
      cases nothing'

end FileTree

/-- A write that returns has written the file where its path leads to; one that is refused has touched no file. -/
theorem FileWrite.perform_outcome (w : FileWrite) (files : FileTree) : match w.perform files with
    | (.ok (), after) => ∃ place, after.place w.path = .ok place ∧ files.WritesFile after place w.content
    | (.error _, after) => files.GrowsTo after := by
  have grown : files.GrowsTo (if w.withParents then files.ensureDirectories w.path.parent else (.ok (), files)).2 := by
    split
    · exact FileTree.growsTo_ensureFrom _ _ _
    · exact .refl files
  rw [perform]
  rcases made : (if w.withParents then files.ensureDirectories w.path.parent else (.ok (), files)) with ⟨fault | _, ready⟩ <;>
    rw [made] at grown
  · exact grown
  · rcases wrote : ready.write w.path w.content with fault | after <;> simp only [FileTree.attempt, wrote]
    · exact grown
    · obtain ⟨place, leads, writes⟩ := FileTree.writesFile_write wrote
      exact ⟨place, leads, grown.writesFile writes⟩

end NoteScript.Command
