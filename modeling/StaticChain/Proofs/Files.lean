import Mathlib.Tactic.SplitIfs
import StaticChain.Project.FileTree

/-!
# What operations on files keep

Making a directory keeps everything that is there (`FileTree.Extends`), and writing a file keeps all directories
and all other files (`FileTree.get?_put`). Directories are what paths are walked through, so a path that leads to
a place keeps leading there (`FileTree.resolve_mono`).
-/

namespace StaticChain

open FileTree (Place)

namespace FileTree

variable {t t' t'' : FileTree} {directory place place' : Place} {path : String} {content : Wasm.Bytes}

/-! ## Places -/

theorem get?_put (t : FileTree) (place : Place) (entry : FileEntry) (place' : Place) :
    (t.put place entry).get? place' =
      if place' = [] then some .directory else if place' = place then some entry else t.get? place' := by
  cases place' with
  | nil => rfl
  | cons name rest =>
    rw [if_neg (List.cons_ne_nil _ _)]
    by_cases heq : name :: rest = place
    · simp [get?, put, heq]
    · rw [if_neg heq]
      simp only [get?, put, List.find?_cons]
      rw [beq_eq_false_iff_ne.2 (Ne.symm heq)]
      simp only [List.find?_filter]
      congr 2
      funext e
      by_cases he : e.1 = name :: rest
      · simp [he, heq]
      · simp [he]

/-- Everything that is there stays. -/
def Extends (t t' : FileTree) : Prop := ∀ place entry, t.get? place = some entry → t'.get? place = some entry

/-- Directories stay. -/
def KeepsDirectories (t t' : FileTree) : Prop :=
  ∀ place, t.get? place = some .directory → t'.get? place = some .directory

theorem Extends.refl (t : FileTree) : Extends t t := fun _ _ h => h

theorem Extends.trans (h : Extends t t') (h' : Extends t' t'') : Extends t t'' :=
  fun place entry hentry => h' place entry (h place entry hentry)

theorem Extends.keepsDirectories (h : Extends t t') : KeepsDirectories t t' := fun place => h place .directory

theorem KeepsDirectories.refl (t : FileTree) : KeepsDirectories t t := fun _ h => h

theorem KeepsDirectories.trans (h : KeepsDirectories t t') (h' : KeepsDirectories t' t'') : KeepsDirectories t t'' :=
  fun place hplace => h' place (h place hplace)

/-! ## Paths -/

/-- Where directories stay, the pieces of a path lead to the same place. -/
theorem walk_mono (h : KeepsDirectories t t') {pieces : List String} (hwalk : t.walk place pieces = .ok place') :
    t'.walk place pieces = .ok place' := by
  induction pieces generalizing place with
  | nil => exact hwalk
  | cons piece rest ih =>
    rw [walk] at hwalk ⊢
    split at hwalk
    · cases hwalk
    · cases hwalk
    · rename_i hdirectory
      rw [h _ hdirectory]
      dsimp only
      split at hwalk
      · cases hwalk
      · rename_i hname
        rw [if_neg hname]
        exact ih hwalk

theorem resolve_mono (h : KeepsDirectories t t') (hresolve : t.resolve directory path = .ok place) :
    t'.resolve directory path = .ok place := by
  unfold resolve at hresolve ⊢
  split_ifs at hresolve ⊢
  all_goals exact walk_mono h hresolve

/-- Reading what a path leads to. -/
theorem read_eq_ok (hresolve : t.resolve directory path = .ok place) (hget : t.get? place = some (.file content)) :
    t.read directory path = .ok content := by
  simp only [read, hresolve, bind, Except.bind, hget]

/-! ## Operations -/

/-- A directory is made where there was nothing. -/
theorem extends_of_makeDirectory (h : t.makeDirectory directory path = .ok t') : Extends t t' := by
  unfold makeDirectory at h
  cases hresolve : t.resolve directory path with
  | error e =>
    rw [hresolve] at h
    cases h
  | ok place =>
    rw [hresolve] at h
    simp only [bind, Except.bind] at h
    split at h
    · cases h
    · rename_i hnone
      cases h
      intro place' entry hentry
      rw [get?_put]
      split_ifs with hroot heq
      · subst hroot
        exact hentry
      · subst heq
        rw [hnone] at hentry
        cases hentry
      · exact hentry

/-- A file is written where there was no directory. -/
theorem write_eq_ok (h : t.write directory path content = .ok t') : ∃ place,
    t.resolve directory path = .ok place ∧ t.get? place ≠ some .directory ∧ t' = t.put place (.file content) := by
  unfold write at h
  cases hresolve : t.resolve directory path with
  | error e =>
    rw [hresolve] at h
    cases h
  | ok place =>
    rw [hresolve] at h
    simp only [bind, Except.bind] at h
    split at h
    · cases h
    · rename_i hfile
      cases h
      exact ⟨place, rfl, hfile, rfl⟩

/-- Directories stay where a file is written. -/
theorem keepsDirectories_put (h : t.get? place ≠ some .directory) (content : Wasm.Bytes) :
    KeepsDirectories t (t.put place (.file content)) := by
  intro place' hplace'
  rw [get?_put]
  split_ifs with hroot heq
  · rfl
  · subst heq
    exact absurd hplace' h
  · exact hplace'

/-- The file is there. -/
theorem get?_put_self (h : t.get? place ≠ some .directory) (content : Wasm.Bytes) :
    (t.put place (.file content)).get? place = some (.file content) := by
  rw [get?_put, if_neg, if_pos rfl]
  rintro rfl
  exact h rfl

/-- What is at other places stays. -/
theorem get?_put_of_ne {entry : FileEntry} (h : place' ≠ place) (hget : t.get? place' = some entry)
    (content : Wasm.Bytes) :
    (t.put place (.file content)).get? place' = some entry := by
  rw [get?_put]
  split_ifs with hroot
  · subst hroot
    exact hget
  · exact hget

end FileTree

end StaticChain
