import TreeScript.Files

/-!
# What a write leaves behind

A write that succeeds puts one file where its path leads (`write_eq_ok`).  The path leads there
again afterwards: on the way it only asks which names are directories, and where the file was put
there was none.  Nor has an obstacle come up.  So the file that was written is the file that is read
(`read_of_write`), and no other has changed (`replaced_of_write`).
-/

namespace TreeScript.Files

variable {files files' : Files} {path : Path} {node : FileNode} {text content : String}

/-- A node that is put where a path leads, and not in place of a directory, does not stand in its
way. -/
theorem follow_put (hnode : files.lookup path ≠ some .directory) :
    ∀ {names : List String} {dir : Path}, files.follow dir names = .ok (.entry path) →
      (files.put path node).follow dir names = .ok (.entry path)
  | [], _, h => by cases h
  | name :: rest, dir, h => by
    rw [follow] at h ⊢
    split at h
    · rename_i hdot
      rw [if_pos hdot]
      exact follow_put hnode h
    rename_i hdot
    rw [if_neg hdot]
    split at h
    · rename_i hup
      rw [if_pos hup]
      exact follow_put hnode h
    rename_i hup
    rw [if_neg hup]
    split at h
    · rename_i hlast
      rw [if_pos hlast]
      exact h
    rename_i hlast
    rw [if_neg hlast]
    split at h
    · cases h
    rename_i hlong
    rw [if_neg hlong]
    split at h
    · rename_i hdir
      -- what is passed through is a directory, so it is not where the node was put
      have hne : path ≠ dir ++ [name] := by
        rintro rfl
        exact hnode hdir
      rw [lookup_put files _ node hnode, if_neg hne, hdir]
      exact follow_put hnode h
    · cases h
    · cases h

/-- Whether the text of a path is refused at once depends on the text alone; if it is not, its names
are followed. -/
theorem locate_eq_follow {place : Place} (h : files.locate text = .ok place) (other : Files) :
    other.locate text = other.follow (other.start text) (names text) := by
  unfold locate at h ⊢
  split at h
  · cases h
  rename_i hzero
  split at h
  · cases h
  rename_i hempty
  split at h
  · cases h
  rename_i hlong
  rw [if_neg hzero, if_neg hempty, if_neg hlong]

theorem locate_put (h : files.locate text = .ok (.entry path))
    (hnode : files.lookup path ≠ some .directory) :
    (files.put path node).locate text = .ok (.entry path) := by
  have hfollow := locate_eq_follow h files
  rw [h] at hfollow
  rw [locate_eq_follow h]
  exact follow_put hnode hfollow.symm

/-- **A write that succeeds** has found its path leading to a name that can be a file's, with no
directory there and no obstacle, and has put the file. -/
theorem write_eq_ok (h : files.write text content = .ok files') :
    ∃ path, files.locate text = .ok (.entry path) ∧ endsInSlash text = false ∧
      path.getLast?.any isLong = false ∧ files.lookup path ≠ some .directory ∧
      files.obstacle path = none ∧ files' = files.put path (.file content.toUTF8) := by
  unfold write at h
  cases hplace : files.locate text with
  | error failure =>
    rw [hplace] at h
    cases h
  | ok place =>
    rw [hplace] at h
    cases place with
    | directory dir => cases h
    | entry path =>
      simp only [bind, Except.bind] at h
      split at h
      · cases h
      rename_i hslash
      split at h
      · cases h
      rename_i hlong
      split at h
      · cases h
      · cases h
      · rename_i hfree hdir
        cases h
        exact ⟨path, rfl, by simpa using hslash, by simpa using hlong, hdir, hfree, rfl⟩

/-- Bytes that encode a text are read as that text. -/
theorem fromUTF8?_toUTF8 (s : String) : String.fromUTF8? s.toUTF8 = some s := by
  unfold String.fromUTF8?
  have hvalid : s.toUTF8.IsValidUTF8 := s.isValidUTF8
  rw [dif_pos hvalid]
  rfl

/-- **What was written is read.** -/
theorem read_of_write (h : files.write text content = .ok files') :
    files'.read text = .ok content := by
  obtain ⟨path, hplace, hslash, hlong, hdir, hfree, rfl⟩ := write_eq_ok h
  have hlookup : (files.put path (.file content.toUTF8)).lookup path =
      some (.file content.toUTF8) := by
    rw [lookup_put files path _ hdir, if_pos rfl]
  have hfree' : (files.put path (.file content.toUTF8)).obstacle path = none := hfree
  have hbytes : (files.put path (.file content.toUTF8)).readBytes text = .ok content.toUTF8 := by
    unfold readBytes
    simp only [locate_put hplace hdir, bind, Except.bind, hlong, hlookup, hslash, hfree']
    rfl
  unfold read
  rw [hbytes]
  simp only [bind, Except.bind, fromUTF8?_toUTF8]
  rfl

/-- A file is the same one under a path from the root and under one from the working directory. -/
example : ((({} : Files).write "/work/t.csv" "a\n").bind fun files => files.read "../work/t.csv") =
    .ok "a\n" := rfl

/-- The file to which a path leads holds this text, and nothing has changed elsewhere. -/
def Replaced (files files' : Files) (text content : String) : Prop :=
  ∃ path, files.locate text = .ok (.entry path) ∧
    files'.lookup path = some (.file content.toUTF8) ∧
    ∀ other, other ≠ path → files'.lookup other = files.lookup other

/-- **A write changes one file**, the one to which its path leads. -/
theorem replaced_of_write (h : files.write text content = .ok files') :
    files.Replaced files' text content := by
  obtain ⟨path, hplace, -, -, hdir, -, rfl⟩ := write_eq_ok h
  refine ⟨path, hplace, ?_, fun other hother => ?_⟩
  · rw [lookup_put files path _ hdir, if_pos rfl]
  · rw [lookup_put files other _ hdir, if_neg hother.symm]

end TreeScript.Files
