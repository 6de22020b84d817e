import RunReport.Disk.Tree
import RunReport.Proofs.Naming
import RunReport.Session.Preload
/-!
# The split files of a directory

Split files are told apart by their numbers, which stand at the end of their paths. A path into a tree
of files ends with the name of the file it leads to, so only finitely many split files can be read,
whatever the directory and however it is spelled.
-/

namespace RunReport

/-! ## The end of a path -/

/-- What is added behind a text without a separator is added to the last piece. -/
theorem cut_add (c : Char) (a : List Char) :
    ∃ before last, ∀ b, c ∉ b → Text.cut [c] (a ++ b) = before ++ [last ++ b] := by
  induction a with
  | nil => exact ⟨[], [], fun b hb => cut_plain hb⟩
  | cons d a ih =>
    obtain ⟨before, last, rest⟩ := ih
    by_cases same : c = d
    · refine ⟨[] :: before, last, fun b hb => ?_⟩
      have own := rest b hb
      simp only [Text.cut] at own ⊢
      simp [Text.cutFrom, List.isPrefixOf, same, ← own]
    · have added : ∀ b, c ∉ b → Text.cut [c] (d :: a ++ b) =
          Text.consPiece d (before ++ [last ++ b]) := by
        intro b hb
        have own := rest b hb
        simp only [Text.cut] at own ⊢
        simp [Text.cutFrom, List.isPrefixOf, same, own]
      cases before with
      | nil => exact ⟨[], d :: last, added⟩
      | cons first before => exact ⟨(d :: first) :: before, last, added⟩

/-- What is added behind a name is added behind the path that it is joined to. -/
theorem Path.join_append (dir : Path) (name : String) {suffix : String}
    (plain : '/' ∉ suffix.toList) :
    (dir.join (name ++ suffix)).text = (dir.join name).text ++ suffix := by
  have same : (Path.mk (name ++ suffix)).isAbsolute = (Path.mk name).isAbsolute := by
    simp only [isAbsolute, String.toList_append, List.head?_append]
    cases name.toList with
    | cons c cs => rfl
    | nil =>
      cases hs : suffix.toList with
      | nil => rfl
      | cons c cs =>
        have other : c ≠ '/' := fun hc => plain (by simp [hs, hc])
        simp [other]
  simp only [join, same]
  split
  · rfl
  · split <;> simp only [String.append_assoc]

namespace FileTree

variable {t : FileTree}

/-- A path ends with the name of what it leads to. -/
theorem walk_last {parts : List String} {name : String} {l l' : Location}
    (leads : Path.isIdle name = false) (down : name ≠ "..")
    (walked : t.walk l (parts ++ [name]) = some l') : l'.getLast? = some name := by
  induction parts generalizing l with
  | nil =>
    simp only [List.nil_append, walk, leads, beq_eq_false_iff_ne.2 down] at walked
    split at walked
    · cases walked
    · simp only [Bool.false_eq_true, if_false] at walked
      split at walked
      · cases walked
        exact List.getLast?_concat
      · cases walked
  | cons part parts ih =>
    simp only [List.cons_append, walk] at walked
    split at walked
    · cases walked
    · split at walked
      · exact ih walked
      · split at walked
        · exact ih walked
        · split at walked
          · exact ih walked
          · cases walked

theorem file?_mem {l : Location} {text : String} (h : t.file? l = some text) :
    l ∈ t.entries.map (·.1) := by
  cases found : t.entries.lookup l with
  | none => simp [file?, found] at h
  | some entry =>
    obtain ⟨before, after, split, -⟩ := List.lookup_eq_some_iff.1 found
    simp [split]

/-- The names of the files and directories that are listed. -/
def names (t : FileTree) : List String :=
  t.entries.filterMap (·.1.getLast?)

/-- A file that can be read has one of the names of the tree, which stands at the end of its path. -/
theorem read_last {p : Path} {parts : List String} {name text : String}
    (ends : p.parts = parts ++ [name]) (leads : Path.isIdle name = false) (down : name ≠ "..")
    (read : t.read p = some text) : name ∈ t.names := by
  obtain ⟨l, found, there⟩ := Option.bind_eq_some_iff.1 read
  simp only [find?] at found
  split at found
  · cases found
  · rw [ends] at found
    obtain ⟨entry, mem, rfl⟩ := List.mem_map.1 (file?_mem there)
    exact List.mem_filterMap.2 ⟨entry, mem, walk_last leads down found⟩

/-- Finitely many files with the same beginning can be read. -/
theorem read_finite (t : FileTree) (dir : Path) (base : String) :
    ∃ names : List String, ∀ suffix text, '/' ∉ suffix.toList → '-' ∈ suffix.toList →
      t.read (dir.join (base ++ suffix)) = some text → base ++ suffix ∈ names := by
  obtain ⟨before, last, pieces⟩ := cut_add '/' (dir.join base).text.toList
  -- The file has the name of an entry, but for what the path has in front of the suffix.
  refine ⟨t.names.map fun name => base ++ String.ofList (name.toList.drop last.length), ?_⟩
  intro suffix text plain dash read
  have ends : (dir.join (base ++ suffix)).parts =
      before.map String.ofList ++ [String.ofList (last ++ suffix.toList)] := by
    simp only [Path.parts, Path.join_append dir base plain, String.toList_append, pieces _ plain,
      List.map_append, List.map_cons, List.map_nil]
  have other : ∀ text : String, '-' ∉ text.toList →
      String.ofList (last ++ suffix.toList) ≠ text := by
    rintro text none rfl
    exact none (by simp [dash])
  have leads : Path.isIdle (String.ofList (last ++ suffix.toList)) = false := by
    rw [Path.isIdle, Bool.or_eq_false_iff, beq_eq_false_iff_ne]
    refine ⟨?_, other "." (by decide)⟩
    rw [Bool.eq_false_iff]
    exact fun empty => other "" (by decide) (String.isEmpty_iff.1 empty)
  have mem := read_last ends leads (other ".." (by decide)) read
  exact List.mem_map.2 ⟨_, mem, by simp⟩

end FileTree

/-! ## Split files -/

/-- Of the split files of a report, only finitely many can be read from a tree of files. -/
theorem splitFiles_finite (tree : FileTree) (dir : Path) (c : Coding) :
    ∃ names : List String, ∀ index text,
      Session.readSplit tree.disk dir (c.splitFileName index) = .ok text →
      c.splitFileName index ∈ names := by
  obtain ⟨names, finite⟩ := tree.read_finite dir (c.splitLogBase.getD "log")
  refine ⟨names, fun index text read => ?_⟩
  have number : (s!"-{index}.json").toList = '-' :: ((toString index).toList ++ ".json".toList) := by
    change ("-" ++ toString index ++ ".json").toList = _
    rw [String.toList_append, String.toList_append]
    rfl
  cases there : tree.read (dir.join (c.splitFileName index)) with
  | none =>
    simp only [Session.readSplit, FileTree.disk, there] at read
    cases read
  | some text' =>
    refine finite _ text' ?_ ?_ there
    · rw [number, List.mem_cons, List.mem_append]
      rintro (dash | digit | rest)
      · cases dash
      · exact not_mem_integer (by decide) (by decide) index digit
      · simp at rest
    · rw [number]
      exact List.mem_cons_self

end RunReport
