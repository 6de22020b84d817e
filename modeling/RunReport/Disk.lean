import RunReport.Path
/-!
# Disks

Where files are found. What a path leads to is up to the disk; programs that only look are written
against `Disk` and run on a real one as well as on a tree of files given as data.
-/

namespace RunReport

structure Disk (m : Type → Type) where
  /-- Whether a path leads to a file or a directory. -/
  isThere : Path → m Bool
  /-- The text of a file; nothing for a directory, or when there is no such file. -/
  read : Path → m (Option String)
  /-- The same for all paths that lead to one file. -/
  identity : Path → m String
  /-- No more files than this can be told apart. -/
  capacity : Nat

end RunReport
