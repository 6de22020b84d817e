import RunReport.Config
import RunReport.Disk
/-!
# Finding configurations

The configuration of a report is named, or is the file of a certain name in the directory of the
report or the nearest one above it. A base is found from the directory of the file that names it, and
may name another; a chain that comes back to one of its files is refused.
-/

namespace RunReport

inductive ConfigError where
  | notFound (path : Path)
  | circular (path : Path)
  | unreadable (path : Path)
  | malformed (path : Path) (cause : Json.ReadError)
  | baseNotFound (path referrer : Path)
  /-- More files than the disk can tell apart. -/
  | endless (path : Path)

def ConfigError.message : ConfigError → String
  | .notFound path => s!"Config file not found: {path.text}"
  | .circular path => s!"Circular extends detected in config: {path.text}"
  | .unreadable path => s!"Failed to read config: {path.text}"
  | .malformed path _ => s!"Invalid JSON in config: {path.text}"
  | .baseNotFound path referrer =>
    s!"Extended config not found: {path.text} (referenced from {referrer.text})"
  | .endless path => s!"Too many configs extended: {path.text}"

namespace Config

variable {m : Type → Type} [Monad m]

def fileName : String := ".logviewrc.json"

/-- The configuration in a file, with its base unread. -/
def readFile (disk : Disk m) (path : Path) : ExceptT ConfigError m Config := do
  match ← disk.read path with
  | none => throw (.unreadable path)
  | some text =>
    match read path.parent? text with
    | .ok c => return c
    | .error e => throw (.malformed path e)

/-- The file that `reference` names in the file at `path`. -/
def basePath (path : Path) (reference : String) : Path :=
  ((path.parent?.getD ⟨"."⟩).join reference).orExtension "json"

/-- The configuration at `path` and its bases, nearest first. -/
def chainFrom (disk : Disk m) :
    (fuel : Nat) → (visited : List String) → Path → ExceptT ConfigError m (List Config)
  | 0, _, path => throw (.endless path)
  | fuel + 1, visited, path => do
    let file ← disk.identity path
    if visited.contains file then throw (.circular path)
    else
      let c ← readFile disk path
      match c.base with
      | none => return [c]
      | some reference =>
        let next := basePath path reference
        if ← disk.isThere next then
          let bases ← chainFrom disk fuel (file :: visited) next
          return { c with base := none } :: bases
        else throw (.baseNotFound next path)

def chain (disk : Disk m) (path : Path) : ExceptT ConfigError m (List Config) :=
  chainFrom disk (disk.capacity + 1) [] path

/-- The first of the paths that leads somewhere. -/
def firstThere? (disk : Disk m) : List Path → m (Option Path)
  | [] => return none
  | p :: ps => do
    if ← disk.isThere p then return some p
    else firstThere? disk ps

def find? (disk : Disk m) (dir : Path) : m (Option Path) :=
  firstThere? disk (dir.ancestors.map (·.join fileName))

/-- The configuration for the reports in `dir`: the one at `custom`, or the nearest one; without any
nothing is set. -/
def load (disk : Disk m) (dir : Path) (custom : Option String) : ExceptT ConfigError m Config := do
  match custom with
  | some name =>
    let path := dir.join name
    if ← disk.isThere path then return mergeAll (← chain disk path)
    else throw (.notFound path)
  | none =>
    match ← (find? disk dir : m (Option Path)) with
    | some path => return mergeAll (← chain disk path)
    | none => return empty

end Config

end RunReport
