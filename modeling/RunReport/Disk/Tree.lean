import RunReport.Disk
/-!
# Trees of files

Files given as data. A directory is there when it is listed, when a file lies below it, or when the
working directory does. A path is followed part by part, and every part but the last must lead to a
directory.
-/

namespace RunReport

/-- The names from the root of the tree. -/
abbrev Location := List String

structure FileTree where
  /-- The working directory. -/
  home : Location
  /-- Files with their text, and directories. -/
  entries : List (Location × Option String)

namespace FileTree

/-- A tree of the files below the working directory. -/
def ofFiles (home : Location) (files : List (Path × Option String)) : FileTree :=
  ⟨home, files.map fun f => (home ++ f.1.parts.filter (!Path.isIdle ·), f.2)⟩

def file? (t : FileTree) (l : Location) : Option String :=
  (t.entries.lookup l).join

def isDirectory (t : FileTree) (l : Location) : Bool :=
  l.isPrefixOf t.home
    || t.entries.any fun e => l.isPrefixOf e.1 && (l.length < e.1.length || e.2.isNone)

def has (t : FileTree) (l : Location) : Bool :=
  (t.file? l).isSome || t.isDirectory l

def walk (t : FileTree) : Location → List String → Option Location
  | l, [] => some l
  | l, part :: rest =>
    if !t.isDirectory l then none
    else if Path.isIdle part then t.walk l rest
    else if part == ".." then t.walk l.dropLast rest
    else if t.has (l ++ [part]) then t.walk (l ++ [part]) rest
    else none

def start (t : FileTree) (p : Path) : Location :=
  if p.isAbsolute then [] else t.home

/-- Where a path leads, if something is there. -/
def find? (t : FileTree) (p : Path) : Option Location :=
  if p.text.isEmpty then none else t.walk (t.start p) p.parts

def read (t : FileTree) (p : Path) : Option String :=
  (t.find? p).bind t.file?

/-- The place of a file that is there or can be made. -/
def target? (t : FileTree) (p : Path) : Option Location :=
  match t.find? p with
  | some l => if t.isDirectory l then none else some l
  | none =>
    match p.parts.getLast? with
    | none => none
    | some name =>
      if Path.isIdle name || name == ".." then none
      else
        ((t.walk (t.start p) p.parts.dropLast).filter t.isDirectory).map (· ++ [name])

/-- Writes a file; nothing when that cannot be done. -/
def write (t : FileTree) (p : Path) (text : String) : Option FileTree :=
  (t.target? p).map fun l => { t with entries := (l, some text) :: t.entries.filter (·.1 != l) }

def disk (t : FileTree) : Disk Id where
  isThere p := (t.find? p).isSome
  read p := t.read p
  identity p :=
    match t.find? p with
    | some l => "/" ++ "/".intercalate l
    | none => p.text
  capacity := t.entries.length

end FileTree

end RunReport
