import RunReport.Text.Cut
/-!
# Paths

A path is text between slashes. Joining and taking apart never change the text that stays: `a/./b`
is not `a/b`, though both name the same file. Empty parts, and dots other than a leading one, are
passed over when a path is taken apart.
-/

namespace RunReport

structure Path where
  text : String
  deriving DecidableEq, Repr

namespace Path

def isAbsolute (p : Path) : Bool :=
  p.text.toList.head? == some '/'

/-- The texts between the slashes; there is always one. -/
def parts (p : Path) : List String :=
  (Text.cut ['/'] p.text.toList).map String.ofList

def ofParts (parts : List String) : Path :=
  ⟨"/".intercalate parts⟩

/-- A part that leads nowhere else. -/
def isIdle (part : String) : Bool :=
  part.isEmpty || part == "."

def dropIdle (parts : List String) : List String :=
  (parts.reverse.dropWhile isIdle).reverse

/-- An absolute path replaces the one it is joined to. -/
def join (p : Path) (q : String) : Path :=
  if (Path.mk q).isAbsolute || p.text.isEmpty then ⟨q⟩
  else if p.text.toList.getLast? == some '/' then ⟨p.text ++ q⟩
  else ⟨p.text ++ "/" ++ q⟩

/-- The path without its last part; the root and the empty path have none to leave out. -/
def parent? (p : Path) : Option Path :=
  match p.parts with
  | [] => none
  | first :: rest =>
    match dropIdle rest with
    | [] => if first.isEmpty then none else some ⟨""⟩
    | kept =>
      match dropIdle kept.dropLast with
      | [] => some (if first.isEmpty then ⟨"/"⟩ else ⟨first⟩)
      | above => some (ofParts (first :: above))

def ancestorsFrom : Nat → Path → List Path
  | 0, _ => []
  | n + 1, p =>
    match p.parent? with
    | none => [p]
    | some q => p :: ancestorsFrom n q

/-- The path itself and all above it, nearest first. Each has a part less than the one before. -/
def ancestors (p : Path) : List Path :=
  ancestorsFrom (p.parts.length + 1) p

/-- The last part, unless it leads up or stays. -/
def fileName? (p : Path) : Option String :=
  match p.parts with
  | [] => none
  | first :: rest =>
    match (dropIdle rest).getLast? with
    | some name => if name == ".." then none else some name
    | none => if isIdle first || first == ".." then none else some first

/-- Whether the file name has a dot that is not its first character. -/
def hasExtension (p : Path) : Bool :=
  match p.fileName? with
  | none => false
  | some name =>
    match Text.cutLast '.' name.toList with
    | none => false
    | some (stem, _) => !stem.isEmpty

/-- Gives a file name without an extension this one. -/
def orExtension (ext : String) (p : Path) : Path :=
  if p.hasExtension || p.fileName?.isNone then p
  else
    match p.parts with
    | [] => p
    | first :: rest => ⟨(ofParts (first :: dropIdle rest)).text ++ "." ++ ext⟩

end Path

end RunReport
