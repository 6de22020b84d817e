import RunReport.Format
import RunReport.Json.Record
import RunReport.Path
/-!
# Configurations

Settings for showing reports. A configuration can name another one as its base; what it does not set
itself is then taken from there. The directory of split files travels with the directory it is
relative to, so it means the same wherever it is taken to.
-/

namespace RunReport

/-- A tag query that is shown as a row of its own. -/
structure CombinedTag where
  pattern : String
  /-- Shown in place of the query. -/
  name : Option String
  deriving DecidableEq, Repr

structure Config where
  /-- The file with the base of this configuration. -/
  base : Option String
  minLevel : Option Level
  colors : Option Bool
  splitDir : Option String
  combinedTags : List CombinedTag
  /-- What `splitDir` is relative to; the directory of the report when there is none. -/
  home : Option Path

namespace CombinedTag

def fields : List (Json.Field CombinedTag) :=
  [ { name := "pattern", required := true
      read := fun _ t => do return { t with pattern := ← Json.string } },
    { name := "name", required := false
      read := fun _ t => do return { t with name := ← Json.optional Json.string } } ]

def reader (depth : Nat) : Json.Reader CombinedTag :=
  Json.record "struct CombinedTag" fields ⟨"", none⟩ depth

def listReader (depth : Nat) : Json.Reader (List CombinedTag) := do
  match ← Json.next with
  | some '[' => Json.deeper depth fun d => do Json.drop1; Json.items (reader d)
  | _ => Json.unexpected "a sequence"

end CombinedTag

namespace Config

/-- Sets nothing. -/
def empty : Config := ⟨none, none, none, none, [], none⟩

def fields : List (Json.Field Config) :=
  [ { name := "extends", required := false
      read := fun _ c => do return { c with base := ← Json.optional Json.string } },
    { name := "minLevel", required := false
      read := fun depth c => do
        return { c with minLevel := ← Json.optional (Json.variant Level.named depth) } },
    { name := "colors", required := false
      read := fun _ c => do return { c with colors := ← Json.optional Json.boolean } },
    { name := "splitDir", required := false
      read := fun _ c => do return { c with splitDir := ← Json.optional Json.string } },
    { name := "combinedTags", required := false
      read := fun depth c => do
        return { c with combinedTags := ← CombinedTag.listReader depth } } ]

def reader : Json.Reader Config :=
  Json.record "struct Config" fields empty Json.nestingLimit

/-- The configuration that a file in `home` holds. -/
def read (home : Option Path) (text : String) : Except Json.ReadError Config :=
  (Json.read reader text).map fun c => { c with home }

/-- What `own` does not set comes from `base`. Tags of the base come first, without those whose
query `own` has too. -/
def merge (own base : Config) : Config where
  base := own.base.or base.base
  minLevel := own.minLevel.or base.minLevel
  colors := own.colors.or base.colors
  splitDir := own.splitDir.or base.splitDir
  combinedTags :=
    base.combinedTags.filter (fun tag => !own.combinedTags.any (·.pattern == tag.pattern))
      ++ own.combinedTags
  home := if own.splitDir.isSome then own.home else base.home

/-- A chain of configurations, each with the next one as its base. -/
def mergeAll : List Config → Config
  | [] => empty
  | [c] => c
  | c :: base :: rest => c.merge (mergeAll (base :: rest))

/-- What is asked for on the spot comes first. -/
def override (noColor : Bool) (minLevel : Option Level) (c : Config) : Config :=
  { c with
    colors := if noColor then some false else c.colors
    minLevel := minLevel.or c.minLevel }

def shownLevel (c : Config) : Level :=
  c.minLevel.getD .info

def isColored (c : Config) : Bool :=
  c.colors.getD true

/-- The directory of the split files of a report in `reportDir`. -/
def splitDirFor (reportDir : Path) (c : Config) : Path :=
  match c.splitDir with
  | none => reportDir
  | some dir => (c.home.getD reportDir).join dir

end Config

end RunReport
