import RunReport.Format
/-!
# Report payloads

The root document of a report: its version and times, its string table, and the raw records of the
root suite, the statistics and the execution errors.
-/

namespace RunReport

structure Payload where
  version : Version
  /-- When the report was made, as an offset from the base time. -/
  generatedMillis : Int
  baseMillis : Int
  strings : List String
  suite : Raw
  stats : Raw
  errors : Raw
  splitLogBase : Option String

namespace Payload

def versionReader : Json.Reader Version := do
  match Version.ofNumber (← Json.natural32) with
  | .ok v => return v
  | .error e => Json.faulty (.refused e.message)

/-- Execution errors and the name of split files may be left out. -/
def fields : List (Json.Field Payload) :=
  [ { name := "version", required := true
      read := fun _ p => do return { p with version := ← versionReader } },
    { name := "generatedMillis", required := true
      read := fun _ p => do return { p with generatedMillis := ← Json.integer64 } },
    { name := "baseMillis", required := true
      read := fun _ p => do return { p with baseMillis := ← Json.integer64 } },
    { name := "strings", required := true
      read := fun depth p => do return { p with strings := ← Json.strings depth } },
    { name := "suite", required := true
      read := fun depth p => do return { p with suite := ← Raw.reader depth } },
    { name := "stats", required := true
      read := fun depth p => do return { p with stats := ← Raw.reader depth } },
    { name := "errors", required := false
      read := fun depth p => do return { p with errors := ← Raw.reader depth } },
    { name := "splitLogBase", required := false
      read := fun _ p => do return { p with splitLogBase := ← Json.optional Json.string } } ]

def blank : Payload :=
  ⟨.lettered, 0, 0, [], .null, .null, .list [], none⟩

def reader : Json.Reader Payload :=
  Json.record "struct OutputData" fields blank Json.nestingLimit

def read (text : String) : Except Error Payload :=
  match Json.read reader text with
  | .error e => .error (.json e)
  | .ok p => .ok p

end Payload

end RunReport
