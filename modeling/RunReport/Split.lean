import RunReport.Raw
/-!
# Split files

A split file holds a list of keyword records and the string table they refer to.
-/

namespace RunReport

structure SplitPayload where
  keywords : List Raw
  strings : List String

namespace SplitPayload

structure Fields where
  keywords : Raw
  strings : List String

def fields : List (Json.Field Fields) :=
  [ { name := "keywords", required := true
      read := fun depth f => do return { f with keywords := ← Raw.reader depth } },
    { name := "strings", required := true
      read := fun depth f => do return { f with strings := ← Json.strings depth } } ]

def reader : Json.Reader Fields :=
  Json.record "struct SplitPayloadData" fields ⟨.null, []⟩ Json.nestingLimit

def read (text : String) : Except Error SplitPayload := do
  match Json.read reader text with
  | .error e => throw (.json e)
  | .ok f =>
    let keywords ← f.keywords.asList "split keywords"
    return ⟨keywords, f.strings⟩

end SplitPayload

end RunReport
