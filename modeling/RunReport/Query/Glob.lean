import RunReport.Query.Regex
import RunReport.Text.Lower
import RunReport.Text.Space
/-!
# Wildcard patterns

Texts are compared in normal form: lower case, without white space and underscores. A pattern is
turned into a regular expression for the whole text, in which `*` becomes any run of characters, `?`
any one character, and every other character itself.
-/

namespace RunReport.Query

def normalize (cs : List Char) : List Char :=
  (cs.filter fun c => !Text.isSpace c && c != '_').flatMap Text.lower

def normalizeText (s : String) : String :=
  String.ofList (normalize s.toList)

/-- A character as an expression that takes exactly it. -/
def escape (c : Char) : List Char :=
  if escapable.contains c then ['\\', c] else [c]

def wildcard (c : Char) : List Char :=
  if c = '*' then ['.', '*'] else if c = '?' then ['.'] else escape c

/-- The expression for a pattern in normal form. -/
def expression (pattern : List Char) : List Char :=
  ['(', '?', 's', ')', '^'] ++ pattern.flatMap wildcard ++ ['$']

/-- What an engine has made of the expression for a pattern, if it has not refused it. -/
structure Matcher (engine : Engine) where
  regex : Option engine.Compiled

namespace Matcher

variable {engine : Engine}

def new (engine : Engine) (pattern : String) : Matcher engine :=
  ⟨engine.compile (expression (normalize pattern.toList))⟩

def ofPattern (pattern : String) : Matcher .standard :=
  new .standard pattern

def accepts (m : Matcher engine) (text : String) : Bool :=
  m.regex.any fun compiled => engine.isMatch compiled (normalize text.toList)

def acceptsAny (m : Matcher engine) (texts : List String) : Bool :=
  texts.any m.accepts

end Matcher

end RunReport.Query
