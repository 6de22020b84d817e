import RunReport.Text.Cut
/-!
# Options

The arguments of the program: one report, and options before or after it. An option that takes a
value has it in the next argument or after an equals sign; flags of one letter can be written
together; after `--` everything is a report. No option may be given twice. Arguments are read from
left to right, so of several faults the first counts, and asking for the version or for help ends the
reading.
-/

namespace RunReport.CommandLine

structure Options where
  report : String
  json : Bool
  html : Option String
  tag : Option String
  name : Option String
  path : Option String
  errors : Bool
  watch : Bool
  config : Option String
  verbose : Bool
  noColor : Bool
  deriving DecidableEq, Repr

inductive Flag where
  | json
  | errors
  | watch
  | verbose
  | noColor
  deriving DecidableEq, Repr

inductive Setting where
  | html
  | tag
  | name
  | path
  | config
  deriving DecidableEq, Repr

/-- Whether an empty value is refused. -/
def Setting.isFile : Setting → Bool
  | .html => true
  | .config => true
  | _ => false

/-- What an option asks for. -/
inductive Meaning where
  | flag (flag : Flag)
  | setting (setting : Setting)
  | version
  | help

def long? : String → Option Meaning
  | "json" => some (.flag .json)
  | "errors" => some (.flag .errors)
  | "watch" => some (.flag .watch)
  | "verbose" => some (.flag .verbose)
  | "no-color" => some (.flag .noColor)
  | "html" => some (.setting .html)
  | "tag" => some (.setting .tag)
  | "name" => some (.setting .name)
  | "path" => some (.setting .path)
  | "config" => some (.setting .config)
  | "version" => some .version
  | "help" => some .help
  | _ => none

def short? : Char → Option Meaning
  | 'j' => some (.flag .json)
  | 'v' => some (.flag .verbose)
  | 'V' => some .version
  | 'h' => some .help
  | _ => none

/-- Why no report is shown. -/
inductive Stop where
  | usage
  | version
  | help
  deriving DecidableEq, Repr

/-- What has been given so far. -/
structure Given where
  report : Option String
  flags : List Flag
  settings : List (Setting × String)

namespace Given

def nothing : Given := ⟨none, [], []⟩

def addFlag (f : Flag) (g : Given) : Except Stop Given :=
  if g.flags.contains f then .error .usage else .ok { g with flags := f :: g.flags }

def addSetting (s : Setting) (value : String) (g : Given) : Except Stop Given :=
  if (g.settings.lookup s).isSome || (s.isFile && value.isEmpty) then .error .usage
  else .ok { g with settings := (s, value) :: g.settings }

def addReport (path : String) (g : Given) : Except Stop Given :=
  if g.report.isSome || path.isEmpty then .error .usage else .ok { g with report := some path }

/-- An option that needs no value. -/
def addPlain (m : Meaning) (g : Given) : Except Stop Given :=
  match m with
  | .flag f => g.addFlag f
  | .setting _ => .error .usage
  | .version => .error .version
  | .help => .error .help

/-- Flags written together. -/
def addShort : List Char → Given → Except Stop Given
  | [], g => .ok g
  | c :: cs, g =>
    match short? c with
    | none => .error .usage
    | some m => do addShort cs (← g.addPlain m)

def addReports : List String → Given → Except Stop Given
  | [], g => .ok g
  | r :: rs, g => do addReports rs (← g.addReport r)

def options (g : Given) : Except Stop Options :=
  match g.report with
  | none => .error .usage
  | some report =>
    .ok
      { report, json := g.flags.contains .json, html := g.settings.lookup .html
        tag := g.settings.lookup .tag, name := g.settings.lookup .name
        path := g.settings.lookup .path, errors := g.flags.contains .errors
        watch := g.flags.contains .watch, config := g.settings.lookup .config
        verbose := g.flags.contains .verbose, noColor := g.flags.contains .noColor }

end Given

/-- How an argument is written. -/
inductive Argument where
  | rest
  | long (name : String) (value : Option String)
  | short (letters : List Char)
  | plain (text : String)
  deriving DecidableEq, Repr

/-- A single dash is no option. -/
def Argument.ofText (text : String) : Argument :=
  match text.toList with
  | ['-', '-'] => .rest
  | '-' :: '-' :: cs =>
    match Text.cutOnce ['='] cs with
    | some (name, value) => .long (String.ofList name) (some (String.ofList value))
    | none => .long (String.ofList cs) none
  | '-' :: c :: cs => .short (c :: cs)
  | _ => .plain text

/-- Reads the arguments from left to right; `awaiting` is the option whose value comes next. -/
def Given.addAll : List String → (awaiting : Option Setting) → Given → Except Stop Given
  | [], none, g => .ok g
  | [], some _, _ => .error .usage
  | a :: as, some s, g =>
    match Argument.ofText a with
    | .plain value => do addAll as none (← g.addSetting s value)
    | _ => .error .usage
  | a :: as, none, g =>
    match Argument.ofText a with
    | .plain path => do addAll as none (← g.addReport path)
    | .rest => g.addReports as
    | .short letters => do addAll as none (← g.addShort letters)
    | .long name value =>
      match long? name, value with
      | some (.setting s), some v => do addAll as none (← g.addSetting s v)
      | some (.setting s), none => addAll as (some s) g
      | some m, none => do addAll as none (← g.addPlain m)
      | _, _ => .error .usage

def Options.parse (args : List String) : Except Stop Options := do
  (← Given.nothing.addAll args none).options

end RunReport.CommandLine
