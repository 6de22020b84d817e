import RunReport.CommandLine.Run
/-!
# The program

Runs the command line on the files of the machine.
-/

namespace RunReport.CommandLine

/-- The value of an action that may fail. -/
def attemptIO {α : Type} (x : IO α) : IO (Option α) := do
  return (← x.toBaseIO).toOption

/-- The disk and the streams of the machine. -/
def machine : Host IO where
  isThere p := do return (← attemptIO (IO.FS.realPath p.text)).isSome
  read p := attemptIO (IO.FS.readFile p.text)
  identity p := do return ((← attemptIO (IO.FS.realPath p.text)).map (·.toString)).getD p.text
  capacity := 1 <<< 64
  write p text := do return (← attemptIO (IO.FS.writeFile p.text text)).isSome
  print text := do
    let out ← IO.getStdout
    out.putStr text
    out.flush
  note text := do (← IO.getStderr).putStr text

/-- Milliseconds between two looks at a watched report. -/
def watchPause : UInt32 := 300

/-- Shows a report again whenever its text has changed. -/
partial def follow (painted : Bool) (o : Options) (seen : Option String) : IO Unit := do
  IO.sleep watchPause
  let now ← machine.read ⟨o.report⟩
  if now != seen then
    machine.print (Text.times 60 "─" ++ "\n")
    let _ ← runOptions machine painted o
  follow painted o now

def watch (painted : Bool) (o : Options) : IO Unit := do
  let seen ← machine.read ⟨o.report⟩
  let _ ← runOptions machine painted o
  machine.note (noteLine painted .blue "Info" "Watching for changes... (Ctrl+C to stop)")
  follow painted o seen

end RunReport.CommandLine

open RunReport.CommandLine

def main (args : List String) : IO UInt32 := do
  let painted := isPainted (← IO.getEnv "CLICOLOR_FORCE") (← IO.getEnv "NO_COLOR")
    (← IO.getEnv "CLICOLOR") (← (← IO.getStdout).isTty)
  match Options.parse args with
  | .ok o =>
    if o.watch then
      watch painted o
      return 0
    else return (← runOptions machine painted o).toUInt32
  | .error _ => return (← run machine painted args).toUInt32
