import RunReport.Disk.Tree
/-!
# Hosts

What the program runs on: a disk that can be written to, and two texts that grow, one with the output
and one with notes about the run. `Desk` is a host given as data.
-/

namespace RunReport.CommandLine

structure Host (m : Type → Type) extends Disk m where
  /-- Writes a file; whether that worked. -/
  write : Path → String → m Bool
  print : String → m Unit
  note : String → m Unit

structure Desk where
  tree : FileTree
  output : String
  notes : String

namespace Desk

def ofTree (tree : FileTree) : Desk := ⟨tree, "", ""⟩

def write (p : Path) (text : String) : StateM Desk Bool := do
  let d ← get
  match d.tree.write p text with
  | some tree => set { d with tree }; return true
  | none => return false

/-- A host whose disk can tell so many files apart. -/
def host (capacity : Nat) : Host (StateM Desk) where
  isThere p := do return ((← get).tree.find? p).isSome
  read p := do return (← get).tree.read p
  identity p := do return (← get).tree.disk.identity p
  capacity := capacity
  write := write
  print text := modify fun d => { d with output := d.output ++ text }
  note text := modify fun d => { d with notes := d.notes ++ text }

end Desk

/-- Whether text is painted: when that is forced, or else when nothing forbids it on a terminal.
The values of the environment count as set unless they are `0`. -/
def isPainted (force forbid allow : Option String) (isTerminal : Bool) : Bool :=
  if force.isSome && force != some "0" then true
  else if forbid.isSome then false
  else allow != some "0" && isTerminal

end RunReport.CommandLine
