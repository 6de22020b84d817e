import RunReport.Split
/-!
# Loading split files

The loader asks for a file the first time somebody needs it and lets everybody else wait for the
same request. When the file arrives it hands back those who waited, in the order they came; from
then on the file is there at once. Requests stand in a queue until a host takes them. The loader
does not know what its waiters do.
-/

namespace RunReport

inductive FileState (W : Type) where
  | pending (waiters : List W)
  | loaded (payload : SplitPayload)

structure Loader (W : Type) where
  files : List (String × FileState W)
  /-- How many files have been asked for. -/
  requests : Nat
  queue : List String

namespace Loader

variable {W : Type}

def empty : Loader W :=
  ⟨[], 0, []⟩

def state? (l : Loader W) (file : String) : Option (FileState W) :=
  l.files.lookup file

/-- Sets the state of a file. -/
def setState (file : String) (state : FileState W) :
    List (String × FileState W) → List (String × FileState W)
  | [] => [(file, state)]
  | (name, old) :: rest =>
    if name = file then (file, state) :: rest else (name, old) :: setState file state rest

/-- The content of the file if it is there; otherwise `w` waits for it. -/
def ensure (l : Loader W) (file : String) (w : W) : Option SplitPayload × Loader W :=
  match l.state? file with
  | some (.loaded payload) => (some payload, l)
  | some (.pending waiters) =>
    (none, { l with files := setState file (.pending (waiters ++ [w])) l.files })
  | none =>
    (none, { files := setState file (.pending [w]) l.files, requests := l.requests + 1
             queue := l.queue ++ [file] })

/-- Takes the content of a file and releases those who wait for it; a file that is there already
stays as it is. -/
def announce (l : Loader W) (file : String) (payload : SplitPayload) : List W × Loader W :=
  match l.state? file with
  | some (.loaded _) => ([], l)
  | some (.pending waiters) =>
    (waiters, { l with files := setState file (.loaded payload) l.files })
  | none => ([], { l with files := setState file (.loaded payload) l.files })

/-- The next request. -/
def pop (l : Loader W) : Option String × Loader W :=
  match l.queue with
  | [] => (none, l)
  | file :: rest => (some file, { l with queue := rest })

def isLoaded (l : Loader W) (file : String) : Bool :=
  match l.state? file with
  | some (.loaded _) => true
  | _ => false

def isRequested (l : Loader W) (file : String) : Bool :=
  (l.state? file).isSome

def waitersOf : FileState W → List W
  | .pending waiters => waiters
  | .loaded _ => []

def isPending : FileState W → Bool
  | .pending _ => true
  | .loaded _ => false

/-- Files asked for and not there yet, sorted. -/
def pendingFiles (l : Loader W) : List String :=
  ((l.files.filter fun f => isPending f.2).map (·.1)).mergeSort fun a b => !(b < a)

/-- Everybody who waits. -/
def waiters (l : Loader W) : List W :=
  l.files.flatMap fun f => waitersOf f.2

/-- Forgets the files that have not come, and those who wait for them. -/
def abandon (l : Loader W) : Loader W :=
  { l with files := l.files.filter fun f => !isPending f.2 }

end Loader

end RunReport
