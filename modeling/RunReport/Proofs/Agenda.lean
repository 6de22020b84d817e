import RunReport.Loader.Script
/-!
# What a task does to the ledger

The history of a host is read in parts: who asked, what was requested, announced and taken, who had
a file, and which calls came to their end. Every task does one of a few things to the ledger, and a
property that each of them keeps holds after every run.
-/

namespace RunReport.Loader

/-! ## Reading the history -/

namespace Happening

@[simp] def asked? : Happening → Option (Ticket × String)
  | .asked t file => some (t, file)
  | _ => none

@[simp] def pushed? : Happening → Option String
  | .pushed file => some file
  | _ => none

@[simp] def popped? : Happening → Option String
  | .popped file => some file
  | _ => none

@[simp] def announced? : Happening → Option (String × SplitPayload)
  | .announced file p => some (file, p)
  | _ => none

@[simp] def ran? : Happening → Option (Ticket × String × SplitPayload)
  | .ran t file p => some (t, file, p)
  | _ => none

/-- The end of a request or of an announcement. -/
@[simp] def end? : Happening → Option Happening
  | .returned number => some (.returned number)
  | .finished file => some (.finished file)
  | _ => none

/-- The number of somebody who asks for the file. -/
@[simp] def asker? (file : String) : Happening → Option Nat
  | .asked t name => if name = file then some t.number else none
  | _ => none

/-- Whether the file is asked for (`true`) or announced (`false`). -/
@[simp] def contact? (file : String) : Happening → Option Bool
  | .asked _ name => if name = file then some true else none
  | .announced name _ => if name = file then some false else none
  | _ => none

end Happening

abbrev asks (history : List Happening) : List (Ticket × String) :=
  history.filterMap Happening.asked?

abbrev pushes (history : List Happening) : List String :=
  history.filterMap Happening.pushed?

abbrev pops (history : List Happening) : List String :=
  history.filterMap Happening.popped?

abbrev announcements (history : List Happening) : List (String × SplitPayload) :=
  history.filterMap Happening.announced?

abbrev runs (history : List Happening) : List (Ticket × String × SplitPayload) :=
  history.filterMap Happening.ran?

abbrev ends (history : List Happening) : List Happening :=
  history.filterMap Happening.end?

/-- What happened to a file first: it was asked for (`true`) or announced (`false`). -/
abbrev firstContact? (file : String) (history : List Happening) : Option Bool :=
  history.findSome? (Happening.contact? file)

/-- Who asked for a file, by their numbers. -/
abbrev askersOf (file : String) (history : List Happening) : List Nat :=
  history.filterMap (Happening.asker? file)

/-- Who had a file, by their numbers. -/
abbrev runners (history : List Happening) : List Nat :=
  (runs history).map (·.1.number)

/-! ## Reading the agenda -/

@[simp] def Task.wake? : Task → Option (Ticket × String × SplitPayload)
  | .wake t file p => some (t, file, p)
  | _ => none

/-- What the task ends. -/
@[simp] def Task.end? : Task → Option Happening
  | .giveBack number => some (.returned number)
  | .finish file => some (.finished file)
  | _ => none

abbrev wakes (agenda : List Task) : List (Ticket × String × SplitPayload) :=
  agenda.filterMap Task.wake?

abbrev endings (agenda : List Task) : List Happening :=
  agenda.filterMap Task.end?

/-- Tasks that owe nothing to anybody. -/
def Free (agenda : List Task) : Prop :=
  wakes agenda = [] ∧ endings agenda = []

theorem free_nil : Free [] :=
  ⟨rfl, rfl⟩

theorem free_commands (cs : List Command) : Free (cs.map .command) := by
  constructor
  · simp [wakes, List.filterMap_map, Function.comp_def, Task.wake?]
  · simp [endings, List.filterMap_map, Function.comp_def, Task.end?]

/-! ## The steps -/

/-- Everything a task can do to a ledger, with the tasks that follow from it. -/
inductive Acts (l : Ledger) : Task → List Task → Ledger → Prop where
  /-- Nothing that has to do with the loader. -/
  | nothing {t new} (free : Free [t]) (next : Free new) : Acts l t new l
  /-- The next request is taken. -/
  | takes {t new file rest} (free : Free [t]) (next : Free new)
      (queue : l.loader.queue = file :: rest) :
      Acts l t new ⟨{ l.loader with queue := rest }, l.issued, l.history ++ [.popped file]⟩
  /-- Somebody is the first to ask for a file. -/
  | requests {t file k} (free : Free [t]) (number : k.number = l.issued)
      (unknown : l.loader.state? file = none) :
      Acts l t [] ⟨(l.loader.ensure file k).2, l.issued + 1,
        l.history ++ [.asked k file, .pushed file, .returned k.number]⟩
  /-- Somebody asks for a file that others wait for. -/
  | joins {t file k ks} (free : Free [t]) (number : k.number = l.issued)
      (pending : l.loader.state? file = some (.pending ks)) :
      Acts l t [] ⟨(l.loader.ensure file k).2, l.issued + 1,
        l.history ++ [.asked k file, .returned k.number]⟩
  /-- Somebody asks for a file that is there. -/
  | hasIt {t file k p} (free : Free [t]) (number : k.number = l.issued)
      (there : l.loader.payload? file = some p) :
      Acts l t [.wake k file p, .giveBack k.number]
        ⟨l.loader, l.issued + 1, l.history ++ [.asked k file]⟩
  /-- A file arrives. -/
  | arrives {t file p} (free : Free [t]) (absent : l.loader.payload? file = none) :
      Acts l t ((l.loader.waitersFor file).map (.wake · file p) ++ [.finish file])
        ⟨(l.loader.announce file p).2, l.issued, l.history ++ [.announced file p]⟩
  /-- A file that is there is announced again. -/
  | again {t file p q} (free : Free [t]) (there : l.loader.payload? file = some q) :
      Acts l t [] ⟨l.loader, l.issued, l.history ++ [.announced file p]⟩
  /-- Somebody gets the file. -/
  | hands {k file p new} (next : Free new) :
      Acts l (.wake k file p) new ⟨l.loader, l.issued, l.history ++ [.ran k file p]⟩
  | givesBack {number} :
      Acts l (.giveBack number) [] ⟨l.loader, l.issued, l.history ++ [.returned number]⟩
  | finishes {file} :
      Acts l (.finish file) [] ⟨l.loader, l.issued, l.history ++ [.finished file]⟩

theorem ask_acts (h : Host) {t : Task} (free : Free [t]) (file : String) (waiter : HostWaiter) :
    Acts h.toLedger t (h.ask file waiter).1 (h.ask file waiter).2.toLedger := by
  have queue := queue_ensure h.loader file ⟨h.issued, waiter⟩
  have fst := ensure_fst h.loader file ⟨h.issued, waiter⟩
  simp only [Host.ask, queue]
  cases hs : h.loader.state? file with
  | none =>
    simp only [fst, payload?, hs, List.drop_left]
    exact .requests free rfl hs
  | some state =>
    cases state with
    | pending ks =>
      simp only [fst, payload?, hs, List.drop_left]
      exact .joins free rfl hs
    | loaded p =>
      have there : h.loader.payload? file = some p := by rw [payload?, hs]
      rw [ensure_loaded there]
      exact .hasIt free rfl there

theorem announce_acts (h : Host) {t : Task} (free : Free [t]) (file : String) (p : SplitPayload) :
    Acts h.toLedger t (h.announce file p).1 (h.announce file p).2.toLedger := by
  simp only [Host.announce, isLoaded_iff]
  cases hp : h.loader.payload? file with
  | some q =>
    rw [announce_loaded hp]
    exact .again free hp
  | none =>
    rw [announce_releases hp]
    exact .arrives free hp

theorem pop_acts (h : Host) {t : Task} {new : List Task} (free : Free [t]) (next : Free new) :
    Acts h.toLedger t new h.pop.2.toLedger := by
  simp only [Host.pop, Loader.pop]
  cases hq : h.loader.queue with
  | nil =>
    simp only [Option.toList_none, List.map_nil, Host.note, List.append_nil]
    exact .nothing free next
  | cons file rest => exact .takes free next hq

theorem perform_acts (h : Host) (c : Command) :
    Acts h.toLedger (.command c) (h.perform c).1 (h.perform c).2.toLedger := by
  have free : Free [.command c] := free_commands [c]
  cases c with
  | ensure file label andThen => exact ask_acts h free file _
  | future file label => exact ask_acts (h.promise label) free file _
  | announce file payload =>
    simp only [Host.perform]
    cases SplitPayload.read payload with
    | error e => exact .nothing free free_nil
    | ok p => exact .nothing free ⟨rfl, rfl⟩
  | state file => exact .nothing free free_nil
  | pop => exact pop_acts h free free_nil
  | serve dir => exact .nothing free ⟨rfl, rfl⟩
  | poll label =>
    have same : (h.poll label).toLedger = h.toLedger := by
      simp only [Host.poll]
      split
      · rfl
      · split <;> rfl
    simp only [Host.perform, same]
    exact .nothing free free_nil

theorem serve_acts (h : Host) (dir : List (String × String)) (served : Nat) :
    Acts h.toLedger (.serve dir served) (h.serve dir served).1 (h.serve dir served).2.toLedger := by
  have free : Free [.serve dir served] := ⟨rfl, rfl⟩
  have pop {new : List Task} (next : Free new) := pop_acts h free next
  simp only [Host.serve]
  split
  · rename_i h' eq
    rw [eq] at pop
    exact pop free_nil
  · rename_i file h' eq
    rw [eq] at pop
    split
    · exact pop free_nil
    · split
      · exact pop free_nil
      · exact pop ⟨rfl, rfl⟩

theorem act_acts (h : Host) (t : Task) : Acts h.toLedger t (h.act t).1 (h.act t).2.toLedger := by
  cases t with
  | command c => exact perform_acts h c
  | wake k file p =>
    obtain ⟨number, waiter⟩ := k
    cases waiter with
    | callback label andThen => exact .hands (free_commands andThen)
    | future n => exact .hands free_nil
  | giveBack number => exact .givesBack
  | announce file p => exact announce_acts h ⟨rfl, rfl⟩ file p
  | finish file => exact .finishes
  | serve dir served => exact serve_acts h dir served

/-- What every step keeps, with the tasks it leaves to do, holds when nothing is left to do. -/
theorem run_keeps {P : List Task → Ledger → Prop}
    (step : ∀ {l t new l'} rest, Acts l t new l' → P (t :: rest) l → P (new ++ rest) l')
    (agenda : List Task) (h : Host) (holds : P agenda h.toLedger) :
    P [] (h.run agenda).toLedger := by
  fun_induction Host.run agenda h with
  | case1 h => exact holds
  | case2 h t rest ih => exact ih (step rest (act_acts h t) holds)

end RunReport.Loader
