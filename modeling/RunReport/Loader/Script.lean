import RunReport.Proofs.Loading
/-!
# Loader scripts

A host that works with a loader, written as data: it asks for files with callbacks that may do more
of the same, announces files, takes requests from the queue and serves them from a directory. What a
callback does is done before anything that stands behind it, so the host keeps an agenda and puts
what follows from a task in front of what was left to do. It writes down everything that happens.
-/

namespace RunReport.Loader

inductive Command where
  /-- Ask for a file; the callback reports `label` and then goes on. -/
  | ensure (file label : String) (andThen : List Command)
  | announce (file payload : String)
  | state (file : String)
  | pop
  /-- Serve requests from a directory, given by names and texts, until none is left. -/
  | serve (dir : List (String × String))
  | future (file label : String)
  | poll (label : String)
  deriving Inhabited

inductive HostWaiter where
  | callback (label : String) (andThen : List Command)
  | future (number : Nat)

/-- Somebody who has asked for a file; no two have the same number. -/
structure Ticket where
  number : Nat
  waiter : HostWaiter

/-- How much a file brought. -/
structure Delivery where
  keywords : Nat
  strings : Nat

def Delivery.of (p : SplitPayload) : Delivery :=
  ⟨p.keywords.length, p.strings.length⟩

inductive Reply where
  | done
  | failed (e : Error)
  | flags (requested loaded : Bool)
  | file (name : Option String)
  | served (files : Nat)
  | noFuture
  | pending
  | ready (d : Delivery)

inductive Happening where
  | asked (t : Ticket) (file : String)
  /-- A request was put into the queue. -/
  | pushed (file : String)
  | popped (file : String)
  /-- The call that asked has returned. -/
  | returned (number : Nat)
  | announced (file : String) (payload : SplitPayload)
  /-- All who waited when the file was announced have had it. -/
  | finished (file : String)
  | ran (t : Ticket) (file : String) (payload : SplitPayload)

/-- The part of a host that has to do with the loader. -/
structure Ledger where
  loader : Loader Ticket
  /-- Number of tickets given out. -/
  issued : Nat
  history : List Happening

structure Host extends Ledger where
  futures : List (Option Delivery)
  labels : List (String × Nat)
  /-- What the command that ended last has to say. -/
  reply : Reply

def Host.start : Host :=
  ⟨⟨.empty, 0, []⟩, [], [], .done⟩

inductive Task where
  | command (c : Command)
  | wake (t : Ticket) (file : String) (payload : SplitPayload)
  | giveBack (number : Nat)
  | announce (file : String) (payload : SplitPayload)
  | finish (file : String)
  | serve (dir : List (String × String)) (served : Nat)

namespace Host

def note (happenings : List Happening) (h : Host) : Host :=
  { h with history := h.history ++ happenings }

def answer (reply : Reply) (h : Host) : Host :=
  { h with reply }

/-- Asks for a file: the waiter has it at once or waits for it. -/
def ask (file : String) (waiter : HostWaiter) (h : Host) : List Task × Host :=
  let t : Ticket := ⟨h.issued, waiter⟩
  let (payload, loader) := h.loader.ensure file t
  let asked := { h with loader, issued := h.issued + 1 }
  match payload with
  | some p => ([.wake t file p, .giveBack t.number], asked.note [.asked t file])
  | none =>
    let pushed := (loader.queue.drop h.loader.queue.length).map .pushed
    ([], (asked.note (.asked t file :: pushed ++ [.returned t.number])).answer .done)

/-- Announces a file: those who wait for it have it in turn, unless it is there already. -/
def announce (file : String) (p : SplitPayload) (h : Host) : List Task × Host :=
  let (waiters, loader) := h.loader.announce file p
  let announced := { h with loader }.note [.announced file p]
  if h.loader.isLoaded file then ([], announced.answer .done)
  else (waiters.map (.wake · file p) ++ [.finish file], announced)

/-- Takes the next request. -/
def pop (h : Host) : Option String × Host :=
  let (file, loader) := h.loader.pop
  (file, { h with loader }.note (file.toList.map .popped))

/-- Makes room for a result under a label. -/
def promise (label : String) (h : Host) : Host :=
  { h with futures := h.futures ++ [none]
           labels := (label, h.futures.length) :: h.labels.filter (·.1 != label) }

def poll (label : String) (h : Host) : Host :=
  match h.labels.lookup label with
  | none => h.answer .noFuture
  | some n =>
    match h.futures[n]?.join with
    | none => h.answer .pending
    | some d => { h with labels := h.labels.filter (·.1 != label) }.answer (.ready d)

def perform (c : Command) (h : Host) : List Task × Host :=
  match c with
  | .ensure file label andThen => h.ask file (.callback label andThen)
  | .future file label => (h.promise label).ask file (.future h.futures.length)
  | .announce file payload =>
    match SplitPayload.read payload with
    | .error e => ([], h.answer (.failed e))
    | .ok p => ([.announce file p], h)
  | .state file => ([], h.answer (.flags (h.loader.isRequested file) (h.loader.isLoaded file)))
  | .pop => ([], h.pop.2.answer (.file h.pop.1))
  | .serve dir => ([.serve dir 0], h)
  | .poll label => ([], h.poll label)

/-- Serves the next request. -/
def serve (dir : List (String × String)) (served : Nat) (h : Host) : List Task × Host :=
  match h.pop with
  | (none, h) => ([], h.answer (.served served))
  | (some file, h) =>
    match dir.lookup file with
    | none => ([], h.answer (.failed .unreadable))
    | some text =>
      match SplitPayload.read text with
      | .error e => ([], h.answer (.failed e))
      | .ok p => ([.announce file p, .serve dir (served + 1)], h)

def wake (t : Ticket) (file : String) (p : SplitPayload) (h : Host) : List Task × Host :=
  match t.waiter with
  | .callback _ andThen => (andThen.map .command, h.note [.ran t file p])
  | .future n =>
    ([], { h with futures := h.futures.set n (some (.of p)) }.note [.ran t file p])

/-- Does a task: what has to be done next because of it, and the host afterwards. -/
def act : Task → Host → List Task × Host
  | .command c, h => h.perform c
  | .wake t file p, h => h.wake t file p
  | .giveBack number, h => ([], (h.note [.returned number]).answer .done)
  | .announce file p, h => h.announce file p
  | .finish file, h => ([], (h.note [.finished file]).answer .done)
  | .serve dir served, h => h.serve dir served

end Host

/-! ## Everything comes to an end -/

mutual

/-- More than all that can follow from a command. -/
def Command.weight : Command → Nat
  | .ensure _ _ andThen => weights andThen + 5
  | _ => 5

def weights : List Command → Nat
  | [] => 0
  | c :: cs => c.weight + weights cs

end

def Ticket.weight (t : Ticket) : Nat :=
  match t.waiter with
  | .callback _ andThen => weights andThen + 1
  | .future _ => 1

def Task.weight : Task → Nat
  | .command c => c.weight
  | .wake t _ _ => t.weight
  | .announce _ _ => 2
  | _ => 1

def agendaWeight : List Task → Nat
  | [] => 0
  | t :: ts => t.weight + agendaWeight ts

def waitersWeight : List (String × Ticket) → Nat
  | [] => 0
  | w :: ws => w.2.weight + waitersWeight ws

def Host.weight (h : Host) : Nat :=
  3 * h.loader.queue.length + waitersWeight h.loader.parked

@[simp] theorem agendaWeight_nil : agendaWeight [] = 0 := rfl

@[simp] theorem agendaWeight_cons (t : Task) (ts : List Task) :
    agendaWeight (t :: ts) = t.weight + agendaWeight ts := rfl

@[simp] theorem agendaWeight_append (ts us : List Task) :
    agendaWeight (ts ++ us) = agendaWeight ts + agendaWeight us := by
  induction ts with
  | nil => simp
  | cons t ts ih => simp [ih, Nat.add_assoc]

theorem agendaWeight_commands (cs : List Command) :
    agendaWeight (cs.map .command) = weights cs := by
  induction cs with
  | nil => rfl
  | cons c cs ih => simp [weights, ih, Task.weight]

theorem agendaWeight_wakes (ws : List Ticket) (file : String) (p : SplitPayload) :
    agendaWeight (ws.map (.wake · file p)) = waitersWeight (ws.map (file, ·)) := by
  induction ws with
  | nil => rfl
  | cons w ws ih => simp [waitersWeight, ih, Task.weight]

theorem waitersWeight_perm {ws vs : List (String × Ticket)} (h : ws.Perm vs) :
    waitersWeight ws = waitersWeight vs := by
  induction h with
  | nil => rfl
  | cons w h ih => rw [waitersWeight, waitersWeight, ih]
  | swap w v ws =>
    simp only [waitersWeight]
    omega
  | trans h h' ih ih' => exact ih.trans ih'

@[simp] theorem waitersWeight_append (ws vs : List (String × Ticket)) :
    waitersWeight (ws ++ vs) = waitersWeight ws + waitersWeight vs := by
  induction ws with
  | nil => simp [waitersWeight]
  | cons w ws ih => simp [waitersWeight, ih, Nat.add_assoc]

/-- Somebody new to wait and at most one new request. -/
theorem weight_ask (file : String) (waiter : HostWaiter) (h : Host) :
    agendaWeight (h.ask file waiter).1 + (h.ask file waiter).2.weight ≤
      h.weight + (Ticket.weight ⟨h.issued, waiter⟩ + 3) := by
  simp only [Host.ask]
  cases hp : h.loader.payload? file with
  | some p =>
    rw [ensure_loaded hp]
    simp only [agendaWeight_cons, agendaWeight_nil, Task.weight, Host.weight, Host.note]
    omega
  | none =>
    have perm := waitersWeight_perm (parked_ensure hp ⟨h.issued, waiter⟩)
    have queue := length_queue_ensure h.loader file ⟨h.issued, waiter⟩
    have fst := (ensure_fst h.loader file ⟨h.issued, waiter⟩).trans hp
    split
    · simp_all
    · simp only [waitersWeight_append] at perm
      simp only [agendaWeight_nil, Host.weight, Host.note, Host.answer, perm]
      simp [waitersWeight]
      omega

/-- Those who waited stand on the agenda afterwards. -/
theorem weight_announce (file : String) (p : SplitPayload) (h : Host) :
    agendaWeight (h.announce file p).1 + (h.announce file p).2.weight ≤ h.weight + 1 := by
  have perm := waitersWeight_perm (parked_announce h.loader file p)
  simp only [waitersWeight_append] at perm
  simp only [Host.announce]
  split
  · simp only [agendaWeight_nil, Host.weight, Host.note, Host.answer, queue_announce]
    omega
  · simp only [agendaWeight_append, agendaWeight_wakes, agendaWeight_cons, agendaWeight_nil,
      Task.weight, Host.weight, Host.note, queue_announce]
    omega

theorem weight_pop (h : Host) :
    h.pop.2.weight + 3 * h.pop.1.toList.length = h.weight := by
  simp only [Host.pop, Loader.pop]
  cases hq : h.loader.queue with
  | nil => simp [Host.weight, Host.note, hq]
  | cons file rest =>
    simp [Host.weight, Host.note, parked, hq]
    omega

theorem weight_perform (c : Command) (h : Host) :
    agendaWeight (h.perform c).1 + (h.perform c).2.weight < c.weight + h.weight := by
  cases c with
  | ensure file label andThen =>
    have := weight_ask file (.callback label andThen) h
    simp only [Ticket.weight] at this
    simp only [Host.perform, Command.weight]
    omega
  | future file label =>
    have := weight_ask file (.future h.futures.length) (h.promise label)
    have same : (h.promise label).weight = h.weight := rfl
    simp only [Ticket.weight, same] at this
    simp only [Host.perform, Command.weight]
    omega
  | announce file payload =>
    simp only [Host.perform, Command.weight]
    cases SplitPayload.read payload with
    | error e => simp [Host.weight, Host.answer]
    | ok p => simp [Task.weight]
  | state file => simp [Host.perform, Command.weight, Host.weight, Host.answer]
  | pop =>
    have := weight_pop h
    simp only [Host.perform, Command.weight, Host.weight, Host.answer, agendaWeight_nil] at this ⊢
    omega
  | serve dir => simp [Host.perform, Command.weight, Task.weight]
  | poll label =>
    have : (h.poll label).weight = h.weight := by
      simp only [Host.poll]
      split
      · rfl
      · split <;> rfl
    simp [Host.perform, Command.weight, this]

theorem weight_serve (dir : List (String × String)) (served : Nat) (h : Host) :
    agendaWeight (h.serve dir served).1 + (h.serve dir served).2.weight < 1 + h.weight := by
  have popped := weight_pop h
  simp only [Host.serve]
  split
  · rename_i h' eq
    rw [eq] at popped
    simp only [agendaWeight_nil, Host.weight, Host.answer] at popped ⊢
    omega
  · rename_i file h' eq
    rw [eq] at popped
    simp only [Option.toList_some, List.length_singleton] at popped
    have answered : ∀ e, (h'.answer (.failed e)).weight = h'.weight := fun _ => rfl
    split
    · simp only [agendaWeight_nil, answered]
      omega
    · split
      · simp only [agendaWeight_nil, answered]
        omega
      · simp only [agendaWeight_cons, agendaWeight_nil, Task.weight]
        omega

/-- Every task leaves less to do than there was before it. -/
theorem weight_act (t : Task) (h : Host) :
    agendaWeight (h.act t).1 + (h.act t).2.weight < t.weight + h.weight := by
  cases t with
  | command c => exact weight_perform c h
  | wake t file p =>
    obtain ⟨number, waiter⟩ := t
    cases waiter with
    | callback label andThen =>
      simp only [Host.act, Host.wake, agendaWeight_commands, Task.weight, Ticket.weight,
        Host.weight, Host.note]
      omega
    | future n => simp [Host.act, Host.wake, Task.weight, Ticket.weight, Host.weight, Host.note]
  | announce file p =>
    have := weight_announce file p h
    simp only [Host.act, Task.weight]
    omega
  | giveBack number => simp [Host.act, Task.weight, Host.weight, Host.note, Host.answer]
  | finish file => simp [Host.act, Task.weight, Host.weight, Host.note, Host.answer]
  | serve dir served => exact weight_serve dir served h

def Host.run (agenda : List Task) (h : Host) : Host :=
  match agenda with
  | [] => h
  | t :: rest => Host.run ((h.act t).1 ++ rest) (h.act t).2
termination_by agendaWeight agenda + h.weight
decreasing_by
  have := weight_act t h
  simp only [agendaWeight_append, agendaWeight_cons]
  omega

/-- The command with all that follows from it. -/
def Host.obey (h : Host) (c : Command) : Host :=
  h.run [.command c]

def Happening.fired? : Happening → Option (String × Delivery)
  | .ran ⟨_, .callback label _⟩ _ p => some (label, .of p)
  | _ => none

/-- The callbacks that have run since the history was `seen` long, in turn. -/
def Host.firedSince (h : Host) (seen : Nat) : List (String × Delivery) :=
  (h.history.drop seen).filterMap Happening.fired?

end RunReport.Loader
