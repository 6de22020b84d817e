import RunReport.Proofs.Granting
import RunReport.Proofs.Resting
/-!
# After the report is dropped

Dropping the report settles every future that still waits, and lets go of everybody who waits. From
then on nothing is announced, so that no file comes for those who begin to wait afterwards, and a
future keeps what it has.
-/

namespace RunReport

namespace Loader

variable {W : Type}

theorem parked_abandon (l : Loader W) : l.abandon.parked = [] := by
  simp only [abandon, parked, List.flatMap_eq_nil_iff, List.mem_filter]
  rintro ⟨file, state⟩ ⟨-, loaded⟩
  cases state with
  | pending ws => simp [isPending] at loaded
  | loaded p => rfl

theorem pendingFiles_abandon (l : Loader W) : l.abandon.pendingFiles = [] := by
  have none : (l.abandon.files.filter fun f => isPending f.2) = [] := by
    simp only [abandon, List.filter_filter, List.filter_eq_nil_iff]
    intro f _
    simp
  simp [pendingFiles, none]

end Loader

namespace Source

variable {src lib : Source}

/-- The files that something needs. -/
def needs (lib : Source) : Wanted → List String
  | .chain path =>
    match lib.node? .root with
    | .ok (some p) => lib.filesOn (parsePath path) p
    | _ => []
  | .content file => [file]

/-- Something has been given exactly when all the files it needs are there. -/
theorem settled?_isSome {w : Wanted} (offers : src.Offers w) (within : src.Within lib) :
    (src.settled? w).isSome ↔ ∀ file ∈ lib.needs w, ∃ payload, src.files file = some payload := by
  cases w with
  | content file => simp [settled?, needs, Option.isSome_iff_exists]
  | chain path =>
    obtain ⟨p, hp⟩ := offers
    have ended : (∃ result, src.walk (parsePath path) [.root] .root p = .done result) ↔ _ :=
      walk_done_iff within (node?_has hp)
    simp only [settled?, needs, resolution, hp, within.node? hp]
    rw [← ended]
    cases src.walk (parsePath path) [.root] .root p <;> simp [Walk.result?]

end Source

namespace Session

open Effects

variable {s s' : Session}

/-! ## Dropping -/

/-- Futures that are abandoned keep what they have. -/
theorem abandon_futures (ns : List Nat) (s : Session) :
    ∃ futures, ns.foldl abandonFuture s = { s with futures } ∧
      ∀ n : Nat, futures[n]? = s.futures[n]?.map fun f =>
        if n ∈ ns then settleFuture (.error (.loadAbandoned f.name)) f else f := by
  induction ns generalizing s with
  | nil => exact ⟨s.futures, rfl, fun n => by simp⟩
  | cons m ns ih =>
    obtain ⟨futures, eq, each⟩ := ih (abandonFuture s m)
    refine ⟨futures, eq, fun n => ?_⟩
    rw [each n]
    simp only [abandonFuture, List.getElem?_modify, List.mem_cons]
    cases s.futures[n]? with
    | none => rfl
    | some f =>
      by_cases same : m = n
      · subst same
        by_cases later : m ∈ ns <;> simp [later, settleFuture]
      · simp [same, Ne.symm same]

theorem close_eq (s : Session) : ∃ futures,
    close s = { s with futures, loader := s.loader.abandon, isOpen := false } ∧
      ∀ n : Nat, futures[n]? = s.futures[n]?.map fun f =>
        if n ∈ s.loader.waiters.filterMap awaitedFuture? then
          settleFuture (.error (.loadAbandoned f.name)) f
        else f := by
  obtain ⟨futures, eq, each⟩ := abandon_futures (s.loader.waiters.filterMap awaitedFuture?) s
  exact ⟨futures, by rw [close, eq], each⟩

theorem close_frame (s : Session) :
    (close s).isOpen = false ∧ (close s).loader = s.loader.abandon ∧
      (close s).labels = s.labels ∧ (close s).fired = s.fired ∧
      ∀ n : Nat, (close s).futures[n]? = s.futures[n]?.map fun f =>
        if n ∈ s.loader.waiters.filterMap awaitedFuture? then
          settleFuture (.error (.loadAbandoned f.name)) f
        else f := by
  obtain ⟨futures, closed, each⟩ := close_eq s
  rw [closed]
  exact ⟨rfl, rfl, rfl, rfl, each⟩

theorem mem_awaited {l : Loader Waiter} {n : Nat} :
    n ∈ l.waiters.filterMap awaitedFuture? ↔ ∃ x ∈ l.parked, awaitedFuture? x.2 = some n := by
  simp [Loader.waiters_eq_parked]

/-- A future that is owed something is settled when the report is dropped. -/
theorem Owes.close {n : Nat} {w : Wanted} (h : s.Owes n w) : (close s).futures[n]? =
    some ⟨w.name, some ((s.source.settled? w).getD (.error (.loadAbandoned w.name)))⟩ := by
  obtain ⟨-, -, -, -, each⟩ := close_frame s
  have awaited : n ∈ s.loader.waiters.filterMap awaitedFuture? ↔ s.source.settled? w = none := by
    rw [mem_awaited, ← Option.not_isSome_iff_eq_none, ← Source.awaiting?_isNone,
      ← ne_eq, Option.ne_none_iff_exists']
    constructor
    · rintro ⟨x, mem, awaited⟩
      exact ⟨x, (h.awaited x).1 ⟨mem, awaited⟩⟩
    · rintro ⟨x, hx⟩
      obtain ⟨mem, awaited⟩ := (h.awaited x).2 hx
      exact ⟨x, mem, awaited⟩
  rw [each n, h.future, Option.map_some, Option.some_inj]
  cases settled : s.source.settled? w with
  | none => rw [if_pos (awaited.2 settled)]; rfl
  | some r =>
    rw [if_neg fun mem => by rw [awaited.1 mem] at settled; cases settled]
    rfl

/-! ## Steps on a closed session -/

/-- Whether a step begins to wait for the children of a node under a label. -/
def Step.Begins (st : Step) (label : String) : Prop :=
  ∃ target, st = .node target (.whenReady label)

/-- What a step does to a session that is closed: it may begin to wait, or call who asks, and it may
forget the label that is polled. -/
structure Lingers (s s' : Session) (st : Step) (events : List Event) : Prop where
  closed : s'.isOpen = false
  futures : s'.futures = s.futures
  labels : ∀ label, s'.labels.lookup label = s.labels.lookup label ∨
    st = .poll label ∧ s'.labels.lookup label = none
  parked : ∀ x ∈ s'.loader.parked, x ∈ s.loader.parked ∨
    ∃ r label, st.Begins label ∧ x.2 = .children r (.notify label)
  events : events = [] ∨ ∃ label id sight, st.Begins label ∧ events = [.ready label id sight]

/-- A session that was only read. -/
structure Stays (s s' : Session) : Prop where
  loader : s'.loader = s.loader
  futures : s'.futures = s.futures
  labels : s'.labels = s.labels
  fired : s'.fired = s.fired

instance : Idle Stays where
  refl _ := ⟨rfl, rfl, rfl, rfl⟩
  trans h h' := ⟨h'.loader.trans h.loader, h'.futures.trans h.futures, h'.labels.trans h.labels,
    h'.fired.trans h.fired⟩
  table s ref t := by
    obtain ⟨strings, splitStrings, eq⟩ := setTable_frame (s := s) ref t
    rw [eq]
    exact ⟨rfl, rfl, rfl, rfl⟩
  text _ _ _ _ := ⟨rfl, rfl, rfl, rfl⟩
  list _ _ _ _ _ := ⟨rfl, rfl, rfl, rfl⟩

theorem Stays.lingers (h : s.Stays s') (closed : s'.isOpen = false) (silent : s.fired = [])
    (st : Step) : s.Lingers s' st s'.fired where
  closed := closed
  futures := h.futures
  labels _ := .inl (by rw [h.labels])
  parked x hx := .inl (h.loader ▸ hx)
  events := .inl (h.fired.trans silent)

theorem poll_lingers (closed : s.isOpen = false) (silent : s.fired = []) (label : String) :
    s.Lingers ((pollAnswer label).run s).2 (.poll label) ((pollAnswer label).run s).2.fired := by
  have same : s.Lingers s (.poll label) s.fired :=
    (Course.refl s : s.Stays s).lingers closed silent _
  simp only [pollAnswer, state_bind, StateT.run_get, pure]
  cases s.labels.lookup label with
  | none => exact same
  | some n =>
    simp only
    cases s.futures[n]?.bind (·.settled) with
    | none => exact same
    | some r =>
      refine ⟨closed, rfl, fun other => ?_, fun x hx => .inl hx, .inl silent⟩
      change (s.labels.filter (·.1 != label)).lookup other = _ ∨
        _ ∧ (s.labels.filter (·.1 != label)).lookup other = none
      rw [lookup_filter_ne]
      by_cases here : other = label
      · exact .inr ⟨by rw [here], if_pos here⟩
      · exact .inl (if_neg here)

theorem whenReady_lingers (closed : s.isOpen = false) (silent : s.fired = []) (id : NodeId)
    (target : Target) (label : String) :
    s.Lingers ((whenReady id (.notify label)).run s).2 (.node target (.whenReady label))
      ((whenReady id (.notify label)).run s).2.fired := by
  have plain : ∀ step rest met sink, Continuation.notify label ≠ .resolve step rest met sink := by
    simp
  obtain ⟨ready, t, fired, asked, run, events⟩ := whenReady_asked s id plain
  have begins : (Step.node target (.whenReady label)).Begins label := ⟨target, rfl⟩
  rw [run]
  have calls : t.fired = [] → (fired = [] ∨ ∃ label' id' sight,
      (Step.node target (.whenReady label)).Begins label' ∧ fired = [.ready label' id' sight]) := by
    intro idle
    rcases events with same | ⟨label', same, rfl⟩
    · exact .inl (same.trans idle)
    · cases same
      exact .inr ⟨label, _, _, begins, by rw [idle]; rfl⟩
  cases asked with
  | found => exact ⟨closed, rfl, fun _ => .inl rfl, fun x hx => .inl hx, calls silent⟩
  | installed => exact ⟨closed, rfl, fun _ => .inl rfl, fun x hx => .inl hx, calls silent⟩
  | waits missing =>
    refine ⟨closed, rfl, fun _ => .inl rfl, fun x hx => ?_, calls silent⟩
    have hx : x ∈ (s.loader.ensure _ _).2.parked := hx
    rw [(Loader.parked_ensure missing _).mem_iff, List.mem_append, List.mem_singleton] at hx
    rcases hx with old | rfl
    · exact .inl old
    · exact .inr ⟨_, label, begins, rfl⟩

/-- Dropping the report again changes nothing for the futures. -/
theorem close_lingers (silent : s.fired = [])
    (free : ∀ x ∈ s.loader.parked, awaitedFuture? x.2 = none) :
    s.Lingers (close s) (.report .drop) (close s).fired := by
  obtain ⟨closed, loader, labels, fired, each⟩ := close_frame s
  refine ⟨closed, List.ext_getElem? fun n => ?_, fun _ => .inl (by rw [labels]), ?_,
    .inl (fired.trans silent)⟩
  · have nobody : n ∉ s.loader.waiters.filterMap awaitedFuture? := by
      rw [mem_awaited]
      rintro ⟨x, hx, awaited⟩
      rw [free x hx] at awaited
      cases awaited
    rw [each n]
    cases s.futures[n]? with
    | none => rfl
    | some f => simp [nobody]
  · intro x hx
    rw [loader, Loader.parked_abandon] at hx
    cases hx

theorem stepAnswer_lingers (closed : s.isOpen = false) (silent : s.fired = [])
    (free : ∀ x ∈ s.loader.parked, awaitedFuture? x.2 = none) (files : Files) (st : Step) :
    s.Lingers ((stepAnswer files st).run s).2 st ((stepAnswer files st).run s).2.fired := by
  have same : ∀ st, s.Lingers s st s.fired := fun st =>
    (Course.refl s : s.Stays s).lingers closed silent st
  cases st with
  | poll label => exact poll_lingers closed silent label
  | report step =>
    by_cases drop : step = .drop
    · subst drop
      exact close_lingers silent free
    · have needs : step.needsReport = true := by
        cases step <;> first | rfl | exact absurd rfl drop
      have run : (stepAnswer files (.report step)).run s = (.dropped, s) := by
        simp only [stepAnswer, state_bind, StateT.run_get, pure, needs, closed]
        rfl
      rw [run]
      exact same _
  | node target step =>
    cases ht : s.target? target with
    | none =>
      have run : (stepAnswer files (.node target step)).run s = (.notLoaded, s) := by
        simp only [stepAnswer, state_bind, StateT.run_get, pure, ht]
        rfl
      rw [run]
      exact same _
    | some id =>
      rw [stepAnswer_node ht, answer_run]
      cases reads : step.reads with
      | true =>
        obtain ⟨closed', stays⟩ := rests_nodeAnswer (R := Stays) files id reads s closed
        exact stays.lingers closed' silent _
      | false =>
        cases step with
        | whenReady label => exact whenReady_lingers closed silent id target label
        | hold name =>
          exact ⟨closed, rfl, fun _ => .inl rfl, fun x hx => .inl hx, .inl silent⟩
        | _ => cases reads

theorem step_lingers (closed : s.isOpen = false)
    (free : ∀ x ∈ s.loader.parked, awaitedFuture? x.2 = none) (files : Files) (st : Step) :
    s.Lingers ((step files st).run s).2 st ((step files st).run s).1.2 := by
  have lingers := stepAnswer_lingers (s := { s with fired := [] }) closed rfl free files st
  exact ⟨lingers.closed, lingers.futures, lingers.labels, lingers.parked, lingers.events⟩

/-! ## Runs on a closed session -/

/-- What a run does to a session that is closed. -/
structure Outlasts (s s' : Session) (run : List (Files × Step))
    (answers : List (Answer × List Event)) : Prop where
  closed : s'.isOpen = false
  futures : s'.futures = s.futures
  bound : ∀ label n, s'.labels.lookup label = some n → s.labels.lookup label = some n
  kept : ∀ label, (∀ m ∈ run, m.2 ≠ .poll label) →
    s'.labels.lookup label = s.labels.lookup label
  parked : ∀ x ∈ s'.loader.parked, x ∈ s.loader.parked ∨
    ∃ m ∈ run, ∃ r label, m.2.Begins label ∧ x.2 = .children r (.notify label)
  events : List.Forall₂ (fun m a => a.2 = [] ∨
    ∃ label id sight, m.2.Begins label ∧ a.2 = [.ready label id sight]) run answers

theorem play_outlasts (closed : s.isOpen = false)
    (free : ∀ x ∈ s.loader.parked, awaitedFuture? x.2 = none) (run : List (Files × Step)) :
    s.Outlasts ((play run).run s).2 run ((play run).run s).1 := by
  induction run generalizing s with
  | nil =>
    exact ⟨closed, rfl, fun _ _ h => h, fun _ _ => rfl, fun x hx => .inl hx, .nil⟩
  | cons m rest ih =>
    have first := step_lingers closed free m.1 m.2
    have free' : ∀ x ∈ ((step m.1 m.2).run s).2.loader.parked, awaitedFuture? x.2 = none := by
      intro x hx
      rcases first.parked x hx with old | ⟨r, label, -, eq⟩
      · exact free x old
      · rw [eq]
        rfl
    have later := ih first.closed free'
    refine ⟨later.closed, later.futures.trans first.futures, ?_, ?_, ?_, ?_⟩
    · intro label n bound
      rcases first.labels label with same | ⟨-, gone⟩
      · rw [← same]
        exact later.bound label n bound
      · rw [later.bound label n bound] at gone
        cases gone
    · intro label unpolled
      rcases first.labels label with same | ⟨polled, -⟩
      · exact (later.kept label fun m' hm => unpolled m' (by simp [hm])).trans same
      · exact absurd polled (unpolled m (by simp))
    · intro x hx
      rcases later.parked x hx with old | ⟨m', hm, r, label, begins, eq⟩
      · rcases first.parked x old with old | ⟨r, label, begins, eq⟩
        · exact .inl old
        · exact .inr ⟨m, by simp, r, label, begins, eq⟩
      · exact .inr ⟨m', by simp [hm], r, label, begins, eq⟩
    · exact .cons first.events later.events

/-! ## Labels -/

/-- Whether a step gives a label to a new future, or polls it. -/
def Step.Names (label : String) : Step → Prop
  | .report (.resolveFuture _ name) => name = label
  | .report (.fileFuture _ name) => name = label
  | .poll name => name = label
  | _ => False

/-- The label stands for the same future. -/
def Binds (label : String) (s s' : Session) : Prop :=
  s'.labels.lookup label = s.labels.lookup label

theorem binds_of_labels {label : String} (h : s'.labels = s.labels) : Binds label s s' := by
  rw [Binds, h]

theorem binds_resolvePath (h : s.Consistent) (label path name : String) :
    Binds label s ((resolvePath path (.callback name)).run s).2 := by
  by_cases root : (s.node? .root).isSome
  · obtain ⟨s', -, unfolds, -, run⟩ := resolvePath_run h root path (.callback name)
    have kept : Binds label s s' := binds_of_labels unfolds.labels
    cases hw : s.source.resolution path with
    | done result =>
      rw [hw] at run
      rw [run]
      exact kept
    | waits file node step rest met =>
      rw [hw] at run
      rw [run.2]
      exact kept
  · have run : (resolvePath path (.callback name)).run s =
        (deliver (.callback name) (.ok [])).run s := by
      simp only [resolvePath, state_bind, StateT.run_get, pure, root, Bool.and_false]
      rfl
    rw [run]
    exact binds_of_labels rfl

theorem binds_whenReady (label : String) (id : NodeId) {next : Continuation}
    (plain : ∀ step rest met sink, next ≠ .resolve step rest met sink) :
    Binds label s ((whenReady id next).run s).2 := by
  obtain ⟨ready, t, fired, asked, run, -⟩ := whenReady_asked s id plain
  rw [run]
  cases asked <;> exact binds_of_labels rfl

instance (label : String) : Habit (Binds label) where
  refl _ := rfl
  trans h h' := h'.trans h
  explores h := binds_of_labels h.labels
  silent _ _ := rfl
  load _ id := binds_whenReady label id (by simp)
  hold _ _ := rfl
  notify _ id _ := binds_whenReady label id (by simp)
  resolvePath h path name := binds_resolvePath h label path name
  announce {s} h file payload := by
    cases there : s.loader.payload? file with
    | some p =>
      rw [announce_run_loaded there]
      exact binds_of_labels rfl
    | none => exact binds_of_labels (announce_pays h there payload).labels

instance (label : String) : Taking (Binds label) where
  pop _ := rfl

theorem binds_promise (files : Files) {label : String} {st : Step} (promises : st.promises = true)
    (free : ¬st.Names label) : Follows (Binds label) (stepAnswer files st) := by
  cases st with
  | node target step => cases promises
  | poll name =>
    have kept : (Step.poll name).keepsReport = true := rfl
    refine (proceeds_stepAnswer files kept).follows fun s _ => ?_
    simp only [stepAnswer, pollAnswer, state_bind, StateT.run_get, pure]
    cases s.labels.lookup name with
    | none => exact binds_of_labels rfl
    | some n =>
      simp only
      cases s.futures[n]?.bind (·.settled) with
      | none => exact binds_of_labels rfl
      | some r =>
        have other : label ≠ name := fun same => free same.symm
        change (s.labels.filter (·.1 != name)).lookup label = _
        rw [lookup_filter_ne, if_neg other]
  | report step =>
    have kept : (Step.report step).keepsReport = true := by
      cases step <;> first | rfl | cases promises
    refine (proceeds_stepAnswer files kept).follows fun s h => ?_
    rw [stepAnswer_report h, answer_run]
    cases step with
    | resolveFuture path name =>
      obtain ⟨a, s', run, ⟨-, explores⟩ | ⟨-, grants⟩⟩ := resolveFuture_grants h files path name
      · rw [run]
        exact binds_of_labels explores.labels
      · rw [run]
        exact grants.others label fun same => free same.symm
    | fileFuture file name =>
      obtain ⟨s', run, grants⟩ := fileFuture_grants s files file name
      rw [run]
      exact grants.others label fun same => free same.symm
    | _ => cases promises

/-! ## Futures given out before -/

/-- A step that gives a future is done when it has. -/
theorem step_grants (h : s.Consistent) {files : Files} {label : String} {w : Wanted}
    {events : List Event} (given : (step files (w.step label)).run s = ((.done, events), s')) :
    ({ s with fired := [] } : Session).Grants s' label w := by
  cases w with
  | chain path =>
    obtain ⟨a, t, run, outcome⟩ := resolveFuture_grants h.silent files path label
    have answered := stepAnswer_report h.silent files (.resolveFuture path label)
    rcases outcome with ⟨⟨e, rfl⟩, -⟩ | ⟨rfl, grants⟩
    · rw [answer_run, run] at answered
      cases given.symm.trans (step_run answered)
    · rw [answer_run, run] at answered
      cases given.symm.trans (step_run answered)
      exact grants
  | content file =>
    obtain ⟨t, run, grants⟩ := fileFuture_grants { s with fired := [] } files file label
    have answered := stepAnswer_report h.silent files (.fileFuture file label)
    rw [answer_run, run] at answered
    cases given.symm.trans (step_run answered)
    exact grants

/-- What polling answers. -/
theorem poll_answer (files : Files) {label : String} {n : Nat} {f : Future}
    (bound : s.labels.lookup label = some n) (future : s.futures[n]? = some f) :
    ((step files (.poll label)).run s).1.1 =
      match f.settled with
      | some r => .settled r
      | none => .pending := by
  rw [step_answer]
  simp only [stepAnswer, pollAnswer, state_bind, StateT.run_get, pure, bound, future,
    Option.bind_some]
  cases f.settled <;> rfl

theorem poll_unbound (files : Files) {label : String} (unbound : s.labels.lookup label = none) :
    ((step files (.poll label)).run s).1.1 = .noFuture := by
  rw [step_answer]
  simp only [stepAnswer, pollAnswer, state_bind, StateT.run_get, pure, unbound]
  rfl

theorem drop_run (files : Files) (s : Session) :
    (step files (.report .drop)).run s = ((.done, []), close { s with fired := [] }) := by
  have fired := (close_frame { s with fired := [] }).2.2.2.1
  have run : (step files (.report .drop)).run s =
      ((.done, (close { s with fired := [] }).fired), close { s with fired := [] }) := rfl
  rw [run, fired]

/-- Once the report is dropped every label stands for a future that is settled. -/
theorem Promising.close (h : s.Promising) {name : String} {n : Nat}
    (bound : (close s).labels.lookup name = some n) :
    ∃ w r, (close s).futures[n]? = some ⟨w, some r⟩ := by
  obtain ⟨-, -, labels, -, -⟩ := close_frame s
  rw [labels] at bound
  obtain ⟨before, rest, split, -⟩ := List.lookup_eq_some_iff.1 bound
  obtain ⟨w, owes⟩ := h.owed n (h.labels (name, n) (by simp [split]))
  exact ⟨_, _, owes.close⟩

/-- Dropping the report settles every future. A future that was given out in any session, before any
run that ends with the report dropped, answers from then on, whenever it is polled: with the value
or the error it had, if all the files it needs had come, and otherwise that the load was abandoned,
with the name of what it was for. Those who waited are gone and are never called, no file stays
pending, and whoever waits later began to wait later. -/
theorem drop_settles_futures (h : s.Reachable) (w : Wanted) (label : String)
    (files files' : Files) {events : List Event}
    (given : (step files (w.step label)).run s = ((.done, events), s'))
    {before : List (Files × Step)} (kept : ∀ m ∈ before, m.2.keepsReport = true)
    (after : List (Files × Step)) :
    ∃ n answered s₂ s₃ answers s₄, s'.labels.lookup label = some n ∧
      (play before).run s' = (answered, s₂) ∧
      (step files' (.report .drop)).run s₂ = ((.done, []), s₃) ∧
      (play after).run s₃ = (answers, s₄) ∧
      s₂.futures[n]? = some ⟨w.name, s₂.source.settled? w⟩ ∧
      (∀ lib, s₂.source.Within lib → ((s₂.source.settled? w).isSome ↔
        ∀ file ∈ lib.needs w, ∃ payload, s₂.source.files file = some payload)) ∧
      (∀ name f, s₄.labels.lookup name = some n → ((step f (.poll name)).run s₄).1.1 =
        .settled ((s₂.source.settled? w).getD (.error (.loadAbandoned w.name)))) ∧
      ((∀ m ∈ before ++ after, ¬m.2.Names label) → s₄.labels.lookup label = some n) ∧
      (∀ name f, ((step f (.poll name)).run s₄).1.1 ≠ .pending) ∧
      s₃.loader.parked = [] ∧ s₃.loader.pendingFiles = [] ∧
      (∀ x ∈ s₄.loader.parked, ∃ m ∈ after, ∃ r name,
        m.2.Begins name ∧ x.2 = .children r (.notify name)) ∧
      List.Forall₂ (fun m a => a.2 = [] ∨
        ∃ name id sight, m.2.Begins name ∧ a.2 = [.ready name id sight]) after answers := by
  have silent : ∀ s : Session, s.Honours { s with fired := [] } := fun s => Habit.silent s []
  have grants := step_grants h.consistent given
  obtain ⟨promising, owes, -⟩ := grants.owes (silent s h.promising).1
  have here : s'.Consistent := by
    have kept : (w.step label).keepsReport = true := by cases w <;> rfl
    have stays : Says s.source (step files (w.step label)) _ := says_step files kept
    have proceeds := (stays.proceeds s h.consistent).1
    rw [given] at proceeds
    exact proceeds
  -- What was promised is kept up to the drop.
  obtain ⟨-, honours⟩ :=
    follows_play (R := Honours) kept (fun m _ => honours_promise m.1) s' here
  obtain ⟨promising, keeps⟩ := honours promising
  have owes := keeps _ w owes
  obtain ⟨answered, s₂, run₂⟩ : ∃ answered s₂, (play before).run s' = (answered, s₂) := ⟨_, _, rfl⟩
  have bound₂ : (∀ m ∈ before, ¬m.2.Names label) →
      s₂.labels.lookup label = some s.futures.length := by
    intro free
    have binds := (follows_play (R := Binds label) kept
      (fun m hm promises => binds_promise m.1 promises (free m hm)) s' here).2
    rw [run₂] at binds
    exact binds.trans grants.bound
  rw [run₂] at promising owes
  -- From the drop on nothing changes for the futures.
  obtain ⟨promising, keeps⟩ := silent s₂ promising
  have owes := keeps _ w owes
  obtain ⟨closed, loader, labels, -, -⟩ := close_frame { s₂ with fired := [] }
  have nobody : (close { s₂ with fired := [] }).loader.parked = [] := by
    rw [loader, Loader.parked_abandon]
  have outlasts := play_outlasts closed (by rw [nobody]; simp) after
  have settled : ∀ name n v r, ((play after).run (close { s₂ with fired := [] })).2.labels.lookup
      name = some n → (close { s₂ with fired := [] }).futures[n]? = some ⟨v, some r⟩ →
      ∀ f, ((step f (.poll name)).run
        ((play after).run (close { s₂ with fired := [] })).2).1.1 = .settled r := by
    intro name n v r bound future f
    rw [← outlasts.futures] at future
    exact poll_answer f bound future
  refine ⟨s.futures.length, answered, s₂, close { s₂ with fired := [] },
    ((play after).run (close { s₂ with fired := [] })).1,
    ((play after).run (close { s₂ with fired := [] })).2,
    grants.bound, run₂, drop_run files' s₂, rfl, owes.future,
    fun lib within => Source.settled?_isSome owes.offers within, ?_, ?_, ?_, nobody, ?_, ?_,
    outlasts.events⟩
  · intro name f bound
    exact settled name _ _ _ bound owes.close f
  · intro free
    rw [outlasts.kept label fun m hm polled => free m (by simp [hm]) (by rw [polled]; rfl), labels]
    exact bound₂ fun m hm => free m (by simp [hm])
  · intro name f pending
    cases bound : ((play after).run (close { s₂ with fired := [] })).2.labels.lookup name with
    | none =>
      rw [poll_unbound f bound] at pending
      cases pending
    | some n =>
      obtain ⟨v, r, future⟩ := promising.close (outlasts.bound name n bound)
      rw [settled name n v r bound future f] at pending
      cases pending
  · rw [loader, Loader.pendingFiles_abandon]
  · intro x hx
    rcases outlasts.parked x hx with old | later
    · rw [nobody] at old
      cases old
    · exact later

/-- The chain that a future has been given. -/
def given? : Option (Except Error FutureValue) → Option (List NodeId)
  | some (.ok (.chain ids)) => some ids
  | _ => none

theorem eq_of_given? {result : Option (Except Error FutureValue)} {ids : List NodeId}
    (h : given? result = some ids) : result = some (.ok (.chain ids)) := by
  match result with
  | some (.ok (.chain _)) => cases h; rfl
  | some (.ok (.keywords _)) | some (.error _) | none => cases h

/-- The file of the keyword comes. -/
def arrival : List (Files × Step) :=
  [(sampleFiles, .report (.announce "log-1.json" deepText))]

/-- Whether a future for the keyword in the file of the sample is given out, and gets it with the
file. -/
def sampleWaits (s : Session) : Bool :=
  match (step sampleFiles ((Wanted.chain "s1-k1-k1").step "deep")).run s with
  | ((.done, _), s') => (s'.source.settled? (.chain "s1-k1-k1")).isNone &&
      decide (given? (((play arrival).run s').2.source.settled? (.chain "s1-k1-k1")) =
        some deepChain)
  | _ => false

/-- A future for a keyword: the report is dropped before its file has come, or afterwards. -/
theorem drop_settles_futures_sample : ∃ s s' : Session, s.Reachable ∧ ∃ events,
    (step sampleFiles ((Wanted.chain "s1-k1-k1").step "deep")).run s = ((.done, events), s') ∧
    (∃ s₃ answers s₄, (step sampleFiles (.report .drop)).run s' = ((.done, []), s₃) ∧
      (play [(sampleFiles, .report .suite)]).run s₃ = (answers, s₄) ∧
      ((step sampleFiles (.poll "deep")).run s₄).1.1 =
        .settled (.error (.loadAbandoned "s1-k1-k1"))) ∧
    ∃ answered s₂ s₃ answers s₄, (play arrival).run s' = (answered, s₂) ∧
      (step sampleFiles (.report .drop)).run s₂ = ((.done, []), s₃) ∧
      (play [(sampleFiles, .report .suite)]).run s₃ = (answers, s₄) ∧
      ((step sampleFiles (.poll "deep")).run s₄).1.1 = .settled (.ok (.chain deepChain)) := by
  have opens : opensTo (fun s₀ => sampleWaits ((play sampleRun).run s₀).2) sampleReport = true := by
    decide +kernel
  obtain ⟨s₀, opened, checked⟩ := opensTo_iff.1 opens
  simp only [sampleWaits] at checked
  split at checked
  · rename_i events s' given
    obtain ⟨waits, gets⟩ := Bool.and_eq_true_iff.1 checked
    refine ⟨_, s', sample_reachable opened, events, given, ?_, ?_⟩
    · have between : ∀ m ∈ ([] : List (Files × Step)), m.2.keepsReport = true := by simp
      have late := Option.isNone_iff_eq_none.1 waits
      obtain ⟨n, answered, s₂, s₃, answers, s₄, -, run₂, dropped, run₄, -, -, polled, bound, -⟩ :=
        drop_settles_futures (sample_reachable opened) _ "deep" sampleFiles sampleFiles given
          between [(sampleFiles, .report .suite)]
      cases run₂
      refine ⟨s₃, answers, s₄, dropped, run₄, ?_⟩
      rw [polled "deep" sampleFiles (bound (by simp [Step.Names])), late]
      rfl
    · have between : ∀ m ∈ arrival, m.2.keepsReport = true := by simp [arrival, Step.keepsReport]
      have early := eq_of_given? (of_decide_eq_true gets)
      obtain ⟨n, answered, s₂, s₃, answers, s₄, -, run₂, dropped, run₄, -, -, polled, bound, -⟩ :=
        drop_settles_futures (sample_reachable opened) _ "deep" sampleFiles sampleFiles given
          between [(sampleFiles, .report .suite)]
      rw [run₂] at early
      refine ⟨answered, s₂, s₃, answers, s₄, run₂, dropped, run₄, ?_⟩
      rw [polled "deep" sampleFiles (bound (by simp [arrival, Step.Names])), early]
      rfl
  · cases checked

end Session

end RunReport
