import Mathlib.Data.List.Perm.Basic
import RunReport.Proofs.Fates
import RunReport.Proofs.Runs
/-!
# Resolutions in any order

Requests to resolve paths and announcements of files may come in any order. Every request is answered
once, in the step that brings the last file on its way, and with the answer it would have had if all
files had been there before.
-/

namespace RunReport.Session

open Effects

variable {s s' : Session}

/-! ## Who waits -/

/-- Whoever waits does so for a file that is not there. -/
theorem Consistent.parked_missing (h : s.Consistent) {x : String × Waiter}
    (hx : x ∈ s.loader.parked) : s.source.files x.1 = none := by
  obtain ⟨ws, hs, -⟩ := (Loader.mem_parked h.distinct).1 hx
  rw [source_files, Loader.payload?, hs]

theorem Consistent.parked_stands (h : s.Consistent) {x : String × Waiter}
    (hx : x ∈ s.loader.parked) : s.source.Stands (.parked x.1 x.2) := by
  obtain ⟨file, w⟩ := x
  cases w with
  | payload n => trivial
  | children node next =>
    obtain ⟨ws, hs, hw⟩ := (Loader.mem_parked h.distinct).1 hx
    obtain ⟨n, hn, hf⟩ := h.waiting file ws hs node next hw
    obtain ⟨p, hp, follows⟩ := h.follows node n hn
    exact ⟨p, hp, follows.splitFile.symm.trans hf⟩

theorem parked_outcome {l : Loader Waiter} {o : Outcome}
    (missing : ∀ file w, o = .waits file w → l.payload? file = none) :
    List.Perm (o.loader l).parked (l.parked ++ o.waiting?.toList) := by
  cases o with
  | ends events => simp [Outcome.loader, Outcome.waiting?]
  | waits file w => exact Loader.parked_ensure (missing file w rfl) w

theorem payload?_outcome (l : Loader Waiter) (o : Outcome) :
    (o.loader l).payload? = l.payload? := by
  cases o with
  | ends events => rfl
  | waits file w => exact Loader.payload?_ensure ..

theorem parked_foldl {l : Loader Waiter} {g : Waiter → Outcome} {ws : List Waiter}
    (missing : ∀ w ∈ ws, ∀ file w', g w = .waits file w' → l.payload? file = none) :
    List.Perm (ws.foldl (fun l w => (g w).loader l) l).parked
      (l.parked ++ ws.filterMap fun w => (g w).waiting?) := by
  induction ws generalizing l with
  | nil => simp
  | cons w ws ih =>
    have rest : ∀ w' ∈ ws, ∀ file w'', g w' = .waits file w'' →
        ((g w).loader l).payload? file = none := by
      intro w' hw'
      rw [payload?_outcome]
      exact missing w' (by simp [hw'])
    refine (ih rest).trans ?_
    refine ((parked_outcome (missing w (by simp))).append_right _).trans ?_
    rw [List.append_assoc, List.filterMap_cons]
    cases (g w).waiting? <;> exact .refl _

/-- Everybody who waits has the fate that the files give them. -/
theorem announce_fates (h : s.Consistent) (file : String) (payload : SplitPayload) :
    ∃ s', (announce file payload).run s = ((), s') ∧ s'.Consistent ∧ s.Extends s' ∧
      (∀ name, s'.source.files name =
        (s.source.files name).or (if name = file then some payload else none)) ∧
      List.Perm s'.loader.parked
        (s.loader.parked.filterMap fun x => (s'.source.fate (.parked x.1 x.2)).waiting?) ∧
      List.Perm s'.fired (s.fired ++
        s.loader.parked.flatMap fun x => (s'.source.fate (.parked x.1 x.2)).events) := by
  cases there : s.loader.payload? file with
  | some p =>
    obtain ⟨waiting, events⟩ := Source.still_waiting fun x hx => h.parked_missing hx
    refine ⟨s, announce_run_loaded there, h, .refl s, ?_, ?_, ?_⟩
    · intro name
      by_cases hn : name = file
      · rw [hn, source_files, there]
        rfl
      · rw [if_neg hn, Option.or_none]
    · rw [waiting]
    · rw [events, List.append_nil]
  | none =>
    obtain ⟨s', run, consistent, extension, source, loader, fired, missing⟩ :=
      announce_run h there payload
    have files : s'.source.files file = some payload := by
      rw [source, files_arrive there, if_pos rfl]
    have released := Source.fate_released files
    have parked := Loader.parked_announce s.loader file payload
    -- Those who wait for other files go on waiting.
    have absent : ∀ x ∈ (s.loader.announce file payload).2.parked, s'.source.files x.1 = none := by
      intro x hx
      rw [source]
      exact (h.arrive there payload).parked_missing hx
    obtain ⟨waiting, events⟩ := Source.still_waiting absent
    refine ⟨s', run, consistent, extension, ?_, ?_, ?_⟩
    · intro name
      rw [source, files_arrive there]
      by_cases hn : name = file
      · rw [if_pos hn, if_pos hn, hn, source_files, there]
        rfl
      · rw [if_neg hn, if_neg hn, Option.or_none]
    · refine .trans ?_ (parked.filterMap _)
      rw [loader, List.filterMap_append, waiting, List.filterMap_map]
      simp only [Function.comp_def, released]
      refine parked_foldl fun w hw name w' hw' => ?_
      have absent := missing w hw name w' hw'
      rw [source] at absent
      exact absent
    · rw [fired]
      refine List.Perm.append_left _ (.trans ?_ (parked.flatMap_right _))
      rw [List.flatMap_append, events, List.nil_append, List.flatMap_map]
      simp only [released]
      exact .refl _

/-- A request has the fate that the source gives it. -/
theorem resolvePath_goes (h : s.Consistent) (root : (s.node? .root).isSome) (path label : String) :
    s.Goes ((resolvePath path (.callback label)).run s).2 (s.source.fate (.request path label)) := by
  obtain ⟨n, hn⟩ := Option.isSome_iff_exists.1 root
  obtain ⟨p, hp, hf⟩ := h.follows .root n hn
  have goes := resolveFrom_goes h hn hf hp (.callback label) (parsePath path) [.root]
  have run : (resolvePath path (.callback label)).run s =
      (resolveFrom (.callback label) (parsePath path) [.root] .root).run s := by
    simp only [resolvePath, state_bind, StateT.run_get, pure, h.isOpen, root, Bool.true_and, if_true]
  rw [run]
  simp only [Source.fate, Source.resolution, hp]
  exact goes

/-! ## Moves -/

/-- A request or an announcement. -/
inductive Move where
  | request (path label : String)
  | announce (file text : String)

namespace Move

def step : Move → Step
  | .request path label => .report (.resolvePath path label)
  | .announce file text => .report (.announce file text)

def task? : Move → Option Task
  | .request path label => some (.request path label)
  | .announce _ _ => none

/-- The file that an announcement brings, if it can be read. -/
def brings : Move → String → Option SplitPayload
  | .request _ _, _ => none
  | .announce file text, name =>
    match SplitPayload.read text with
    | .ok payload => if name = file then some payload else none
    | .error _ => none

end Move

/-- The session is where these tasks have led it. -/
structure Tracks (s : Session) (ts : List Task) : Prop where
  consistent : s.Consistent
  root : (s.node? .root).isSome
  stand : ∀ t ∈ ts, s.source.Stands t
  parked : s.loader.parked.Perm (s.source.pending ts)

theorem Consistent.tracks (h : s.Consistent) (root : (s.node? .root).isSome) :
    s.Tracks (s.loader.parked.map fun x => .parked x.1 x.2) where
  consistent := h
  root := root
  stand := by
    intro t ht
    obtain ⟨x, hx, rfl⟩ := List.mem_map.1 ht
    exact h.parked_stands hx
  parked := by
    obtain ⟨waiting, -⟩ := Source.still_waiting fun x hx => h.parked_missing hx
    rw [Source.pending, List.filterMap_map]
    exact .of_eq waiting.symm

/-- One step: those whose last file has come are answered, a request joins the others, and whoever
is left waits. -/
structure Advances (s s' : Session) (m : Move) (ts : List Task) (events : List Event) : Prop where
  tracks : s'.Tracks (ts ++ m.task?.toList)
  within : s.source.Within s'.source
  files : ∀ name, s'.source.files name = (s.source.files name).or (m.brings name)
  events : events.Perm (ts.flatMap (s.source.due s'.source) ++
    m.task?.toList.flatMap fun t => (s'.source.fate t).events)

theorem request_run (h : s.Consistent) (root : (s.node? .root).isSome) (path label : String)
    (files : Files) :
    ∃ s', (stepAnswer files (.report (.resolvePath path label))).run s = (.done, s') ∧
      s.Goes s' (s.source.fate (.request path label)) := by
  refine ⟨_, ?_, resolvePath_goes h root path label⟩
  rw [stepAnswer_report h, answer_run]
  rfl

theorem request_advances {ts : List Task} (h : s.Tracks ts) (silent : s.fired = [])
    (path label : String) (files : Files) :
    ∃ s', (stepAnswer files (.report (.resolvePath path label))).run s = (.done, s') ∧
      s.Advances s' (.request path label) ts s'.fired := by
  obtain ⟨s', run, goes⟩ := request_run h.consistent h.root path label files
  have stands : s.source.Stands (.request path label) := by
    obtain ⟨n, hn⟩ := Option.isSome_iff_exists.1 h.root
    obtain ⟨p, hp, -⟩ := h.consistent.follows .root n hn
    exact ⟨p, hp⟩
  refine ⟨s', run, ⟨goes.consistent, goes.extension.isSome h.root, ?_, ?_⟩,
    goes.extension.source, ?_, ?_⟩
  · rw [goes.source]
    intro t ht
    rcases List.mem_append.1 ht with ht | ht
    · exact h.stand t ht
    · cases List.mem_singleton.1 ht
      exact stands
  · rw [goes.source, goes.loader, Source.pending_append, Move.task?, Option.toList_some,
      Source.pending_cons]
    refine (parked_outcome fun file w hw => goes.missing file w hw).trans ?_
    exact (h.parked.append_right _).trans (.of_eq (by simp [Source.pending]))
  · intro name
    rw [goes.source, Move.brings, Option.or_none]
  · rw [goes.fired, silent, goes.source, Source.flatMap_due_self]
    simp [Move.task?]

theorem announce_advances {ts : List Task} (h : s.Tracks ts) (silent : s.fired = [])
    (file text : String) (files : Files) :
    ∃ a s', (stepAnswer files (.report (.announce file text))).run s = (a, s') ∧
      s.Advances s' (.announce file text) ts s'.fired := by
  rw [stepAnswer_report h.consistent, answer_run]
  cases hread : SplitPayload.read text with
  | error e =>
    have run : (reportAnswer files (.announce file text)).run s = (.error e, s) := by
      simp only [reportAnswer, run_bind, run_except, hread]
    rw [run]
    refine ⟨_, s, rfl, ⟨?_, .refl _, ?_, ?_⟩⟩
    · simpa [Move.task?] using h
    · simp [Move.brings, hread]
    · rw [silent, Source.flatMap_due_self]
      exact .refl _
  | ok payload =>
    obtain ⟨s', announced, consistent, extension, arrived, parked, fired⟩ :=
      announce_fates h.consistent file payload
    have run : (reportAnswer files (.announce file text)).run s = (.ok .done, s') := by
      simp only [reportAnswer, run_bind, run_except, hread, run_state, announced]
      rfl
    rw [run]
    have within := extension.source
    refine ⟨_, s', rfl, ⟨⟨consistent, extension.isSome h.root, ?_, ?_⟩, within, ?_, ?_⟩⟩
    · intro t ht
      simp only [Move.task?, Option.toList_none, List.append_nil] at ht
      exact (h.stand t ht).within within
    · rw [Move.task?, Option.toList_none, List.append_nil, ← Source.pending_within within h.stand]
      exact parked.trans (h.parked.filterMap _)
    · simpa only [Move.brings, hread] using arrived
    · rw [silent, List.nil_append] at fired
      refine fired.trans ((h.parked.flatMap_right _).trans ?_)
      rw [Source.flatMap_pending within h.stand]
      simp [Move.task?]

theorem Tracks.silent {ts : List Task} (h : s.Tracks ts) :
    ({ s with fired := [] } : Session).Tracks ts :=
  ⟨h.consistent.silent, h.root, h.stand, h.parked⟩

theorem step_run {files : Files} {st : Step} {a : Answer}
    (h : (stepAnswer files st).run { s with fired := [] } = (a, s')) :
    (step files st).run s = ((a, s'.fired), s') := by
  simp only [step, state_bind, h, show (modify (fun s : Session => { s with fired := [] }) :
    StateM Session PUnit).run s = (⟨⟩, { s with fired := [] }) from rfl]
  rfl

/-- What one move does. -/
theorem move_advances {ts : List Task} (h : s.Tracks ts) (files : Files) (m : Move) :
    ∃ a s', (step files m.step).run s = ((a, s'.fired), s') ∧ s.Advances s' m ts s'.fired := by
  cases m with
  | request path label =>
    obtain ⟨s', hrun, advances⟩ := request_advances h.silent rfl path label files
    exact ⟨_, s', step_run hrun, ⟨advances.tracks, advances.within, advances.files, advances.events⟩⟩
  | announce file text =>
    obtain ⟨a, s', hrun, advances⟩ := announce_advances h.silent rfl file text files
    exact ⟨a, s', step_run hrun, ⟨advances.tracks, advances.within, advances.files, advances.events⟩⟩

/-- Moves one after the other. -/
def moves (files : Files) (ms : List Move) : StateM Session (List (Answer × List Event)) :=
  play (ms.map fun m => (files, m.step))

theorem moves_cons (files : Files) (m : Move) (ms : List Move) {a : Answer} {events : List Event}
    (h : (step files m.step).run s = ((a, events), s')) :
    (moves files (m :: ms)).run s =
      ((a, events) :: ((moves files ms).run s').1, ((moves files ms).run s').2) := by
  simp only [moves, List.map_cons, play, state_bind, h]
  rfl

/-- What was answered when files came is what the tasks gained. -/
theorem answered_gained {src src' : Source} (within : src.Within src') {ts new : List Task}
    (stand : ∀ t ∈ ts, src.Stands t) {events : List Event}
    (answered : events.Perm (ts.flatMap (src.due src') ++
      new.flatMap fun t => (src'.fate t).events)) :
    (events ++ ts.flatMap fun t => (src.fate t).events).Perm
      ((ts ++ new).flatMap fun t => (src'.fate t).events) := by
  have gained : (ts.flatMap fun t => (src'.fate t).events).Perm
      ((ts.flatMap fun t => (src.fate t).events) ++ ts.flatMap (src.due src')) := by
    refine .trans (.of_eq ?_) (List.flatMap_append_perm ts _ _).symm
    exact List.flatMap_congr fun t ht => Source.events_fate within (stand t ht)
  rw [List.flatMap_append]
  refine (answered.append_right _).trans (List.perm_append_comm.trans ?_)
  rw [← List.append_assoc]
  exact gained.symm.append_right _

/-- What a run of moves does: in the end everybody is where the files lead them, and the callbacks
that ran are those of the tasks that have ended. -/
theorem moves_track {ts : List Task} (h : s.Tracks ts) (files : Files) (ms : List Move) :
    ((moves files ms).run s).2.Tracks (ts ++ ms.filterMap Move.task?) ∧
    s.source.Within ((moves files ms).run s).2.source ∧
    (((moves files ms).run s).1.flatMap (·.2) ++ ts.flatMap fun t => (s.source.fate t).events).Perm
      ((ts ++ ms.filterMap Move.task?).flatMap
        fun t => (((moves files ms).run s).2.source.fate t).events) := by
  induction ms generalizing s ts with
  | nil =>
    have run : (moves files []).run s = ([], s) := rfl
    rw [run]
    refine ⟨?_, .refl _, ?_⟩
    · simpa using h
    · exact .of_eq (by simp)
  | cons m ms ih =>
    obtain ⟨a, s₁, run, advances⟩ := move_advances h files m
    obtain ⟨tracks, within, events⟩ := ih advances.tracks
    have tasks : ts ++ (m :: ms).filterMap Move.task? =
        ts ++ m.task?.toList ++ ms.filterMap Move.task? := by
      rw [List.filterMap_cons, List.append_assoc]
      cases m.task? <;> rfl
    rw [moves_cons files m ms run, tasks]
    refine ⟨tracks, advances.within.trans within, .trans ?_ events⟩
    rw [List.flatMap_cons, List.append_assoc]
    refine (List.perm_append_comm_assoc ..).trans ?_
    exact (answered_gained advances.within h.stand advances.events).append_left _

/-! ## Confluence -/

/-- With all its files there a request is answered at once. -/
theorem request_answered (h : s.Consistent) (root : (s.node? .root).isSome) {path : String}
    {result : Except Error (List NodeId)} (done : s.source.resolution path = .done result)
    (label : String) (files : Files) :
    ∃ s', (step files (.report (.resolvePath path label))).run s =
      ((.done, [.resolved label result]), s') := by
  obtain ⟨s', run, goes⟩ := request_run h.silent root path label files
  have fired : s'.fired = [.resolved label result] := by
    have source : ({ s with fired := [] } : Session).source = s.source := rfl
    rw [goes.fired, source, Source.fate, done]
    rfl
  exact ⟨s', by rw [step_run run, fired]⟩

/-- A walk from the root ends exactly when the files on its way are there, and then it ends in the
same way with more files. -/
theorem resolution_done (h : s.Consistent) (root : (s.node? .root).isSome) (path : String)
    {lib : Source} (within : s.source.Within lib) :
    (∀ p, lib.node? .root = .ok (some p) →
      ((∃ result, s.source.resolution path = .done result) ↔
        ∀ file ∈ lib.filesOn (parsePath path) p, ∃ payload, s.source.files file = some payload)) ∧
    (∀ result, s.source.resolution path = .done result → lib.resolution path = .done result) := by
  obtain ⟨n, hn⟩ := Option.isSome_iff_exists.1 root
  obtain ⟨q, hq, -⟩ := h.follows .root n hn
  constructor
  · intro p hp
    cases (within.node? hq).symm.trans hp
    simp only [Source.resolution, hq]
    exact Source.walk_done_iff within (Source.node?_has hq)
  · intro result done
    simp only [Source.resolution, hq, within.node? hq] at done ⊢
    exact within.walk_done (Source.node?_has hq) done

/-- Those who waited before, and the requests made since. -/
def tasks (s : Session) (ms : List Move) : List Task :=
  s.loader.parked.map (fun x => .parked x.1 x.2) ++ ms.filterMap Move.task?

/-- Requests and announcements in any order, from any session whose root has been made. In each step
the callbacks that run are those of the requests, made now or before, whose last missing file has come
in this step, and of those who waited before; over the whole run each has run once if its files have
come and never otherwise; and the result is the one that any session with those files gives at once. -/
theorem resolutions_confluent (h : s.Reachable) (root : (s.node? .root).isSome) (files : Files)
    (before : List Move) (m : Move) :
    ∃ answers s₁ a events s₂, (moves files before).run s = (answers, s₁) ∧
      (step files m.step).run s₁ = ((a, events), s₂) ∧
      events.Perm ((s.tasks before).flatMap (s₁.source.due s₂.source) ++
        m.task?.toList.flatMap fun t => (s₂.source.fate t).events) ∧
      (answers.flatMap (·.2)).Perm ((s.tasks before).flatMap fun t => (s₁.source.fate t).events) ∧
      (∀ name, s₂.source.files name = (s₁.source.files name).or (m.brings name)) ∧
      (∀ path lib p, s₂.source.Within lib → lib.node? .root = .ok (some p) →
        ((∃ result, s₂.source.resolution path = .done result) ↔
          ∀ file ∈ lib.filesOn (parsePath path) p,
            ∃ payload, s₂.source.files file = some payload)) ∧
      (∀ path result, s₂.source.resolution path = .done result → ∀ t : Session, t.Reachable →
        (t.node? .root).isSome → s₂.source.Within t.source → ∀ label,
        ∃ t', (step files (.report (.resolvePath path label))).run t =
          ((.done, [.resolved label result]), t')) := by
  have start := h.consistent.tracks root
  obtain ⟨tracks, -, total⟩ := moves_track start files before
  obtain ⟨a, s₂, run, advances⟩ := move_advances tracks files m
  have after := advances.tracks
  refine ⟨_, _, a, s₂.fired, s₂, rfl, run, advances.events, ?_, advances.files, ?_, ?_⟩
  · obtain ⟨-, none⟩ := Source.still_waiting fun x hx => h.consistent.parked_missing hx
    rw [List.flatMap_map, none, List.append_nil] at total
    exact total
  · intro path lib p within hp
    exact (resolution_done after.consistent after.root path within).1 p hp
  · intro path result done t reachable troot within label
    have done' := (resolution_done after.consistent after.root path within).2 result done
    exact request_answered reachable.consistent troot done' label files

/-- The ids that a callback was given, with its label. -/
def chain? : Event → Option (String × List NodeId)
  | .resolved label (.ok ids) => some (label, ids)
  | _ => none

/-- The suite is there, and the keyword below the keyword comes with the file. -/
def sampleMoves : List Move :=
  [.request "s1-k1-k1" "deep", .request "s1" "suite"]

theorem resolutions_confluent_sample : ∃ s : Session, s.Reachable ∧ (s.node? .root).isSome ∧
    ∃ answers s₁ a events s₂, (moves sampleFiles sampleMoves).run s = (answers, s₁) ∧
      (step sampleFiles (Move.announce "log-1.json" deepText).step).run s₁ = ((a, events), s₂) ∧
      answers.map (fun given => given.2.map chain?) = [[], [some ("suite", [.root])]] ∧
      events.map chain? = [some ("deep", deepChain)] ∧
      events.Perm ((s.tasks sampleMoves).flatMap (s₁.source.due s₂.source)) := by
  have opens : opensTo (fun s₀ =>
      let s := ((play sampleRun).run s₀).2
      let moved := (moves sampleFiles sampleMoves).run s
      let ran := (step sampleFiles (Move.announce "log-1.json" deepText).step).run moved.2
      (s.node? .root).isSome &&
        decide (moved.1.map (fun given => given.2.map chain?) = [[], [some ("suite", [.root])]]) &&
        decide (ran.1.2.map chain? = [some ("deep", deepChain)])) sampleReport = true := by
    decide +kernel
  obtain ⟨s₀, opened, checked⟩ := opensTo_iff.1 opens
  simp only [Bool.and_eq_true, decide_eq_true_eq] at checked
  obtain ⟨⟨root, early⟩, late⟩ := checked
  obtain ⟨answers, s₁, a, events, s₂, moved, ran, fired, -⟩ :=
    resolutions_confluent (sample_reachable opened) root sampleFiles sampleMoves
      (.announce "log-1.json" deepText)
  rw [moved] at early late
  rw [ran] at late
  refine ⟨_, sample_reachable opened, root, answers, s₁, a, events, s₂, moved, ran, early, late, ?_⟩
  simpa [Move.task?] using fired

end RunReport.Session
