import RunReport.Proofs.Runs
/-!
# What a session does from step to step

Apart from reading, a step lets somebody wait for the children of a node, sets out on a path, gives a
future, or takes files; and a step keeps whatever each of these keeps. A course that allows each of
them is followed by every step.
-/

namespace RunReport.Session

open Effects

/-- Like `Keeps`, of a computation that cannot fail. -/
def Follows (R : Session → Session → Prop) {α : Type} (x : StateM Session α) : Prop :=
  ∀ s : Session, s.Consistent → (x.run s).2.Consistent ∧ R s (x.run s).2

section Follows

variable {R : Session → Session → Prop} {α β : Type}

theorem Follows.keeps {x : StateM Session α} (h : Follows R x) : Keeps R (liftM x : Run α) :=
  h

theorem Keeps.follows {x : Run α} (h : Keeps R x) : Follows R x.run :=
  h

theorem Proceeds.follows {x : StateM Session α} (h : Proceeds x)
    (along : ∀ s : Session, s.Consistent → R s (x.run s).2) : Follows R x :=
  fun s hs => ⟨(h s hs).1, along s hs⟩

variable [Course R]

theorem follows_pure (a : α) : Follows R (pure a) :=
  fun s h => ⟨h, Course.refl s⟩

theorem follows_get : Follows R get :=
  fun s h => ⟨h, Course.refl s⟩

theorem follows_bind {x : StateM Session α} {f : α → StateM Session β} (hx : Follows R x)
    (hf : ∀ a, Follows R (f a)) : Follows R (x >>= f) := by
  intro s h
  obtain ⟨h', along⟩ := hx s h
  obtain ⟨h'', along'⟩ := hf _ _ h'
  exact ⟨h'', Course.trans along along'⟩

end Follows

/-! ## Waiting for children -/

/-- What it comes to when somebody asks for the children of a node: they are there, or their file is
and they are put in place, or `next` waits for it. -/
inductive Asked (s : Session) (next : Continuation) : Bool → Session → Prop
  | found : Asked s next true s
  | installed {r : Route} {n : Node} {file : String} {payload : SplitPayload}
    (hn : s.branch? r = some n) (hf : n.splitFile? = some file)
    (hp : s.source.files file = some payload) : Asked s next true (install r file payload s)
  | waits {r : Route} {file : String} (missing : s.source.files file = none) :
    Asked s next false (park file (.children r next) s)

theorem ready_asked (s : Session) (id : NodeId) (next : Continuation) :
    s.Asked next ((ready id next).run s).1 ((ready id next).run s).2 := by
  cases id with
  | message number => exact .found
  | branch r =>
    cases hn : s.branch? r with
    | none =>
      rw [ready_run_none hn]
      exact .found
    | some n =>
      cases hm : n.missingFile? with
      | none =>
        rw [ready_run_loaded hn hm]
        exact .found
      | some file =>
        cases hp : s.loader.payload? file with
        | none =>
          rw [ready_run_absent hn hm hp]
          exact .waits hp
        | some payload =>
          rw [ready_run_arrived hn hm hp]
          exact .installed hn (Node.missingFile?_eq_some.1 hm).2 hp

/-- Who asks is called at once, unless a file is missing. -/
theorem whenReady_asked (s : Session) (id : NodeId) {next : Continuation}
    (plain : ∀ step rest met sink, next ≠ .resolve step rest met sink) :
    ∃ ready t fired, s.Asked next ready t ∧ ((whenReady id next).run s).2 = { t with fired } ∧
      (fired = t.fired ∨ ∃ label, next = .notify label ∧
        fired = t.fired ++ [.ready label id ((t.node? id).map Node.sight)]) := by
  have asked := ready_asked s id next
  rcases run : (ready id next).run s with ⟨_ | _, t⟩ <;> rw [run] at asked
  · refine ⟨false, t, t.fired, asked, ?_, .inl rfl⟩
    simp only [whenReady, state_bind, run]
    rfl
  · simp only [whenReady, state_bind, run, if_true]
    cases next with
    | nothing => exact ⟨true, t, t.fired, asked, rfl, .inl rfl⟩
    | notify label => exact ⟨true, t, _, asked, rfl, .inr ⟨label, rfl, rfl⟩⟩
    | resolve step rest met sink => exact absurd rfl (plain step rest met sink)

/-! ## Reads that look up names -/

theorem keeps_findFirst {f : Route → Run (Option Route)} (hf : ∀ r, Keeps Explores (f r))
    (rs : List Route) : Keeps Explores (findFirst f rs) := by
  induction rs with
  | nil => exact keeps_pure _
  | cons r rs ih =>
    refine keeps_bind (hf r) fun found => ?_
    cases found with
    | some x => exact keeps_pure _
    | none => exact ih

theorem keeps_findSuiteFrom (name : String) (depth : Nat) (r : Route) :
    Keeps Explores (findSuiteFrom name depth r) := by
  induction depth generalizing r with
  | zero => exact keeps_pure _
  | succ depth ih =>
    refine keeps_bind keeps_get fun s => keeps_ite (keeps_pure _) ?_
    exact keeps_bind (keeps_suitesOf r) fun below => keeps_findFirst ih below

theorem keeps_inMatchingFrom {engine : Query.Engine} (m : Query.Matcher engine) (depth : Nat)
    (r : Route) : Keeps Explores (inMatchingFrom m depth r) := by
  induction depth generalizing r with
  | zero => exact keeps_pure _
  | succ depth ih =>
    refine keeps_bind keeps_get fun s => keeps_ite (keeps_searchTests _ r) ?_
    exact keeps_bind (keeps_suitesOf r) fun below => keeps_flatMapRun ih below

theorem keeps_searchAnswer (r : Route) (query : SuiteQuery) :
    Keeps Explores (searchAnswer r query) := by
  cases query with
  | all => exact keeps_map _ (keeps_searchTests _ r)
  | critical => exact keeps_map _ (keeps_searchTests _ r)
  | tag => exact keeps_map _ (keeps_searchTests _ r)
  | tagQuery => exact keeps_map _ (keeps_searchTests _ r)
  | name => exact keeps_map _ (keeps_searchTests _ r)
  | suites pattern =>
    exact keeps_map _ (keeps_bind keeps_get fun _ => keeps_inMatchingFrom _ _ r)
  | findSuite name =>
    refine keeps_bind (keeps_bind keeps_get fun _ => keeps_findSuiteFrom name _ r) fun found => ?_
    cases found with
    | some x => exact keeps_pure _
    | none => exact keeps_pure _

theorem keeps_testsOfStat (t : TagStat) (r : Route) : Keeps Explores (testsOfStat t r) := by
  rw [testsOfStat]
  split
  · exact keeps_searchTests _ r
  · exact keeps_searchTests _ r

theorem keeps_descendFrom (name : String) (depth : Nat) (r : Route) :
    Keeps Explores (descendFrom name depth r) := by
  induction depth generalizing r with
  | zero => exact keeps_pure _
  | succ depth ih =>
    refine keeps_bind keeps_get fun _ => keeps_ite (keeps_pure _) ?_
    refine keeps_bind (keeps_suitesOf r) fun below => keeps_bind keeps_get fun s => ?_
    cases below.find? (s.leadsTo name) with
    | none => exact keeps_pure _
    | some next => exact keeps_bind (ih next) fun _ => keeps_pure _

theorem keeps_routeToSuite (name : String) : Keeps Explores (routeToSuite name) := by
  refine keeps_bind keeps_rootSuite fun _ => keeps_bind keeps_get fun s => ?_
  exact keeps_ite (keeps_bind (keeps_descendFrom name _ _) fun _ => keeps_pure _) (keeps_pure _)

theorem keeps_pathToTest (name : String) : Keeps Explores (pathToTest name) := by
  rw [pathToTest]
  split
  · exact keeps_pure _
  · refine keeps_bind (keeps_routeToSuite _) fun chain => ?_
    cases chain.getLast? with
    | none => exact keeps_pure _
    | some last =>
      refine keeps_bind keeps_get fun _ => keeps_ite ?_ (keeps_pure _)
      exact keeps_bind (keeps_testsOf last) fun _ => keeps_bind keeps_get fun _ => keeps_pure _

theorem keeps_describeAll (ids : List NodeId) : Keeps Explores (describeAll ids) := by
  induction ids with
  | nil => exact keeps_pure _
  | cons id ids ih =>
    exact keeps_bind (keeps_describe id) fun _ => keeps_bind ih fun _ => keeps_pure _

/-! ## Looking -/

/-- A course that reading does not leave. -/
class Looking (R : Session → Session → Prop) : Prop extends Course R where
  explores : ∀ {s s'}, s.Explores s' → R s s'

instance : Looking Explores where
  explores h := h

theorem Keeps.along {R : Session → Session → Prop} [Looking R] {α : Type} {x : Run α}
    (h : Keeps Explores x) : Keeps R x :=
  fun s hs => ⟨(h s hs).1, Looking.explores (h s hs).2⟩

/-! ## Habits -/

/-- A course that a session does not leave by reading, by loading what is missing, on the way along a
path, or by taking files. -/
class Errand (R : Session → Session → Prop) : Prop extends Looking R where
  resolved : ∀ s label result, R s { s with fired := s.fired ++ [.resolved label result] }
  load : ∀ {s}, s.Consistent → ∀ id, R s ((whenReady id .nothing).run s).2
  resolvePath : ∀ {s}, s.Consistent → ∀ path label,
    R s ((resolvePath path (.callback label)).run s).2
  announce : ∀ {s}, s.Consistent → ∀ file payload, R s ((announce file payload).run s).2

/-- A course that a session does not leave either when it holds nodes and is asked to tell of their
children. It does not matter who was called in a step. -/
class Habit (R : Session → Session → Prop) : Prop extends Errand R where
  silent : ∀ s fired, R s { s with fired }
  resolved s _ _ := silent s _
  hold : ∀ s held, R s { s with held }
  notify : ∀ {s}, s.Consistent → ∀ id label, R s ((whenReady id (.notify label)).run s).2

section Errand

variable {R : Session → Session → Prop} [Errand R]

theorem follows_load (id : NodeId) : Follows R (whenReady id .nothing) :=
  (proceeds_whenReady id .nothing).follows fun _ h => Errand.load h id

theorem follows_resolvePath (path label : String) :
    Follows R (resolvePath path (.callback label)) :=
  (proceeds_resolvePath path _).follows fun _ h => Errand.resolvePath h path label

theorem follows_resolved (label : String) (result : Except Error (List NodeId)) :
    Follows R (fire (.resolved label result)) :=
  (proceeds_fire _).follows fun s _ => Errand.resolved s label result

theorem follows_announce (file : String) (payload : SplitPayload) :
    Follows R (announce file payload) :=
  (proceeds_announce file payload).follows fun _ h => Errand.announce h file payload

theorem keeps_pathToKeyword_along (path label : String) :
    Keeps R (pathToKeyword path (.callback label)) := by
  refine keeps_bind keeps_rootSuite.along fun _ => keeps_bind keeps_get fun s => ?_
  refine keeps_ite ?_ (follows_resolved _ _).keeps
  refine keeps_bind (keeps_ownerFrom path _ _).along fun _ => keeps_bind keeps_get fun _ => ?_
  exact (follows_resolvePath _ label).keeps

/-! ## Taking requests -/

/-- Taking a request from the queue does not leave the course either. -/
class Taking (R : Session → Session → Prop) : Prop extends Errand R where
  pop : ∀ s : Session, R s { s with loader := s.loader.pop.2 }

theorem follows_serveUpTo {R : Session → Session → Prop} [Taking R] (files : Files) (n : Nat) :
    Follows R (serveUpTo (m := Id) files n) := by
  induction n with
  | zero => exact fun s h => ⟨h, Course.refl s⟩
  | succ n ih =>
    intro s h
    have popped := (consistent_pop h).1
    have taken : R s { s with loader := s.loader.pop.2 } := Taking.pop s
    simp only [StateT.run, serveUpTo]
    cases hpop : s.loader.pop with
    | mk request loader =>
      rw [hpop] at popped taken
      cases request with
      | none => exact ⟨h, Course.refl s⟩
      | some file =>
        simp only [bind, pure]
        cases files file with
        | error e => exact ⟨popped, taken⟩
        | ok text =>
          simp only
          cases SplitPayload.read text with
          | error e => exact ⟨popped, taken⟩
          | ok payload =>
            obtain ⟨announced, along⟩ := follows_announce (R := R) file payload _ popped
            obtain ⟨served, later⟩ := ih _ announced
            exact ⟨served, Course.trans (Course.trans taken along) later⟩

theorem follows_pumpFiles {R : Session → Session → Prop} [Taking R] (files : Files) :
    Follows R (pumpFiles files) :=
  fun s h => follows_serveUpTo files s.requestBound s h

end Errand

/-! ## Single effects -/

/-- Who is told that the children of a node can be read, when the file comes. -/
def told? : Waiter → Option (NodeId × String)
  | .children r (.notify label) => some (.branch r, label)
  | _ => none

/-- A course that a walk does not leave: neither by reading, nor by putting keywords in place, nor by
waiting for a file that is not there to go on, nor by what is promised and settled. -/
class Roaming (R : Session → Session → Prop) : Prop extends Looking R where
  install : ∀ {s r n file}, s.branch? r = some n → n.splitFile? = some file →
    ∀ payload, R s (install r file payload s)
  park : ∀ {s file}, s.source.files file = none → ∀ w, told? w = none → R s (park file w s)
  aside : ∀ s futures labels, R s { s with futures, labels }
  resolved : ∀ s label result, R s { s with fired := s.fired ++ [.resolved label result] }

section Roaming

variable {R : Session → Session → Prop} [Roaming R]

theorem roams_deliver (sink : Sink) (result : Except Error (List NodeId)) :
    Follows R (deliver sink result) := by
  refine (proceeds_deliver sink result).follows fun s _ => ?_
  cases sink with
  | callback label => exact Roaming.resolved s label result
  | future n => exact Roaming.aside s _ s.labels

theorem roams_ready (id : NodeId) {next : Continuation}
    (quiet : ∀ r, told? (.children r next) = none) : Follows R (ready id next) := by
  refine (proceeds_ready id next).follows fun s _ => ?_
  have asked := ready_asked s id next
  generalize ((ready id next).run s).1 = ready, ((ready id next).run s).2 = t at asked
  cases asked with
  | found => exact Course.refl s
  | installed hn hf hp => exact Roaming.install hn hf _
  | waits missing => exact Roaming.park missing _ (quiet _)

theorem roams_resolveFrom (sink : Sink) (steps : List Segment) (met : List NodeId) (id : NodeId) :
    Follows R (resolveFrom sink steps met id) := by
  induction steps generalizing met id with
  | nil => exact roams_deliver sink _
  | cons step rest ih =>
    refine follows_bind (roams_ready id fun _ => rfl) fun ready => ?_
    split
    · refine follows_bind (keeps_child id step).along.follows fun found => ?_
      split
      · exact roams_deliver sink _
      · exact roams_deliver sink _
      · exact ih _ _
    · exact follows_pure _

theorem roams_runNext (id : NodeId) {next : Continuation}
    (quiet : ∀ r, told? (.children r next) = none) : Follows R (runNext id next) := by
  cases next with
  | nothing => exact follows_pure _
  | notify label => cases quiet .root
  | resolve step rest met sink => exact roams_resolveFrom sink _ met id

theorem roams_resolvePath (path : String) (sink : Sink) : Follows R (resolvePath path sink) := by
  refine follows_bind follows_get fun s => ?_
  split
  · exact roams_resolveFrom sink _ _ _
  · exact roams_deliver sink _

theorem roams_load (id : NodeId) : Follows R (whenReady id .nothing) := by
  refine follows_bind (roams_ready id fun _ => rfl) fun ready => ?_
  split
  · exact roams_runNext id fun _ => rfl
  · exact follows_pure _

theorem roams_newFuture (name : String) : Follows R (newFuture name) :=
  (proceeds_newFuture name).follows fun s _ => Roaming.aside s _ s.labels

theorem roams_resolveFuture (path : String) : Keeps R (resolveFuture path) := by
  refine keeps_bind keeps_rootSuite.along fun _ => ?_
  refine keeps_bind (roams_newFuture path).keeps fun n => ?_
  exact keeps_bind (roams_resolvePath path _).keeps fun _ => keeps_pure _

theorem roams_fileFuture (file : String) : Follows R (fileFuture file) := by
  refine (proceeds_fileFuture file).follows fun s h => ?_
  obtain ⟨n, s₁, run₁, run⟩ := fileFuture_run file s
  have made : R s s₁ := by
    have new := (roams_newFuture (R := R) file s h).2
    rw [run₁] at new
    exact new
  rw [run, Loader.ensure_fst]
  cases there : s₁.loader.payload? file with
  | none => exact Course.trans made (Roaming.park there _ rfl)
  | some p =>
    have same : park file (.payload n) s₁ = s₁ := by rw [park, Loader.ensure_loaded there]
    rw [same]
    exact Course.trans made (Roaming.aside s₁ _ s₁.labels)

theorem roams_remember (label : String) (n : Nat) : Follows R (remember label n) :=
  (proceeds_remember label n).follows fun s _ => Roaming.aside s s.futures _

theorem roams_pollAnswer (s : Session) (label : String) : R s ((pollAnswer label).run s).2 := by
  simp only [pollAnswer, state_bind, StateT.run_get, pure]
  cases s.labels.lookup label with
  | none => exact Course.refl s
  | some n =>
    simp only
    cases s.futures[n]?.bind (·.settled) with
    | none => exact Course.refl s
    | some r => exact Roaming.aside s s.futures _

end Roaming

/-- A course that no single effect leaves: neither reading, nor putting keywords in place, nor waiting
for a file that is not there, nor the arrival of a file, nor what is promised, held and called. -/
class Tame (R : Session → Session → Prop) : Prop extends Looking R where
  install : ∀ {s r n file}, s.branch? r = some n → n.splitFile? = some file →
    ∀ payload, R s (install r file payload s)
  park : ∀ {s file}, s.source.files file = none → ∀ w, R s (park file w s)
  arrive : ∀ {s file}, s.source.files file = none → ∀ payload, R s (arrive file payload s)
  aside : ∀ s futures labels held fired, R s { s with futures, labels, held, fired }

section Tame

variable {R : Session → Session → Prop} [Tame R]

instance : Roaming R where
  install := Tame.install
  park missing w _ := Tame.park missing w
  aside s futures labels := Tame.aside s futures labels s.held s.fired
  resolved s _ _ := Tame.aside s s.futures s.labels s.held _

theorem tame_ready (id : NodeId) (next : Continuation) : Follows R (ready id next) := by
  refine (proceeds_ready id next).follows fun s _ => ?_
  have asked := ready_asked s id next
  generalize ((ready id next).run s).1 = ready, ((ready id next).run s).2 = t at asked
  cases asked with
  | found => exact Course.refl s
  | installed hn hf hp => exact Tame.install hn hf _
  | waits missing => exact Tame.park missing _

theorem tame_runNext (id : NodeId) (next : Continuation) : Follows R (runNext id next) := by
  cases next with
  | nothing => exact follows_pure _
  | notify label =>
    exact (proceeds_call id label).follows fun s _ => Tame.aside s s.futures s.labels s.held _
  | resolve step rest met sink => exact roams_resolveFrom sink _ met id

theorem tame_runWaiter {s : Session} (h : s.Consistent) {file : String} {payload : SplitPayload}
    {w : Waiter} (a : s.Awaits file payload [w]) : R s ((runWaiter file payload w).run s).2 := by
  cases w with
  | payload n => exact Roaming.aside s _ s.labels
  | children node next =>
    obtain ⟨n, hn, hf⟩ := a.nodes (List.mem_singleton_self _)
    exact Course.trans (Tame.install hn hf payload)
      (tame_runNext (.branch node) next _ (h.install hn hf a.come)).2

theorem tame_runWaiters {s : Session} (h : s.Consistent) {file : String} {payload : SplitPayload}
    {ws : List Waiter} (a : s.Awaits file payload ws) :
    R s ((runWaiters file payload ws).run s).2 := by
  induction ws generalizing s with
  | nil => exact Course.refl s
  | cons w ws ih =>
    have first := runWaiter_goes h a.head
    exact Course.trans (tame_runWaiter h a.head) (ih first.consistent (a.tail h))

theorem tame_announce {s : Session} (h : s.Consistent) (file : String) (payload : SplitPayload) :
    R s ((announce file payload).run s).2 := by
  cases there : s.loader.payload? file with
  | some p =>
    rw [announce_run_loaded there]
    exact Course.refl s
  | none =>
    rw [announce_run_new there]
    exact Course.trans (Tame.arrive there payload)
      (tame_runWaiters (h.arrive there payload) (h.awaits there payload))

theorem tame_whenReady (id : NodeId) (next : Continuation) : Follows R (whenReady id next) := by
  refine follows_bind (tame_ready id next) fun ready => ?_
  split
  · exact tame_runNext id next
  · exact follows_pure _

instance : Habit R where
  silent s fired := Tame.aside s s.futures s.labels s.held fired
  load h id := (roams_load id _ h).2
  resolvePath h path _ := (roams_resolvePath path _ _ h).2
  announce := tame_announce
  hold s held := Tame.aside s s.futures s.labels held s.fired
  notify h id label := (tame_whenReady id (.notify label) _ h).2

end Tame

/-! ## Dumps -/

section Dumps

variable {R : Session → Session → Prop} [Looking R]

theorem keeps_dumpEach {dump : NodeId → Run (List Dump)} (hd : ∀ id, Keeps R (dump id))
    (ids : List NodeId) : Keeps R (dumpEach dump ids) := by
  induction ids with
  | nil => exact keeps_pure _
  | cons id ids ih => exact keeps_bind (hd id) fun _ => keeps_bind ih fun _ => keeps_pure _

theorem keeps_dumpBelow {dump : NodeId → Run (List Dump)} (hd : ∀ id, Keeps R (dump id))
    (id : NodeId) : Keeps R (dumpBelow dump id) := by
  refine keeps_bind (keeps_attempt (keeps_children id).along) fun found => ?_
  split
  · exact keeps_pure _
  · exact keeps_pure _
  · exact keeps_bind (keeps_dumpEach hd _) fun _ => keeps_pure _

theorem keeps_dumpFrom {files : Option Files} (load : ∀ id, Keeps R (loadIf files id)) (depth : Nat)
    (id : NodeId) : Keeps R (dumpFrom files depth id) := by
  induction depth generalizing id with
  | zero => exact keeps_pure _
  | succ depth ih =>
    refine keeps_bind (keeps_describe id).along fun found => ?_
    split
    · exact keeps_pure _
    · exact keeps_pure _
    · exact keeps_bind (load id) fun _ => keeps_bind (keeps_dumpBelow ih id) fun _ => keeps_pure _

/-- What is kept by a dump, if loading what is missing keeps it. -/
theorem keeps_dumpAnswer {files : Files} {load : Bool}
    (loads : ∀ id, Keeps R (loadIf (if load then some files else none) id)) (id : NodeId) :
    Keeps R (nodeAnswer files id (.dump load)) := by
  refine keeps_bind (keeps_bind keeps_get fun _ => keeps_dumpFrom loads _ id) fun found => ?_
  cases found with
  | nil => exact keeps_pure _
  | cons t ts => exact keeps_pure _

theorem keeps_loadIf_some {R : Session → Session → Prop} [Errand R] {files : Files}
    (pump : Follows R (pumpFiles files)) (id : NodeId) : Keeps R (loadIf (some files) id) := by
  refine keeps_bind keeps_get fun s => keeps_ite ?_ (keeps_pure _)
  refine keeps_bind (follows_load id).keeps fun _ => ?_
  refine keeps_bind pump.keeps fun served => ?_
  cases served with
  | ok _ => exact keeps_pure _
  | error e => exact keeps_pure _

end Dumps

/-! ## Questions -/

/-- Whether a step reads a node, and neither waits for it, nor holds it, nor loads what is missing. -/
def NodeStep.looks : NodeStep → Bool
  | .dump load => !load
  | .whenReady _ => false
  | .hold _ => false
  | _ => true

/-- Whether a step reads the report, and neither sets out on a path, nor gives out a future, nor turns
to the split files. -/
def ReportStep.looks : ReportStep → Bool
  | .version | .suite | .generated | .errors | .statistics | .find _ => true
  | .pathToSuite _ | .pathToTest _ | .counters | .fileState _ => true
  | .tagSearch _ | .statSearch _ | .combined _ _ | .render _ => true
  | _ => false

theorem explores_nodeAnswer (files : Files) (id : NodeId) {step : NodeStep}
    (looks : step.looks = true) : Keeps Explores (nodeAnswer files id step) := by
  cases step with
  | peek => exact keeps_peekAnswer _
  | describe =>
    refine keeps_bind (keeps_describe id) fun found => ?_
    cases found with
    | none => exact keeps_pure _
    | some d => exact keeps_pure _
  | dump load =>
    cases load with
    | true => cases looks
    | false => exact keeps_dumpAnswer (fun _ => keeps_pure _) id
  | child kind index =>
    simp only [nodeAnswer]
    cases branchOf? kind with
    | none => exact keeps_pure _
    | some branch => exact keeps_bind (keeps_child id _) fun _ => keeps_peekAnswer _
  | children =>
    refine keeps_bind (keeps_children id) fun found => ?_
    cases found with
    | none => exact keeps_pure _
    | some ids => exact keeps_bind keeps_get fun _ => keeps_pure _
  | list kind =>
    refine keeps_bind (keeps_typedList id kind) fun found => ?_
    cases found with
    | none => exact keeps_pure _
    | some ids => exact keeps_pure _
  | message index =>
    refine keeps_bind (keeps_message id index) fun found => ?_
    cases found with
    | none => exact keeps_pure _
    | some m =>
      refine keeps_bind (keeps_describe m) fun found => ?_
      cases found with
      | none => exact keeps_pure _
      | some d => exact keeps_pure _
  | parent => exact keeps_bind keeps_get fun _ => keeps_peekAnswer _
  | loaded => exact keeps_bind keeps_get fun _ => keeps_pure _
  | whenReady label => cases looks
  | hold name => cases looks
  | same other =>
    refine keeps_bind keeps_get fun s => ?_
    cases other with
    | none => exact keeps_pure _
    | some text =>
      refine keeps_ite ?_ (keeps_pure _)
      cases s.loaded? text with
      | none => exact keeps_pure _
      | some o => exact keeps_pure _
  | search query =>
    cases id with
    | message number => exact keeps_pure _
    | branch r =>
      refine keeps_bind keeps_get fun s => ?_
      cases s.suite? r with
      | none => exact keeps_pure _
      | some suite => exact keeps_searchAnswer r query

theorem explores_reportAnswer (files : Files) {step : ReportStep} (looks : step.looks = true) :
    Keeps Explores (reportAnswer files step) := by
  cases step with
  | version => exact keeps_bind keeps_get fun _ => keeps_pure _
  | suite => exact keeps_bind keeps_rootSuite fun _ => keeps_peekAnswer _
  | generated => exact keeps_bind keeps_get fun _ => keeps_pure _
  | errors =>
    exact keeps_bind keeps_errorList fun ids => keeps_bind (keeps_describeAll ids) fun _ => keeps_pure _
  | statistics => exact keeps_map _ keeps_statistics
  | find path => exact keeps_bind keeps_get fun _ => keeps_peekAnswer _
  | pathToSuite name =>
    exact keeps_map _ (keeps_bind (keeps_routeToSuite name) fun _ => keeps_pure _)
  | pathToTest name => exact keeps_map _ (keeps_pathToTest name)
  | counters => exact keeps_bind keeps_get fun _ => keeps_pure _
  | fileState file => exact keeps_bind keeps_get fun _ => keeps_pure _
  | tagSearch query => exact keeps_map _ (keeps_searchByTag query)
  | statSearch index =>
    refine keeps_bind keeps_statistics fun stats => ?_
    cases stats.tag[index]? with
    | none => exact keeps_pure _
    | some stat => exact keeps_bind keeps_rootSuite fun _ => keeps_map _ (keeps_testsOfStat stat _)
  | combined query name =>
    refine keeps_bind (keeps_combinedStat query name) fun stat => ?_
    exact keeps_bind (keeps_testsOfStat stat _) fun _ => keeps_pure _
  | render request => exact keeps_map _ (keeps_renderText request)
  | _ => cases looks

/-! ## Steps -/

/-- Whether a step gives a future out, or takes one back. -/
def Step.promises : Step → Bool
  | .report (.resolveFuture _ _) => true
  | .report (.fileFuture _ _) => true
  | .poll _ => true
  | _ => false

/-- Whether a step holds a node, or wants somebody to be told of its children. -/
def NodeStep.engages : NodeStep → Bool
  | .whenReady _ => true
  | .hold _ => true
  | _ => false

def Step.engages : Step → Bool
  | .node _ step => step.engages
  | _ => false

/-- Whether a step takes requests from the queue. -/
def Step.takes : Step → Bool
  | .report .pump => true
  | .report .pop => true
  | .node _ (.dump load) => load
  | _ => false

section Steps

variable {R : Session → Session → Prop} [Errand R]

theorem keeps_nodeAnswer (files : Files) (id : NodeId) {step : NodeStep}
    (plain : step.engages = false) (pump : step = .dump true → Follows R (pumpFiles files)) :
    Keeps R (nodeAnswer files id step) := by
  cases looks : step.looks with
  | true => exact (explores_nodeAnswer files id looks).along
  | false =>
    cases step with
    | dump load =>
      cases load with
      | false => cases looks
      | true => exact keeps_dumpAnswer (keeps_loadIf_some (pump rfl)) id
    | whenReady label => cases plain
    | hold name => cases plain
    | _ => cases looks

theorem keeps_reportAnswer (files : Files) {step : ReportStep} (kept : step ≠ .drop)
    (plain : (Step.report step).promises = false)
    (pump : step = .pump → Follows R (pumpFiles files))
    (pop : step = .pop → ∀ s : Session, R s { s with loader := s.loader.pop.2 }) :
    Keeps R (reportAnswer files step) := by
  cases looks : step.looks with
  | true => exact (explores_reportAnswer files looks).along
  | false =>
    cases step with
    | resolve path label =>
      refine keeps_bind (keeps_bind keeps_rootSuite.along fun _ => ?_) fun _ => keeps_pure _
      exact (follows_resolvePath path label).keeps
    | resolvePath path label =>
      exact keeps_bind (follows_resolvePath path label).keeps fun _ => keeps_pure _
    | keywordPath path label =>
      exact keeps_bind (keeps_pathToKeyword_along path label) fun _ => keeps_pure _
    | resolveFuture path label => cases plain
    | fileFuture file label => cases plain
    | announce file payload =>
      refine keeps_bind (keeps_except _) fun p => ?_
      exact keeps_bind (follows_announce file p).keeps fun _ => keeps_pure _
    | pump =>
      refine keeps_bind (pump rfl).keeps fun served => ?_
      cases served with
      | ok n => exact keeps_pure _
      | error e => exact keeps_throw e
    | pop =>
      intro s h
      have run : ((reportAnswer files .pop).run s).2 = { s with loader := s.loader.pop.2 } := by
        simp only [reportAnswer, run_bind, run_get]
        cases s.loader.pop with
        | mk file loader => cases file <;> rfl
      rw [run]
      exact ⟨(consistent_pop h).1, pop rfl s⟩
    | drop => exact absurd rfl kept
    | _ => cases looks

theorem proceeds_stepAnswer (files : Files) {st : Step} (kept : st.keepsReport = true) :
    Proceeds (stepAnswer files st) :=
  fun s => (says_stepAnswer files kept : Says s.source (stepAnswer files st) _).proceeds s

omit [Errand R] in
theorem follows_answer {x : Run Answer} (h : Keeps R x) : Follows R (answer x) := by
  intro s hs
  rw [answer_run]
  exact h s hs

/-- What the answer to a step keeps, if what the step promises, what it engages in and what it takes
from the queue keeps it. -/
theorem follows_stepAnswer (files : Files) {st : Step} (kept : st.keepsReport = true)
    (promise : st.promises = true → Follows R (stepAnswer files st))
    (engage : st.engages = true → Follows R (stepAnswer files st))
    (pump : st.takes = true → Follows R (pumpFiles files))
    (pop : st.takes = true → ∀ s : Session, R s { s with loader := s.loader.pop.2 }) :
    Follows R (stepAnswer files st) := by
  cases plain : st.promises with
  | true => exact promise plain
  | false =>
    cases st with
    | poll label => cases plain
    | report step =>
      refine follows_bind follows_get fun s => ?_
      split
      · refine follows_answer (keeps_reportAnswer files ?_ plain ?_ ?_)
        · rintro rfl
          cases kept
        · rintro rfl
          exact pump rfl
        · rintro rfl
          exact pop rfl
      · exact follows_pure _
    | node target step =>
      cases engaged : step.engages with
      | true => exact engage engaged
      | false =>
        refine follows_bind follows_get fun s => ?_
        cases s.target? target with
        | none => exact follows_pure _
        | some id =>
          refine follows_answer (keeps_nodeAnswer files id engaged ?_)
          rintro rfl
          exact pump rfl

/-- Nodes that are held and whoever is told of children are of no concern to a habit. -/
theorem habit_engage {R : Session → Session → Prop} [Habit R] (files : Files) {st : Step}
    (engages : st.engages = true) : Follows R (stepAnswer files st) := by
  cases st with
  | poll label => cases engages
  | report step => cases engages
  | node target step =>
    refine follows_bind follows_get fun s => ?_
    cases s.target? target with
    | none => exact follows_pure _
    | some id =>
      refine follows_answer ?_
      cases step with
      | whenReady label =>
        refine keeps_bind (fun s h => ?_) fun _ => keeps_pure _
        exact ⟨(proceeds_whenReady id _ s h).1, Habit.notify h id label⟩
      | hold name =>
        refine keeps_bind (fun s h => ⟨?_, Habit.hold s _⟩) fun _ => keeps_pure _
        exact h.peripheral s.loader.requests s.loader.queue s.futures s.labels _ s.fired
      | _ => cases engages

/-- What one step keeps, if what it promises and what it takes from the queue keeps it. -/
theorem follows_step {R : Session → Session → Prop} [Habit R] (files : Files) {st : Step}
    (kept : st.keepsReport = true)
    (promise : st.promises = true → Follows R (stepAnswer files st))
    (pump : st.takes = true → Follows R (pumpFiles files))
    (pop : st.takes = true → ∀ s : Session, R s { s with loader := s.loader.pop.2 }) :
    Follows R (step files st) := by
  refine follows_bind (fun s h => ⟨h.silent, Habit.silent s []⟩) fun _ => ?_
  refine follows_bind (follows_stepAnswer files kept promise (habit_engage files) pump pop) fun _ => ?_
  exact follows_bind follows_get fun _ => follows_pure _

/-- What a run keeps. -/
theorem follows_play {R : Session → Session → Prop} [Habit R] [Taking R]
    {run : List (Files × Step)} (kept : ∀ m ∈ run, m.2.keepsReport = true)
    (promise : ∀ m ∈ run, m.2.promises = true → Follows R (stepAnswer m.1 m.2)) :
    Follows R (play run) := by
  induction run with
  | nil => exact follows_pure _
  | cons m rest ih =>
    refine follows_bind (follows_step m.1 (kept m (by simp)) (promise m (by simp))
      (fun _ => follows_pumpFiles m.1) fun _ => Taking.pop) fun _ => ?_
    exact follows_bind (ih (fun m' hm => kept m' (by simp [hm]))
      fun m' hm => promise m' (by simp [hm])) fun _ => follows_pure _

end Steps

/-- Futures are of no concern to a course that a walk does not leave. -/
theorem roams_promise {R : Session → Session → Prop} [Roaming R] (files : Files) {st : Step}
    (promises : st.promises = true) : Follows R (stepAnswer files st) := by
  cases st with
  | poll label =>
    have kept : (Step.poll label).keepsReport = true := rfl
    exact (proceeds_stepAnswer files kept).follows fun s _ => roams_pollAnswer s label
  | node target step => cases promises
  | report step =>
    have given : Keeps R (reportAnswer files step) := by
      cases step with
      | resolveFuture path label =>
        exact keeps_bind (roams_resolveFuture path) fun n =>
          keeps_bind (roams_remember label n).keeps fun _ => keeps_pure _
      | fileFuture file label =>
        exact keeps_bind (roams_fileFuture file).keeps fun n =>
          keeps_bind (roams_remember label n).keeps fun _ => keeps_pure _
      | _ => cases promises
    refine follows_bind follows_get fun s => ?_
    split
    · exact follows_answer given
    · exact follows_pure _

end RunReport.Session
