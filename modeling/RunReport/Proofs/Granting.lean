import RunReport.Proofs.Promises
/-!
# Giving out futures

Steps give out futures for paths and files. A new future is owed what it was given out for, and no
step takes back what another one was promised. So in every session that can be reached, every future
is owed something.
-/

namespace RunReport.Session

open Effects

variable {s s' : Session}

theorem honours_whenReady (id : NodeId) {next : Continuation}
    (plain : ∀ step rest met sink, next ≠ .resolve step rest met sink) :
    s.Honours ((whenReady id next).run s).2 := by
  have nobody : ∀ r, awaitedFuture? (.children r next) = none := by
    intro r
    cases next with
    | nothing => rfl
    | notify label => rfl
    | resolve step rest met sink => exact absurd rfl (plain step rest met sink)
  obtain ⟨ready, t, fired, asked, run, -⟩ := whenReady_asked s id plain
  have kept : s.Honours t := by
    cases asked with
    | found => exact Course.refl s
    | installed => exact honours_unfolds unfolds_install
    | waits missing => exact honours_park missing (nobody _)
  rw [run]
  exact Course.trans kept (honours_frame rfl rfl (fun _ _ => Iff.rfl) fun _ hx => hx)

/-- Setting out from the root suite ends or waits as the walk over the source does. -/
theorem resolvePath_run (h : s.Consistent) (root : (s.node? .root).isSome) (path : String)
    (sink : Sink) :
    ∃ s', s'.Consistent ∧ s.Unfolds s' ∧ s.source.Offers (.chain path) ∧
      match s.source.resolution path with
      | .done result => (resolvePath path sink).run s = (deliver sink result).run s'
      | .waits file node step rest met => s.source.files file = none ∧
        (resolvePath path sink).run s =
          ((), park file (.children node (.resolve step rest met sink)) s') := by
  obtain ⟨n, hn⟩ := Option.isSome_iff_exists.1 root
  obtain ⟨p, hp, hf⟩ := h.follows .root n hn
  obtain ⟨s', consistent, unfolds, run⟩ := resolveFrom_run h hn hf hp sink (parsePath path) [.root]
  have start : (resolvePath path sink).run s =
      (resolveFrom sink (parsePath path) [.root] .root).run s := by
    simp only [resolvePath, state_bind, StateT.run_get, pure, h.isOpen, root, Bool.true_and,
      if_true]
  refine ⟨s', consistent, unfolds, ⟨p, hp⟩, ?_⟩
  simp only [Source.resolution, hp]
  cases hw : s.source.walk (parsePath path) [.root] .root p with
  | done result =>
    rw [hw] at run
    exact start.trans run.1
  | waits file node step rest met =>
    rw [hw] at run
    obtain ⟨q, -, missing, -⟩ := Source.walk_waits hp hw
    exact ⟨(Source.missing?_eq_some.1 missing).2, start.trans run.1⟩

theorem honours_resolvePath (h : s.Consistent) (path label : String) :
    s.Honours ((resolvePath path (.callback label)).run s).2 := by
  by_cases root : (s.node? .root).isSome
  · obtain ⟨s', -, unfolds, -, run⟩ := resolvePath_run h root path (.callback label)
    refine Course.trans (honours_unfolds unfolds) ?_
    cases hw : s.source.resolution path with
    | done result =>
      rw [hw] at run
      rw [run]
      exact honours_frame rfl rfl (fun _ _ => Iff.rfl) fun _ hx => hx
    | waits file node step rest met =>
      rw [hw] at run
      rw [run.2]
      exact honours_park (unfolds.source ▸ run.1) rfl
  · have run : (resolvePath path (.callback label)).run s =
        (deliver (.callback label) (.ok [])).run s := by
      simp only [resolvePath, state_bind, StateT.run_get, pure, root, Bool.and_false]
      rfl
    rw [run]
    exact honours_frame rfl rfl (fun _ _ => Iff.rfl) fun _ hx => hx

theorem honours_announce (h : s.Consistent) (file : String) (payload : SplitPayload) :
    s.Honours ((announce file payload).run s).2 := by
  intro promising
  have kept : ∀ n w, s.Owes n w → ((announce file payload).run s).2.Owes n w :=
    fun n w owes => owes.announce h file payload
  refine ⟨?_, kept⟩
  cases there : s.loader.payload? file with
  | some p =>
    rw [announce_run_loaded there]
    exact promising
  | none =>
    have pays := announce_pays h there payload
    obtain ⟨s', run, -, -, -, parked, -⟩ := announce_fates h file payload
    rw [run] at pays kept ⊢
    refine ⟨?_, ?_, ?_⟩
    · intro n hn
      obtain ⟨w, owes⟩ := promising.owed n ((pays.lt_length n).1 hn)
      exact ⟨w, kept n w owes⟩
    · intro y hy n awaited
      rw [parked.mem_iff, List.mem_filterMap] at hy
      obtain ⟨x, hx, hy⟩ := hy
      refine (pays.lt_length n).2 (promising.awaited x hx n ?_)
      cases hfate : s'.source.fate (.parked x.1 x.2) with
      | ends events => rw [hfate] at hy; cases hy
      | waits name wt =>
        rw [hfate] at hy
        cases hy
        rw [← Source.awaited_fate hfate]
        exact awaited
    · intro x hx
      exact (pays.lt_length x.2).2 (promising.labels x (pays.labels ▸ hx))

/-- The session with a new future that has nothing yet. -/
def promise (name : String) (s : Session) : Session :=
  { s with futures := s.futures ++ [⟨name, none⟩] }

theorem newFuture_run (name : String) (s : Session) :
    (newFuture name).run s = (s.futures.length, promise name s) := rfl

theorem Consistent.promise (h : s.Consistent) (name : String) : (promise name s).Consistent :=
  h.peripheral s.loader.requests s.loader.queue _ s.labels s.held s.fired

/-- The future that was promised last gets its result. -/
theorem futures_settle {name : String} {t : Session} (here : t.futures = s.futures ++ [⟨name, none⟩])
    (result : Except Error FutureValue) :
    (settle s.futures.length result t).futures = s.futures ++ [⟨name, some result⟩] := by
  have last : ∀ fs : List Future,
      (fs ++ [Future.mk name none]).modify fs.length (settleFuture result) =
        fs ++ [⟨name, some result⟩] := by
    intro fs
    induction fs with
    | nil => rfl
    | cons f fs ih => simp [ih]
  rw [settle, here]
  exact last s.futures

/-- A future for a path: the ids on it, or somebody who waits. -/
theorem resolveFuture_grows (h : s.Consistent) (root : (s.node? .root).isSome) (path : String)
    {s' : Session}
    (run : (resolvePath path (.future s.futures.length)).run (promise path s) = ((), s')) :
    s.source.Offers (.chain path) ∧ s'.source = s.source ∧
      s'.futures = s.futures ++ [⟨path, s.source.settled? (.chain path)⟩] ∧
      s'.loader.parked.Perm
        (s.loader.parked ++ (s.source.awaiting? s.futures.length (.chain path)).toList) ∧
      s'.labels = s.labels := by
  obtain ⟨t, -, unfolds, offers, walked⟩ :=
    resolvePath_run (h.promise path) root path (.future s.futures.length)
  have source : (promise path s).source = s.source := rfl
  rw [source] at walked offers
  refine ⟨offers, ?_⟩
  simp only [Source.settled?, Source.awaiting?]
  cases hw : s.source.resolution path with
  | done result =>
    rw [hw] at walked
    cases run.symm.trans walked
    refine ⟨unfolds.source, futures_settle unfolds.futures _, ?_, unfolds.labels⟩
    have loader : t.loader = s.loader := unfolds.loader
    simp [settle, loader, Walk.outcome, Outcome.waiting?]
  | waits file node step rest met =>
    rw [hw] at walked
    obtain ⟨missing, walked⟩ := walked
    cases run.symm.trans walked
    have loader : t.loader = s.loader := unfolds.loader
    refine ⟨(source_park (s := t) ..).trans unfolds.source, unfolds.futures, ?_, unfolds.labels⟩
    rw [park, loader]
    exact Loader.parked_ensure missing _

/-- A future for a file: its content, or somebody who waits. -/
theorem fileFuture_grows (s : Session) (file : String) :
    ∃ s', (fileFuture file).run s = (s.futures.length, s') ∧ s'.source = s.source ∧
      s'.futures = s.futures ++ [⟨file, s.source.settled? (.content file)⟩] ∧
      s'.loader.parked.Perm
        (s.loader.parked ++ (s.source.awaiting? s.futures.length (.content file)).toList) ∧
      s'.labels = s.labels := by
  simp only [Source.settled?, Source.awaiting?, source_files]
  cases there : s.loader.payload? file with
  | none =>
    refine ⟨park file (.payload s.futures.length) (promise file s), ?_, ?_, rfl, ?_, rfl⟩
    · have fst := Loader.ensure_fst s.loader file (.payload s.futures.length)
      rw [there] at fst
      simp only [fileFuture, state_bind, newFuture_run, park, promise, StateT.run_get, pure]
      cases hens : s.loader.ensure file (.payload s.futures.length) with
      | mk payload loader =>
        rw [hens] at fst
        cases fst
        rfl
    · exact source_park (s := promise file s) ..
    · exact Loader.parked_ensure there _
  | some p =>
    have ensured := Loader.ensure_loaded there (.payload s.futures.length)
    refine ⟨settle s.futures.length (.ok (.keywords p.keywords.length)) (promise file s), ?_, rfl,
      futures_settle rfl _, ?_, rfl⟩
    · simp only [fileFuture, state_bind, newFuture_run, promise, StateT.run_get, pure, ensured]
      rfl
    · simp [settle, promise]

/-- A future has been given out for something under a label, and nothing that was promised before is
broken. -/
structure Grants (s s' : Session) (label : String) (w : Wanted) : Prop where
  owes : s.Promising → s'.Promising ∧ s'.Owes s.futures.length w ∧ ∀ n v, s.Owes n v → s'.Owes n v
  bound : s'.labels.lookup label = some s.futures.length
  others : ∀ other, other ≠ label → s'.labels.lookup other = s.labels.lookup other

theorem Grants.honours {label : String} {w : Wanted} (h : s.Grants s' label w) : s.Honours s' :=
  fun promising => ⟨(h.owes promising).1, (h.owes promising).2.2⟩

theorem lookup_filter_ne {β : Type} (labels : List (String × β)) (label other : String) :
    (labels.filter (·.1 != label)).lookup other =
      if other = label then none else labels.lookup other := by
  induction labels with
  | nil => simp
  | cons x labels ih =>
    obtain ⟨name, b⟩ := x
    by_cases same : name = label
    · subst same
      by_cases here : other = name
      · simpa [here] using ih
      · simpa [here, List.lookup_cons, beq_eq_false_iff_ne.2 here] using ih
    · by_cases here : other = name
      · subst here
        simp [same]
      · simpa [same, List.lookup_cons, beq_eq_false_iff_ne.2 here] using ih

/-- What has been made and is remembered under a label is given out. -/
theorem grants_remember {t : Session} {label : String} {w : Wanted}
    (offers : s.source.Offers w) (source : t.source = s.source)
    (futures : t.futures = s.futures ++ [⟨w.name, s.source.settled? w⟩])
    (parked : t.loader.parked.Perm
      (s.loader.parked ++ (s.source.awaiting? s.futures.length w).toList))
    (labels : t.labels = s.labels) :
    s.Grants ((remember label s.futures.length).run t).2 label w where
  owes promising := promising.grow offers source futures parked fun x hx => by
    rcases List.mem_cons.1 hx with rfl | hx
    · exact .inr rfl
    · exact .inl (labels ▸ (List.mem_filter.1 hx).1)
  bound := List.lookup_cons_self
  others other distinct := by
    have rest : (t.labels.filter (·.1 != label)).lookup other = s.labels.lookup other := by
      rw [lookup_filter_ne, if_neg distinct, labels]
    change ((label, s.futures.length) :: t.labels.filter (·.1 != label)).lookup other = _
    rw [List.lookup_cons, beq_eq_false_iff_ne.2 distinct]
    exact rest

/-- A future for a path begins with the root suite, if that can be read. -/
theorem resolveFuture_run (h : s.Consistent) (path : String) :
    ∃ s₁, s₁.Consistent ∧ s.Explores s₁ ∧
      match s.source.readSuite none s.suite .main with
      | .error e => (resolveFuture path).run s = (.error e, s₁)
      | .ok _ => (s₁.node? .root).isSome ∧ ∃ t,
        (resolvePath path (.future s.futures.length)).run (promise path s₁) = ((), t) ∧
        (resolveFuture path).run s = (.ok s.futures.length, t) := by
  obtain ⟨s₁, made, consistent, explores, registered⟩ := rootSuite_run h
  refine ⟨s₁, consistent, explores, ?_⟩
  cases root : s.source.readSuite none s.suite .main with
  | error e =>
    rw [root] at made
    simp only [resolveFuture, run_bind, made]
    rfl
  | ok p =>
    rw [root] at made
    obtain ⟨n, hn, -⟩ := registered p root
    refine ⟨?_, _, rfl, ?_⟩
    · rw [show s₁.node? .root = some n from hn]
      rfl
    · simp only [resolveFuture, run_bind, made, run_state, newFuture_run, ← explores.futures]
      rfl

theorem resolveFuture_grants (h : s.Consistent) (files : Files) (path label : String) :
    ∃ a s', (reportAnswer files (.resolveFuture path label)).run s = (a, s') ∧
      ((∃ e, a = .error e) ∧ s.Explores s' ∨ a = .ok .done ∧ s.Grants s' label (.chain path)) := by
  obtain ⟨s₁, consistent, explores, run⟩ := resolveFuture_run h path
  cases root : s.source.readSuite none s.suite .main with
  | error e =>
    rw [root] at run
    refine ⟨.error e, s₁, ?_, .inl ⟨⟨e, rfl⟩, explores⟩⟩
    exact run_bind_error run
  | ok p =>
    rw [root] at run
    obtain ⟨isRoot, t, resolved, run⟩ := run
    rw [← explores.futures] at resolved
    obtain ⟨offers, source, futures, parked, labels⟩ :=
      resolveFuture_grows consistent isRoot path resolved
    rw [explores.source, explores.futures, explores.loader] at parked
    rw [explores.source, explores.futures] at futures
    rw [explores.source] at source offers
    refine ⟨.ok .done, ((remember label s.futures.length).run t).2, run_bind_ok run,
      .inr ⟨rfl, grants_remember offers source futures parked (labels.trans explores.labels)⟩⟩

theorem fileFuture_grants (s : Session) (files : Files) (file label : String) :
    ∃ s', (reportAnswer files (.fileFuture file label)).run s = (.ok .done, s') ∧
      s.Grants s' label (.content file) := by
  obtain ⟨t, run, source, futures, parked, labels⟩ := fileFuture_grows s file
  have offers : s.source.Offers (.content file) := trivial
  refine ⟨((remember label s.futures.length).run t).2, ?_,
    grants_remember offers source futures parked labels⟩
  simp only [reportAnswer, run_bind, run_state, run]
  rfl

instance : Habit Honours where
  explores h := honours_unfolds h.unfolds
  silent _ _ := honours_frame rfl rfl (fun _ _ => Iff.rfl) fun _ hx => hx
  load _ id := honours_whenReady id (by simp)
  resolvePath h path label := honours_resolvePath h path label
  announce h file payload := honours_announce h file payload
  hold _ _ := honours_frame rfl rfl (fun _ _ => Iff.rfl) fun _ hx => hx
  notify _ id _ := honours_whenReady id (by simp)

instance : Taking Honours where
  pop s := by
    obtain ⟨queue, eq⟩ := pop_frame s.loader
    rw [eq]
    exact honours_frame rfl rfl (fun _ _ => Iff.rfl) fun _ hx => hx

theorem honours_promise (files : Files) {st : Step} (promises : st.promises = true) :
    Follows Honours (stepAnswer files st) := by
  cases st with
  | node target step => cases promises
  | poll label =>
    have kept : (Step.poll label).keepsReport = true := rfl
    refine (proceeds_stepAnswer files kept).follows fun s _ => ?_
    simp only [stepAnswer, pollAnswer, state_bind, StateT.run_get, pure]
    cases s.labels.lookup label with
    | none => exact Course.refl s
    | some n =>
      simp only
      cases s.futures[n]?.bind (·.settled) with
      | none => exact Course.refl s
      | some r =>
        exact honours_frame rfl rfl (fun _ _ => Iff.rfl) fun _ hx => (List.mem_filter.1 hx).1
  | report step =>
    have kept : (Step.report step).keepsReport = true := by
      cases step <;> first | rfl | cases promises
    refine (proceeds_stepAnswer files kept).follows fun s h => ?_
    rw [stepAnswer_report h, answer_run]
    cases step with
    | resolveFuture path label =>
      obtain ⟨a, s', run, ⟨-, explores⟩ | ⟨-, grants⟩⟩ := resolveFuture_grants h files path label
      · rw [run]
        exact honours_unfolds explores.unfolds
      · rw [run]
        exact grants.honours
    | fileFuture file label =>
      obtain ⟨s', run, grants⟩ := fileFuture_grants s files file label
      rw [run]
      exact grants.honours
    | _ => cases promises

/-- A session begins with no file asked for, nothing promised and nothing held. -/
theorem fresh_open {text : String} (h : open? text = .ok s) :
    s.loader = .empty ∧ s.futures = [] ∧ s.labels = [] ∧ s.held = [] := by
  simp only [open?] at h
  cases hp : Payload.read text with
  | error e => rw [hp] at h; cases h
  | ok p =>
    rw [hp] at h
    simp only [bind, Except.bind, ofPayload] at h
    cases he : p.errors.asList "errors" with
    | error e => rw [he] at h; cases h
    | ok errors =>
      rw [he] at h
      cases h
      exact ⟨rfl, rfl, rfl, rfl⟩

/-- As long as the report is there, every future is owed what it was given out for. -/
theorem Reachable.promising (h : s.Reachable) : s.Promising := by
  obtain ⟨text, s₀, run, opened, kept, rfl⟩ := h
  have fresh := fresh_open opened
  have start : s₀.Promising := by
    refine ⟨fun n hn => ?_, fun x hx => ?_, fun x hx => ?_⟩
    · rw [fresh.2.1] at hn
      cases hn
    · rw [fresh.1] at hx
      cases hx
    · rw [fresh.2.2.1] at hx
      cases hx
  have honours := (follows_play kept (fun m _ => honours_promise m.1) s₀ (consistent_open opened)).2
  exact (honours start).1

end RunReport.Session
