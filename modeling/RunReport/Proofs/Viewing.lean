import RunReport.Proofs.Remaining
/-!
# Looking fetches nothing

Questions about nodes and about the report, searches and renderings make nodes and remember texts.
They ask for no file, take no request from the queue and put no keywords in place, whether or not
they find an answer, and also once the report has been dropped.
-/

namespace RunReport

theorem Node.isLoaded_eq (n : Node) :
    n.isLoaded = (n.plain?.isNone || (n.list? .keyword).isSome) := by
  cases n <;> rfl

theorem Node.isLoaded_updateList (n : Node) (f : ChildList → ChildList) (kind : NodeKind) :
    (n.updateList f kind).isLoaded = n.isLoaded := by
  cases n <;> cases kind <;> simp [isLoaded, updateList, keywords?, Keywords.isLoaded]

namespace Session

open Effects

variable {s s' : Session}

/-- The loader is the same, and the keywords of every node are there, or missing, as before. -/
structure Unfetched (s s' : Session) : Prop where
  loader : s'.loader = s.loader
  nodes : ∀ id n, s.node? id = some n → ∃ n', s'.node? id = some n' ∧ n'.isLoaded = n.isLoaded

theorem unfetched_of_nodes (loader : s'.loader = s.loader) (nodes : s'.nodes = s.nodes) :
    s.Unfetched s' := by
  refine ⟨loader, fun id n hn => ⟨n, ?_, rfl⟩⟩
  rw [node?, nodes]
  exact hn

instance : Looking Unfetched where
  refl _ := unfetched_of_nodes rfl rfl
  trans h h' := by
    refine ⟨h'.loader.trans h.loader, fun id n hn => ?_⟩
    obtain ⟨n', hn', loaded⟩ := h.nodes id n hn
    obtain ⟨n'', hn'', loaded'⟩ := h'.nodes id n' hn'
    exact ⟨n'', hn'', loaded'.trans loaded⟩
  explores h := by
    refine ⟨h.loader, fun id n hn => ?_⟩
    obtain ⟨n', hn', plain, -, listed⟩ := h.nodes id n hn
    refine ⟨n', hn', ?_⟩
    rw [n'.isLoaded_eq, n.isLoaded_eq, plain, listed]

instance : Idle Unfetched where
  table s ref t := by
    obtain ⟨strings, splitStrings, eq⟩ := setTable_frame (s := s) ref t
    rw [eq]
    exact unfetched_of_nodes rfl rfl
  text _ _ _ _ := unfetched_of_nodes rfl rfl
  list s owner kind f _ := by
    refine ⟨rfl, fun id n hn => ?_⟩
    rw [node?_update, hn]
    split
    · exact ⟨_, rfl, n.isLoaded_updateList _ kind⟩
    · exact ⟨n, rfl, rfl⟩

/-! ## Steps -/

/-- Whether a step is a question, a search or a rendering. -/
def Step.looks : Step → Bool
  | .node _ step => step.looks
  | .report step => step.looks
  | .poll _ => false

theorem NodeStep.reads_of_looks {step : NodeStep} (looks : step.looks = true) :
    step.reads = true := by
  cases step <;> first | rfl | cases looks

/-- A session of a report that opened: the report is there, or it has been dropped. -/
def Standing (s : Session) : Prop :=
  s.Consistent ∨ s.Dormant

/-- A step keeps a report that is there, or drops it. -/
theorem Consistent.step_cases (h : s.Consistent) (files : Files) (st : Step) :
    ((step files st).run s).2.Consistent ∨
      (((step files st).run s).2.Dormant ∧ s.Remains ((step files st).run s).2) := by
  by_cases drop : st = .report .drop
  · subst drop
    rw [drop_run]
    exact .inr ⟨h.silent.orderly.close, (remains_fired s []).trans (remains_close _)⟩
  · have kept : st.keepsReport = true := by
      cases st with
      | report step => cases step <;> first | rfl | exact absurd rfl drop
      | _ => rfl
    exact .inl ((says_step files kept : Says s.source (Session.step files st) _).proceeds s h).1

theorem Standing.step (h : s.Standing) (files : Files) (st : Step) :
    ((step files st).run s).2.Standing := by
  rcases h with h | h
  · exact (h.step_cases files st).imp_right And.left
  · exact .inr (step_remains h files st).1

theorem Standing.play (h : s.Standing) (run : List (Files × Step)) :
    ((play run).run s).2.Standing := by
  induction run generalizing s with
  | nil => exact h
  | cons m rest ih => exact ih (h.step m.1 m.2)

theorem stepAnswer_unfetched (h : s.Standing) (files : Files) {st : Step}
    (looks : st.looks = true) : s.Unfetched ((stepAnswer files st).run s).2 := by
  cases st with
  | poll label => cases looks
  | report step =>
    rcases h with h | h
    · rw [stepAnswer_report h, answer_run]
      exact ((explores_reportAnswer files looks).along s h).2
    · -- Without the report there is no answer, and nothing happens.
      have needs : step.needsReport = true := by
        cases step <;> first | rfl | cases looks
      have run : (stepAnswer files (.report step)).run s = (.dropped, s) := by
        simp only [stepAnswer, state_bind, StateT.run_get, pure, needs, h.closed]
        rfl
      rw [run]
      exact Course.refl s
  | node target step =>
    cases ht : s.target? target with
    | none =>
      have run : (stepAnswer files (.node target step)).run s = (.notLoaded, s) := by
        simp only [stepAnswer, state_bind, StateT.run_get, pure, ht]
        rfl
      rw [run]
      exact Course.refl s
    | some id =>
      rw [stepAnswer_node ht, answer_run]
      rcases h with h | h
      · exact ((explores_nodeAnswer files id looks).along s h).2
      · exact (rests_nodeAnswer files id (NodeStep.reads_of_looks looks) s h.closed).2

theorem Standing.silent (h : s.Standing) : ({ s with fired := [] } : Session).Standing :=
  h.imp Consistent.silent fun h => h.aside s.labels s.held []

theorem step_unfetched (h : s.Standing) (files : Files) {st : Step} (looks : st.looks = true) :
    s.Unfetched ((step files st).run s).2 := by
  have silent : s.Unfetched { s with fired := [] } := unfetched_of_nodes rfl rfl
  exact Course.trans silent (stepAnswer_unfetched h.silent files looks)

theorem play_unfetched (h : s.Standing) {run : List (Files × Step)}
    (looks : ∀ m ∈ run, m.2.looks = true) : s.Unfetched ((play run).run s).2 := by
  induction run generalizing s with
  | nil => exact Course.refl s
  | cons m rest ih =>
    exact Course.trans (step_unfetched h m.1 (looks m (by simp)))
      (ih (h.step m.1 m.2) fun m' hm => looks m' (by simp [hm]))

/-- Whatever has been done with a report that opened, dropping it included, no run of questions,
searches and renderings changes the state of a file, the number of requests, the queue, or which of
the nodes made so far have their keywords. -/
theorem looking_fetches_nothing {text : String} {s₀ : Session} (opened : open? text = .ok s₀)
    (before : List (Files × Step)) {views : List (Files × Step)}
    (looks : ∀ m ∈ views, m.2.looks = true) {s : Session} (reached : ((play before).run s₀).2 = s)
    {answers : List (Answer × List Event)} {s' : Session}
    (viewed : (play views).run s = (answers, s')) :
    s'.loader.files = s.loader.files ∧ s'.loader.requests = s.loader.requests ∧
      s'.loader.queue = s.loader.queue ∧
      ∀ id n, s.node? id = some n → ∃ n', s'.node? id = some n' ∧ n'.isLoaded = n.isLoaded := by
  have standing : s.Standing := by
    rw [← reached]
    exact Standing.play (.inl (consistent_open opened)) before
  have unfetched := play_unfetched standing looks
  rw [viewed] at unfetched
  exact ⟨by rw [unfetched.loader], by rw [unfetched.loader], by rw [unfetched.loader],
    unfetched.nodes⟩

/-- Somebody waits for the keywords of the keyword of the sample. -/
def waitingRun : List (Files × Step) :=
  sampleRun ++ [(sampleFiles, .node (.id "s1-k1") (.whenReady "later"))]

/-- The keyword is asked for its children, the root is shown with all there is below it, tests are
searched for, and the report is rendered as data. -/
def viewingRun : List (Files × Step) :=
  [(sampleFiles, .node (.id "s1-k1") .children), (sampleFiles, .node (.id "s1") (.dump false)),
    (sampleFiles, .report (.tagSearch "*")),
    (sampleFiles, .report (.render ⟨.report [], .data, true, ⟨false, false, .info⟩⟩))]

/-- The file that is waited for stays in the queue, and the keyword stays without its keywords. -/
theorem looking_fetches_nothing_sample : ∃ s₀, open? sampleReport = .ok s₀ ∧ ∃ answers s',
    (play viewingRun).run ((play waitingRun).run s₀).2 = (answers, s') ∧
      s'.loader.queue = ["log-1.json"] ∧
      ∃ n, s'.branch? (.child .root ⟨.keyword, 0⟩) = some n ∧ n.isLoaded = false := by
  have opens : opensTo (fun s₀ =>
      decide (((play waitingRun).run s₀).2.loader.queue = ["log-1.json"]) &&
      ((((play waitingRun).run s₀).2.branch? (.child .root ⟨.keyword, 0⟩)).map Node.isLoaded ==
        some false)) sampleReport = true := by
    decide +kernel
  obtain ⟨s₀, opened, checked⟩ := opensTo_iff.1 opens
  simp only [Bool.and_eq_true, decide_eq_true_eq, beq_iff_eq, Option.map_eq_some_iff] at checked
  obtain ⟨queued, n, hn, missing⟩ := checked
  have looks : ∀ m ∈ viewingRun, m.2.looks = true := by
    simp [viewingRun, Step.looks, NodeStep.looks, ReportStep.looks]
  obtain ⟨answers, s', viewed⟩ : ∃ answers s',
      (play viewingRun).run ((play waitingRun).run s₀).2 = (answers, s') := ⟨_, _, rfl⟩
  obtain ⟨-, -, queue, nodes⟩ := looking_fetches_nothing opened waitingRun looks rfl viewed
  obtain ⟨n', hn', same⟩ := nodes _ n hn
  exact ⟨s₀, opened, answers, s', viewed, queue.trans queued, n', hn', same.trans missing⟩

end Session

end RunReport
