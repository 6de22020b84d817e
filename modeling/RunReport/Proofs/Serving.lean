import RunReport.Proofs.Announcing
import RunReport.Proofs.Searching
import RunReport.Session.Step
/-!
# Waiting, serving and dumping keep a session consistent

Resolutions, announcements, served requests and dumps, which may wait for files and bring them, lead
from a consistent session to a consistent one, and no node and no file goes away or changes.
-/

namespace RunReport.Session

open Effects

/-- Like `Keeps`, of a computation that cannot fail. -/
def Proceeds {α : Type} (x : StateM Session α) : Prop :=
  ∀ s : Session, s.Consistent → (x.run s).2.Consistent ∧ s.Extends (x.run s).2

section Proceeds

variable {α β : Type}

theorem Proceeds.keeps {x : StateM Session α} (h : Proceeds x) : Keeps Extends (liftM x : Run α) :=
  h

theorem Keeps.proceeds {x : Run α} (h : Keeps Extends x) : Proceeds x.run :=
  h

theorem proceeds_pure (a : α) : Proceeds (pure a) :=
  fun s h => ⟨h, .refl s⟩

theorem proceeds_get : Proceeds get :=
  fun s h => ⟨h, .refl s⟩

theorem proceeds_bind {x : StateM Session α} {f : α → StateM Session β} (hx : Proceeds x)
    (hf : ∀ a, Proceeds (f a)) : Proceeds (x >>= f) := by
  intro s h
  obtain ⟨h', e⟩ := hx s h
  obtain ⟨h'', e'⟩ := hf _ _ h'
  exact ⟨h'', e.trans e'⟩

/-- What is waited for, and who was called, may change at any time. -/
theorem proceeds_peripheral {f : Session → Session}
    (hf : ∀ s : Session, ∃ requests queue futures labels held fired, f s =
      { s with loader := { s.loader with requests, queue }, futures, labels, held, fired }) :
    Proceeds (modify f) := by
  intro s h
  obtain ⟨requests, queue, futures, labels, held, fired, eq⟩ := hf s
  have run : (modify f : StateM Session PUnit).run s = (⟨⟩, f s) := rfl
  rw [run, eq]
  exact ⟨h.peripheral .., .refl _, fun _ n hn => ⟨n, hn, rfl⟩⟩

end Proceeds

/-! ## Resolving -/

theorem Goes.proceeds {s s' : Session} {o : Outcome} (h : s.Goes s' o) :
    s'.Consistent ∧ s.Extends s' :=
  ⟨h.consistent, h.extension⟩

theorem proceeds_fire (e : Event) : Proceeds (fire e) :=
  fun _ h => (fire_goes h e).proceeds

theorem proceeds_call (id : NodeId) (label : String) : Proceeds (call id label) :=
  fun _ h => (fire_goes h _).proceeds

theorem proceeds_deliver (sink : Sink) (result : Except Error (List NodeId)) :
    Proceeds (deliver sink result) :=
  fun _ h => (deliver_goes h sink result).proceeds

theorem proceeds_settle (n : Nat) (result : Except Error FutureValue) :
    Proceeds (modify (settle n result)) :=
  fun _ h => (settle_goes h n result).proceeds

/-- Nobody waits for the children of what is no suite, test or keyword. -/
theorem ready_run_none {s : Session} {r : Route} (hn : s.branch? r = none) (next : Continuation) :
    (ready (.branch r) next).run s = (true, s) := by
  simp only [ready, state_bind, StateT.run_get, pure, hn]
  rfl

theorem proceeds_ready (id : NodeId) (next : Continuation) : Proceeds (ready id next) := by
  intro s h
  cases id with
  | message number => exact ⟨h, .refl s⟩
  | branch r =>
    cases hn : s.branch? r with
    | none =>
      rw [ready_run_none hn]
      exact ⟨h, .refl s⟩
    | some n =>
      obtain ⟨p, hp, hf⟩ := h.follows r n hn
      cases hm : s.source.missing? p with
      | some file =>
        obtain ⟨run, hfile⟩ := ready_waits hn hf hm next
        rw [run]
        refine ⟨h.park ?_, extends_park ..⟩
        rintro node next' ⟨⟩
        exact ⟨n, hn, hfile⟩
      | none =>
        obtain ⟨s', n', run, consistent, unfolds, -⟩ := ready_proceeds h hn hf hm next
        rw [run]
        exact ⟨consistent, unfolds.extends⟩

theorem proceeds_resolveFrom (sink : Sink) (steps : List Segment) (met : List NodeId)
    (id : NodeId) : Proceeds (resolveFrom sink steps met id) := by
  induction steps generalizing met id with
  | nil => exact proceeds_deliver sink _
  | cons step rest ih =>
    refine proceeds_bind (proceeds_ready id _) fun ready => ?_
    split
    · refine proceeds_bind (keeps_child id step).extends.proceeds fun found => ?_
      split
      · exact proceeds_deliver sink _
      · exact proceeds_deliver sink _
      · exact ih _ _
    · exact proceeds_pure _

theorem proceeds_runNext (id : NodeId) (next : Continuation) : Proceeds (runNext id next) := by
  cases next with
  | nothing => exact proceeds_pure _
  | notify label => exact proceeds_call id label
  | resolve step rest met sink => exact proceeds_resolveFrom sink _ met id

theorem proceeds_whenReady (id : NodeId) (next : Continuation) : Proceeds (whenReady id next) := by
  refine proceeds_bind (proceeds_ready id next) fun ready => ?_
  split
  · exact proceeds_runNext id next
  · exact proceeds_pure _

theorem proceeds_announce (file : String) (payload : SplitPayload) :
    Proceeds (announce file payload) := by
  intro s h
  cases there : s.loader.payload? file with
  | some p =>
    rw [announce_run_loaded there]
    exact ⟨h, .refl s⟩
  | none =>
    obtain ⟨s', run, consistent, extension, -⟩ := announce_run h there _
    rw [run]
    exact ⟨consistent, extension⟩

theorem proceeds_resolvePath (path : String) (sink : Sink) : Proceeds (resolvePath path sink) := by
  refine proceeds_bind proceeds_get fun s => ?_
  split
  · exact proceeds_resolveFrom sink _ _ _
  · exact proceeds_deliver sink _

theorem proceeds_newFuture (name : String) : Proceeds (newFuture name) := by
  intro s h
  exact ⟨h.peripheral s.loader.requests s.loader.queue _ s.labels s.held s.fired,
    .refl _, fun _ n hn => ⟨n, hn, rfl⟩⟩

theorem fileFuture_run (file : String) (s : Session) :
    ∃ n s₁, (newFuture file).run s = (n, s₁) ∧ ((fileFuture file).run s).2 =
      match (s₁.loader.ensure file (.payload n)).1 with
      | none => park file (.payload n) s₁
      | some p => settle n (.ok (.keywords p.keywords.length)) (park file (.payload n) s₁) := by
  rcases hnew : (newFuture file).run s with ⟨n, s₁⟩
  refine ⟨n, s₁, rfl, ?_⟩
  simp only [fileFuture, state_bind, hnew, park, StateT.run_get, pure]
  cases s₁.loader.ensure file (.payload n) with
  | mk payload loader => cases payload <;> rfl

theorem proceeds_fileFuture (file : String) : Proceeds (fileFuture file) := by
  intro s h
  obtain ⟨n, s₁, run₁, run⟩ := fileFuture_run file s
  obtain ⟨consistent₁, extends₁⟩ := proceeds_newFuture file s h
  rw [run₁] at consistent₁ extends₁
  have parked : (park file (.payload n) s₁).Consistent := consistent₁.park fun _ _ hw => by cases hw
  have extends₂ := extends₁.trans (extends_park (s := s₁) file (.payload n))
  rw [run]
  split
  · exact ⟨parked, extends₂⟩
  · obtain ⟨consistent, extension⟩ := proceeds_settle n (.ok (.keywords _)) _ parked
    exact ⟨consistent, extends₂.trans extension⟩

/-! ## Serving -/

theorem pop_frame (l : Loader Waiter) : ∃ queue, l.pop.2 = { l with queue } := by
  cases hq : l.queue with
  | nil => exact ⟨[], by simp only [Loader.pop, hq]; rw [← hq]⟩
  | cons file rest => exact ⟨rest, by simp only [Loader.pop, hq]⟩

theorem consistent_pop {s : Session} (h : s.Consistent) :
    ({ s with loader := s.loader.pop.2 } : Session).Consistent ∧
      s.Extends { s with loader := s.loader.pop.2 } := by
  obtain ⟨queue, eq⟩ := pop_frame s.loader
  rw [eq]
  exact ⟨h.peripheral s.loader.requests queue s.futures s.labels s.held s.fired,
    .refl _, fun _ n hn => ⟨n, hn, rfl⟩⟩

theorem proceeds_serveUpTo (files : Files) (n : Nat) : Proceeds (serveUpTo (m := Id) files n) := by
  induction n with
  | zero => exact fun s h => ⟨h, .refl s⟩
  | succ n ih =>
    intro s h
    obtain ⟨popped, extends₁⟩ := consistent_pop h
    simp only [StateT.run, serveUpTo]
    cases hpop : s.loader.pop with
    | mk request loader =>
      rw [hpop] at popped extends₁
      cases request with
      | none => exact ⟨h, .refl s⟩
      | some file =>
        simp only [bind, pure]
        cases files file with
        | error e => exact ⟨popped, extends₁⟩
        | ok text =>
          simp only
          cases SplitPayload.read text with
          | error e => exact ⟨popped, extends₁⟩
          | ok payload =>
            obtain ⟨announced, extends₂⟩ := proceeds_announce file payload _ popped
            obtain ⟨served, extends₃⟩ := ih _ announced
            exact ⟨served, (extends₁.trans extends₂).trans extends₃⟩

theorem proceeds_pumpFiles (files : Files) : Proceeds (pumpFiles files) :=
  fun s h => proceeds_serveUpTo files s.requestBound s h

/-! ## Dumps -/

theorem keeps_loadChildren (files : Files) (id : NodeId) :
    Keeps Extends (loadChildren files id) := by
  refine keeps_bind keeps_get fun s => keeps_ite ?_ (keeps_pure _)
  refine keeps_bind (proceeds_whenReady id .nothing).keeps fun _ => ?_
  refine keeps_bind (proceeds_pumpFiles files).keeps fun served => ?_
  cases served with
  | ok _ => exact keeps_pure _
  | error e => exact keeps_pure _

theorem keeps_loadIf (files : Option Files) (id : NodeId) : Keeps Extends (loadIf files id) := by
  cases files with
  | some files => exact keeps_loadChildren files id
  | none => exact keeps_pure _

/-! ## Answers -/

theorem keeps_peekAnswer (id : Option NodeId) : Keeps Explores (peekAnswer id) := by
  refine keeps_bind keeps_get fun s => ?_
  cases id.bind s.peek? with
  | none => exact keeps_pure _
  | some p => exact keeps_pure _

theorem keeps_combinedStats (queries : List (String × Option String)) :
    Keeps Explores (combinedStats queries) := by
  induction queries with
  | nil => exact keeps_pure _
  | cons q qs ih =>
    exact keeps_bind (keeps_combinedStat q.1 q.2) fun _ => keeps_bind ih fun _ => keeps_pure _

theorem keeps_renderText (r : RenderRequest) : Keeps Explores (renderText r) := by
  unfold renderText
  cases r.subject with
  | report combined =>
    refine keeps_bind (keeps_combinedStats combined) fun stats => ?_
    cases r.format with
    | console => exact keeps_consoleReport _ _
    | data => exact keeps_dataReport _ _
    | page => exact keeps_pageReport _
  | node text chain =>
    refine keeps_bind keeps_get fun s => ?_
    cases s.loaded? text with
    | none => exact keeps_pure _
    | some id =>
      refine keeps_ite ?_ (keeps_consoleNode _ _ _)
      exact keeps_bind keeps_get fun _ => keeps_bind (keeps_summaryFrom _ _) fun _ => keeps_pure _
  | tests title query =>
    refine keeps_bind (keeps_searchByTag query) fun ids => ?_
    exact keeps_ite (keeps_bind (keeps_testEntries _) fun _ => keeps_pure _)
      (keeps_bind (keeps_testEntries _) fun _ => keeps_pure _)
  | errors =>
    refine keeps_bind keeps_errorList fun ids => ?_
    exact keeps_ite (keeps_bind keeps_get fun _ => keeps_pure _)
      (keeps_bind keeps_get fun _ => keeps_pure _)

theorem proceeds_remember (label : String) (n : Nat) : Proceeds (remember label n) :=
  proceeds_peripheral fun s => ⟨s.loader.requests, s.loader.queue, s.futures,
    (label, n) :: s.labels.filter (·.1 != label), s.held, s.fired, rfl⟩

theorem keeps_resolveFuture (path : String) : Keeps Extends (resolveFuture path) := by
  refine keeps_bind keeps_rootSuite.extends fun _ => ?_
  refine keeps_bind (proceeds_newFuture path).keeps fun n => ?_
  exact keeps_bind (proceeds_resolvePath path _).keeps fun _ => keeps_pure _

theorem keeps_pathToKeyword (path : String) (sink : Sink) :
    Keeps Extends (pathToKeyword path sink) := by
  refine keeps_bind keeps_rootSuite.extends fun _ => keeps_bind keeps_get fun s => ?_
  refine keeps_ite ?_ (proceeds_deliver sink _).keeps
  refine keeps_bind (keeps_ownerFrom path _ _).extends fun _ => keeps_bind keeps_get fun _ => ?_
  exact (proceeds_resolvePath _ sink).keeps

end RunReport.Session
