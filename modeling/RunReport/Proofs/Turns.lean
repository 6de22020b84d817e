import RunReport.Proofs.Confluence
import RunReport.Proofs.Instances
import RunReport.Proofs.Lineage
/-!
# While a resolution waits

Other requests may come, files may be announced, and a host may serve what was asked for. Whatever
happens, those who wait have the fate that the files give them, and a resolution that has ended has
made every node it tells of.
-/

namespace RunReport

/-! ## What a walk has met -/

namespace Source

variable {src : Source} {p : Plain} {r : Route} {steps : List Segment} {met : List NodeId}

/-- A walk that waits has met the nodes down to where it waits. -/
theorem walk_waits_met {file : String} {node : Route} {step : Segment} {rest : List Segment}
    {met' : List NodeId} (start : met.reverse = r.chain)
    (hw : src.walk steps met r p = .waits file node step rest met') :
    met'.reverse = node.chain := by
  induction steps generalizing met r p with
  | nil => cases hw
  | cons first others ih =>
    simp only [walk] at hw
    cases hm : src.missing? p with
    | some f =>
      rw [hm] at hw
      cases hw
      exact start
    | none =>
      rw [hm] at hw
      cases hc : src.child? p first with
      | error e => rw [hc] at hw; cases hw
      | ok found =>
        rw [hc] at hw
        cases found with
        | none => cases hw
        | some c =>
          refine ih ?_ hw
          rw [List.reverse_cons, start, Route.chain_child]

end Source

namespace Session

open Effects

variable {s s' s'' : Session}

/-- With a node all those above it are registered. -/
theorem Consistent.chain (h : s.Consistent) {r : Route} (hr : (s.branch? r).isSome) :
    ∀ id ∈ r.chain, (s.node? id).isSome := by
  induction r with
  | root =>
    intro id hid
    cases List.mem_singleton.1 hid
    exact hr
  | child owner step ih =>
    intro id hid
    rw [Route.chain_child, List.mem_append, List.mem_singleton] at hid
    rcases hid with above | rfl
    · exact ih (h.owner hr) id above
    · exact hr

/-! ## What has been made -/

/-- If the waiter has come to an end, the nodes it met on its last way are registered. -/
def Fulfils (s : Session) (w : Waiter) : Prop :=
  ∀ node step rest met sink p ids, w = .children node (.resolve step rest met sink) →
    s.source.node? node = .ok (some p) → s.source.walk (step :: rest) met node p = .done (.ok ids) →
    ∀ id ∈ ids, id ∈ met ∨ (s.node? id).isSome

theorem Fulfils.extends {w : Waiter} (h : s.Fulfils w) (source : s'.source = s.source)
    (extension : s.Extends s') : s'.Fulfils w := by
  intro node step rest met sink p ids hw hp done id hid
  rw [source] at hp done
  exact (h node step rest met sink p ids hw hp done id hid).imp_right extension.isSome

theorem resolveFrom_makes (h : s.Consistent) {r : Route} {n : Node} {p : Plain}
    (hn : s.branch? r = some n) (hf : n.Follows s.source p)
    (hp : s.source.node? r = .ok (some p)) (sink : Sink) {steps : List Segment}
    {met ids : List NodeId} (done : s.source.walk steps met r p = .done (.ok ids)) :
    ∀ id ∈ ids, id ∈ met ∨
      (((resolveFrom sink steps met (.branch r)).run s).2.node? id).isSome := by
  obtain ⟨s', consistent, unfolds, run⟩ := resolveFrom_run h hn hf hp sink steps met
  rw [done] at run
  intro id hid
  rw [run.1]
  exact (run.2 ids rfl id hid).imp_right (deliver_goes consistent sink _).extension.isSome

theorem runWaiter_fulfils (h : s.Consistent) {file : String} {payload : SplitPayload} {w : Waiter}
    (a : s.Awaits file payload [w]) : ((runWaiter file payload w).run s).2.Fulfils w := by
  have goes := runWaiter_goes h a
  intro node step rest met sink p ids heq hread done
  subst heq
  obtain ⟨n, hn, hf⟩ := a.nodes (List.mem_singleton_self _)
  have installed := h.install hn hf a.come
  obtain ⟨q, hq, hf'⟩ := installed.follows node _ (branch?_install hn)
  have source : (install node file payload s).source = s.source := unfolds_install.source
  rw [goes.source] at hread done
  cases hread.symm.trans (source ▸ hq)
  exact resolveFrom_makes installed (branch?_install hn) hf' hq sink (source.symm ▸ done)

theorem runWaiters_fulfil (h : s.Consistent) {file : String} {payload : SplitPayload}
    {ws : List Waiter} (a : s.Awaits file payload ws) :
    ∀ w ∈ ws, ((runWaiters file payload ws).run s).2.Fulfils w := by
  induction ws generalizing s with
  | nil => intro w hmem; cases hmem
  | cons w ws ih =>
    have first := runWaiter_goes h a.head
    obtain ⟨s', run, -, extension, source, -⟩ := runWaiters_run first.consistent (a.tail h)
    intro w' hmem
    rcases List.mem_cons.1 hmem with rfl | hmem
    · have rest : ((runWaiters file payload (w' :: ws)).run s).2 = s' := congrArg Prod.snd run
      rw [rest]
      exact (runWaiter_fulfils h a.head).extends source extension
    · exact ih first.consistent (a.tail h) w' hmem

/-- Whoever waits for a file and whose last file it is has made what it met. -/
theorem announce_fulfils (h : s.Consistent) (file : String) (payload : SplitPayload)
    {x : String × Waiter} (hx : x ∈ s.loader.parked) :
    ((announce file payload).run s).2.Fulfils x.2 := by
  obtain ⟨s', run, consistent, extension, files, -⟩ := announce_fates h file payload
  obtain ⟨name, w⟩ := x
  obtain ⟨ws, hs, hw⟩ := (Loader.mem_parked h.distinct).1 hx
  by_cases there : s'.source.files name = none
  · -- The file it waits for has not come.
    rw [run]
    rintro node step rest met sink p ids rfl hp done
    obtain ⟨q, hq, split⟩ := (h.parked_stands hx).within extension.source
    cases hp.symm.trans hq
    simp only [Source.walk, Source.missing?_eq_some.2 ⟨split, there⟩] at done
    cases done
  · have absent : s.source.files name = none := h.parked_missing hx
    have same : name = file := by
      by_contra other
      rw [files, absent, if_neg other] at there
      exact there rfl
    subst same
    have new : s.loader.payload? name = none := absent
    have waiters : (s.loader.announce name payload).1 = ws := by
      simp only [Loader.announce, hs]
    rw [announce_run_new new]
    exact runWaiters_fulfil (h.arrive new payload) (h.awaits new payload) w (waiters ▸ hw)

/-- If the walk down a path has come to an end, the nodes it met are registered. -/
def Arrived (s : Session) (path : String) : Prop :=
  ∀ ids, s.source.resolution path = .done (.ok ids) → ∀ id ∈ ids, (s.node? id).isSome

theorem Arrived.extends {path : String} (h : s.Arrived path) (source : s'.source = s.source)
    (extension : s.Extends s') : s'.Arrived path := by
  intro ids done id hid
  rw [source] at done
  exact extension.isSome (h ids done id hid)

/-- When a file comes, a walk that ends with it has met nodes that were there before and nodes that
have just been made. -/
theorem Arrived.announce {path : String} (arrived : s.Arrived path) (h : s.Consistent)
    (file : String) (payload : SplitPayload) (root : ∃ p, s.source.node? .root = .ok (some p))
    (waiting : ∀ name node step rest met,
      s.source.resolution path = .waits name node step rest met →
      ∃ sink, (name, .children node (.resolve step rest met sink)) ∈ s.loader.parked) :
    ((announce file payload).run s).2.Arrived path := by
  obtain ⟨s', run, consistent, extension, -⟩ := announce_fates h file payload
  obtain ⟨p, hp⟩ := root
  have fulfils := fun x hx => announce_fulfils h file payload (x := x) hx
  simp only [run] at fulfils ⊢
  intro ids done id hid
  cases hw : s.source.resolution path with
  | done result =>
    have same : s'.source.resolution path = .done result := by
      simp only [Source.resolution, hp, extension.source.node? hp] at hw ⊢
      exact extension.source.walk_done (Source.node?_has hp) hw
    cases same.symm.trans done
    exact extension.isSome (arrived ids hw id hid)
  | waits name node step rest met =>
    obtain ⟨sink, parked⟩ := waiting name node step rest met hw
    simp only [Source.resolution, hp, extension.source.node? hp] at hw done
    obtain ⟨q, hq, -, resume⟩ := Source.walk_waits hp hw
    rw [resume _ extension.source] at done
    rcases fulfils _ parked node step rest met _ q ids rfl (extension.source.node? hq) done id hid
      with before | made
    · have chain := Source.walk_waits_met (r := .root) rfl hw
      obtain ⟨ws, hs, hmem⟩ := (Loader.mem_parked h.distinct).1 parked
      obtain ⟨n, hn, -⟩ := h.waiting name ws hs node _ hmem
      refine extension.isSome (h.chain (r := node) (by simp [hn]) id ?_)
      rw [← chain]
      exact List.mem_reverse.2 before
    · exact made

/-! ## Serving -/

/-- Files may have come, and nothing was asked: those whose last file has come are answered, and
whoever is left waits. -/
structure Serves (s s' : Session) (ts : List Task) : Prop where
  tracks : s'.Tracks ts
  extension : s.Extends s'
  fired : s'.fired.Perm (s.fired ++ ts.flatMap (s.source.due s'.source))
  arrived : ∀ path label, .request path label ∈ ts → s.Arrived path → s'.Arrived path

section Serves

variable {ts : List Task}

theorem Serves.refl (h : s.Tracks ts) : s.Serves s ts where
  tracks := h
  extension := .refl s
  fired := by rw [Source.flatMap_due_self, List.append_nil]
  arrived _ _ _ arrived := arrived

theorem due_trans {src src' src'' : Source} (le : src.Within src') (le' : src'.Within src'')
    {t : Task} (stands : src.Stands t) :
    src.due src'' t = src.due src' t ++ src'.due src'' t := by
  have whole := Source.events_fate (le.trans le') stands
  rw [Source.events_fate le' (stands.within le), Source.events_fate le stands,
    List.append_assoc, List.append_cancel_left_eq] at whole
  exact whole.symm

theorem Serves.trans (before : s.Tracks ts) (h : s.Serves s' ts) (h' : s'.Serves s'' ts) :
    s.Serves s'' ts where
  tracks := h'.tracks
  extension := h.extension.trans h'.extension
  fired := by
    have due : ts.flatMap (s.source.due s''.source) =
        ts.flatMap fun t => s.source.due s'.source t ++ s'.source.due s''.source t :=
      List.flatMap_congr fun t ht => due_trans h.extension.source h'.extension.source
        (before.stand t ht)
    refine h'.fired.trans ((h.fired.append_right _).trans ?_)
    rw [due, List.append_assoc]
    exact (List.flatMap_append_perm ts _ _).append_left _
  arrived path label mem arrived := h'.arrived path label mem (h.arrived path label mem arrived)

/-- Who asked for a path and has not been answered waits. -/
theorem Tracks.waits (h : s.Tracks ts) {path label : String} (mem : .request path label ∈ ts)
    {file : String} {node : Route} {step : Segment} {rest : List Segment} {met : List NodeId}
    (waits : s.source.resolution path = .waits file node step rest met) :
    (file, .children node (.resolve step rest met (.callback label))) ∈ s.loader.parked := by
  refine h.parked.mem_iff.2 (List.mem_filterMap.2 ⟨_, mem, ?_⟩)
  simp only [Source.fate, waits]
  rfl

theorem announce_arrives (h : s.Tracks ts) (file : String) (payload : SplitPayload)
    {path label : String} (mem : .request path label ∈ ts) (arrived : s.Arrived path) :
    ((announce file payload).run s).2.Arrived path :=
  arrived.announce h.consistent file payload (h.stand _ mem)
    fun _ _ _ _ _ waits => ⟨_, h.waits mem waits⟩

theorem announce_serves (h : s.Tracks ts) (file : String) (payload : SplitPayload) :
    s.Serves ((announce file payload).run s).2 ts := by
  have arrives : ∀ path label, .request path label ∈ ts → s.Arrived path →
      ((announce file payload).run s).2.Arrived path :=
    fun path label mem => announce_arrives h file payload mem
  obtain ⟨s', run, consistent, extension, -, parked, fired⟩ :=
    announce_fates h.consistent file payload
  simp only [run] at arrives ⊢
  have within := extension.source
  refine ⟨⟨consistent, extension.isSome h.root, ?_, ?_⟩, extension, ?_, arrives⟩
  · exact fun t ht => (h.stand t ht).within within
  · rw [← Source.pending_within within h.stand]
    exact parked.trans (h.parked.filterMap _)
  · refine fired.trans (.append_left _ ((h.parked.flatMap_right _).trans ?_))
    rw [Source.flatMap_pending within h.stand]

theorem pop_serves (h : s.Tracks ts) : s.Serves { s with loader := s.loader.pop.2 } ts := by
  obtain ⟨consistent, extension⟩ := consistent_pop h.consistent
  obtain ⟨queue, eq⟩ := pop_frame s.loader
  have source : ({ s with loader := s.loader.pop.2 } : Session).source = s.source := by
    rw [eq]
    rfl
  refine ⟨⟨consistent, h.root, source ▸ h.stand, ?_⟩, extension, ?_, ?_⟩
  · rw [source]
    refine .trans (.of_eq ?_) h.parked
    simp only [eq]
    rfl
  · rw [source, Source.flatMap_due_self, List.append_nil]
  · exact fun _ _ _ arrived => arrived.extends source extension

theorem serveUpTo_serves (h : s.Tracks ts) (files : Files) (n : Nat) :
    s.Serves (serveUpTo (m := Id) files n s).2 ts := by
  induction n generalizing s with
  | zero => exact .refl h
  | succ n ih =>
    have popped := pop_serves h
    simp only [serveUpTo]
    cases hpop : s.loader.pop with
    | mk request loader =>
      rw [hpop] at popped
      cases request with
      | none => exact .refl h
      | some file =>
        simp only [bind, pure]
        cases files file with
        | error e => exact popped
        | ok text =>
          simp only
          cases SplitPayload.read text with
          | error e => exact popped
          | ok payload =>
            have announced := announce_serves popped.tracks file payload
            have later := ih announced.tracks
            exact popped.trans h (announced.trans popped.tracks later)

end Serves

/-! ## Turns -/

/-- A request, an announcement, or a host that serves what was asked for. -/
inductive Turn where
  | move (m : Move)
  | serve

namespace Turn

def step : Turn → Step
  | .move m => m.step
  | .serve => .report .pump

def task? : Turn → Option Task
  | .move m => m.task?
  | .serve => none

end Turn

section Turns

variable {ts : List Task}

/-- What one turn does. -/
structure Passes (s s' : Session) (t : Turn) (ts : List Task) (events : List Event) : Prop where
  tracks : s'.Tracks (ts ++ t.task?.toList)
  extension : s.Extends s'
  events : events.Perm (ts.flatMap (s.source.due s'.source) ++
    t.task?.toList.flatMap fun t => (s'.source.fate t).events)
  arrived : ∀ path label, .request path label ∈ ts → s.Arrived path → s'.Arrived path

theorem Serves.passes (h : s.Serves s' ts) (silent : s.fired = []) {t : Turn}
    (none : t.task? = none) :
    s.Passes s' t ts s'.fired where
  tracks := by simpa [none] using h.tracks
  extension := h.extension
  events := by simpa [none, silent] using h.fired
  arrived := h.arrived

theorem request_passes (h : s.Tracks ts) (silent : s.fired = []) (path label : String)
    (files : Files) :
    ∃ a s', (stepAnswer files (.report (.resolvePath path label))).run s = (a, s') ∧
      s.Passes s' (.move (.request path label)) ts s'.fired := by
  obtain ⟨s', run, goes⟩ := request_run h.consistent h.root path label files
  obtain ⟨s'', run', advances⟩ := request_advances h silent path label files
  cases run.symm.trans run'
  exact ⟨_, s', run, advances.tracks, goes.extension, advances.events,
    fun _ _ _ arrived => arrived.extends goes.source goes.extension⟩

theorem announce_passes (h : s.Tracks ts) (silent : s.fired = []) (file text : String)
    (files : Files) :
    ∃ a s', (stepAnswer files (.report (.announce file text))).run s = (a, s') ∧
      s.Passes s' (.move (.announce file text)) ts s'.fired := by
  rw [stepAnswer_report h.consistent, answer_run]
  refine ⟨_, _, rfl, Serves.passes ?_ silent rfl⟩
  simp only [reportAnswer, run_bind, run_except]
  cases SplitPayload.read text with
  | error e => exact .refl h
  | ok payload => exact announce_serves h file payload

theorem serve_passes (h : s.Tracks ts) (silent : s.fired = []) (files : Files) :
    ∃ a s', (stepAnswer files (.report .pump)).run s = (a, s') ∧
      s.Passes s' .serve ts s'.fired := by
  have served : s.Serves ((pumpFiles files).run s).2 ts := serveUpTo_serves h files s.requestBound
  rw [stepAnswer_report h.consistent, answer_run]
  refine ⟨_, _, rfl, Serves.passes ?_ silent rfl⟩
  simp only [reportAnswer, run_bind, run_state]
  cases ((pumpFiles files).run s).1 with
  | error e => exact served
  | ok n => exact served

theorem turn_passes (h : s.Tracks ts) (files : Files) (t : Turn) :
    ∃ a s', (step files t.step).run s = ((a, s'.fired), s') ∧ s.Passes s' t ts s'.fired := by
  have silent : ({ s with fired := [] } : Session).Tracks ts := h.silent
  have run : ∃ a s', (stepAnswer files t.step).run { s with fired := [] } = (a, s') ∧
      ({ s with fired := [] } : Session).Passes s' t ts s'.fired := by
    cases t with
    | serve => exact serve_passes silent rfl files
    | move m =>
      cases m with
      | request path label => exact request_passes silent rfl path label files
      | announce file text => exact announce_passes silent rfl file text files
  obtain ⟨a, s', run, passes⟩ := run
  exact ⟨a, s', step_run run, passes.tracks, ⟨passes.extension.source, passes.extension.nodes⟩,
    passes.events, passes.arrived⟩

/-- Turns one after the other; each may be served from other files. -/
def turns (ts : List (Files × Turn)) : StateM Session (List (Answer × List Event)) :=
  play (ts.map fun t => (t.1, t.2.step))

theorem turns_cons (files : Files) (t : Turn) (later : List (Files × Turn)) {a : Answer}
    {events : List Event} (h : (step files t.step).run s = ((a, events), s')) :
    (turns ((files, t) :: later)).run s =
      ((a, events) :: ((turns later).run s').1, ((turns later).run s').2) := by
  simp only [turns, List.map_cons, play, state_bind, h]
  rfl

/-- What a run of turns does: in the end everybody is where the files lead them, and the callbacks
that ran are those of the tasks that have ended. -/
theorem turns_track (h : s.Tracks ts) (later : List (Files × Turn)) :
    ((turns later).run s).2.Tracks (ts ++ later.filterMap (·.2.task?)) ∧
    s.Extends ((turns later).run s).2 ∧
    (((turns later).run s).1.flatMap (·.2) ++ ts.flatMap fun t => (s.source.fate t).events).Perm
      ((ts ++ later.filterMap (·.2.task?)).flatMap
        fun t => (((turns later).run s).2.source.fate t).events) ∧
    ∀ path label, .request path label ∈ ts → s.Arrived path →
      ((turns later).run s).2.Arrived path := by
  induction later generalizing s ts with
  | nil =>
    have run : (turns []).run s = ([], s) := rfl
    rw [run]
    refine ⟨?_, .refl _, ?_, fun _ _ _ arrived => arrived⟩
    · simpa using h
    · exact .of_eq (by simp)
  | cons t later ih =>
    obtain ⟨files, t⟩ := t
    obtain ⟨a, s₁, run, passes⟩ := turn_passes h files t
    obtain ⟨tracks, extension, events, arrived⟩ := ih passes.tracks
    have tasks : ts ++ ((files, t) :: later).filterMap (·.2.task?) =
        ts ++ t.task?.toList ++ later.filterMap (·.2.task?) := by
      rw [List.filterMap_cons, List.append_assoc]
      cases t.task? <;> rfl
    rw [turns_cons files t later run, tasks]
    refine ⟨tracks, passes.extension.trans extension, .trans ?_ events, ?_⟩
    · rw [List.flatMap_cons, List.append_assoc]
      refine (List.perm_append_comm_assoc ..).trans ?_
      exact (answered_gained passes.extension.source h.stand passes.events).append_left _
    · intro path label mem known
      exact arrived path label (by simp [mem]) (passes.arrived path label mem known)

end Turns

end Session

end RunReport
