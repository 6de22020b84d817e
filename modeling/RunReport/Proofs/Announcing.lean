import RunReport.Proofs.Waiting
/-!
# What an announcement sets off

Those who wait for a file go on one after the other when it arrives. Each of them ends, with the
callbacks it runs, or waits for another file; which of the two is said by the source alone.
-/

namespace RunReport

/-- What becomes of somebody who goes on. -/
inductive Outcome where
  | ends (events : List Event)
  | waits (file : String) (w : Waiter)

namespace Outcome

def events : Outcome → List Event
  | .ends events => events
  | .waits _ _ => []

def loader (l : Loader Waiter) : Outcome → Loader Waiter
  | .ends _ => l
  | .waits file w => (l.ensure file w).2

end Outcome

/-- The callbacks that run when a result is there. -/
def Sink.events (result : Except Error (List NodeId)) : Sink → List Event
  | .callback label => [.resolved label result]
  | .future _ => []

def Walk.outcome (sink : Sink) : Walk → Outcome
  | .done result => .ends (sink.events result)
  | .waits file node step rest met => .waits file (.children node (.resolve step rest met sink))

/-- What becomes of a waiter once its file is there. -/
def Source.outcome (src : Source) : Waiter → Outcome
  | .payload _ => .ends []
  | .children _ .nothing => .ends []
  | .children node (.notify label) => .ends [.ready label (.branch node) (src.sight? node)]
  | .children node (.resolve step rest met sink) =>
    match src.node? node with
    | .ok (some p) => (src.walk (step :: rest) met node p).outcome sink
    | _ => .ends []

namespace Session

open Effects

/-- What was done led to the outcome and had no other effect on who waits and who was called. -/
structure Goes (s s' : Session) (o : Outcome) : Prop where
  consistent : s'.Consistent
  extension : s.Extends s'
  source : s'.source = s.source
  loader : s'.loader = o.loader s.loader
  fired : s'.fired = s.fired ++ o.events
  missing : ∀ file w, o = .waits file w → s.source.files file = none

variable {s s' s'' : Session}

theorem Unfolds.goes {o : Outcome} (h : s.Unfolds s') (h' : s'.Goes s'' o) : s.Goes s'' o where
  consistent := h'.consistent
  extension := h.extends.trans h'.extension
  source := h'.source.trans h.source
  loader := h.loader ▸ h'.loader
  fired := h.fired ▸ h'.fired
  missing := h.source ▸ h'.missing

theorem Consistent.stays (h : s.Consistent) : s.Goes s (.ends []) :=
  ⟨h, .refl s, rfl, rfl, (List.append_nil _).symm, fun _ _ hw => (by cases hw)⟩

theorem fire_goes (h : s.Consistent) (e : Event) : s.Goes ((fire e).run s).2 (.ends [e]) :=
  ⟨h.peripheral s.loader.requests s.loader.queue s.futures s.labels s.held _,
    ⟨.refl _, fun _ n hn => ⟨n, hn, rfl⟩⟩, rfl, rfl, rfl, fun _ _ hw => (by cases hw)⟩

theorem call_goes (h : s.Consistent) {r : Route} {n : Node} (hn : s.branch? r = some n)
    (ready : n.missingFile? = none) (label : String) :
    s.Goes ((call (.branch r) label).run s).2
      (.ends [.ready label (.branch r) (s.source.sight? r)]) := by
  obtain ⟨p, hp, hf⟩ := h.follows r n hn
  have run : (call (.branch r) label).run s =
      (fire (.ready label (.branch r) ((s.branch? r).map Node.sight))).run s := rfl
  rw [run, hn, Option.map_some, sight_of_ready hf hp ready]
  exact fire_goes h _

theorem settle_goes (h : s.Consistent) (n : Nat) (result : Except Error FutureValue) :
    s.Goes (settle n result s) (.ends []) :=
  ⟨h.peripheral s.loader.requests s.loader.queue _ s.labels s.held s.fired,
    ⟨.refl _, fun _ n hn => ⟨n, hn, rfl⟩⟩, rfl, rfl, (List.append_nil _).symm,
    fun _ _ hw => (by cases hw)⟩

theorem deliver_goes (h : s.Consistent) (sink : Sink) (result : Except Error (List NodeId)) :
    s.Goes ((deliver sink result).run s).2 (.ends (sink.events result)) := by
  cases sink with
  | callback label => exact fire_goes h _
  | future n => exact settle_goes h n _

theorem park_goes (h : s.Consistent) {file : String} {w : Waiter}
    (hw : ∀ node next, w = .children node next →
      ∃ n, s.branch? node = some n ∧ n.splitFile? = some file)
    (missing : s.source.files file = none) : s.Goes (park file w s) (.waits file w) :=
  ⟨h.park hw, extends_park file w, source_park file w, rfl, (List.append_nil _).symm,
    fun _ _ hw => by cases hw; exact missing⟩

theorem resolveFrom_goes (h : s.Consistent) {r : Route} {n : Node} {p : Plain}
    (hn : s.branch? r = some n) (hf : n.Follows s.source p)
    (hp : s.source.node? r = .ok (some p)) (sink : Sink) (steps : List Segment)
    (met : List NodeId) :
    s.Goes ((resolveFrom sink steps met (.branch r)).run s).2
      ((s.source.walk steps met r p).outcome sink) := by
  obtain ⟨s', consistent, unfolds, run⟩ := resolveFrom_run h hn hf hp sink steps met
  refine unfolds.goes ?_
  cases hw : s.source.walk steps met r p with
  | done result =>
    rw [hw] at run
    rw [run.1]
    exact deliver_goes consistent sink result
  | waits file node step rest met' =>
    rw [hw] at run
    rw [run.1]
    obtain ⟨q, -, missing, -⟩ := Source.walk_waits hp hw
    refine park_goes consistent ?_ (unfolds.source ▸ (Source.missing?_eq_some.1 missing).2)
    rintro node' next ⟨⟩
    exact run.2

/-- The file has come for those who wait, and the keywords of the nodes they wait for stand in it. -/
structure Awaits (s : Session) (file : String) (payload : SplitPayload) (ws : List Waiter) :
    Prop where
  come : s.source.files file = some payload
  nodes : ∀ {node next}, .children node next ∈ ws →
    ∃ n, s.branch? node = some n ∧ n.splitFile? = some file

section Waiters

variable {file : String} {payload : SplitPayload} {w : Waiter} {ws : List Waiter}

theorem Awaits.head (a : s.Awaits file payload (w :: ws)) : s.Awaits file payload [w] :=
  ⟨a.come, fun mem => a.nodes (List.mem_cons.2 (.inl (List.mem_singleton.1 mem)))⟩

/-- Somebody whose file has come puts the keywords in place and goes on. -/
theorem runWaiter_goes (h : s.Consistent) (a : s.Awaits file payload [w]) :
    s.Goes ((runWaiter file payload w).run s).2 (s.source.outcome w) := by
  cases w with
  | payload n => exact settle_goes h n _
  | children node next =>
    obtain ⟨n, hn, hf⟩ := a.nodes (List.mem_singleton_self _)
    have installed := h.install hn hf a.come
    have unfolds : s.Unfolds (install node file payload s) := unfolds_install
    have run : (runWaiter file payload (.children node next)).run s =
        (runNext (.branch node) next).run (install node file payload s) := rfl
    rw [run]
    refine unfolds.goes ?_
    cases next with
    | nothing => exact installed.stays
    | notify label =>
      have goes := call_goes installed (branch?_install hn)
        (Node.missingFile?_install hf payload.keywords (.split file)) label
      rw [unfolds.source] at goes
      exact goes
    | resolve step rest met sink =>
      obtain ⟨p, hread, hf'⟩ := installed.follows node _ (branch?_install hn)
      have goes := resolveFrom_goes installed (branch?_install hn) hf' hread sink (step :: rest) met
      rw [unfolds.source] at hread goes
      simp only [Source.outcome, hread]
      exact goes

/-- Who waits for a file still does when others have gone on. -/
theorem Extends.still_waits (h : s.Extends s') (before : s.Consistent) (after : s'.Consistent)
    {r : Route} {file : String} (hr : ∃ n, s.branch? r = some n ∧ n.splitFile? = some file) :
    ∃ n, s'.branch? r = some n ∧ n.splitFile? = some file := by
  obtain ⟨n, hn, hf⟩ := hr
  obtain ⟨n', hn', hf'⟩ := h.splitFile? before after hn
  exact ⟨n', hn', hf'.trans hf⟩

/-- Once the first of them has gone on, the others wait as before. -/
theorem Awaits.tail (a : s.Awaits file payload (w :: ws)) (h : s.Consistent) :
    ((runWaiter file payload w).run s).2.Awaits file payload ws := by
  have first := runWaiter_goes h a.head
  exact ⟨first.source ▸ a.come, fun mem =>
    first.extension.still_waits h first.consistent (a.nodes (List.mem_cons_of_mem w mem))⟩

/-- Those who waited go on in turn. -/
theorem runWaiters_run (h : s.Consistent) (a : s.Awaits file payload ws) :
    ∃ s', (runWaiters file payload ws).run s = ((), s') ∧ s'.Consistent ∧ s.Extends s' ∧
      s'.source = s.source ∧
      s'.loader = ws.foldl (fun l w => (s.source.outcome w).loader l) s.loader ∧
      s'.fired = s.fired ++ ws.flatMap (fun w => (s.source.outcome w).events) ∧
      ∀ w ∈ ws, ∀ file w', s.source.outcome w = .waits file w' → s.source.files file = none := by
  induction ws generalizing s with
  | nil =>
    exact ⟨s, rfl, h, .refl s, rfl, rfl, (List.append_nil _).symm, fun _ hw => (by cases hw)⟩
  | cons w ws ih =>
    have first := runWaiter_goes h a.head
    obtain ⟨s', run, consistent, extension, source, loader, fired, missing⟩ :=
      ih first.consistent (a.tail h)
    simp only [first.source] at source loader fired missing
    refine ⟨s', run, consistent, first.extension.trans extension, source, ?_, ?_, ?_⟩
    · rw [loader, first.loader]
      rfl
    · rw [fired, first.fired, List.append_assoc]
      rfl
    · intro w' hmem
      rcases List.mem_cons.1 hmem with rfl | hmem
      · exact first.missing
      · exact missing w' hmem

end Waiters

/-! ## Announcements -/

/-- The session when a file has arrived and nobody has gone on yet. -/
def arrive (file : String) (payload : SplitPayload) (s : Session) : Session :=
  { s with loader := (s.loader.announce file payload).2
           splitStrings := (file, .ofEntries payload.strings) :: s.splitStrings }

section Arrive

variable {file : String} {payload : SplitPayload}

theorem files_arrive (new : s.loader.payload? file = none) (name : String) :
    (arrive file payload s).source.files name =
      if name = file then some payload else s.source.files name := by
  simp only [source, arrive, Loader.payload?_announce, new, Option.getD_none]

theorem within_arrive (new : s.loader.payload? file = none) (payload : SplitPayload) :
    s.source.Within (arrive file payload s).source := by
  refine ⟨rfl, rfl, rfl, ?_⟩
  intro name p hp
  rw [files_arrive new]
  by_cases hn : name = file
  · subst hn
    rw [source_files, new] at hp
    cases hp
  · rw [if_neg hn]
    exact hp

theorem Consistent.arrive (h : s.Consistent) (new : s.loader.payload? file = none)
    (payload : SplitPayload) :
    (arrive file payload s).Consistent where
  isOpen := h.isOpen
  texts := fun _ _ _ kept =>
    Extends.texts ⟨within_arrive new payload, fun _ n hn => ⟨n, hn, rfl⟩⟩ h.toFaithful kept
  tables := by
    intro ref
    cases ref with
    | main => exact h.tables .main
    | split name =>
      simp only [Source.entries, files_arrive new]
      by_cases hn : name = file
      · subst hn
        simp only [tableOf, Session.arrive, List.lookup_cons, beq_self_eq_true, Option.getD_some,
          if_true, Option.map_some]
        exact ⟨StringTable.sound_ofEntries _, rfl⟩
      · have same : (Session.arrive file payload s).tableOf (.split name) =
            s.tableOf (.split name) := by
          simp only [tableOf, Session.arrive, List.lookup_cons, beq_eq_false_iff_ne.2 hn]
        rw [same, if_neg hn]
        exact h.tables (.split name)
  unique := h.unique
  follows := by
    intro r n hn
    obtain ⟨p, hp, hf⟩ := h.follows r n hn
    have within := within_arrive new payload
    exact ⟨p, within.node? hp, hf.within within⟩
  filled := h.filled
  counted := h.counted
  logged := h.logged
  recorded := by
    intro owner l i id hl hi
    obtain ⟨raw, record, hraw, read, hm⟩ := h.recorded owner l i id hl hi
    refine ⟨raw, record, hraw, ?_, hm⟩
    obtain ⟨n, p, items, table, -, -, -, hp, hitems, reads⟩ := h.list hl
    have has : s.source.Has l.table := reads.table ▸ Source.items?_has (Source.node?_has hp) hitems
    rw [(within_arrive new payload).readIn has]
    exact read
  errors := h.errors
  failures := h.failures
  distinct := Loader.nodup_announce h.distinct file payload
  waiting := by
    intro file' ws hs node next hw
    simp only [Session.arrive, Loader.state?_announce] at hs
    by_cases hf : file' = file
    · rw [if_pos hf] at hs
      cases hs
    · rw [if_neg hf] at hs
      exact h.waiting file' ws hs node next hw
  owned := h.owned

theorem announce_run_loaded {p : SplitPayload} (there : s.loader.payload? file = some p) :
    (announce file payload).run s = ((), s) := by
  have loaded : s.loader.isLoaded file = true := by rw [Loader.isLoaded_iff, there]; rfl
  simp only [announce, state_bind, StateT.run_get, pure, loaded]
  rfl

theorem announce_run_new (new : s.loader.payload? file = none) :
    (announce file payload).run s =
      (runWaiters file payload (s.loader.announce file payload).1).run (arrive file payload s) := by
  have loaded : s.loader.isLoaded file = false := by rw [Loader.isLoaded_iff, new]; rfl
  simp only [announce, state_bind, StateT.run_get, pure, loaded]
  rfl

/-- The waiters that an announcement releases. -/
theorem announce_fst (l : Loader Waiter) (file : String) (payload : SplitPayload) (w : Waiter) :
    w ∈ (l.announce file payload).1 → ∃ ws, l.state? file = some (.pending ws) ∧ w ∈ ws := by
  simp only [Loader.announce]
  cases l.state? file with
  | none => intro h; cases h
  | some state =>
    cases state with
    | loaded p => intro h; cases h
    | pending ws => exact fun h => ⟨ws, rfl, h⟩

/-- A new file has come for all who wait for it. -/
theorem Consistent.awaits (h : s.Consistent) (new : s.loader.payload? file = none)
    (payload : SplitPayload) :
    (Session.arrive file payload s).Awaits file payload (s.loader.announce file payload).1 := by
  refine ⟨by rw [files_arrive new, if_pos rfl], fun {node next} mem => ?_⟩
  obtain ⟨ws, hs, mem⟩ := announce_fst _ _ _ _ mem
  exact h.waiting file ws hs node next mem

/-- All who wait for a new file go on in turn. -/
theorem announce_run (h : s.Consistent) (new : s.loader.payload? file = none)
    (payload : SplitPayload) :
    ∃ s', (announce file payload).run s = ((), s') ∧ s'.Consistent ∧ s.Extends s' ∧
      s'.source = (arrive file payload s).source ∧
      s'.loader = (s.loader.announce file payload).1.foldl
        (fun l w => (s'.source.outcome w).loader l) (s.loader.announce file payload).2 ∧
      s'.fired = s.fired ++
        (s.loader.announce file payload).1.flatMap (fun w => (s'.source.outcome w).events) ∧
      ∀ w ∈ (s.loader.announce file payload).1, ∀ name w',
        s'.source.outcome w = .waits name w' → s'.source.files name = none := by
  obtain ⟨s', run, consistent, extension, source, loader, fired, missing⟩ :=
    runWaiters_run (h.arrive new payload) (h.awaits new payload)
  refine ⟨s', (announce_run_new new).trans run, consistent, ?_, source, ?_, ?_, ?_⟩
  · exact Extends.trans ⟨within_arrive new payload, fun _ n hn => ⟨n, hn, rfl⟩⟩ extension
  · rw [source]; exact loader
  · rw [source]; exact fired
  · rw [source]; exact missing

end Arrive

end Session

end RunReport
