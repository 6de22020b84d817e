import RunReport.Proofs.Instances
import RunReport.Proofs.Preloading
/-!
# Telling of children

Whoever wants to be told that the children of a node can be read is told once, or still waits for the
split file of the node. When somebody is told, the keywords are there, as many as there are records;
from then on the list stays the same, whatever is announced. Nodes that share a split file have the
same records but keywords of their own.
-/

namespace RunReport

/-- Where the keywords of a test or keyword stand. -/
def Node.keywordSource? : Node → Option KeywordSource
  | .test t => some t.record.keywords
  | .keyword k => some k.record.keywords
  | _ => none

theorem Node.keywordSource?_of_plain {n : Node} {p : Plain} (h : n.plain? = some p) :
    n.keywordSource? = p.keywordSource? := by
  cases n <;> cases h <;> rfl

theorem Node.Follows.keywordSource? {src : Source} {n : Node} {p : Plain} (h : n.Follows src p)
    {file : String} (split : n.splitFile? = some file) :
    n.keywordSource? = some (.split file) := by
  rw [h.splitFile] at split
  obtain ⟨k, hk, hfile⟩ := Option.bind_eq_some_iff.1 split
  rw [Node.keywordSource?_of_plain h.plain, hk]
  cases k <;> cases hfile
  rfl

namespace Session

open Effects

variable {s s' s'' : Session} {r : Route} {n : Node} {id : NodeId} {label : String}
  {more more' : List (NodeId × String)} {events events' : List Event}

/-! ## What there is to read -/

/-- The records that keywords are made from: those at hand, or those of the split file, if it has
come. -/
def recordsOf? (s : Session) : KeywordSource → Option (List Raw)
  | .inline items => some items
  | .split file => (s.loader.payload? file).map (·.keywords)

theorem recordsOf?_eq (s : Session) (k : KeywordSource) (t : TableRef) :
    s.recordsOf? k = (s.source.keywordItems? t k).map Prod.fst := by
  cases k with
  | inline items => rfl
  | split file =>
    rw [Source.keywordItems?, Option.map_map]
    rfl

theorem items?_of_keywordSource? {src : Source} {p : Plain} {k : KeywordSource}
    (h : p.keywordSource? = some k) : src.items? p .keyword = src.keywordItems? p.table k := by
  cases p <;> cases h <;> rfl

/-- A list of keywords has the records of its node. -/
theorem Consistent.records (h : s.Consistent) (hn : s.branch? r = some n) {k : KeywordSource}
    (hk : n.keywordSource? = some k) {l : ChildList} (hl : n.list? .keyword = some l) :
    s.recordsOf? k = some l.items ∧ l.made.length = l.items.length := by
  obtain ⟨p, -, hf⟩ := h.follows r n hn
  obtain ⟨items, t, hi, reads⟩ := hf.listed .keyword l hl
  have source := (Node.keywordSource?_of_plain hf.plain).symm.trans hk
  rw [items?_of_keywordSource? source] at hi
  rw [recordsOf?_eq s k p.table, hi, reads.length, reads.items]
  exact ⟨rfl, rfl⟩

/-- Whoever was told of a node saw, if it is a test or keyword, that its keywords were there, as many
as there are records. -/
def Truthful (s : Session) (id : NodeId) (sight : Option Node.Sight) : Prop :=
  ∃ n, s.node? id = some n ∧ ∀ k, n.keywordSource? = some k →
    ∃ items, s.recordsOf? k = some items ∧ sight = some ⟨true, some items.length⟩

theorem Consistent.truthful (h : s.Consistent) (hn : s.node? id = some n)
    (ready : n.missingFile? = none) : s.Truthful id (some n.sight) := by
  refine ⟨n, hn, fun k hk => ?_⟩
  cases id with
  | message number =>
    obtain ⟨m, rfl⟩ := h.logged number n hn
    cases hk
  | branch r =>
    obtain ⟨p, -, hf⟩ := h.follows r n hn
    have there := listed_of_ready hf ready
    obtain ⟨l, hl⟩ := Option.isSome_iff_exists.1 there
    obtain ⟨records, length⟩ := h.records hn hk hl
    refine ⟨l.items, records, ?_⟩
    simp only [Node.sight, Node.isLoaded_of_list? there, hl, Option.map_some, length]

theorem recordsOf?_later (e : s.Extends s') {k : KeywordSource} {items : List Raw}
    (there : s.recordsOf? k = some items) : s'.recordsOf? k = some items := by
  cases k with
  | inline items => exact there
  | split file =>
    obtain ⟨p, hp, rfl⟩ := Option.map_eq_some_iff.1 there
    exact Option.map_eq_some_iff.2 ⟨p, e.source.files file p hp, rfl⟩

theorem keywordSource?_eq {n' : Node} (same : n'.plain? = n.plain?) :
    n'.keywordSource? = n.keywordSource? := by
  cases hp : n.plain? with
  | none =>
    rw [hp] at same
    cases n <;> cases hp
    cases n' <;> cases same
    rfl
  | some p =>
    rw [Node.keywordSource?_of_plain hp, Node.keywordSource?_of_plain (same.trans hp)]

/-- What was seen stays what there is. -/
theorem Truthful.later {sight : Option Node.Sight} (h : s.Truthful id sight) (e : s.Extends s') :
    s'.Truthful id sight := by
  obtain ⟨n, hn, seen⟩ := h
  obtain ⟨n', hn', same⟩ := e.nodes id n hn
  refine ⟨n', hn', fun k hk => ?_⟩
  obtain ⟨items, records, sight⟩ := seen k (keywordSource?_eq same ▸ hk)
  exact ⟨items, recordsOf?_later e records, sight⟩

/-! ## Who is told -/

/-- Those who wait to be told. -/
def expecting (l : Loader Waiter) : List (NodeId × String) :=
  l.waiters.filterMap told?

theorem expecting_perm {l l' : Loader Waiter} {ws : List (String × Waiter)}
    (h : l'.parked.Perm (l.parked ++ ws)) :
    (expecting l').Perm (expecting l ++ (ws.map Prod.snd).filterMap told?) := by
  simp only [expecting, Loader.waiters_eq_parked]
  have all := (h.map Prod.snd).filterMap told?
  rwa [List.map_append, List.filterMap_append] at all

/-- Whom events told of children, in order. -/
def heard (events : List Event) : List (NodeId × String) :=
  events.filterMap fun
    | .ready label id _ => some (id, label)
    | .resolved _ _ => none

theorem heard_append (events events' : List Event) :
    heard (events ++ events') = heard events ++ heard events' :=
  List.filterMap_append

/-- The session has gone on: `more` have come to those who want to be told, and `events` have
happened. Those who waited and those who have come were told or wait; who was told saw the truth; and
no node is held that is not there. -/
structure Tally (more : List (NodeId × String)) (events : List Event) (s s' : Session) : Prop where
  goesOn : s.Extends s'
  callers : (heard events ++ expecting s'.loader).Perm (expecting s.loader ++ more)
  truthful : ∀ label id sight, .ready label id sight ∈ events → s'.Truthful id sight
  held : ∀ x ∈ s'.held, x ∈ s.held ∨ (s'.node? x.2).isSome

theorem Tally.trans (h : Tally more events s s') (h' : Tally more' events' s' s'') :
    Tally (more ++ more') (events ++ events') s s'' := by
  refine ⟨h.goesOn.trans h'.goesOn, ?_, ?_, ?_⟩
  · rw [heard_append, List.append_assoc]
    refine (h'.callers.append_left _).trans ?_
    rw [← List.append_assoc, ← List.append_assoc]
    exact h.callers.append_right _
  · intro label id sight mem
    rcases List.mem_append.1 mem with old | young
    · exact (h.truthful label id sight old).later h'.goesOn
    · exact h'.truthful label id sight young
  · intro x hx
    rcases h'.held x hx with old | there
    · exact (h.held x old).imp id h'.goesOn.isSome
    · exact .inr there

/-- Nobody was told. -/
theorem tally_of_expecting (e : s.Extends s') (nobody : heard events = [])
    (held : ∀ x ∈ s'.held, x ∈ s.held ∨ (s'.node? x.2).isSome)
    (waits : (expecting s'.loader).Perm (expecting s.loader ++ more)) : Tally more events s s' := by
  refine ⟨e, by rwa [nobody], fun label id sight mem => ?_, held⟩
  have told : (id, label) ∈ heard events := List.mem_filterMap.2 ⟨_, mem, rfl⟩
  rw [nobody] at told
  cases told

/-- Nobody was told, and those who wait are the same. -/
theorem tally_of_loader (e : s.Extends s') (held : s'.held = s.held)
    (loader : s'.loader = s.loader) (nobody : heard events = []) : Tally [] events s s' :=
  tally_of_expecting e nobody (fun _ hx => .inl (held ▸ hx)) (by rw [loader, List.append_nil])

/-- The same in the course of a step, whose events are noted as they happen. -/
def Gains (more : List (NodeId × String)) (s s' : Session) : Prop :=
  ∃ events, s'.fired = s.fired ++ events ∧ Tally more events s s'

theorem Gains.trans (h : Gains more s s') (h' : Gains more' s' s'') :
    Gains (more ++ more') s s'' := by
  obtain ⟨events, fired, tally⟩ := h
  obtain ⟨events', fired', tally'⟩ := h'
  exact ⟨events ++ events', by rw [fired', fired, List.append_assoc], tally.trans tally'⟩

theorem gains_of_loader (e : s.Extends s') (held : s'.held = s.held)
    (loader : s'.loader = s.loader) (fired : s'.fired = s.fired) : Gains [] s s' :=
  ⟨[], by rw [fired, List.append_nil], tally_of_loader e held loader rfl⟩

theorem Gains.refl (s : Session) : Gains [] s s :=
  gains_of_loader (.refl s) rfl rfl rfl

theorem gains_park {file : String} (missing : s.source.files file = none) (w : Waiter) :
    Gains (told? w).toList s (park file w s) := by
  refine ⟨[], (List.append_nil _).symm, tally_of_expecting (extends_park file w) rfl
    (fun _ hx => .inl hx) ?_⟩
  refine (expecting_perm (Loader.parked_ensure missing w)).trans (.append_left _ ?_)
  cases told : told? w <;> simp [told]

instance : Roaming (Gains []) where
  refl := Gains.refl
  trans := Gains.trans
  explores e := gains_of_loader e.extends e.held e.loader e.fired
  install _ _ _ := gains_of_loader unfolds_install.extends rfl rfl rfl
  park missing w quiet := by
    have gains := gains_park missing w
    rwa [quiet] at gains
  aside _ _ _ := gains_of_loader ⟨.refl _, fun _ n hn => ⟨n, hn, rfl⟩⟩ rfl rfl rfl
  resolved _ label result :=
    ⟨[.resolved label result], rfl, tally_of_loader ⟨.refl _, fun _ n hn => ⟨n, hn, rfl⟩⟩ rfl rfl rfl⟩

/-! ## Telling -/

/-- Whoever is told of a node whose children can be read is told the truth. -/
theorem call_gains (h : s.Consistent) (hn : s.node? id = some n) (ready : n.missingFile? = none)
    (label : String) : Gains [(id, label)] s ((call id label).run s).2 := by
  have e : s.Extends ((call id label).run s).2 := ⟨.refl _, fun _ n hn => ⟨n, hn, rfl⟩⟩
  refine ⟨[.ready label id (some n.sight)], ?_, e, List.perm_append_comm, ?_, fun _ hx => .inl hx⟩
  · have fired : ((call id label).run s).2.fired =
        s.fired ++ [.ready label id ((s.node? id).map Node.sight)] := rfl
    rw [fired, hn, Option.map_some]
  · intro label' id' sight mem
    cases List.mem_singleton.1 mem
    exact (h.truthful hn ready).later e

/-- Whoever asks for the children of a node is told at once or waits. -/
theorem whenReady_gains (h : s.Consistent) (registered : (s.node? id).isSome) (label : String) :
    Gains [(id, label)] s ((whenReady id (.notify label)).run s).2 := by
  obtain ⟨n, hn⟩ := Option.isSome_iff_exists.1 registered
  cases id with
  | message number =>
    obtain ⟨m, rfl⟩ := h.logged number n hn
    exact call_gains h hn rfl label
  | branch r =>
    cases hm : n.missingFile? with
    | none =>
      have told := call_gains h hn hm label
      simp only [whenReady, state_bind, ready_run_loaded hn hm]
      exact told
    | some file =>
      cases there : s.loader.payload? file with
      | none =>
        simp only [whenReady, state_bind, ready_run_absent hn hm there]
        exact gains_park there (.children r (.notify label))
      | some payload =>
        have split := (Node.missingFile?_eq_some.1 hm).2
        have placed : Gains [] s (install r file payload s) := Roaming.install hn split payload
        have told := call_gains (h.install hn split there)
          (show (install r file payload s).node? (.branch r) = _ from branch?_install hn)
          (Node.missingFile?_install split payload.keywords (.split file)) label
        simp only [whenReady, state_bind, ready_run_arrived hn hm there]
        exact placed.trans told

theorem runWaiter_gains (h : s.Consistent) {file : String} {payload : SplitPayload} {w : Waiter}
    (a : s.Awaits file payload [w]) :
    Gains (told? w).toList s ((runWaiter file payload w).run s).2 := by
  cases w with
  | payload number => exact Roaming.aside (R := Gains []) s _ s.labels
  | children node next =>
    obtain ⟨n, hn, split⟩ := a.nodes (List.mem_singleton_self _)
    have installed := h.install hn split a.come
    have placed : Gains [] s (install node file payload s) := Roaming.install hn split payload
    cases next with
    | nothing => exact placed
    | notify label =>
      refine placed.trans (call_gains installed (n := n.install payload.keywords (.split file)) ?_ ?_
        label)
      · exact branch?_install hn
      · exact Node.missingFile?_install split payload.keywords (.split file)
    | resolve step rest met sink =>
      have quiet : ∀ r, told? (.children r (.resolve step rest met sink)) = none := fun _ => rfl
      have walked := (roams_runNext (R := Gains []) (.branch node) quiet _ installed).2
      exact placed.trans walked

theorem runWaiters_gains (h : s.Consistent) {file : String} {payload : SplitPayload}
    {ws : List Waiter} (a : s.Awaits file payload ws) :
    Gains (ws.filterMap told?) s ((runWaiters file payload ws).run s).2 := by
  induction ws generalizing s with
  | nil => exact .refl s
  | cons w ws ih =>
    have first := runWaiter_goes h a.head
    have all := (runWaiter_gains h a.head).trans (ih first.consistent (a.tail h))
    have split : (w :: ws).filterMap told? = (told? w).toList ++ ws.filterMap told? := by
      cases told : told? w <;> simp [told]
    rw [split]
    exact all

/-- Those who waited for a file are told when it comes, and nobody is told twice. -/
theorem announce_gains (h : s.Consistent) (file : String) (payload : SplitPayload) :
    Gains [] s ((announce file payload).run s).2 := by
  cases there : s.loader.payload? file with
  | some p =>
    rw [announce_run_loaded there]
    exact .refl s
  | none =>
    rw [announce_run_new there]
    have told := runWaiters_gains (h.arrive there payload) (h.awaits there payload)
    have released : (expecting s.loader).Perm (expecting (arrive file payload s).loader ++
        (s.loader.announce file payload).1.filterMap told?) := by
      have perm := expecting_perm (Loader.parked_announce s.loader file payload).symm
      rw [List.map_map, Function.comp_def, List.map_id'] at perm
      exact perm
    obtain ⟨events, fired, told⟩ := told
    refine ⟨events, fired, Extends.trans ⟨within_arrive there payload, fun _ n hn => ⟨n, hn, rfl⟩⟩
      told.goesOn, ?_, told.truthful, told.held⟩
    rw [List.append_nil]
    exact told.callers.trans released.symm

instance : Errand (Gains []) where
  resolved := Roaming.resolved
  load h id := (roams_load id _ h).2
  resolvePath h path _ := (roams_resolvePath path _ _ h).2
  announce := announce_gains

instance : Taking (Gains []) where
  pop s := by
    obtain ⟨queue, eq⟩ := pop_frame s.loader
    rw [eq]
    exact ⟨[], (List.append_nil _).symm, tally_of_expecting ⟨.refl _, fun _ n hn => ⟨n, hn, rfl⟩⟩ rfl
      (fun _ hx => .inl hx) (by rw [List.append_nil]; exact .refl _)⟩

/-! ## Steps -/

/-- Who wants to be told of children by a step. -/
def asking (s : Session) : Step → List (NodeId × String)
  | .node target (.whenReady label) => ((s.target? target).map (·, label)).toList
  | _ => []

theorem asking_of_plain {st : Step} (plain : st.engages = false) (s : Session) :
    s.asking st = [] := by
  cases st with
  | node target q => cases q <;> first | rfl | cases plain
  | _ => rfl

/-- Who wants to be told in the course of a run. -/
def askers : List (Files × Step) → Session → List (NodeId × String)
  | [], _ => []
  | m :: rest, s => s.asking m.2 ++ askers rest ((step m.1 m.2).run s).2

/-- Every node that is held is there. -/
def Grips (s : Session) : Prop :=
  ∀ x ∈ s.held, (s.node? x.2).isSome

theorem Tally.grips (h : Tally more events s s') (grips : s.Grips) : s'.Grips := fun x hx =>
  (h.held x hx).elim (fun old => h.goesOn.isSome (grips x old)) id

theorem Grips.target (grips : s.Grips) {target : Target} (found : s.target? target = some id) :
    (s.node? id).isSome := by
  cases target with
  | id text =>
    simp only [target?, loaded?, Option.bind_eq_bind, Option.bind_eq_some_iff] at found
    obtain ⟨other, -, found⟩ := found
    split at found
    · rename_i there
      cases found
      exact (Bool.and_eq_true_iff.1 there).2
    · cases found
  | held name =>
    obtain ⟨before, after, held, -⟩ := List.lookup_eq_some_iff.1 found
    exact grips (name, id) (by simp [held])

theorem hold_gains (registered : (s.node? id).isSome) (name : String) :
    Gains [] s { s with held := (name, id) :: s.held.filter (·.1 != name) } := by
  refine ⟨[], (List.append_nil _).symm,
    tally_of_expecting ⟨.refl _, fun _ n hn => ⟨n, hn, rfl⟩⟩ rfl ?_ (by simp)⟩
  intro x hx
  rcases List.mem_cons.1 hx with rfl | old
  · exact .inr registered
  · exact .inl (List.mem_filter.1 old).1

theorem nodeAnswer_gains (h : s.Consistent) (registered : (s.node? id).isSome) (files : Files)
    {q : NodeStep} (engages : q.engages = true) {target : Target}
    (found : s.target? target = some id) :
    Gains (s.asking (.node target q)) s ((nodeAnswer files id q).run s).2 := by
  cases q with
  | whenReady label =>
    have asks : s.asking (.node target (.whenReady label)) = [(id, label)] := by
      simp [asking, found]
    rw [asks]
    exact whenReady_gains h registered label
  | hold name => exact hold_gains registered name
  | _ => cases engages

theorem stepAnswer_gains (h : s.Consistent) (grips : s.Grips) (files : Files) {st : Step}
    (engages : st.engages = true) : Gains (s.asking st) s ((stepAnswer files st).run s).2 := by
  cases st with
  | poll label => cases engages
  | report step => cases engages
  | node target q =>
    cases found : s.target? target with
    | none =>
      have nobody : s.asking (.node target q) = [] := by
        cases q <;> simp [asking, found]
      rw [nobody]
      simp only [stepAnswer, state_bind, StateT.run_get, pure, found]
      exact .refl s
    | some id =>
      have answered := nodeAnswer_gains h (grips.target found) files engages found
      generalize s.asking (.node target q) = more at answered
      simp only [stepAnswer, state_bind, StateT.run_get, pure, found, answer_run]
      exact answered

/-- With a step those come who want to be told by it, and its events tell whoever is told. -/
theorem step_tallies (h : s.Consistent) (grips : s.Grips) (files : Files) {st : Step}
    (kept : st.keepsReport = true) :
    Tally (s.asking st) ((step files st).run s).1.2 s ((step files st).run s).2 := by
  have e : s.Extends { s with fired := [] } := ⟨.refl _, fun _ n hn => ⟨n, hn, rfl⟩⟩
  have silent : Tally [] [] s { s with fired := [] } := tally_of_loader e rfl rfl rfl
  have answered : Gains (s.asking st) { s with fired := [] }
      ((stepAnswer files st).run { s with fired := [] }).2 := by
    cases engages : st.engages with
    | false =>
      rw [asking_of_plain engages]
      refine (follows_stepAnswer (R := Gains []) files kept (roams_promise files) (fun engaged => ?_)
        (fun _ => follows_pumpFiles files) (fun _ => Taking.pop) _ h.silent).2
      rw [engages] at engaged
      cases engaged
    | true =>
      have same : ({ s with fired := [] } : Session).asking st = s.asking st := by
        cases st with
        | node target q => cases target <;> rfl
        | _ => rfl
      rw [← same]
      exact stepAnswer_gains h.silent (silent.grips grips) files engages
  obtain ⟨events, fired, tally⟩ := answered
  have happened : ((step files st).run s).1.2 = events := fired
  rw [happened]
  exact silent.trans tally

theorem play_tallies (h : s.Consistent) (grips : s.Grips) {run : List (Files × Step)}
    (kept : ∀ m ∈ run, m.2.keepsReport = true) :
    Tally (askers run s) (((play run).run s).1.flatMap (·.2)) s ((play run).run s).2 := by
  induction run generalizing s with
  | nil => exact tally_of_loader (.refl s) rfl rfl rfl
  | cons m rest ih =>
    have first := step_tallies h grips m.1 (kept m (by simp))
    have consistent :=
      ((says_step m.1 (kept m (by simp)) : Says s.source (step m.1 m.2) _).proceeds s h).1
    have later := ih consistent (first.grips grips) fun m' hm => kept m' (by simp [hm])
    exact first.trans later

/-! ## Lists of keywords -/

/-- The keywords in a list are those of one node: their ids and paths are the places of the list
below the node. -/
structure OwnKeywords (s : Session) (r : Route) (n : Node) (l : ChildList) : Prop where
  slots : ∀ i id, l.made.slot? i = some id → id = .branch (.child r ⟨.keyword, i⟩) ∧
    id.text = r.text ++ "-k" ++ toString (i + 1) ∧
    ∃ k, s.node? id = some (.keyword k) ∧ k.path = s!"{n.pathBase}.{i}"
  /-- Whoever asks for all of them is given as many as there are records. -/
  whole : ∀ ids s', (childList r .keyword).run s = (.ok ids, s') →
    ids = childIds r .keyword (List.range l.items.length)

theorem path_of_child {src : Source} {above p : Plain} {i : Nat}
    (h : src.child? above ⟨.keyword, i⟩ = .ok (some p)) {n : Node} (hn : n.plain? = some p) :
    ∃ k, n = .keyword k ∧ k.path = s!"{above.pathBase}.{i}" := by
  obtain ⟨raw, t, -, read⟩ := Source.child?_eq_some.1 h
  obtain ⟨record, -, rfl⟩ := Source.readKeyword_eq_ok.1 read
  cases n with
  | keyword k =>
    injection hn with same
    injection same with _ path _
    exact ⟨k, rfl, path⟩
  | _ => cases hn

theorem Consistent.ownKeywords (h : s.Consistent) (hn : s.branch? r = some n) {l : ChildList}
    (hl : n.list? .keyword = some l) : s.OwnKeywords r n l := by
  obtain ⟨p, hp, hf⟩ := h.follows r n hn
  have listed : s.list? r .keyword = some l := (list?_eq_some s).2 ⟨n, hn, hl⟩
  refine ⟨fun i id filled => ?_, fun ids s' run => ?_⟩
  · obtain ⟨rfl, registered⟩ := h.slot (b := .keyword) listed filled
    obtain ⟨m, hm⟩ := Option.isSome_iff_exists.1 registered
    obtain ⟨q, hq, follows⟩ := h.follows _ m hm
    rw [Source.node?_child_of hp] at hq
    obtain ⟨k, rfl, path⟩ := path_of_child hq follows.plain
    have text : "-" ++ String.singleton Branch.keyword.letter = "-k" := by decide
    refine ⟨rfl, ?_, k, hm, ?_⟩
    · rw [text_child, ← text, ← String.append_assoc]
    · rw [path, pathBase_of_plain hf.plain]
  · obtain ⟨items, t, hi, reads⟩ := hf.listed .keyword l hl
    have there : (s.list? r .keyword).isSome := listed ▸ rfl
    obtain ⟨u, result, run', lists⟩ := childList_lists (b := .keyword) h hp hi there
    cases run.symm.trans run'
    rw [reads.items]
    exact (lists.all ids rfl).1

/-- A list that is there stays, with its records and the nodes that have been made from it. -/
theorem Retains.list? (retained : s.Retains s') (e : s.Extends s') (before : s.Consistent)
    (after : s'.Consistent) {b : Branch} {l : ChildList} (hl : s.list? r b.kind = some l) :
    ∃ l', s'.list? r b.kind = some l' ∧ l'.items = l.items ∧ l'.table = l.table ∧
      ∀ i id, l.made.slot? i = some id → l'.made.slot? i = some id := by
  obtain ⟨l', hl'⟩ := Option.isSome_iff_exists.1 (retained r b.kind (by rw [hl]; rfl))
  obtain ⟨n, p, items, t, hn, -, -, hp, hi, reads⟩ := before.list hl
  obtain ⟨n', p', items', t', hn', -, -, hp', hi', reads'⟩ := after.list hl'
  cases hp'.symm.trans (e.source.node? hp)
  cases hi'.symm.trans (e.source.items? hi)
  refine ⟨l', hl', reads'.items.trans reads.items.symm, reads'.table.trans reads.table.symm, ?_⟩
  intro i id filled
  obtain ⟨rfl, registered⟩ := before.slot hl filled
  obtain ⟨l'', hl'', filled'⟩ := after.owned r ⟨b, i⟩ (e.isSome registered)
  cases hl'.symm.trans hl''
  exact filled'

/-- Two nodes with the same split file have the same records, but no keyword in common. -/
theorem Consistent.shared (h : s.Consistent) {r' : Route} {n' : Node} (other : r ≠ r')
    (hn : s.branch? r = some n) (hn' : s.branch? r' = some n') {file : String}
    (split : n.splitFile? = some file) (split' : n'.splitFile? = some file) {l l' : ChildList}
    (hl : n.list? .keyword = some l) (hl' : n'.list? .keyword = some l') :
    l.items = l'.items ∧ ∀ i j id, l.made.slot? i = some id → l'.made.slot? j ≠ some id := by
  obtain ⟨p, -, follows⟩ := h.follows r n hn
  obtain ⟨p', -, follows'⟩ := h.follows r' n' hn'
  refine ⟨?_, fun i j id filled filled' => ?_⟩
  · have records := (h.records hn (follows.keywordSource? split) hl).1
    have records' := (h.records hn' (follows'.keywordSource? split') hl').1
    exact Option.some.inj (records.symm.trans records')
  · obtain ⟨rfl, -⟩ := (h.ownKeywords hn hl).slots i id filled
    obtain ⟨same, -⟩ := (h.ownKeywords hn' hl').slots j _ filled'
    cases same
    exact other rfl

/-- Whoever waits to be told waits for the split file of the node, which has not come. -/
theorem Consistent.expects (h : s.Consistent) {file : String} {next : Continuation}
    (waits : (file, .children r next) ∈ s.loader.parked) :
    s.loader.payload? file = none ∧ ∃ n, s.branch? r = some n ∧ n.splitFile? = some file := by
  obtain ⟨ws, pending, mem⟩ := (Loader.mem_parked h.distinct).1 waits
  exact ⟨h.parked_missing waits, h.waiting file ws pending r next mem⟩

/-! ## Whole runs -/

/-- The first content of a file that comes is the one that counts. -/
theorem Consistent.first_announced (h : s.Consistent) (file : String) (payload : SplitPayload) :
    ((announce file payload).run s).2.loader.payload? file =
      some ((s.loader.payload? file).getD payload) := by
  obtain ⟨s', run, -, -, files, -⟩ := announce_fates h file payload
  rw [run, ← source_files, files file, if_pos rfl, source_files]
  cases s.loader.payload? file <;> rfl

/-- Who wanted to be told in a run was told, once for each time, or still waits for a split file that
has not come; nobody else is told. Whoever was told could at that moment read as many keywords as there
are records inline or in what came first for the split file. The keywords of a node are its own, also
where a file is shared, and however the session goes on, they stay. -/
theorem told_when_readable {text : String} {s₀ : Session} (opened : open? text = .ok s₀)
    {run : List (Files × Step)} (kept : ∀ m ∈ run, m.2.keepsReport = true)
    {answers : List (Answer × List Event)} {s : Session}
    (reached : (play run).run s₀ = (answers, s)) :
    (heard (answers.flatMap (·.2)) ++ expecting s.loader).Perm (askers run s₀) ∧
    (∀ file r label, (file, .children r (.notify label)) ∈ s.loader.parked →
      s.loader.payload? file = none ∧ ∃ n, s.branch? r = some n ∧ n.splitFile? = some file) ∧
    (∀ label id sight, .ready label id sight ∈ answers.flatMap (·.2) → s.Truthful id sight) ∧
    (∀ r n k l, s.branch? r = some n → n.keywordSource? = some k → n.list? .keyword = some l →
      s.recordsOf? k = some l.items ∧ l.made.length = l.items.length ∧ s.OwnKeywords r n l) ∧
    (∀ r r' n n' file l l', r ≠ r' → s.branch? r = some n → s.branch? r' = some n' →
      n.splitFile? = some file → n'.splitFile? = some file → n.list? .keyword = some l →
      n'.list? .keyword = some l' →
      l.items = l'.items ∧ ∀ i j id, l.made.slot? i = some id → l'.made.slot? j ≠ some id) ∧
    (∀ file, s₀.loader.payload? file = none) ∧
    (∀ file payload, ((announce file payload).run s).2.loader.payload? file =
      some ((s.loader.payload? file).getD payload)) ∧
    (∀ file payload, (s.loader.payload? file).isSome → (announce file payload).run s = ((), s)) ∧
    ∀ later : List (Files × Step), (∀ m ∈ later, m.2.keepsReport = true) →
      ∀ s', ((play later).run s).2 = s' →
      (∀ file payload, s.loader.payload? file = some payload →
        s'.loader.payload? file = some payload) ∧
      ∀ r l, s.list? r .keyword = some l → ∃ l', s'.list? r .keyword = some l' ∧
        l'.items = l.items ∧ l'.table = l.table ∧
        ∀ i id, l.made.slot? i = some id → l'.made.slot? i = some id := by
  have start := consistent_open opened
  obtain ⟨loader, -, -, held⟩ := fresh_open opened
  have nobody : expecting s₀.loader = [] := by
    rw [loader]
    rfl
  have grips : s₀.Grips := by
    intro x hx
    rw [held] at hx
    cases hx
  have tally := play_tallies start grips kept
  have consistent := (follows_play (R := Retains) kept (fun m _ => roams_promise m.1) s₀ start).1
  rw [reached] at tally consistent
  have everybody := tally.callers
  rw [nobody] at everybody
  refine ⟨everybody, fun file r label waits => consistent.expects waits, tally.truthful, ?_, ?_, ?_,
    ?_, ?_, ?_⟩
  · intro r n k l hn hk hl
    obtain ⟨records, length⟩ := consistent.records hn hk hl
    exact ⟨records, length, consistent.ownKeywords hn hl⟩
  · intro r r' n n' file l l' other hn hn' split split' hl hl'
    exact consistent.shared other hn hn' split split' hl hl'
  · intro file
    rw [loader]
    rfl
  · exact consistent.first_announced
  · intro file payload there
    obtain ⟨p, there⟩ := Option.isSome_iff_exists.1 there
    exact announce_run_loaded there
  · intro later goesOn s' ends
    obtain ⟨after, retained⟩ :=
      follows_play (R := Retains) goesOn (fun m _ => roams_promise m.1) s consistent
    have extends' := (play_tallies consistent (tally.grips grips) goesOn).goesOn
    rw [ends] at after retained extends'
    refine ⟨fun file payload there => extends'.source.files file payload there, fun r l hl => ?_⟩
    exact retained.list? (b := .keyword) extends' consistent after hl

/-- Somebody wants to be told of the keyword of the sample before its file comes, and somebody else
afterwards. -/
def readyRun : List (Files × Step) :=
  sampleRun ++ [(sampleFiles, .node (.id "s1-k1") (.whenReady "early")),
    (sampleFiles, .report (.announce "log-1.json" deepText)),
    (sampleFiles, .node (.id "s1-k1") (.whenReady "late"))]

/-- The same file comes again, with nothing in it. -/
def emptyRun : List (Files × Step) :=
  [(sampleFiles, .report (.announce "log-1.json" "\x7b\"keywords\":[],\"strings\":[]\x7d"))]

set_option maxRecDepth 2000 in
/-- Both are told, when the one keyword of the keyword can be read, and it keeps what came first. -/
theorem told_when_readable_sample : ∃ s₀ answers s, open? sampleReport = .ok s₀ ∧
    (play readyRun).run s₀ = (answers, s) ∧
    (heard (answers.flatMap (·.2)) ++ expecting s.loader).Perm (askers readyRun s₀) ∧
    heard (answers.flatMap (·.2)) = [(.branch (.child .root ⟨.keyword, 0⟩), "early"),
      (.branch (.child .root ⟨.keyword, 0⟩), "late")] ∧
    (∀ label id sight, .ready label id sight ∈ answers.flatMap (·.2) → s.Truthful id sight) ∧
    ∃ l', ((play emptyRun).run s).2.list? (.child .root ⟨.keyword, 0⟩) .keyword = some l' ∧
      l'.items.length = 1 := by
  have opens : opensTo (fun s₀ =>
      decide (heard (((play readyRun).run s₀).1.flatMap (·.2)) =
        [(.branch (.child .root ⟨.keyword, 0⟩), "early"),
          (.branch (.child .root ⟨.keyword, 0⟩), "late")]) &&
      decide ((((play readyRun).run s₀).2.list? (.child .root ⟨.keyword, 0⟩) .keyword).map
        (·.items.length) = some 1)) sampleReport = true := by
    decide +kernel
  obtain ⟨s₀, opened, checked⟩ := opensTo_iff.1 opens
  simp only [Bool.and_eq_true, decide_eq_true_eq, Option.map_eq_some_iff] at checked
  obtain ⟨both, l, hl, one⟩ := checked
  have kept : ∀ m ∈ readyRun, m.2.keepsReport = true := by
    simp [readyRun, sampleRun, Step.keepsReport]
  have later : ∀ m ∈ emptyRun, m.2.keepsReport = true := by
    simp [emptyRun, Step.keepsReport]
  obtain ⟨told, -, truthful, -, -, -, -, -, goesOn⟩ := told_when_readable opened kept rfl
  obtain ⟨l', hl', items, -⟩ := (goesOn emptyRun later _ rfl).2 _ l hl
  exact ⟨s₀, _, _, opened, rfl, told, both, truthful, l', hl', by rw [items, one]⟩

end Session

end RunReport
