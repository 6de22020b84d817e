import RunReport.Proofs.Recalling
/-!
# What remains of a dropped report

Whoever holds a node when the report is dropped can go on reading, but only what was made before.
Everything that would have to make a node fails. Lists of keywords may still be put in place, from
files that had come, but nothing is made of them.
-/

namespace RunReport.Session

open Effects

variable {s t u : Session} {r : Route} {kind : NodeKind} {i : Nat} {id : NodeId}
  {engine : Query.Engine}

/-! ## Answers -/

/-- The node is in the answer. -/
def Answer.Returns (node : NodeId) : Answer → Prop
  | .peek p => p.id = node
  | .peeks ps => ∃ p ∈ ps, p.id = node
  | .id i => i = node
  | .ids is => node ∈ is
  | .description d => d.node = node
  | .descriptions ds => ∃ d ∈ ds, d.node = node
  | .dump d => ∃ e, d.Shows e ∧ e.node = node
  | .combined _ tests => node ∈ tests
  | .settled (.ok (.chain met)) => node ∈ met
  | _ => False

/-- A failure is an answer as well. -/
def outcome : Except Error Answer → Answer
  | .ok a => a
  | .error e => .failed e

/-- One node in a few words. -/
def Answer.Peeks (node : NodeId) (a : Answer) : Prop :=
  ∃ p, a = .peek p ∧ p.id = node

def Answer.Describes (node : NodeId) (a : Answer) : Prop :=
  ∃ d, a = .description d ∧ d.node = node

/-- These nodes in a few words each. -/
def Answer.PeeksAll (nodes : List NodeId) (a : Answer) : Prop :=
  ∃ ps, a = .peeks ps ∧ ps.map (·.id) = nodes

/-- The answer to who asks for one child: the node that was made, a failure because none was, or
nothing where there is no such child. -/
inductive Offers (s : Session) (r : Route) (kind : NodeKind) (i : Nat)
    (Shows : NodeId → Answer → Prop) : Answer → Prop
  | made {id : NodeId} {a : Answer} (hi : s.slot? r kind i = some id) (shows : Shows id a) :
    Offers s r kind i Shows a
  | refused (inside : i < s.size r kind) (empty : s.slot? r kind i = none) :
    Offers s r kind i Shows (.failed (s.refusal r kind i))
  | absent (empty : s.slot? r kind i = none) (outside : s.size r kind ≤ i) :
    Offers s r kind i Shows .nothing

/-- The answer to who asks for all children of some kinds: nothing while one of the lists is not
there, all nodes if all were made, or a failure because one was not. -/
inductive Enumerates (s : Session) (r : Route) (kinds : List NodeKind)
    (Shows : List NodeId → Answer → Prop) : Answer → Prop
  | unloaded {kind : NodeKind} (mem : kind ∈ kinds) (unlisted : s.list? r kind = none) :
    Enumerates s r kinds Shows .nothing
  | whole {a : Answer} (listed : ∀ kind ∈ kinds, (s.list? r kind).isSome)
    (made : ∀ kind ∈ kinds, ∀ i < s.size r kind, (s.slot? r kind i).isSome)
    (shows : Shows (kinds.flatMap (s.madeOf r)) a) : Enumerates s r kinds Shows a
  | refused {kind : NodeKind} {i : Nat} (listed : ∀ kind ∈ kinds, (s.list? r kind).isSome)
    (mem : kind ∈ kinds) (inside : i < s.size r kind) (empty : s.slot? r kind i = none) :
    Enumerates s r kinds Shows (.failed (s.refusal r kind i))

section Outcomes

variable {Shows : NodeId → Answer → Prop} {ShowsAll : List NodeId → Answer → Prop}
  {kinds : List NodeKind}

theorem offers_of_error {e : Error} (h : .error e = s.offered r kind i) :
    s.Offers r kind i Shows (.failed e) := by
  obtain ⟨inside, empty, rfl⟩ := offered_error h.symm
  exact .refused inside empty

theorem offers_of_none (h : .ok none = s.offered r kind i) : s.Offers r kind i Shows .nothing := by
  obtain ⟨empty, made⟩ := offered_ok h.symm
  exact .absent empty (Nat.le_of_not_lt fun inside => by cases made inside)

theorem Offers.of_made {a : Answer} (offers : s.Offers r kind i Shows a)
    (hi : s.slot? r kind i = some id) : Shows id a := by
  cases offers with
  | made hi' shows =>
    cases hi.symm.trans hi'
    exact shows
  | refused inside empty => cases hi.symm.trans empty
  | absent empty outside => cases hi.symm.trans empty

theorem Offers.of_empty {a : Answer} (offers : s.Offers r kind i Shows a)
    (inside : i < s.size r kind) (empty : s.slot? r kind i = none) :
    a = .failed (s.refusal r kind i) := by
  cases offers with
  | made hi shows => cases hi.symm.trans empty
  | refused inside empty => rfl
  | absent empty outside => exact absurd inside (Nat.not_lt_of_le outside)

/-- What is given is registered. -/
theorem Offers.recalls (h : s.Orderly) {a : Answer} (offers : s.Offers r kind i Shows a)
    (only : ∀ id a, Shows id a → ∀ node, a.Returns node → node = id) {node : NodeId}
    (returned : a.Returns node) : (s.node? node).isSome := by
  cases offers with
  | made hi shows =>
    rw [only _ _ shows node returned]
    exact h.filled r kind i _ hi
  | refused inside empty => cases returned
  | absent empty outside => cases returned

theorem enumerates_of_error {e : Error} (h : .error e = s.offeredList r kinds) :
    s.Enumerates r kinds ShowsAll (.failed e) := by
  rw [offeredList] at h
  split at h
  · next listed =>
    cases all : s.offeredOf r kinds with
    | ok ids => rw [all] at h; cases h
    | error e' =>
      rw [all] at h
      cases h
      obtain ⟨kind, mem, i, inside, empty, rfl⟩ := offeredOf_error all
      exact .refused listed mem inside empty
  · cases h

theorem enumerates_of_none (h : .ok none = s.offeredList r kinds) :
    s.Enumerates r kinds ShowsAll .nothing := by
  rw [offeredList] at h
  split at h
  · cases all : s.offeredOf r kinds with
    | ok ids => rw [all] at h; cases h
    | error e => rw [all] at h; cases h
  · next unlisted =>
    push Not at unlisted
    obtain ⟨kind, mem, gone⟩ := unlisted
    exact .unloaded mem (Option.not_isSome_iff_eq_none.1 gone)

theorem enumerates_of_some {ids : List NodeId} {a : Answer}
    (h : .ok (some ids) = s.offeredList r kinds) (shows : ShowsAll ids a) :
    s.Enumerates r kinds ShowsAll a := by
  rw [offeredList] at h
  split at h
  · next listed =>
    cases all : s.offeredOf r kinds with
    | error e => rw [all] at h; cases h
    | ok ids' =>
      rw [all] at h
      cases h
      obtain ⟨rfl, made⟩ := offeredOf_ok all
      exact .whole listed made shows
  · cases h

theorem Enumerates.recalls (h : s.Orderly) {a : Answer} (lists : s.Enumerates r kinds ShowsAll a)
    (only : ∀ ids a, ShowsAll ids a → ∀ node, a.Returns node → node ∈ ids) {node : NodeId}
    (returned : a.Returns node) : (s.node? node).isSome := by
  cases lists with
  | unloaded mem unlisted => cases returned
  | whole listed made shows =>
    obtain ⟨kind, -, mem⟩ := List.mem_flatMap.1 (only _ _ shows node returned)
    exact h.registered mem
  | refused listed mem inside empty => cases returned

end Outcomes

/-! ## Questions about a node -/

theorem yields_peek (there : (s.node? id).isSome) :
    s.Yields (peekAnswer (some id)) fun v => (outcome v).Peeks id := by
  refine yields_get fun t _ mirrors => ?_
  rw [← mirrors.isSome] at there
  obtain ⟨n, hn⟩ := Option.isSome_iff_exists.1 there
  have peeked : (some id).bind t.peek? = some (.of id n) := by
    rw [Option.bind_some, peek?, hn]
    rfl
  simp only [peeked]
  exact yields_pure ⟨_, rfl, rfl⟩

theorem yields_childAnswer (h : s.Dormant) (files : Files) (r : Route) (b : Branch) (i : Nat) :
    s.Yields (nodeAnswer files (.branch r) (.child b.kind i)) fun v =>
      s.Offers r b.kind i Answer.Peeks (outcome v) := by
  have branch : branchOf? b.kind = some b := by cases b <;> rfl
  simp only [nodeAnswer, branch]
  refine yields_bind (yields_child s r ⟨b, i⟩) (fun e h => offers_of_error h) fun found hf => ?_
  cases found with
  | none => exact yields_get fun _ _ _ => yields_pure (offers_of_none hf)
  | some id =>
    obtain ⟨hi, -⟩ := offered_ok hf.symm
    exact (yields_peek (h.filled r b.kind i id hi)).mono fun v peeks => .made hi peeks

theorem yields_messageAnswer (h : s.Dormant) (files : Files) (r : Route) (i : Nat) :
    s.Yields (nodeAnswer files (.branch r) (.message i)) fun v =>
      s.Offers r .message i Answer.Describes (outcome v) := by
  refine yields_bind (yields_messageAt s r i) (fun e h => offers_of_error h) fun found hf => ?_
  cases found with
  | none => exact yields_pure (offers_of_none hf)
  | some id =>
    obtain ⟨hi, -⟩ := offered_ok hf.symm
    have registered := h.filled r .message i id hi
    refine yields_after (yields_describe s id) fun found ⟨made, recalls⟩ => ?_
    rw [← made] at registered
    obtain ⟨d, rfl⟩ := Option.isSome_iff_exists.1 registered
    exact yields_pure (.made hi ⟨d, rfl, (recalls d rfl).node⟩)

theorem yields_listAnswer (s : Session) (files : Files) (r : Route) (kind : NodeKind) :
    s.Yields (nodeAnswer files (.branch r) (.list kind)) fun v =>
      s.Enumerates r [kind] (fun ids a => a = .ids ids) (outcome v) := by
  refine yields_bind (yields_typedList s r kind) (fun e h => enumerates_of_error h)
    fun found hf => ?_
  cases found with
  | none => exact yields_pure (enumerates_of_none hf)
  | some ids => exact yields_pure (enumerates_of_some hf rfl)

theorem map_filterMap_peek? {ids : List NodeId} (there : ∀ id ∈ ids, (s.node? id).isSome) :
    (ids.filterMap s.peek?).map (·.id) = ids := by
  induction ids with
  | nil => rfl
  | cons id ids ih =>
    obtain ⟨first, rest⟩ := List.forall_mem_cons.1 there
    obtain ⟨n, hn⟩ := Option.isSome_iff_exists.1 first
    have peeked : s.peek? id = some (.of id n) := by rw [peek?, hn]; rfl
    rw [List.filterMap_cons_some peeked, List.map_cons, ih rest]
    rfl

theorem yields_childrenAnswer (h : s.Dormant) (files : Files) (r : Route) :
    s.Yields (nodeAnswer files (.branch r) .children) fun v =>
      s.Enumerates r (s.kindsOf r) Answer.PeeksAll (outcome v) := by
  refine yields_bind (yields_children s r) (fun e h => enumerates_of_error h) fun found hf => ?_
  cases found with
  | none => exact yields_pure (enumerates_of_none hf)
  | some ids =>
    have listed : s.Enumerates r (s.kindsOf r) (fun ids a => a = .ids ids) (.ids ids) :=
      enumerates_of_some hf rfl
    refine yields_get fun t _ mirrors => yields_pure (enumerates_of_some hf ⟨_, rfl, ?_⟩)
    refine map_filterMap_peek? fun id mem => ?_
    rw [mirrors.isSome]
    exact listed.recalls h.toOrderly (by rintro ids a rfl node mem; exact mem) mem

/-- Below the suite something was not made that a search needs. A suite that is looked for may be
found before. -/
def Lacks (s : Session) (r : Route) : SuiteQuery → Prop
  | .suites pattern => s.Gap (s.accepts (.ofPattern pattern)) false r
  | .findSuite _ => s.Gap (fun _ => false) false r
  | _ => s.Gap (fun _ => false) true r

/-- What an answer returns was made. -/
def Recalls (s : Session) (a : Answer) : Prop :=
  ∀ node, a.Returns node → (s.node? node).isSome

/-- The answer to a search that has not failed. -/
structure Sought (s : Session) (r : Route) (q : SuiteQuery) (a : Answer) : Prop where
  whole : s.Lacks r q → ∃ name found, q = .findSuite name ∧ a = .id found
  answered : ∀ e, a ≠ .failed e
  recalls : s.Recalls a

/-- A search finds nodes that were made, or fails because one was not. -/
theorem yields_searchAnswer (h : s.Dormant) (r : Route) (q : SuiteQuery) :
    s.Yields (searchAnswer r q) (Concludes (s.Lacks r q) (s.Sought r q)) := by
  have ids : ∀ {x : Run (List NodeId)}, s.Yields x (Concludes (s.Lacks r q) fun ids =>
      ¬s.Lacks r q ∧ ∀ id ∈ ids, (s.node? id).isSome) →
      s.Yields (idsAnswer <$> x) (Concludes (s.Lacks r q) (s.Sought r q)) := by
    intro x hx
    refine yields_bind hx (fun _ failed => failed) fun ids ⟨whole, registered⟩ => yields_pure ?_
    exact ⟨fun lacks => absurd lacks whole, nofun, registered⟩
  cases q with
  | all => exact ids (yields_searchTests h _ _ r)
  | critical => exact ids (yields_searchTests h _ _ r)
  | tag tag => exact ids (yields_searchTests h _ _ r)
  | tagQuery query => exact ids (yields_searchTests h _ _ r)
  | name pattern => exact ids (yields_searchTests h _ _ r)
  | suites pattern => exact ids (yields_testsInSuites h pattern r)
  | findSuite name =>
    refine yields_bind (yields_findSuite h name r) (fun _ failed => failed)
      fun found ⟨whole, registered⟩ => ?_
    cases found with
    | none => exact yields_pure ⟨fun lacks => absurd lacks (whole rfl), nofun, nofun⟩
    | some r' =>
      refine yields_pure ⟨fun _ => ⟨name, _, rfl, rfl⟩, nofun, fun node returned => ?_⟩
      cases returned
      exact registered r' rfl

theorem yields_peekAnswer (s : Session) (found : Option NodeId) :
    s.Yields (peekAnswer found) fun v => s.Recalls (outcome v) := by
  refine yields_get fun t _ mirrors => ?_
  cases peeked : found.bind t.peek? with
  | none => exact yields_pure nofun
  | some p =>
    refine yields_pure fun node returned => ?_
    obtain ⟨id, -, hp⟩ := Option.bind_eq_some_iff.1 peeked
    obtain ⟨n, hn, rfl⟩ := Option.map_eq_some_iff.1 hp
    cases returned
    rw [← mirrors.isSome]
    exact Option.isSome_iff_exists.2 ⟨n, hn⟩

theorem recalls_describe (s : Session) (files : Files) (id : NodeId) :
    s.Yields (nodeAnswer files id .describe) fun v => s.Recalls (outcome v) := by
  refine yields_after (yields_describe s id) fun found described => ?_
  obtain ⟨made, recalls⟩ := described
  cases found with
  | none => exact yields_pure fun _ => False.elim
  | some d =>
    refine yields_pure fun node returned => ?_
    rw [← show d.node = node from returned, (recalls d rfl).node, ← made]
    rfl

theorem recalls_dump (s : Session) (files : Files) (id : NodeId) (load : Bool) :
    s.Yields (nodeAnswer files id (.dump load)) fun v => s.Recalls (outcome v) := by
  refine yields_after (yields_get fun t _ _ => yields_dumpFrom s _ _ id) fun found good => ?_
  cases found with
  | nil => exact yields_pure fun _ => False.elim
  | cons d ds =>
    refine yields_pure ?_
    rintro node ⟨e, shows, rfl⟩
    exact good d (by simp) e shows

theorem recalls_child (h : s.Dormant) (files : Files) (id : NodeId) (kind : NodeKind) (i : Nat) :
    s.Yields (nodeAnswer files id (.child kind i)) fun v => s.Recalls (outcome v) := by
  have only : ∀ id a, Answer.Peeks id a → ∀ node, a.Returns node → node = id := by
    rintro id _ ⟨p, rfl, rfl⟩ node returned
    exact returned.symm
  cases id with
  | message number =>
    simp only [nodeAnswer]
    cases branchOf? kind with
    | none => exact yields_pure fun _ => False.elim
    | some b => exact yields_peekAnswer s none
  | branch r =>
    have given : ∀ b : Branch,
        s.Yields (nodeAnswer files (.branch r) (.child b.kind i)) fun v => s.Recalls (outcome v) :=
      fun b => (yields_childAnswer h files r b i).mono fun v offers node =>
        offers.recalls h.toOrderly only
    cases kind with
    | message => exact yields_pure fun _ => False.elim
    | suite => exact given .suite
    | test => exact given .test
    | keyword => exact given .keyword

theorem recalls_children (h : s.Dormant) (files : Files) (id : NodeId) :
    s.Yields (nodeAnswer files id .children) fun v => s.Recalls (outcome v) := by
  cases id with
  | message number =>
    have none : s.Yields (Session.children (.message number)) (· = .ok (some [])) :=
      yields_get fun _ _ _ => yields_pure rfl
    refine yields_bind none (fun e eq => by cases eq) fun found hf => ?_
    cases hf
    refine yields_get fun _ _ _ => yields_pure ?_
    rintro node ⟨p, mem, -⟩
    cases mem
  | branch r =>
    refine (yields_childrenAnswer h files r).mono fun v lists node => ?_
    refine lists.recalls h.toOrderly ?_
    rintro ids _ ⟨ps, rfl, rfl⟩ node ⟨p, mem, rfl⟩
    exact List.mem_map_of_mem mem

theorem recalls_list (h : s.Dormant) (files : Files) (id : NodeId) (kind : NodeKind) :
    s.Yields (nodeAnswer files id (.list kind)) fun v => s.Recalls (outcome v) := by
  cases id with
  | message number => exact yields_pure fun _ => False.elim
  | branch r =>
    refine (yields_listAnswer s files r kind).mono fun v lists node => ?_
    refine lists.recalls h.toOrderly ?_
    rintro ids _ rfl node mem
    exact mem

theorem recalls_message (h : s.Dormant) (files : Files) (id : NodeId) (i : Nat) :
    s.Yields (nodeAnswer files id (.message i)) fun v => s.Recalls (outcome v) := by
  cases id with
  | message number => exact yields_pure fun _ => False.elim
  | branch r =>
    refine (yields_messageAnswer h files r i).mono fun v offers node => ?_
    refine offers.recalls h.toOrderly ?_
    rintro id _ ⟨d, rfl, rfl⟩ node returned
    exact returned.symm

theorem recalls_search (h : s.Dormant) (files : Files) (id : NodeId) (q : SuiteQuery) :
    s.Yields (nodeAnswer files id (.search q)) fun v => s.Recalls (outcome v) := by
  cases id with
  | message number => exact yields_get fun t _ _ => yields_pure fun _ => False.elim
  | branch r =>
    refine yields_get fun t _ _ => ?_
    cases t.suite? r with
    | none => exact yields_pure fun _ => False.elim
    | some su =>
      refine (yields_searchAnswer h r q).mono fun v hv => ?_
      cases v with
      | ok a => exact hv.recalls
      | error e => exact fun _ => False.elim

/-- Whatever a question about a node returns was made. -/
theorem yields_nodeAnswer (h : s.Dormant) (files : Files) (id : NodeId) {q : NodeStep}
    (reads : q.reads = true) :
    s.Yields (nodeAnswer files id q) fun v => s.Recalls (outcome v) := by
  cases q with
  | peek => exact yields_peekAnswer s _
  | describe => exact recalls_describe s files id
  | dump load => exact recalls_dump s files id load
  | child kind index => exact recalls_child h files id kind index
  | children => exact recalls_children h files id
  | list kind => exact recalls_list h files id kind
  | message index => exact recalls_message h files id index
  | parent => exact yields_get fun t _ _ => yields_peekAnswer s _
  | loaded => exact yields_get fun t _ _ => yields_pure fun _ => False.elim
  | whenReady label => cases reads
  | hold name => cases reads
  | same other =>
    refine yields_get fun t _ _ => ?_
    cases other with
    | none => exact yields_pure fun _ => False.elim
    | some text =>
      simp only
      split
      · cases t.loaded? text with
        | none => exact yields_pure fun _ => False.elim
        | some o => exact yields_pure fun _ => False.elim
      · exact yields_pure fun _ => False.elim
  | search query => exact recalls_search h files id query

/-! ## Steps and runs -/

/-- Nothing was made, and no list has gone; only lists of keywords may have come. -/
structure Remains (s t : Session) : Prop where
  nodes : ∀ id, (t.node? id).map Node.plain? = (s.node? id).map Node.plain?
  slots : ∀ r kind i, t.slot? r kind i = s.slot? r kind i
  sizes : ∀ r kind, kind ≠ .keyword → t.size r kind = s.size r kind
  errors : t.errors = s.errors

theorem remains_of_nodes (nodes : t.nodes = s.nodes) (errors : t.errors = s.errors) :
    s.Remains t := by
  have lists : t.list? = s.list? := by
    funext r kind
    simp only [list?, branch?, node?, nodes]
  refine ⟨fun id => ?_, fun r kind i => ?_, fun r kind _ => ?_, errors⟩
  · rw [node?, node?, nodes]
  · rw [slot?, slot?, lists]
  · rw [size, size, lists]

theorem Remains.refl (s : Session) : s.Remains s :=
  remains_of_nodes rfl rfl

theorem remains_fired (s : Session) (fired : List Event) : s.Remains { s with fired } :=
  remains_of_nodes rfl rfl

theorem Remains.trans (h : s.Remains t) (h' : t.Remains u) : s.Remains u where
  nodes id := (h'.nodes id).trans (h.nodes id)
  slots r kind i := (h'.slots r kind i).trans (h.slots r kind i)
  sizes r kind other := (h'.sizes r kind other).trans (h.sizes r kind other)
  errors := h'.errors.trans h.errors

theorem Remains.isSome (h : s.Remains t) (id : NodeId) :
    (t.node? id).isSome = (s.node? id).isSome :=
  isSome_eq_of_map (h.nodes id)

theorem Remains.symm (h : s.Remains t) : t.Remains s where
  nodes id := (h.nodes id).symm
  slots r kind i := (h.slots r kind i).symm
  sizes r kind other := (h.sizes r kind other).symm
  errors := h.errors.symm

theorem Remains.gap (h : s.Remains t) {wanted : Route → Bool} {b : Bool} {r : Route}
    (gap : s.Gap wanted b r) : t.Gap wanted b r := by
  induction gap with
  | suite inside empty =>
    exact .suite (by rwa [h.sizes _ _ (by simp)]) ((h.slots ..).trans empty)
  | test needed inside empty =>
    exact .test needed (by rwa [h.sizes _ _ (by simp)]) ((h.slots ..).trans empty)
  | under made gap ih => exact .under ((h.slots ..).trans made) ih

theorem Remains.accepts (h : s.Remains t) (m : Query.Matcher engine) : t.accepts m = s.accepts m := by
  funext r
  rw [accepts_eq, accepts_eq, plain?_eq_of_map (h.nodes (.branch r))]

theorem Remains.lacks (h : s.Remains t) {q : SuiteQuery} (lacks : s.Lacks r q) : t.Lacks r q := by
  cases q with
  | suites pattern =>
    rw [Lacks, h.accepts]
    exact h.gap lacks
  | _ => exact h.gap lacks

theorem Mirrors.remains (h : s.Mirrors t) : s.Remains t :=
  ⟨h.nodes, h.slot?, fun r kind _ => h.size r kind, h.errors⟩

theorem remains_close (s : Session) : s.Remains (close s) := by
  obtain ⟨futures, closed, -⟩ := close_eq s
  exact remains_of_nodes (by rw [closed]) (by rw [closed])

theorem Dormant.aside (h : s.Dormant) (labels : List (String × Nat)) (held : List (String × NodeId))
    (fired : List Event) : ({ s with labels, held, fired } : Session).Dormant :=
  ⟨⟨h.distinct, h.tables, h.sound, h.filled, h.nested, h.shallow⟩, h.closed⟩

theorem Dormant.park (h : s.Dormant) (file : String) (w : Waiter) : (park file w s).Dormant := by
  refine ⟨⟨Loader.nodup_ensure h.distinct file w, ?_, h.sound, h.filled, h.nested, h.shallow⟩,
    h.closed⟩
  rw [source_park]
  exact h.tables

/-- Keywords that are put in place were not made. -/
theorem remains_install {n : Node} {file : String} {payload : SplitPayload}
    (hn : s.branch? r = some n) (hf : n.splitFile? = some file) :
    s.Remains (install r file payload s) where
  nodes := by
    intro id
    rw [node?_install]
    split
    · rw [Option.map_map]
      congr 1
      funext n
      exact Node.plain?_install ..
    · rfl
  slots := by
    intro owner kind i
    rw [slot?, list?_install hn hf]
    split
    · next here =>
      rw [slot?, here.1, here.2]
      cases s.list? r .keyword with
      | none => exact LazyList.slot?_ofLength i _
      | some l => rfl
    · rfl
  sizes := by
    intro owner kind other
    rw [size, list?_install hn hf, if_neg fun here => other here.2]
    rfl
  errors := rfl

theorem Dormant.install (h : s.Dormant) {n : Node} {file : String} {payload : SplitPayload}
    (hn : s.branch? r = some n) (hf : n.splitFile? = some file) :
    (install r file payload s).Dormant := by
  have remains : s.Remains (Session.install r file payload s) := remains_install hn hf
  have levels : ∀ owner, (Session.install r file payload s).levels owner = s.levels owner := by
    intro owner
    rw [Session.levels, list?_install hn hf, if_neg (by simp)]
    rfl
  refine ⟨⟨h.distinct, h.tables, ?_, ?_, ?_, ?_⟩, h.closed⟩
  · intro owner kind l hl
    rw [list?_install hn hf] at hl
    split at hl
    · cases old : s.list? r .keyword with
      | some l' =>
        rw [old] at hl
        cases hl
        exact h.sound r .keyword _ old
      | none =>
        rw [old] at hl
        cases hl
        exact LazyList.sound_ofLength _
    · exact h.sound owner kind l hl
  · intro owner kind i id hi
    rw [remains.isSome]
    exact h.filled owner kind i id ((remains.slots ..).symm.trans hi)
  · intro owner i r' hi
    rw [levels, levels]
    exact h.nested owner i r' ((remains.slots ..).symm.trans hi)
  · intro owner
    rw [levels]
    exact h.shallow owner

theorem whenReady_remains (h : s.Dormant) (id : NodeId) (label : String) :
    ((whenReady id (.notify label)).run s).2.Dormant ∧
      s.Remains ((whenReady id (.notify label)).run s).2 := by
  have plain : ∀ step rest met sink, Continuation.notify label ≠ .resolve step rest met sink := by
    simp
  obtain ⟨ready, t, fired, asked, run, -⟩ := whenReady_asked s id plain
  rw [run]
  suffices later : t.Dormant ∧ s.Remains t from
    ⟨later.1.aside t.labels t.held fired, later.2.trans (remains_of_nodes rfl rfl)⟩
  cases asked with
  | found => exact ⟨h, .refl s⟩
  | installed hn hf hp => exact ⟨h.install hn hf, remains_install hn hf⟩
  | waits missing => exact ⟨h.park _ _, remains_of_nodes rfl rfl⟩

theorem answer_outcome (x : Run Answer) (s : Session) :
    (answer x).run s = (outcome (x.run s).1, (x.run s).2) := by
  rw [answer_run]
  cases (x.run s).1 <;> rfl

theorem pollAnswer_remains (h : s.Dormant) (label : String) :
    ((pollAnswer label).run s).2.Dormant ∧ s.Remains ((pollAnswer label).run s).2 := by
  simp only [pollAnswer, state_bind, StateT.run_get, pure]
  cases s.labels.lookup label with
  | none => exact ⟨h, .refl s⟩
  | some n =>
    simp only
    cases s.futures[n]?.bind (·.settled) with
    | none => exact ⟨h, .refl s⟩
    | some result =>
      exact ⟨h.aside _ s.held s.fired, remains_of_nodes rfl rfl⟩

theorem nodeAnswer_remains (h : s.Dormant) (files : Files) (id : NodeId) (q : NodeStep) :
    ((nodeAnswer files id q).run s).2.Dormant ∧ s.Remains ((nodeAnswer files id q).run s).2 ∧
      s.Recalls (outcome ((nodeAnswer files id q).run s).1) := by
  cases reads : q.reads with
  | true =>
    obtain ⟨recalls, dormant, mirrors⟩ := yields_nodeAnswer h files id reads s h (.refl s)
    exact ⟨dormant, mirrors.remains, recalls⟩
  | false =>
    cases q with
    | whenReady label =>
      obtain ⟨dormant, remains⟩ := whenReady_remains h id label
      exact ⟨dormant, remains, nofun⟩
    | hold name =>
      exact ⟨h.aside s.labels _ s.fired, remains_of_nodes rfl rfl, nofun⟩
    | _ => cases reads

/-- What a step does to a closed session, and what a question about a node returns. -/
theorem stepAnswer_remains (h : s.Dormant) (files : Files) (st : Step) :
    ((stepAnswer files st).run s).2.Dormant ∧ s.Remains ((stepAnswer files st).run s).2 ∧
      ∀ target q, st = .node target q → s.Recalls ((stepAnswer files st).run s).1 := by
  cases st with
  | poll label =>
    obtain ⟨dormant, remains⟩ := pollAnswer_remains h label
    exact ⟨dormant, remains, fun _ _ eq => by cases eq⟩
  | report step =>
    by_cases drop : step = .drop
    · subst drop
      exact ⟨h.toOrderly.close, remains_close s, fun _ _ eq => by cases eq⟩
    · have needs : step.needsReport = true := by
        cases step <;> first | rfl | exact absurd rfl drop
      have run : (stepAnswer files (.report step)).run s = (.dropped, s) := by
        simp only [stepAnswer, state_bind, StateT.run_get, pure, needs, h.closed]
        rfl
      rw [run]
      exact ⟨h, .refl s, fun _ _ eq => by cases eq⟩
  | node target q =>
    cases ht : s.target? target with
    | none =>
      have run : (stepAnswer files (.node target q)).run s = (.notLoaded, s) := by
        simp only [stepAnswer, state_bind, StateT.run_get, pure, ht]
        rfl
      rw [run]
      exact ⟨h, .refl s, fun _ _ _ _ => False.elim⟩
    | some id =>
      rw [stepAnswer_node ht, answer_outcome]
      obtain ⟨dormant, remains, recalls⟩ := nodeAnswer_remains h files id q
      exact ⟨dormant, remains, fun _ _ _ => recalls⟩

theorem step_remains (h : s.Dormant) (files : Files) (st : Step) :
    ((step files st).run s).2.Dormant ∧ s.Remains ((step files st).run s).2 ∧
      ∀ target q, st = .node target q → s.Recalls ((step files st).run s).1.1 := by
  obtain ⟨dormant, remains, recalls⟩ :=
    stepAnswer_remains (h.aside s.labels s.held []) files st
  exact ⟨dormant, (remains_fired s []).trans remains, recalls⟩

/-- What a run does to a closed session. -/
theorem play_remains (h : s.Dormant) (run : List (Files × Step)) :
    ((play run).run s).2.Dormant ∧ s.Remains ((play run).run s).2 ∧
      List.Forall₂ (fun m a => ∀ target q, m.2 = .node target q → s.Recalls a.1) run
        ((play run).run s).1 := by
  induction run generalizing s with
  | nil => exact ⟨h, .refl s, .nil⟩
  | cons m rest ih =>
    obtain ⟨dormant, remains, recalls⟩ := step_remains h m.1 m.2
    obtain ⟨dormant', remains', later⟩ := ih dormant
    refine ⟨dormant', remains.trans remains', .cons recalls ?_⟩
    refine later.imp fun m a recalls target q asked node returned => ?_
    rw [← remains.isSome]
    exact recalls target q asked node returned

/-! ## Dropping the report -/

/-- The answer to a question about a node that is held. -/
def reply (s : Session) (files : Files) (name : String) (q : NodeStep) : Answer :=
  ((step files (.node (.held name) q)).run s).1.1

theorem reply_eq {name : String} (held : s.held.lookup name = some id) (files : Files)
    (q : NodeStep) : s.reply files name q =
      outcome ((nodeAnswer files id q).run { s with fired := [] }).1 := by
  have target : ({ s with fired := [] } : Session).target? (.held name) = some id := held
  rw [reply, step_answer, stepAnswer_node target, answer_outcome]

theorem Yields.reply {name : String} {files : Files} {q : NodeStep} {P : Answer → Prop}
    (hy : s.Yields (nodeAnswer files id q) fun v => P (outcome v)) (h : s.Dormant)
    (held : s.held.lookup name = some id) : P (s.reply files name q) := by
  rw [reply_eq held]
  have silent : s.Mirrors { s with fired := [] } :=
    ⟨rfl, rfl, rfl, rfl, fun _ => rfl, fun _ _ => rfl, fun _ _ l hl => ⟨l, hl, .refl _⟩⟩
  exact (hy _ (h.aside s.labels s.held []) silent).1

/-- Only a suite can lack what a search needs. -/
theorem Gap.suite? {wanted : Route → Bool} {b : Bool} (gap : s.Gap wanted b r) :
    (s.suite? r).isSome := by
  have listed : ∃ kind l, (kind = .suite ∨ kind = .test) ∧ s.list? r kind = some l := by
    have of_size : ∀ {kind : NodeKind} {i : Nat}, i < s.size r kind →
        ∃ l, s.list? r kind = some l := by
      intro kind i inside
      cases hl : s.list? r kind with
      | some l => exact ⟨l, rfl⟩
      | none =>
        rw [size, hl] at inside
        exact absurd inside (Nat.not_lt_zero i)
    cases gap with
    | suite inside empty =>
      obtain ⟨l, hl⟩ := of_size inside
      exact ⟨.suite, l, .inl rfl, hl⟩
    | test needed inside empty =>
      obtain ⟨l, hl⟩ := of_size inside
      exact ⟨.test, l, .inr rfl, hl⟩
    | under made gap =>
      obtain ⟨l, hl, -⟩ := Option.bind_eq_some_iff.1 made
      exact ⟨.suite, l, .inl rfl, hl⟩
  obtain ⟨kind, l, walked, hl⟩ := listed
  obtain ⟨n, hn, hl⟩ := (list?_eq_some s).1 hl
  cases n with
  | suite su =>
    rw [Session.suite?, hn]
    rfl
  | _ => rcases walked with rfl | rfl <;> cases hl

theorem Lacks.suite? {q : SuiteQuery} (lacks : s.Lacks r q) : (s.suite? r).isSome := by
  cases q <;> exact Gap.suite? lacks

section Replies

variable {name : String}

/-- A node that is held can be described. -/
theorem Dormant.reply_describe (h : s.Dormant) (held : s.held.lookup name = some id)
    (there : (s.node? id).isSome) (files : Files) :
    ∃ d, s.reply files name .describe = .description d ∧ d.Recalls s id := by
  refine Yields.reply (P := fun a => ∃ d, a = .description d ∧ d.Recalls s id) ?_ h held
  refine yields_after (yields_describe s id) fun found ⟨made, recalls⟩ => ?_
  rw [← made] at there
  obtain ⟨d, rfl⟩ := Option.isSome_iff_exists.1 there
  exact yields_pure ⟨d, rfl, recalls d rfl⟩

/-- A search fails if it needs a node that was not made, and never otherwise. -/
theorem Dormant.reply_search (h : s.Dormant) (held : s.held.lookup name = some (.branch r))
    (files : Files) (q : SuiteQuery) :
    (∀ e, s.reply files name (.search q) = .failed e → e = .sessionClosed ∧ s.Lacks r q) ∧
      (s.Lacks r q → s.reply files name (.search q) = .failed .sessionClosed ∨
        ∃ full found, q = .findSuite full ∧ s.reply files name (.search q) = .id found) := by
  refine Yields.reply (P := fun a => (∀ e, a = .failed e → e = .sessionClosed ∧ s.Lacks r q) ∧
    (s.Lacks r q → a = .failed .sessionClosed ∨ ∃ full found, q = .findSuite full ∧ a = .id found))
    ?_ h held
  refine yields_get fun t _ mirrors => ?_
  cases hs : t.suite? r with
  | none =>
    refine yields_pure ⟨nofun, fun lacks => ?_⟩
    have suite := Lacks.suite? (mirrors.remains.lacks lacks)
    rw [hs] at suite
    cases suite
  | some su =>
    refine (yields_searchAnswer h r q).mono fun v hv => ?_
    cases v with
    | ok a =>
      exact ⟨fun e failed => absurd failed (hv.answered e), fun lacks => .inr (hv.whole lacks)⟩
    | error e =>
      obtain ⟨rfl, lacks⟩ := hv
      exact ⟨fun e eq => by cases eq; exact ⟨rfl, lacks⟩, fun _ => .inl rfl⟩

end Replies

/-- Once the report is dropped no node is made, whatever is done with the nodes that are held, and
no slot changes. Whatever is returned was made before. A child that was made is given, and one that
was not made is refused because the session is closed, or because it is a message that cannot be
read. Lists and searches that need such a child fail as well. -/
theorem drop_ends_making (h : s.Reachable) (files : Files) (after : List (Files × Step)) :
    ∃ s₁ answers s₂, (step files (.report .drop)).run s = ((.done, []), s₁) ∧
      (play after).run s₁ = (answers, s₂) ∧
      (∀ id, (s₂.node? id).map Node.plain? = (s.node? id).map Node.plain?) ∧
      (∀ r kind i, s₂.slot? r kind i = s.slot? r kind i) ∧ s₂.errors = s.errors ∧
      List.Forall₂ (fun m a => ∀ target q, m.2 = .node target q →
        ∀ id, a.1.Returns id → (s.node? id).isSome) after answers ∧
      (∀ name id f, s₂.held.lookup name = some id → (s.node? id).isSome →
        ∃ d, s₂.reply f name .describe = .description d ∧ d.Recalls s₂ id) ∧
      ∀ name r f, s₂.held.lookup name = some (.branch r) →
        (∀ (b : Branch) i id, s.slot? r b.kind i = some id →
          (s₂.reply f name (.child b.kind i)).Peeks id) ∧
        (∀ (b : Branch) i, i < s₂.size r b.kind → s.slot? r b.kind i = none →
          s₂.reply f name (.child b.kind i) = .failed .sessionClosed) ∧
        (∀ i id, s.slot? r .message i = some id → (s₂.reply f name (.message i)).Describes id) ∧
        (∀ i, i < s₂.size r .message → s.slot? r .message i = none →
          s₂.reply f name (.message i) = .failed .sessionClosed ∨
          ∃ raw table e, s₂.raw? r .message i = some (raw, table) ∧
            s₂.source.readIn table (s₂.coding.message raw) = .error e ∧
            s₂.reply f name (.message i) = .failed e) ∧
        (∀ kind, s₂.Enumerates r [kind] (fun ids a => a = .ids ids)
          (s₂.reply f name (.list kind))) ∧
        s₂.Enumerates r (s₂.kindsOf r) Answer.PeeksAll (s₂.reply f name .children) ∧
        (∀ q e, s₂.reply f name (.search q) = .failed e → e = .sessionClosed ∧ s.Lacks r q) ∧
        (∀ q, s.Lacks r q → s₂.reply f name (.search q) = .failed .sessionClosed ∨
          ∃ full found, q = .findSuite full ∧ s₂.reply f name (.search q) = .id found) := by
  -- Whatever is done after the drop, the session stays closed and its slots stay as they were.
  obtain ⟨s₁, dropped⟩ : ∃ s₁, s₁ = close { s with fired := [] } := ⟨_, rfl⟩
  have first : s.Remains s₁ := by
    rw [dropped]
    exact (remains_fired s []).trans (remains_close _)
  have dormant : s₁.Dormant := dropped ▸ h.consistent.silent.orderly.close
  obtain ⟨dormant, later, recalls⟩ := play_remains dormant after
  obtain ⟨answers, s₂, run⟩ : ∃ answers s₂, (play after).run s₁ = (answers, s₂) := ⟨_, _, rfl⟩
  rw [run] at dormant later recalls
  have remains := first.trans later
  refine ⟨s₁, answers, s₂, dropped ▸ drop_run files s, run, remains.nodes, remains.slots,
    remains.errors, ?_, ?_, ?_⟩
  · refine recalls.imp fun m a recalls target q asked id returned => ?_
    rw [← first.isSome]
    exact recalls target q asked id returned
  · intro name id f held there
    exact dormant.reply_describe held ((remains.isSome id).trans there) f
  -- The other answers are read off the slots at the end, which are those at the beginning.
  intro name r f held
  have child : ∀ (b : Branch) i,
      s₂.Offers r b.kind i Answer.Peeks (s₂.reply f name (.child b.kind i)) := fun b i =>
    (yields_childAnswer dormant f r b i).reply dormant held
  have message : ∀ i, s₂.Offers r .message i Answer.Describes (s₂.reply f name (.message i)) :=
    fun i => (yields_messageAnswer dormant f r i).reply dormant held
  refine ⟨?_, ?_, ?_, ?_, fun kind => (yields_listAnswer s₂ f r kind).reply dormant held,
    (yields_childrenAnswer dormant f r).reply dormant held, ?_, ?_⟩
  · intro b i id hi
    exact (child b i).of_made ((remains.slots ..).trans hi)
  · intro b i inside empty
    rw [(child b i).of_empty inside ((remains.slots ..).trans empty), refusal_of_ne]
    cases b <;> simp [Branch.kind]
  · intro i id hi
    exact (message i).of_made ((remains.slots ..).trans hi)
  · intro i inside empty
    rw [(message i).of_empty inside ((remains.slots ..).trans empty)]
    rcases refusal_message s₂ r i with closed | ⟨raw, table, there, unreadable⟩
    · exact .inl (by rw [closed])
    · exact .inr ⟨raw, table, _, there, unreadable, rfl⟩
  · intro q e failed
    obtain ⟨closed, lacks⟩ := (dormant.reply_search held f q).1 e failed
    exact ⟨closed, remains.symm.lacks lacks⟩
  · intro q lacks
    exact (dormant.reply_search held f q).2 (remains.lacks lacks)

/-- The suite and its keyword are held, and the file of the keyword has come without being asked. -/
def heldRun : List (Files × Step) :=
  sampleRun ++
    [(sampleFiles, .node (.id "s1") (.hold "suite")),
      (sampleFiles, .node (.id "s1-k1") (.hold "keyword")),
      (sampleFiles, .report (.announce "log-1.json" deepText))]

/-- Afterwards its keywords are put in place. -/
def lateRun : List (Files × Step) :=
  [(sampleFiles, .node (.held "keyword") (.whenReady "late"))]

/-- Whether the suite has its keyword, and the keyword a place that is empty. -/
def heldChecks (s s₂ : Session) : Bool :=
  s.slot? .root .keyword 0 == some (.branch (.child .root ⟨.keyword, 0⟩)) &&
    (s.slot? (.child .root ⟨.keyword, 0⟩) .keyword 0).isNone &&
    decide (0 < s₂.size (.child .root ⟨.keyword, 0⟩) .keyword) &&
    s₂.held.lookup "suite" == some (.branch .root) &&
    s₂.held.lookup "keyword" == some (.branch (.child .root ⟨.keyword, 0⟩))

/-- The keyword is still given after the drop, and nothing is made of what comes below it. -/
theorem drop_ends_making_sample : ∃ s s₁ s₂ : Session, s.Reachable ∧ ∃ answers,
    (step sampleFiles (.report .drop)).run s = ((.done, []), s₁) ∧
    (play lateRun).run s₁ = (answers, s₂) ∧
    (s₂.reply sampleFiles "suite" (.child .keyword 0)).Peeks (.branch (.child .root ⟨.keyword, 0⟩)) ∧
    s₂.reply sampleFiles "keyword" (.child .keyword 0) = .failed .sessionClosed := by
  have opens : opensTo (fun s₀ => heldChecks ((play heldRun).run s₀).2
      ((play lateRun).run ((step sampleFiles (.report .drop)).run ((play heldRun).run s₀).2).2).2)
      sampleReport = true := by
    decide +kernel
  obtain ⟨s₀, opened, checked⟩ := opensTo_iff.1 opens
  have reachable : ((play heldRun).run s₀).2.Reachable :=
    ⟨sampleReport, s₀, heldRun, opened, by simp [heldRun, sampleRun, Step.keepsReport], rfl⟩
  obtain ⟨s₁, answers, s₂, dropped, run, -, -, -, -, -, replies⟩ :=
    drop_ends_making reachable sampleFiles lateRun
  rw [dropped, run] at checked
  simp only [heldChecks, Bool.and_eq_true, beq_iff_eq, decide_eq_true_eq,
    Option.isNone_iff_eq_none] at checked
  obtain ⟨⟨⟨⟨made, empty⟩, inside⟩, suite⟩, keyword⟩ := checked
  refine ⟨_, s₁, s₂, reachable, answers, dropped, run, ?_, ?_⟩
  · exact (replies "suite" _ sampleFiles suite).1 .keyword 0 _ made
  · exact (replies "keyword" _ sampleFiles keyword).2.1 .keyword 0 inside empty

end RunReport.Session
