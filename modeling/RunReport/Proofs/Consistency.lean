import RunReport.Proofs.Registry
/-!
# Consistent sessions

The invariant of open sessions: every registered node is what the source says at its route, the
registered nodes and the filled slots of the lists of children are the same, messages are numbered
without gaps and say what their records say, the string tables, the lists and the texts that are
remembered are sound, and those who wait for a file are nodes whose keywords stand in it.
-/

namespace RunReport

/-- The list holds these records. -/
structure ChildList.Reads (l : ChildList) (rs : List Raw) (t : TableRef) : Prop where
  items : l.items = rs
  table : l.table = t
  size : l.made.size = rs.length
  sound : l.made.Sound

theorem ChildList.reads_ofItems (items : List Raw) (table : TableRef) :
    (ChildList.ofItems items table).Reads items table :=
  ⟨rfl, rfl, rfl, LazyList.sound_ofLength _⟩

theorem ChildList.Reads.length {l : ChildList} {rs : List Raw} {t : TableRef} (h : l.Reads rs t) :
    l.made.length = rs.length :=
  h.sound.length.trans h.size

/-- The same list later on: the records stay, and nothing that was made of them is forgotten. -/
structure ChildList.Grows (l l' : ChildList) : Prop where
  items : l'.items = l.items
  table : l'.table = l.table
  made : l.made.Grows l'.made

theorem ChildList.Grows.refl (l : ChildList) : l.Grows l :=
  ⟨rfl, rfl, .refl _⟩

theorem ChildList.Grows.trans {l l' l'' : ChildList} (h : l.Grows l') (h' : l'.Grows l'') :
    l.Grows l'' :=
  ⟨h'.items.trans h.items, h'.table.trans h.table, h.made.trans h'.made⟩

/-- The node is what the source says, and its lists are those of the source. -/
structure Node.Follows (src : Source) (n : Node) (p : Plain) : Prop where
  plain : n.plain? = some p
  splitFile : n.splitFile? = p.splitFile?
  listed : ∀ kind l, n.list? kind = some l →
    ∃ items table, src.items? p kind = some (items, table) ∧ l.Reads items table
  /-- A list that is missing stands in a split file, or nodes of this kind have no such list. -/
  unlisted : ∀ kind, n.list? kind = none →
    kind = .keyword ∧ p.splitFile?.isSome ∨ ∀ src' : Source, src'.items? p kind = none

/-- The node as it is made, with none of its children. -/
def Plain.node : Plain → Node
  | .suite record fullName aboveFailed table => .suite
    { record, fullName, aboveFailed, table
      suites := .ofItems record.suites table
      tests := .ofItems record.tests table
      keywords := .ofItems record.keywords table }
  | .test record fullName aboveFailed table => .test
    { record, fullName, aboveFailed, table, keywords := .ofSource record.keywords table }
  | .keyword record path table => .keyword
    { record, path, table
      keywords := .ofSource record.keywords table
      messages := .ofItems record.messages table }

namespace Plain

theorem plain?_node (p : Plain) : p.node.plain? = some p := by
  cases p <;> rfl

/-- The keywords of a test or keyword as it is made. -/
theorem ofSource_list (src : Source) (k : KeywordSource) (table : TableRef) :
    (∀ l, (Keywords.ofSource k table).list = some l →
      ∃ items, src.keywordItems? table k = some (items, table) ∧ l = .ofItems items table) ∧
    ((Keywords.ofSource k table).list = none → ∃ file, k = .split file) := by
  cases k with
  | inline items =>
    refine ⟨?_, fun h => (by cases h)⟩
    intro l h
    cases h
    exact ⟨items, rfl, rfl⟩
  | split file => exact ⟨fun l h => (by cases h), fun _ => ⟨file, rfl⟩⟩

theorem list?_node (src : Source) (p : Plain) (kind : NodeKind) :
    (∀ l, p.node.list? kind = some l →
      ∃ items, src.items? p kind = some (items, p.table) ∧ l = .ofItems items p.table) ∧
    (p.node.list? kind = none →
      kind = .keyword ∧ p.splitFile?.isSome ∨ ∀ src' : Source, src'.items? p kind = none) := by
  have plain : ∀ {l : ChildList} {items : List Raw} {table : TableRef}
      {r : Option (List Raw × TableRef)},
      some (ChildList.ofItems items table) = some l → r = some (items, table) →
      ∃ items', r = some (items', table) ∧ l = .ofItems items' table := by
    intro l items table r h hr
    cases h
    exact ⟨items, hr, rfl⟩
  cases p with
  | suite r name failed t =>
    cases kind with
    | suite => exact ⟨fun l h => plain h rfl, fun h => (by cases h)⟩
    | test => exact ⟨fun l h => plain h rfl, fun h => (by cases h)⟩
    | keyword => exact ⟨fun l h => plain h rfl, fun h => (by cases h)⟩
    | message => exact ⟨fun l h => (by cases h), fun _ => .inr fun _ => rfl⟩
  | test r name failed t =>
    cases kind with
    | keyword =>
      refine ⟨(ofSource_list src r.keywords t).1, fun h => .inl ⟨rfl, ?_⟩⟩
      obtain ⟨file, hf⟩ := (ofSource_list src r.keywords t).2 h
      simp [Plain.splitFile?, Plain.keywordSource?, Plain.fileOf?, hf]
    | suite => exact ⟨fun l h => (by cases h), fun _ => .inr fun _ => rfl⟩
    | test => exact ⟨fun l h => (by cases h), fun _ => .inr fun _ => rfl⟩
    | message => exact ⟨fun l h => (by cases h), fun _ => .inr fun _ => rfl⟩
  | keyword r path t =>
    cases kind with
    | keyword =>
      refine ⟨(ofSource_list src r.keywords t).1, fun h => .inl ⟨rfl, ?_⟩⟩
      obtain ⟨file, hf⟩ := (ofSource_list src r.keywords t).2 h
      simp [Plain.splitFile?, Plain.keywordSource?, Plain.fileOf?, hf]
    | message => exact ⟨fun l h => plain h rfl, fun h => (by cases h)⟩
    | suite => exact ⟨fun l h => (by cases h), fun _ => .inr fun _ => rfl⟩
    | test => exact ⟨fun l h => (by cases h), fun _ => .inr fun _ => rfl⟩

theorem splitFile?_node (p : Plain) : p.node.splitFile? = p.splitFile? := by
  have source : ∀ (k : KeywordSource) (t : TableRef),
      (Keywords.ofSource k t).splitFile = fileOf? k := by
    intro k t
    cases k <;> rfl
  cases p with
  | suite => rfl
  | test r name failed t => exact source r.keywords t
  | keyword r path t => exact source r.keywords t

/-- A node as it is made follows the source. -/
theorem follows_node (src : Source) (p : Plain) : p.node.Follows src p where
  plain := p.plain?_node
  splitFile := p.splitFile?_node
  listed := by
    intro kind l h
    obtain ⟨items, hi, rfl⟩ := (list?_node src p kind).1 l h
    exact ⟨items, p.table, hi, ChildList.reads_ofItems ..⟩
  unlisted kind h := (list?_node src p kind).2 h

theorem slot?_node {p : Plain} {kind : NodeKind} {l : ChildList} (h : p.node.list? kind = some l)
    (i : Nat) : l.made.slot? i = none := by
  obtain ⟨items, -, rfl⟩ := (list?_node ⟨⟨.lettered, 0, none⟩, .null, [], fun _ => none⟩ p kind).1 l h
  exact LazyList.slot?_ofLength ..

end Plain

namespace Node

variable {src src' : Source} {n : Node} {p : Plain}

theorem Follows.within (h : n.Follows src p) (le : src.Within src') : n.Follows src' p where
  plain := h.plain
  splitFile := h.splitFile
  listed := by
    intro kind l hl
    obtain ⟨items, table, hi, hr⟩ := h.listed kind l hl
    exact ⟨items, table, le.items? hi, hr⟩
  unlisted := h.unlisted

theorem Follows.count (h : n.Follows src p) (kind : NodeKind) {l : ChildList}
    (hl : n.list? kind = some l) : (src.items? p kind).map (·.1.length) = some l.made.length := by
  obtain ⟨items, table, hi, reads⟩ := h.listed kind l hl
  rw [hi, reads.length]
  rfl

/-- Changing what was made of a list keeps the records. -/
theorem Follows.updateList (h : n.Follows src p) (kind : NodeKind)
    (f : LazyList NodeId → LazyList NodeId) (size : ∀ l, (f l).size = l.size)
    (sound : ∀ l, n.list? kind = some l → l.made.Sound → (f l.made).Sound) :
    (n.updateList (fun l => { l with made := f l.made }) kind).Follows src p where
  plain := (plain?_updateList ..).trans h.plain
  splitFile := (splitFile?_updateList ..).trans h.splitFile
  listed := by
    intro kind' l hl
    by_cases hk : kind' = kind
    · subst hk
      rw [list?_updateList] at hl
      obtain ⟨l', hl', rfl⟩ := Option.map_eq_some_iff.1 hl
      obtain ⟨items, table, hi, hr⟩ := h.listed kind' l' hl'
      exact ⟨items, table, hi, hr.items, hr.table, (size l'.made).trans hr.size,
        sound l' hl' hr.sound⟩
    · rw [list?_updateList_other _ _ hk] at hl
      exact h.listed kind' l hl
  unlisted := by
    intro kind' hl
    by_cases hk : kind' = kind
    · subst hk
      rw [list?_updateList] at hl
      exact h.unlisted kind' (Option.map_eq_none_iff.1 hl)
    · rw [list?_updateList_other _ _ hk] at hl
      exact h.unlisted kind' hl

theorem missingFile?_eq_some {file : String} :
    n.missingFile? = some file ↔ n.list? .keyword = none ∧ n.splitFile? = some file := by
  have loaded : ∀ k : Keywords, (if k.isLoaded then none else k.splitFile) = some file ↔
      k.list = none ∧ k.splitFile = some file := by
    intro k
    cases h : k.list <;> simp [Keywords.isLoaded, h]
  cases n with
  | suite s => simp [missingFile?, keywords?, splitFile?]
  | test t => exact loaded t.keywords
  | keyword k => exact loaded k.keywords
  | message m => simp [missingFile?, keywords?, splitFile?]

theorem isLoaded_of_list? (hl : (n.list? .keyword).isSome) : n.isLoaded = true := by
  cases n <;> first | rfl | exact hl

/-- Where no file is missing the lists of the node are all the lists there are. -/
theorem Follows.items?_eq_none (h : n.Follows src p) (ready : n.missingFile? = none)
    {kind : NodeKind} (hl : n.list? kind = none) : src.items? p kind = none := by
  rcases h.unlisted kind hl with ⟨rfl, hf⟩ | none
  · obtain ⟨file, hfile⟩ := Option.isSome_iff_exists.1 hf
    have missing : n.missingFile? = some file :=
      missingFile?_eq_some.2 ⟨hl, h.splitFile.trans hfile⟩
    rw [ready] at missing
    cases missing
  · exact none src

theorem keywords?_isSome_of_splitFile? {file : String} (h : n.splitFile? = some file) :
    n.keywords?.isSome := by
  cases hk : n.keywords? with
  | none => simp [splitFile?, hk] at h
  | some k => rfl

theorem missingFile?_install {file : String} (h : n.splitFile? = some file) (items : List Raw)
    (table : TableRef) : (n.install items table).missingFile? = none := by
  cases hm : (n.install items table).missingFile? with
  | none => rfl
  | some f =>
    obtain ⟨hl, -⟩ := missingFile?_eq_some.1 hm
    rw [list?_install _ _ _ (keywords?_isSome_of_splitFile? h)] at hl
    cases hl

/-- Putting the content of its split file in place keeps a node true to the source. -/
theorem Follows.install (h : n.Follows src p) {file : String} {payload : SplitPayload}
    (hf : n.splitFile? = some file) (hp : src.files file = some payload) :
    (n.install payload.keywords (.split file)).Follows src p where
  plain := (plain?_install ..).trans h.plain
  splitFile := (splitFile?_install ..).trans h.splitFile
  listed := by
    intro kind l hl
    by_cases hk : kind = .keyword
    · subst hk
      rw [list?_install _ _ _ (keywords?_isSome_of_splitFile? hf)] at hl
      cases old : n.list? .keyword with
      | some l' =>
        rw [old] at hl
        cases hl
        exact h.listed _ _ old
      | none =>
        rw [old] at hl
        cases hl
        refine ⟨payload.keywords, .split file, ?_, ChildList.reads_ofItems ..⟩
        rw [src.items?_split (h.splitFile.symm.trans hf), hp]
        rfl
    · rw [list?_install_other _ _ _ hk] at hl
      exact h.listed kind l hl
  unlisted := by
    intro kind hl
    by_cases hk : kind = .keyword
    · subst hk
      rw [list?_install _ _ _ (keywords?_isSome_of_splitFile? hf)] at hl
      cases hl
    · rw [list?_install_other _ _ _ hk] at hl
      exact h.unlisted kind hl

end Node

namespace Session

/-- What slot `i` of a list of children may hold. -/
def Belongs (owner : Route) (kind : NodeKind) (i : Nat) (id : NodeId) : Prop :=
  match kind with
  | .suite => id = .branch (.child owner ⟨.suite, i⟩)
  | .test => id = .branch (.child owner ⟨.test, i⟩)
  | .keyword => id = .branch (.child owner ⟨.keyword, i⟩)
  | .message => ∃ number, id = .message number

theorem belongs_branch {owner : Route} {b : Branch} {i : Nat} {id : NodeId} :
    Belongs owner b.kind i id ↔ id = .branch (.child owner ⟨b, i⟩) := by
  cases b <;> rfl

/-- The node is the message that slot `i` of a list of messages stands for. -/
def Recorded (s : Session) (owner : Route) (l : ChildList) (i : Nat) (id : NodeId) : Prop :=
  ∃ raw record, l.items[i]? = some raw ∧
    s.source.readIn l.table (s.source.coding.message raw) = .ok record ∧
    s.node? id = some (.message ⟨record, some owner⟩)

/-- What a session holds is true to its source. -/
structure Faithful (s : Session) : Prop where
  isOpen : s.isOpen = true
  tables : ∀ ref, (s.tableOf ref).Sound ∧ (s.tableOf ref).entries = s.source.entries ref
  /-- What is remembered of a text is what the source has. -/
  texts : ∀ id part text, s.text? id part = some text →
    ∃ n p, s.node? id = some n ∧ n.plain? = some p ∧ s.source.text? p part = some (.ok text)
  unique : (s.nodes.map Prod.fst).Nodup
  follows : ∀ r n, s.branch? r = some n →
    ∃ p, s.source.node? r = .ok (some p) ∧ n.Follows s.source p
  /-- What is in a slot is registered. -/
  filled : ∀ owner kind l i id, s.list? owner kind = some l → l.made.slot? i = some id →
    Belongs owner kind i id ∧ (s.node? id).isSome
  counted : ∀ number, (s.node? (.message number)).isSome ↔ 1 ≤ number ∧ number ≤ s.messageCount
  logged : ∀ number n, s.node? (.message number) = some n → ∃ m, n = .message m
  recorded : ∀ owner l i id, s.list? owner .message = some l → l.made.slot? i = some id →
    s.Recorded owner l i id
  errors : s.errors.Reads s.errors.items .main
  failures : ∀ i id, s.errors.made.slot? i = some id →
    (∃ number, id = .message number) ∧ (s.node? id).isSome
  /-- No file has two states. -/
  distinct : s.loader.names.Nodup
  /-- Who waits for a file is a node whose keywords stand in it. -/
  waiting : ∀ file ws, s.loader.state? file = some (.pending ws) → ∀ node next,
    Waiter.children node next ∈ ws → ∃ n, s.branch? node = some n ∧ n.splitFile? = some file

/-- Besides, every registered node is in its slot of the list of its owner. -/
structure Consistent (s : Session) : Prop extends Faithful s where
  owned : ∀ owner step, (s.branch? (.child owner step)).isSome →
    ∃ l, s.list? owner step.branch.kind = some l ∧
      l.made.slot? step.index = some (.branch (.child owner step))

/-- A session that has gone on: no node and no file has gone or changed. -/
structure Extends (s s' : Session) : Prop where
  source : s.source.Within s'.source
  nodes : ∀ id n, s.node? id = some n → ∃ n', s'.node? id = some n' ∧ n'.plain? = n.plain?

/-- A session in which more has been read: nodes may have been made, but no file was asked for or
has come, no list was put in place, no callback ran and nothing was settled. -/
structure Explores (s s' : Session) : Prop where
  source : s'.source = s.source
  nodes : ∀ id n, s.node? id = some n → ∃ n', s'.node? id = some n' ∧ n'.plain? = n.plain? ∧
    n'.splitFile? = n.splitFile? ∧ ∀ kind, (n'.list? kind).isSome = (n.list? kind).isSome
  lists : ∀ owner kind l, s.list? owner kind = some l →
    ∃ l', s'.list? owner kind = some l' ∧ l.Grows l'
  errors : s.errors.Grows s'.errors
  loader : s'.loader = s.loader
  futures : s'.futures = s.futures
  labels : s'.labels = s.labels
  held : s'.held = s.held
  fired : s'.fired = s.fired

variable {s s' s'' : Session}

theorem Extends.refl (s : Session) : s.Extends s :=
  ⟨.refl _, fun _ n h => ⟨n, h, rfl⟩⟩

theorem Extends.trans (h : s.Extends s') (h' : s'.Extends s'') : s.Extends s'' where
  source := h.source.trans h'.source
  nodes := by
    intro id n hn
    obtain ⟨n', hn', hp⟩ := h.nodes id n hn
    obtain ⟨n'', hn'', hp'⟩ := h'.nodes id n' hn'
    exact ⟨n'', hn'', hp'.trans hp⟩

theorem Explores.refl (s : Session) : s.Explores s :=
  ⟨rfl, fun _ n h => ⟨n, h, rfl, rfl, fun _ => rfl⟩, fun _ _ l h => ⟨l, h, .refl l⟩, .refl _, rfl, rfl,
    rfl, rfl, rfl⟩

theorem Explores.trans (h : s.Explores s') (h' : s'.Explores s'') : s.Explores s'' where
  source := h'.source.trans h.source
  nodes := by
    intro id n hn
    obtain ⟨n', hn', hp, hf, hl⟩ := h.nodes id n hn
    obtain ⟨n'', hn'', hp', hf', hl'⟩ := h'.nodes id n' hn'
    exact ⟨n'', hn'', hp'.trans hp, hf'.trans hf, fun kind => (hl' kind).trans (hl kind)⟩
  lists := by
    intro owner kind l hl
    obtain ⟨l', hl', grows⟩ := h.lists owner kind l hl
    obtain ⟨l'', hl'', grows'⟩ := h'.lists owner kind l' hl'
    exact ⟨l'', hl'', grows.trans grows'⟩
  errors := h.errors.trans h'.errors
  loader := h'.loader.trans h.loader
  futures := h'.futures.trans h.futures
  labels := h'.labels.trans h.labels
  held := h'.held.trans h.held
  fired := h'.fired.trans h.fired

theorem Explores.extends (h : s.Explores s') : s.Extends s' where
  source := h.source ▸ .refl _
  nodes := by
    intro id n hn
    obtain ⟨n', hn', hp, -⟩ := h.nodes id n hn
    exact ⟨n', hn', hp⟩

theorem Extends.isSome (h : s.Extends s') {id : NodeId} (hid : (s.node? id).isSome) :
    (s'.node? id).isSome := by
  obtain ⟨n, hn⟩ := Option.isSome_iff_exists.1 hid
  obtain ⟨n', hn', -⟩ := h.nodes id n hn
  simp [hn']

/-- What is asked for, and which callbacks ran, is no concern of the invariant. -/
theorem Consistent.peripheral (h : s.Consistent) (requests : Nat) (queue : List String)
    (futures : List Future) (labels : List (String × Nat)) (held : List (String × NodeId))
    (fired : List Event) :
    Consistent { s with
      loader := { s.loader with requests, queue }, futures, labels, held, fired } :=
  ⟨⟨h.isOpen, h.tables, h.texts, h.unique, h.follows, h.filled, h.counted, h.logged, h.recorded,
    h.errors, h.failures, h.distinct, h.waiting⟩, h.owned⟩

/-- A registered node and the record it stands for. -/
theorem Consistent.plain (h : s.Consistent) {r : Route} {n : Node} (hn : s.branch? r = some n) :
    ∃ p, n.plain? = some p ∧ s.source.node? r = .ok (some p) ∧ n.Follows s.source p := by
  obtain ⟨p, hp, hf⟩ := h.follows r n hn
  exact ⟨p, hf.plain, hp, hf⟩

theorem Consistent.list (h : s.Consistent) {owner : Route} {kind : NodeKind} {l : ChildList}
    (hl : s.list? owner kind = some l) :
    ∃ n p items table, s.branch? owner = some n ∧ n.list? kind = some l ∧ n.Follows s.source p ∧
      s.source.node? owner = .ok (some p) ∧ s.source.items? p kind = some (items, table) ∧
      l.Reads items table := by
  obtain ⟨n, hn, hl⟩ := (list?_eq_some s).1 hl
  obtain ⟨p, hp, hf⟩ := h.follows owner n hn
  obtain ⟨items, table, hi, hr⟩ := hf.listed kind l hl
  exact ⟨n, p, items, table, hn, hl, hf, hp, hi, hr⟩

/-- The split file of a node stays the same. -/
theorem Extends.splitFile? (h : s.Extends s') (before : s.Consistent) (after : s'.Consistent)
    {r : Route} {n : Node} (hn : s.branch? r = some n) :
    ∃ n', s'.branch? r = some n' ∧ n'.splitFile? = n.splitFile? := by
  obtain ⟨n', hn', hp⟩ := h.nodes _ n hn
  obtain ⟨p, -, hf⟩ := before.follows r n hn
  obtain ⟨p', -, hf'⟩ := after.follows r n' hn'
  have same : p' = p := by
    rw [hf.plain, hf'.plain] at hp
    exact Option.some.inj hp
  refine ⟨n', hn', ?_⟩
  rw [hf.splitFile, hf'.splitFile, same]

/-- What the source has of a text does not change while a session goes on. -/
theorem Extends.texts (h : s.Extends s') (before : s.Faithful) {id : NodeId} {part : TextPart}
    {text : String} (kept : s.text? id part = some text) :
    ∃ n p, s'.node? id = some n ∧ n.plain? = some p ∧ s'.source.text? p part = some (.ok text) := by
  obtain ⟨n, p, hn, hp, read⟩ := before.texts id part text kept
  obtain ⟨n', hn', same⟩ := h.nodes id n hn
  refine ⟨n', p, hn', same.trans hp, ?_⟩
  cases id with
  | message number =>
    obtain ⟨m, rfl⟩ := before.logged number n hn
    cases hp
  | branch r =>
    obtain ⟨q, found, follows⟩ := before.follows r n hn
    cases hp.symm.trans follows.plain
    rw [h.source.text? (Source.node?_has found)]
    exact read

end Session

end RunReport
