import RunReport.Proofs.Closing
import RunReport.Proofs.Nesting
/-!
# Children after the report is dropped

Once the report is dropped a session reads what is in its slots and makes nothing. Whoever asks for a
child is given the node that was made before, and is refused where none was made. A message is read
before the session is asked, so one that cannot be read fails as it would have before.
-/

namespace RunReport

namespace Effects

variable {ε α β : Type} {x : Except ε α} {f : α → Except ε β}

theorem bind_eq_ok {b : β} : (x >>= f) = .ok b ↔ ∃ a, x = .ok a ∧ f a = .ok b := by
  cases x with
  | error e => simp [bind, Except.bind]
  | ok a => simp [bind, Except.bind]

theorem bind_eq_error {e : ε} :
    (x >>= f) = .error e ↔ x = .error e ∨ ∃ a, x = .ok a ∧ f a = .error e := by
  cases x with
  | error e => simp [bind, Except.bind]
  | ok a => simp [bind, Except.bind]

end Effects

/-- The list as its slots make it, whatever else of it has been asked for. -/
def ChildList.counted (l : ChildList) : ChildList :=
  { l with made := { l.made.measure with all := none } }

theorem Loader.payload?_abandon {W : Type} {l : Loader W} (distinct : l.names.Nodup)
    (file : String) : l.abandon.payload? file = l.payload? file := by
  obtain ⟨files, requests, queue⟩ := l
  simp only [payload?, state?, abandon]
  simp only [names] at distinct
  induction files with
  | nil => rfl
  | cons f fs ih =>
    obtain ⟨name, state⟩ := f
    obtain ⟨new, distinct⟩ := List.nodup_cons.1 distinct
    specialize ih distinct
    cases state with
    | loaded p =>
      rw [List.filter_cons_of_pos rfl, List.lookup_cons, List.lookup_cons]
      cases file == name with
      | true => rfl
      | false => exact ih
    | pending ws =>
      rw [List.filter_cons_of_neg (by simp [isPending]), List.lookup_cons]
      cases here : file == name with
      | false => exact ih
      | true =>
        cases eq_of_beq here
        -- The name comes only once, so that nothing else is found under it.
        have gone : fs.lookup file = none := by
          rw [List.lookup_eq_none_iff]
          intro f hf
          simp only [bne_iff_ne, ne_eq]
          rintro rfl
          exact new (List.mem_map.2 ⟨f, hf, rfl⟩)
        rw [ih, gone]

namespace Session

open Effects

variable {s t u : Session} {r : Route} {kind : NodeKind} {i : Nat} {id : NodeId}

/-! ## Slots -/

/-- The node that was made of a child. -/
def slot? (s : Session) (r : Route) (kind : NodeKind) (i : Nat) : Option NodeId :=
  (s.list? r kind).bind (·.made.slot? i)

/-- How many children of a kind there are. -/
def size (s : Session) (r : Route) (kind : NodeKind) : Nat :=
  ((s.list? r kind).map (·.made.length)).getD 0

/-- The record of a child, with its table. -/
def raw? (s : Session) (r : Route) (kind : NodeKind) (i : Nat) : Option (Raw × TableRef) :=
  (s.list? r kind).bind fun l => l.items[i]?.map (·, l.table)

/-- How a child fails to be made. -/
def refusal (s : Session) (r : Route) (kind : NodeKind) (i : Nat) : Error :=
  match kind, s.raw? r kind i with
  | .message, some (raw, table) =>
    match s.source.readIn table (s.source.coding.message raw) with
    | .ok _ => .sessionClosed
    | .error e => e
  | _, _ => .sessionClosed

/-- The child at a place, if no more are made. -/
def offered (s : Session) (r : Route) (kind : NodeKind) (i : Nat) : Except Error (Option NodeId) :=
  match s.slot? r kind i with
  | some id => .ok (some id)
  | none => if i < s.size r kind then .error (s.refusal r kind i) else .ok none

def offeredAt (s : Session) (r : Route) (kind : NodeKind) : List Nat → Except Error (List NodeId)
  | [] => .ok []
  | i :: is => do
    let item ← s.offered r kind i
    let rest ← s.offeredAt r kind is
    return item.toList ++ rest

/-- All children of a kind, if no more are made. -/
def offeredAll (s : Session) (r : Route) (kind : NodeKind) : Except Error (List NodeId) :=
  s.offeredAt r kind (List.range (s.size r kind))

/-- All children of some kinds, if no more are made. -/
def offeredOf (s : Session) (r : Route) : List NodeKind → Except Error (List NodeId)
  | [] => .ok []
  | kind :: kinds => do
    let first ← s.offeredAll r kind
    let rest ← s.offeredOf r kinds
    return first ++ rest

/-- Likewise; nothing while one of the lists is not there. -/
def offeredList (s : Session) (r : Route) (kinds : List NodeKind) :
    Except Error (Option (List NodeId)) :=
  if ∀ kind ∈ kinds, (s.list? r kind).isSome then some <$> s.offeredOf r kinds else .ok none

/-- The kinds of children in the order they are shown. -/
def kindsOf (s : Session) (r : Route) : List NodeKind :=
  match (s.node? (.branch r)).bind Node.plain? with
  | some (.suite ..) => [.keyword, .test, .suite]
  | some (.test ..) => [.keyword]
  | some (.keyword ..) => [.keyword, .message]
  | none => []

/-- The children of a kind that were made, in order. -/
def madeOf (s : Session) (r : Route) (kind : NodeKind) : List NodeId :=
  (List.range (s.size r kind)).filterMap (s.slot? r kind)

/-- What is in a slot is registered, and tables, files and lists are in order. -/
structure Orderly (s : Session) : Prop where
  distinct : s.loader.names.Nodup
  tables : ∀ ref, (s.tableOf ref).Sound ∧ (s.tableOf ref).entries = s.source.entries ref
  sound : ∀ r kind l, s.list? r kind = some l → l.made.Sound
  filled : ∀ r kind i id, s.slot? r kind i = some id → (s.node? id).isSome
  nested : ∀ r i r', s.slot? r .suite i = some (.branch r') → s.levels r' < s.levels r
  shallow : ∀ r, s.levels r < s.suiteDepth

/-- A closed session. -/
structure Dormant (s : Session) : Prop extends Orderly s where
  closed : s.isOpen = false

/-- A session that was read: nothing but what was remembered of texts and lists may differ, and nothing
of a list is forgotten. -/
structure Mirrors (s t : Session) : Prop where
  source : t.source = s.source
  loader : t.loader = s.loader
  isOpen : t.isOpen = s.isOpen
  errors : t.errors = s.errors
  nodes : ∀ id, (t.node? id).map Node.plain? = (s.node? id).map Node.plain?
  lists : ∀ r kind, (t.list? r kind).map ChildList.counted = (s.list? r kind).map ChildList.counted
  grows : ∀ r kind l, s.list? r kind = some l →
    ∃ l', t.list? r kind = some l' ∧ l.made.Grows l'.made

theorem Mirrors.refl (s : Session) : s.Mirrors s :=
  ⟨rfl, rfl, rfl, rfl, fun _ => rfl, fun _ _ => rfl, fun _ _ l hl => ⟨l, hl, .refl _⟩⟩

theorem Mirrors.trans (h : s.Mirrors t) (h' : t.Mirrors u) : s.Mirrors u where
  source := h'.source.trans h.source
  loader := h'.loader.trans h.loader
  isOpen := h'.isOpen.trans h.isOpen
  errors := h'.errors.trans h.errors
  nodes id := (h'.nodes id).trans (h.nodes id)
  lists r kind := (h'.lists r kind).trans (h.lists r kind)
  grows := by
    intro r kind l hl
    obtain ⟨l', hl', grows⟩ := h.grows r kind l hl
    obtain ⟨l'', hl'', grows'⟩ := h'.grows r kind l' hl'
    exact ⟨l'', hl'', grows.trans grows'⟩

theorem isSome_eq_of_map {α β : Type} {f : α → β} {o o' : Option α} (h : o.map f = o'.map f) :
    o.isSome = o'.isSome := by
  have same := congrArg Option.isSome h
  rwa [Option.isSome_map, Option.isSome_map] at same

theorem plain?_eq_of_map {o o' : Option Node} (h : o.map Node.plain? = o'.map Node.plain?) :
    o.bind Node.plain? = o'.bind Node.plain? := by
  have same := congrArg (·.bind fun p => p) h
  simp only [Option.bind_map] at same
  exact same

theorem Mirrors.isSome (h : s.Mirrors t) (id : NodeId) :
    (t.node? id).isSome = (s.node? id).isSome :=
  isSome_eq_of_map (h.nodes id)

theorem Mirrors.plain? (h : s.Mirrors t) (id : NodeId) :
    (t.node? id).bind Node.plain? = (s.node? id).bind Node.plain? :=
  plain?_eq_of_map (h.nodes id)

theorem Mirrors.listed (h : s.Mirrors t) (r : Route) (kind : NodeKind) :
    (t.list? r kind).isSome = (s.list? r kind).isSome :=
  isSome_eq_of_map (h.lists r kind)

/-- What depends on the list alone, and not on whether its length was asked for. -/
theorem Mirrors.bind_list {α : Type} (h : s.Mirrors t) (r : Route) (kind : NodeKind)
    {f : ChildList → Option α} (plain : ∀ l, f l.counted = f l) :
    (t.list? r kind).bind f = (s.list? r kind).bind f := by
  have through : ∀ o : Option ChildList, o.bind f = (o.map ChildList.counted).bind f := by
    intro o
    cases o with
    | none => rfl
    | some l => exact (plain l).symm
  rw [through, through (s.list? r kind), h.lists]

theorem Mirrors.map_list {α : Type} (h : s.Mirrors t) (r : Route) (kind : NodeKind)
    {f : ChildList → α} (plain : ∀ l, f l.counted = f l) :
    (t.list? r kind).map f = (s.list? r kind).map f := by
  simp only [Option.map_eq_bind]
  exact h.bind_list r kind fun l => congrArg some (plain l)

theorem Mirrors.slot? (h : s.Mirrors t) (r : Route) (kind : NodeKind) (i : Nat) :
    t.slot? r kind i = s.slot? r kind i :=
  h.bind_list r kind fun _ => rfl

theorem Mirrors.size (h : s.Mirrors t) (r : Route) (kind : NodeKind) :
    t.size r kind = s.size r kind :=
  congrArg (·.getD 0) (h.map_list r kind fun _ => rfl)

theorem Mirrors.levels (h : s.Mirrors t) (r : Route) : t.levels r = s.levels r :=
  congrArg (·.getD 0) (h.map_list r .suite fun _ => rfl)

theorem Mirrors.refusal (h : s.Mirrors t) (r : Route) (kind : NodeKind) (i : Nat) :
    t.refusal r kind i = s.refusal r kind i := by
  have raw : t.raw? r kind i = s.raw? r kind i := h.bind_list r kind fun _ => rfl
  simp only [Session.refusal, raw, h.source]

theorem Mirrors.offered (h : s.Mirrors t) (r : Route) (kind : NodeKind) (i : Nat) :
    t.offered r kind i = s.offered r kind i := by
  simp only [Session.offered, h.slot?, h.size, h.refusal]

theorem Mirrors.dormant (h : s.Mirrors t) (hs : s.Dormant)
    (tables : ∀ ref, (t.tableOf ref).Sound ∧ (t.tableOf ref).entries = t.source.entries ref)
    (sound : ∀ r kind l, t.list? r kind = some l → l.made.Sound) : t.Dormant where
  closed := h.isOpen.trans hs.closed
  distinct := h.loader ▸ hs.distinct
  tables := tables
  sound := sound
  filled := by
    intro r kind i id hi
    rw [h.isSome]
    exact hs.filled r kind i id (h.slot? r kind i ▸ hi)
  nested := by
    intro r i r' hi
    rw [h.levels, h.levels]
    exact hs.nested r i r' (h.slot? r .suite i ▸ hi)
  shallow := by
    intro r
    have suite : t.suite = s.suite := congrArg Source.suite h.source
    rw [h.levels, suiteDepth, suite]
    exact hs.shallow r

/-- Whatever is remembered of a list besides its slots, the session is the same to its readers. -/
theorem mirrors_update (s : Session) (r : Route) (kind : NodeKind)
    {f : LazyList NodeId → LazyList NodeId} (grows : ∀ l, LazyList.Grows l (f l))
    (plain : ∀ l : ChildList, ChildList.counted { l with made := f l.made } = l.counted) :
    s.Mirrors ((made r kind).update f s) where
  source := rfl
  loader := rfl
  isOpen := rfl
  errors := rfl
  nodes := by
    intro id
    rw [node?_update]
    split
    · rw [Option.map_map]
      congr 1
      funext n
      exact Node.plain?_updateList ..
    · rfl
  lists := by
    intro r' kind'
    rw [list?_update]
    split
    · next same =>
      rw [same.1, same.2, Option.map_map]
      exact Option.map_congr fun l _ => plain l
    · rfl
  grows := by
    intro r' kind' l hl
    rw [list?_update]
    split
    · next same =>
      rw [← same.1, ← same.2, hl]
      exact ⟨_, rfl, grows l.made⟩
    · exact ⟨l, hl, .refl _⟩

/-- A list that changes stays in order if it is in order as it is then. -/
theorem Orderly.sound_update (h : s.Orderly) {r : Route} {kind : NodeKind}
    {f : LazyList NodeId → LazyList NodeId}
    (sound : ∀ l, s.list? r kind = some l → l.made.Sound → (f l.made).Sound) (r' : Route)
    (kind' : NodeKind) (l : ChildList) (hl : ((made r kind).update f s).list? r' kind' = some l) :
    l.made.Sound := by
  rw [list?_update] at hl
  split at hl
  · next same =>
    obtain ⟨l', hl', rfl⟩ := Option.map_eq_some_iff.1 hl
    exact sound l' hl' (h.sound r kind l' hl')
  · exact h.sound r' kind' l hl

theorem mirrors_measure (s : Session) (r : Route) (kind : NodeKind) :
    s.Mirrors ((made r kind).update (·.measure) s) :=
  mirrors_update s r kind LazyList.grows_measure fun _ => rfl

theorem mirrors_settle (s : Session) (r : Route) (kind : NodeKind) (items : List NodeId) :
    s.Mirrors ((made r kind).update (·.settle items) s) :=
  mirrors_update s r kind (LazyList.grows_settle · items) fun _ => rfl

theorem mirrors_keepText (s : Session) (id : NodeId) (part : TextPart) (text : String) :
    s.Mirrors (keepText id part text s) :=
  ⟨rfl, rfl, rfl, rfl, fun _ => rfl, fun _ _ => rfl, fun _ _ l hl => ⟨l, hl, .refl _⟩⟩

theorem Dormant.measure (h : s.Dormant) (r : Route) (kind : NodeKind) :
    ((made r kind).update (·.measure) s).Dormant :=
  (mirrors_measure s r kind).dormant h h.tables (h.sound_update fun _ _ sound => sound.measure)

theorem Dormant.keepText (h : s.Dormant) (id : NodeId) (part : TextPart) (text : String) :
    (keepText id part text s).Dormant :=
  (mirrors_keepText s id part text).dormant h h.tables h.sound

/-- A lookup gives what the source says, and nothing but the tables changes. -/
theorem Dormant.withTable {α : Type} (h : s.Dormant) (ref : TableRef) {x : Lookup α}
    (steady : Lookup.Steady x) : ∃ t, (withTable ref x).run s = (s.source.readIn ref x, t) ∧
      t.Dormant ∧ s.Mirrors t := by
  obtain ⟨sound, entries⟩ := h.tables ref
  obtain ⟨result, sound', entries'⟩ := steady _ sound
  have source := source_setTable ref _ entries'
  have mirrors : s.Mirrors (setTable ref (x.run (s.tableOf ref)).2 s) := by
    obtain ⟨strings, splitStrings, eq⟩ := setTable_frame s ref (x.run (s.tableOf ref)).2
    rw [eq] at source ⊢
    exact ⟨source, rfl, rfl, rfl, fun _ => rfl, fun _ _ => rfl, fun _ _ l hl => ⟨l, hl, .refl _⟩⟩
  have lists : ∀ r kind, (setTable ref (x.run (s.tableOf ref)).2 s).list? r kind = s.list? r kind := by
    obtain ⟨strings, splitStrings, eq⟩ := setTable_frame s ref (x.run (s.tableOf ref)).2
    rw [eq]
    exact fun _ _ => rfl
  refine ⟨setTable ref (x.run (s.tableOf ref)).2 s, ?_,
    mirrors.dormant h ?_ fun r kind l hl => h.sound r kind l (lists r kind ▸ hl), mirrors⟩
  · rw [Source.readIn, ← entries, ← result]
    rfl
  · intro ref'
    rw [source]
    rcases tableOf_setTable s ref ref' (x.run (s.tableOf ref)).2 with same | ⟨rfl, new⟩
    · rw [same]
      exact h.tables ref'
    · rw [new]
      exact ⟨sound', entries'.trans (h.tables ref').2⟩

/-! ## Closing -/

theorem Consistent.orderly (h : s.Consistent) : s.Orderly where
  distinct := h.distinct
  tables := h.tables
  sound := by
    intro r kind l hl
    obtain ⟨-, -, items, table, -, -, -, -, -, reads⟩ := h.list hl
    exact reads.sound
  filled := by
    intro r kind i id hi
    obtain ⟨l, hl, hi⟩ := Option.bind_eq_some_iff.1 hi
    exact (h.filled r kind l i id hl hi).2
  nested := by
    intro r i r' hi
    obtain ⟨l, hl, hi⟩ := Option.bind_eq_some_iff.1 hi
    exact h.nested hl hi
  shallow := h.shallow

theorem Orderly.close (h : s.Orderly) : (close s).Dormant := by
  obtain ⟨futures, closed, -⟩ := close_eq s
  have files : s.loader.abandon.payload? = s.loader.payload? :=
    funext (Loader.payload?_abandon h.distinct)
  have source : (Session.close s).source = s.source := by
    simp only [closed, Session.source, files]
  refine ⟨⟨?_, ?_, ?_, ?_, ?_, ?_⟩, by rw [closed]⟩
  · rw [closed]
    exact h.distinct.sublist (List.filter_sublist.map _)
  · rw [source, closed]
    exact h.tables
  all_goals rw [closed]
  · exact h.sound
  · exact h.filled
  · exact h.nested
  · exact h.shallow

/-! ## Children -/

theorem view_eq (s : Session) (r : Route) (kind : NodeKind) :
    (made r kind).view s = ((s.list? r kind).map (·.made)).getD (.ofLength 0) :=
  rfl

theorem view_length (s : Session) (r : Route) (kind : NodeKind) :
    ((made r kind).view s).length = s.size r kind := by
  rw [view_eq, size]
  cases s.list? r kind <;> rfl

theorem view_slot (s : Session) (r : Route) (kind : NodeKind) (i : Nat) :
    ((made r kind).view s).slot? i = s.slot? r kind i := by
  rw [view_eq, slot?]
  cases s.list? r kind with
  | none => exact LazyList.slot?_ofLength i 0
  | some l => rfl

theorem Orderly.inside (h : s.Orderly) (hi : s.slot? r kind i = some id) : i < s.size r kind := by
  obtain ⟨l, hl, hi⟩ := Option.bind_eq_some_iff.1 hi
  have sound := h.sound r kind l hl
  rw [size, hl, Option.map_some, Option.getD_some, sound.length]
  exact sound.inside hi

theorem checkOpen_closed (closed : s.isOpen = false) :
    checkOpen.run s = (.error .sessionClosed, s) := by
  simp only [checkOpen, run_bind, run_get, closed]
  rfl

/-- A message is read before the session is asked, anything else after. -/
theorem Dormant.decodeChild (h : s.Dormant) (kind : NodeKind) (r : Route) {raw : Raw}
    {table : TableRef} (there : s.raw? r kind i = some (raw, table)) :
    ∃ t, (decodeChild kind r raw table i).run s = (.error (s.refusal r kind i), t) ∧ t.Dormant ∧
      s.Mirrors t := by
  have closed := checkOpen_closed h.closed
  cases kind with
  | suite => exact ⟨s, run_bind_error closed, h, .refl s⟩
  | test => exact ⟨s, run_bind_error closed, h, .refl s⟩
  | keyword => exact ⟨s, run_bind_error closed, h, .refl s⟩
  | message =>
    obtain ⟨t, run, dormant, mirrors⟩ := h.withTable table (s.coding.steady_message raw)
    have coding : s.source.coding = s.coding := rfl
    refine ⟨t, ?_, dormant, mirrors⟩
    simp only [refusal, there, coding]
    change (decodeMessage (some r) raw table).run s = _
    rw [decodeMessage, run_bind_ok (run_get s)]
    cases read : s.source.readIn table (s.coding.message raw) with
    | error e =>
      rw [read] at run
      rw [run_bind_error run]
    | ok record =>
      rw [read] at run
      rw [run_bind_ok run, run_bind_error (checkOpen_closed dormant.closed)]

/-- Nothing is made. -/
theorem Dormant.create (h : s.Dormant) (r : Route) (kind : NodeKind) (i : Nat) :
    ∃ t, (create r kind i).run s = (.error (s.refusal r kind i), t) ∧ t.Dormant ∧ s.Mirrors t := by
  have nothing : s.raw? r kind i = none → s.refusal r kind i = .sessionClosed := by
    intro none
    simp only [refusal, none]
  simp only [Session.create, createWith, run_bind, run_get]
  cases hl : s.list? r kind with
  | none =>
    rw [nothing (by rw [raw?, hl]; rfl)]
    exact ⟨s, rfl, h, .refl s⟩
  | some l =>
    simp only
    cases hi : l.items[i]? with
    | none =>
      rw [nothing (by rw [raw?, hl, Option.bind_some, hi]; rfl)]
      exact ⟨s, rfl, h, .refl s⟩
    | some raw => exact h.decodeChild kind r (by rw [raw?, hl, Option.bind_some, hi]; rfl)

/-- Asking for a child gives the one that was made. -/
theorem Dormant.childAt (h : s.Dormant) (r : Route) (kind : NodeKind) (i : Nat) :
    ∃ t, (childAt r kind i).run s = (s.offered r kind i, t) ∧ t.Dormant ∧ s.Mirrors t := by
  have mirrors := mirrors_measure s r kind
  have dormant := h.measure r kind
  obtain ⟨u, refused, dormant', mirrors'⟩ := dormant.create r kind i
  rw [Session.childAt, Place.get_run, view_length, view_slot, mirrors.slot?, mirrors.size, refused,
    mirrors.refusal]
  cases hi : s.slot? r kind i with
  | some id =>
    rw [if_pos (h.inside hi)]
    exact ⟨_, by simp only [offered, hi], dormant, mirrors⟩
  | none =>
    by_cases inside : i < s.size r kind
    · rw [if_pos inside]
      exact ⟨u, by simp only [offered, hi, inside, if_true], dormant', mirrors.trans mirrors'⟩
    · rw [if_neg inside]
      exact ⟨_, by simp only [offered, hi, inside, if_false], dormant, mirrors⟩

/-- Requests for children leave a closed session in order. -/
theorem tends_dormant (r : Route) (kind : NodeKind) : Tends Dormant r kind where
  sound s l h hl := h.sound r kind l hl
  measure s h := h.measure r kind
  item i s h := by
    obtain ⟨t, run, dormant, -⟩ := h.childAt r kind i
    rw [run]
    exact dormant
  grows i s l h hl := by
    obtain ⟨t, run, -, mirrors⟩ := h.childAt r kind i
    rw [run]
    exact mirrors.grows r kind l hl

/-! ## What is offered -/

/-- Nothing but a message fails otherwise than by the session being closed. -/
theorem refusal_of_ne (other : kind ≠ .message) : s.refusal r kind i = .sessionClosed := by
  cases kind with
  | message => exact absurd rfl other
  | _ => rfl

/-- A message that could not be read fails in that way. -/
theorem refusal_message (s : Session) (r : Route) (i : Nat) :
    s.refusal r .message i = .sessionClosed ∨ ∃ raw table, s.raw? r .message i = some (raw, table) ∧
      s.source.readIn table (s.source.coding.message raw) = .error (s.refusal r .message i) := by
  cases there : s.raw? r .message i with
  | none => exact .inl (by simp only [refusal, there])
  | some x =>
    obtain ⟨raw, table⟩ := x
    simp only [refusal, there]
    cases read : s.source.readIn table (s.source.coding.message raw) with
    | ok record => exact .inl rfl
    | error e => exact .inr ⟨raw, table, rfl, read⟩

theorem offered_ok {found : Option NodeId} (h : s.offered r kind i = .ok found) :
    s.slot? r kind i = found ∧ (i < s.size r kind → found.isSome) := by
  rw [offered] at h
  cases hi : s.slot? r kind i with
  | some id =>
    rw [hi] at h
    cases h
    exact ⟨rfl, fun _ => rfl⟩
  | none =>
    rw [hi] at h
    by_cases inside : i < s.size r kind
    · simp only [if_pos inside] at h
      cases h
    · simp only [if_neg inside] at h
      cases h
      exact ⟨rfl, fun there => absurd there inside⟩

theorem offered_error {e : Error} (h : s.offered r kind i = .error e) :
    i < s.size r kind ∧ s.slot? r kind i = none ∧ e = s.refusal r kind i := by
  rw [offered] at h
  cases hi : s.slot? r kind i with
  | some id =>
    rw [hi] at h
    cases h
  | none =>
    rw [hi] at h
    by_cases inside : i < s.size r kind
    · simp only [if_pos inside] at h
      cases h
      exact ⟨inside, rfl, rfl⟩
    · simp only [if_neg inside] at h
      cases h

theorem offeredAt_ok {is : List Nat} {ids : List NodeId} (h : s.offeredAt r kind is = .ok ids) :
    ids = is.filterMap (s.slot? r kind) ∧
      ∀ i ∈ is, i < s.size r kind → (s.slot? r kind i).isSome := by
  induction is generalizing ids with
  | nil =>
    cases h
    exact ⟨rfl, by simp⟩
  | cons i is ih =>
    rw [offeredAt] at h
    obtain ⟨found, first, h⟩ := bind_eq_ok.1 h
    obtain ⟨rest, later, h⟩ := bind_eq_ok.1 h
    cases h
    obtain ⟨rfl, made⟩ := offered_ok first
    obtain ⟨rfl, others⟩ := ih later
    refine ⟨?_, ?_⟩
    · rw [List.filterMap_cons]
      cases s.slot? r kind i <;> rfl
    · intro j hj
      rcases List.mem_cons.1 hj with rfl | hj
      · exact made
      · exact others j hj

theorem offeredAt_error {is : List Nat} {e : Error} (h : s.offeredAt r kind is = .error e) :
    ∃ i, i < s.size r kind ∧ s.slot? r kind i = none ∧ e = s.refusal r kind i := by
  induction is with
  | nil => cases h
  | cons i is ih =>
    rw [offeredAt] at h
    rcases bind_eq_error.1 h with first | ⟨found, -, h⟩
    · exact ⟨i, offered_error first⟩
    rcases bind_eq_error.1 h with later | ⟨rest, -, h⟩
    · exact ih later
    · cases h

theorem offeredAll_ok {ids : List NodeId} (h : s.offeredAll r kind = .ok ids) :
    ids = s.madeOf r kind ∧ ∀ i < s.size r kind, (s.slot? r kind i).isSome := by
  obtain ⟨eq, made⟩ := offeredAt_ok h
  exact ⟨eq, fun i inside => made i (List.mem_range.2 inside) inside⟩

theorem offeredOf_ok {kinds : List NodeKind} {ids : List NodeId}
    (h : s.offeredOf r kinds = .ok ids) : ids = kinds.flatMap (s.madeOf r) ∧
      ∀ kind ∈ kinds, ∀ i < s.size r kind, (s.slot? r kind i).isSome := by
  induction kinds generalizing ids with
  | nil =>
    cases h
    exact ⟨rfl, by simp⟩
  | cons kind kinds ih =>
    rw [offeredOf] at h
    obtain ⟨first, ok, h⟩ := bind_eq_ok.1 h
    obtain ⟨rest, later, h⟩ := bind_eq_ok.1 h
    cases h
    obtain ⟨rfl, made⟩ := offeredAll_ok ok
    obtain ⟨rfl, others⟩ := ih later
    refine ⟨rfl, fun kind' mem => ?_⟩
    rcases List.mem_cons.1 mem with rfl | mem
    · exact made
    · exact others kind' mem

theorem offeredOf_error {kinds : List NodeKind} {e : Error} (h : s.offeredOf r kinds = .error e) :
    ∃ kind ∈ kinds, ∃ i, i < s.size r kind ∧ s.slot? r kind i = none ∧ e = s.refusal r kind i := by
  induction kinds with
  | nil => cases h
  | cons kind kinds ih =>
    rw [offeredOf] at h
    rcases bind_eq_error.1 h with first | ⟨ids, -, h⟩
    · exact ⟨kind, by simp, offeredAt_error first⟩
    rcases bind_eq_error.1 h with later | ⟨rest, -, h⟩
    · obtain ⟨kind', mem, missing⟩ := ih later
      exact ⟨kind', by simp [mem], missing⟩
    · cases h

/-- The children that are listed are those in the slots. -/
theorem Orderly.mem_madeOf (h : s.Orderly) :
    id ∈ s.madeOf r kind ↔ ∃ i, s.slot? r kind i = some id := by
  rw [madeOf, List.mem_filterMap]
  constructor
  · rintro ⟨i, -, hi⟩
    exact ⟨i, hi⟩
  · rintro ⟨i, hi⟩
    exact ⟨i, List.mem_range.2 (h.inside hi), hi⟩

theorem Orderly.registered (h : s.Orderly) (mem : id ∈ s.madeOf r kind) : (s.node? id).isSome := by
  obtain ⟨i, hi⟩ := h.mem_madeOf.1 mem
  exact h.filled r kind i id hi

/-! ## Reading what remains -/

/-- Wherever reading has led to from a closed session, the outcome satisfies `P`. -/
def Yields (s : Session) {α : Type} (x : Run α) (P : Except Error α → Prop) : Prop :=
  ∀ t : Session, t.Dormant → s.Mirrors t →
    P (x.run t).1 ∧ (x.run t).2.Dormant ∧ s.Mirrors (x.run t).2

section Yields

variable {α β : Type} {P : Except Error α → Prop} {Q : Except Error β → Prop}

theorem yields_of_run {x : Run α} {v : Except Error α}
    (run : ∀ t : Session, t.Dormant → s.Mirrors t →
      ∃ u, x.run t = (v, u) ∧ u.Dormant ∧ t.Mirrors u) : s.Yields x (· = v) := by
  intro t dormant mirrors
  obtain ⟨u, run, dormant', mirrors'⟩ := run t dormant mirrors
  rw [run]
  exact ⟨rfl, dormant', mirrors.trans mirrors'⟩

theorem yields_pure {a : α} (h : P (.ok a)) : s.Yields (pure a) P :=
  fun _ dormant mirrors => ⟨h, dormant, mirrors⟩

theorem Yields.mono {x : Run α} {P' : Except Error α → Prop} (h : s.Yields x P)
    (more : ∀ v, P v → P' v) : s.Yields x P' :=
  fun t dormant mirrors => (h t dormant mirrors).imp_left (more _)

theorem yields_bind {x : Run α} {f : α → Run β} (hx : s.Yields x P)
    (failed : ∀ e, P (.error e) → Q (.error e)) (hf : ∀ a, P (.ok a) → s.Yields (f a) Q) :
    s.Yields (x >>= f) Q := by
  intro t dormant mirrors
  obtain ⟨first, dormant', mirrors'⟩ := hx t dormant mirrors
  rw [run_bind]
  rcases run : x.run t with ⟨e | a, u⟩ <;> rw [run] at first dormant' mirrors'
  · exact ⟨failed e first, dormant', mirrors'⟩
  · exact hf a first u dormant' mirrors'

/-- What comes after a computation that does not fail. -/
theorem yields_after {x : Run α} {f : α → Run β} {R : α → Prop}
    (hx : s.Yields x fun v => ∃ a, v = .ok a ∧ R a) (hf : ∀ a, R a → s.Yields (f a) Q) :
    s.Yields (x >>= f) Q := by
  refine yields_bind hx ?_ ?_
  · rintro e ⟨a, eq, -⟩
    cases eq
  · rintro a ⟨a', eq, good⟩
    cases eq
    exact hf a good

theorem yields_get {f : Session → Run β} (hf : ∀ t : Session, t.Dormant → s.Mirrors t →
    s.Yields (f t) Q) : s.Yields (get >>= f) Q := by
  intro t dormant mirrors
  rw [run_bind_ok (run_get t)]
  exact hf t dormant mirrors t dormant mirrors

theorem yields_attempt {x : Run α} (h : s.Yields x P) :
    s.Yields (attempt x) fun v => ∃ w, v = .ok w ∧ P w := by
  intro t dormant mirrors
  rw [attempt_run]
  obtain ⟨first, rest⟩ := h t dormant mirrors
  exact ⟨⟨_, rfl, first⟩, rest⟩

end Yields

theorem yields_childAt (s : Session) (r : Route) (kind : NodeKind) (i : Nat) :
    s.Yields (childAt r kind i) (· = s.offered r kind i) :=
  yields_of_run fun _ dormant mirrors => mirrors.offered r kind i ▸ dormant.childAt r kind i

theorem yields_itemsAt (s : Session) (r : Route) (kind : NodeKind) (is : List Nat) :
    s.Yields ((made r kind).itemsAt (create r kind) is) (· = s.offeredAt r kind is) := by
  induction is with
  | nil => exact yields_pure rfl
  | cons i is ih =>
    rw [offeredAt]
    refine yields_bind (yields_childAt s r kind i) (fun e h => by rw [← h]; rfl) fun item h => ?_
    refine yields_bind ih (fun e h' => by rw [← h, ← h']; rfl) fun rest h' => yields_pure ?_
    rw [← h, ← h']
    rfl

theorem yields_length (s : Session) (r : Route) (kind : NodeKind) :
    s.Yields ((made r kind).length : Run Nat) (· = .ok (s.size r kind)) := by
  refine yields_of_run fun t dormant mirrors => ?_
  have measured := mirrors_measure t r kind
  refine ⟨_, ?_, dormant.measure r kind, measured⟩
  rw [Place.length_run, view_length, measured.size, mirrors.size]

theorem yields_childList (s : Session) (r : Route) (kind : NodeKind) :
    s.Yields (childList r kind) (· = s.offeredAll r kind) := by
  have gather : s.Yields (gathered r kind) (· = s.offeredAll r kind) := by
    refine yields_bind (yields_length s r kind) (fun e h => by cases h) fun n h => ?_
    cases h
    exact yields_itemsAt s r kind _
  intro t dormant mirrors
  have tends := tends_dormant r kind
  obtain ⟨result, dormant', mirrors'⟩ := gather t dormant mirrors
  rw [tends.childList_run dormant]
  rcases run : (gathered r kind).run t with ⟨e | items, u⟩ <;> rw [run] at result dormant' mirrors'
  · exact ⟨result, dormant', mirrors'⟩
  · have settles := mirrors_settle u r kind items
    refine ⟨result, settles.dormant dormant' dormant'.tables ?_, mirrors'.trans settles⟩
    exact dormant'.sound_update fun l hl _ => tends.sound_settle dormant run hl

theorem offered_unlisted (hl : s.list? r kind = none) : s.offered r kind i = .ok none := by
  simp [offered, slot?, size, hl]

theorem Mirrors.unlisted (h : s.Mirrors t) (hl : t.list? r kind = none) : s.list? r kind = none := by
  rw [← Option.not_isSome_iff_eq_none, ← h.listed, hl]
  simp

theorem yields_child (s : Session) (r : Route) (step : Segment) :
    s.Yields (child (.branch r) step) (· = s.offered r step.branch.kind step.index) := by
  refine yields_get fun t _ mirrors => ?_
  cases hl : t.list? r step.branch.kind with
  | none => exact yields_pure (offered_unlisted (mirrors.unlisted hl)).symm
  | some l => exact yields_childAt s r _ _

theorem yields_messageAt (s : Session) (r : Route) (i : Nat) :
    s.Yields (messageAt (.branch r) i) (· = s.offered r .message i) := by
  refine yields_get fun t _ mirrors => ?_
  cases hl : t.list? r .message with
  | none => exact yields_pure (offered_unlisted (mirrors.unlisted hl)).symm
  | some l => exact yields_childAt s r _ _

theorem yields_typedList (s : Session) (r : Route) (kind : NodeKind) :
    s.Yields (typedList (.branch r) kind) (· = s.offeredList r [kind]) := by
  refine yields_get fun t _ mirrors => ?_
  simp only [offeredList, List.mem_singleton, forall_eq, ← mirrors.listed r kind]
  cases hl : t.list? r kind with
  | none => exact yields_pure rfl
  | some l =>
    refine yields_bind (yields_childList s r kind) (fun e h => ?_) fun ids h => yields_pure ?_
    · simp only [offeredOf, ← h]
      rfl
    · simp only [offeredOf, ← h]
      simp [bind, Except.bind, pure, Except.pure, Functor.map, Except.map]

theorem offeredList_listed {kinds : List NodeKind}
    (listed : ∀ kind ∈ kinds, (s.list? r kind).isSome) :
    s.offeredList r kinds = some <$> s.offeredOf r kinds :=
  if_pos listed

/-- A list that may not be there, followed by others that are. -/
theorem offeredList_cons {kinds : List NodeKind} (kind : NodeKind)
    (listed : ∀ kind ∈ kinds, (s.list? r kind).isSome) : s.offeredList r (kind :: kinds) = (do
      match ← s.offeredList r [kind] with
      | none => return none
      | some first =>
        let rest ← s.offeredOf r kinds
        return some (first ++ rest)) := by
  by_cases here : (s.list? r kind).isSome
  · have all : ∀ kind' ∈ kind :: kinds, (s.list? r kind').isSome :=
      List.forall_mem_cons.2 ⟨here, listed⟩
    rw [offeredList_listed all, offeredList_listed (List.forall_mem_singleton.2 here)]
    simp only [offeredOf]
    cases s.offeredAll r kind with
    | error e => rfl
    | ok first =>
      cases s.offeredOf r kinds with
      | error e => rfl
      | ok rest => simp [bind, Except.bind, pure, Except.pure, Functor.map, Except.map]
  · rw [offeredList, if_neg fun all => here (all kind (by simp)), offeredList,
      if_neg fun all => here (all kind (by simp))]
    rfl

theorem yields_children (s : Session) (r : Route) :
    s.Yields (children (.branch r)) (· = s.offeredList r (s.kindsOf r)) := by
  refine yields_get fun t _ mirrors => ?_
  have listed : ∀ {n : Node} {kind l}, t.node? (.branch r) = some n → n.list? kind = some l →
      (s.list? r kind).isSome := by
    intro n kind l hn hl
    rw [← mirrors.listed, list?_of_branch _ hn, hl]
    rfl
  simp only [kindsOf, ← mirrors.plain?]
  cases hn : t.node? (.branch r) with
  | none => exact yields_pure rfl
  | some n =>
    cases n with
    | message m => exact yields_pure rfl
    | test test => exact yields_typedList s r .keyword
    | suite su =>
      have all : ∀ kind ∈ [NodeKind.keyword, .test, .suite], (s.list? r kind).isSome := by
        simp only [List.forall_mem_cons]
        exact ⟨listed hn rfl, listed hn rfl, listed hn rfl, by simp⟩
      simp only [Option.bind_some, Node.plain?, offeredList_listed all, offeredOf]
      refine yields_bind (yields_childList s r .keyword) (fun e h => ?_) fun ks hk => ?_
      · rw [← h]
        rfl
      refine yields_bind (yields_childList s r .test) (fun e h => ?_) fun ts ht => ?_
      · rw [← hk, ← h]
        rfl
      refine yields_bind (yields_childList s r .suite) (fun e h => ?_) fun ss hs => yields_pure ?_
      · rw [← hk, ← ht, ← h]
        rfl
      · rw [← hk, ← ht, ← hs]
        simp [bind, Except.bind, pure, Except.pure, Functor.map, Except.map]
    | keyword k =>
      have messages : ∀ kind ∈ [NodeKind.message], (s.list? r kind).isSome :=
        List.forall_mem_singleton.2 (listed hn rfl)
      simp only [Option.bind_some, Node.plain?, offeredList_cons .keyword messages, offeredOf]
      refine yields_bind (yields_typedList s r .keyword) (fun e h => ?_) fun found hf => ?_
      · rw [← h]
        rfl
      rw [← hf]
      cases found with
      | none => exact yields_pure rfl
      | some ks =>
        refine yields_bind (yields_childList s r .message) (fun e h => ?_) fun ms hm =>
          yields_pure ?_
        · rw [← h]
          rfl
        · rw [← hm]
          simp [bind, Except.bind, pure, Except.pure]

end Session

end RunReport
