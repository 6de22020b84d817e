import RunReport.Node
import RunReport.Proofs.Lookup
import RunReport.Split
/-!
# Reports read at once

A source is a report as it is written: the root document and the split files that are there. Every
suite, test and keyword is read from it directly, by following its route from the root record; there
are no nodes, no caches and no order in which things are read. More files lead to more nodes and
change none that could be read before.
-/

namespace RunReport

structure Source where
  coding : Coding
  suite : Raw
  strings : List String
  files : String → Option SplitPayload

/-- What a suite, test or keyword is by itself, apart from what was made of its children. -/
inductive Plain where
  | suite (record : SuiteRecord) (fullName : String) (aboveFailed : Bool) (table : TableRef)
  | test (record : TestRecord) (fullName : String) (aboveFailed : Bool) (table : TableRef)
  | keyword (record : KeywordRecord) (path : String) (table : TableRef)

namespace Plain

def table : Plain → TableRef
  | .suite _ _ _ t => t
  | .test _ _ _ t => t
  | .keyword _ _ t => t

def kind : Plain → NodeKind
  | .suite .. => .suite
  | .test .. => .test
  | .keyword .. => .keyword

def pathBase : Plain → String
  | .suite _ name _ _ => name
  | .test _ name _ _ => name
  | .keyword _ path _ => path

/-- The full name of a suite or test below. -/
def nameBelow (p : Plain) (name : String) : String :=
  match p with
  | .suite _ above _ _ => s!"{above}.{name}"
  | _ => name

/-- The slot of the documentation. -/
def doc : Plain → Option Raw
  | .suite r _ _ _ => r.doc
  | .test r _ _ _ => r.doc
  | .keyword r _ _ => r.doc

/-- The slot of the message of a suite or test, and whether a teardown above it failed. -/
def message? : Plain → Option (Option Raw × Bool)
  | .suite r _ aboveFailed _ => some (r.message, aboveFailed)
  | .test r _ aboveFailed _ => some (r.message, aboveFailed)
  | .keyword .. => none

/-- Where the keywords of a test or keyword stand. -/
def keywordSource? : Plain → Option KeywordSource
  | .suite .. => none
  | .test r _ _ _ => some r.keywords
  | .keyword r _ _ => some r.keywords

/-- The split file that a slot names. -/
def fileOf? : KeywordSource → Option String
  | .inline _ => none
  | .split file => some file

/-- The split file that holds the keywords. -/
def splitFile? (p : Plain) : Option String :=
  p.keywordSource?.bind fileOf?

end Plain

namespace Source

/-- The strings that references into a table mean. -/
def entries (src : Source) : TableRef → List String
  | .main => src.strings
  | .split file => ((src.files file).map (·.strings)).getD []

/-- The keyword records that a slot stands for, with their table, if they are there. -/
def keywordItems? (src : Source) (table : TableRef) : KeywordSource → Option (List Raw × TableRef)
  | .inline items => some (items, table)
  | .split file => (src.files file).map fun p => (p.keywords, .split file)

/-- The records of the children of one kind, with their table. -/
def items? (src : Source) : Plain → NodeKind → Option (List Raw × TableRef)
  | .suite r _ _ t, .suite => some (r.suites, t)
  | .suite r _ _ t, .test => some (r.tests, t)
  | .suite r _ _ t, .keyword => some (r.keywords, t)
  | .test r _ _ t, .keyword => src.keywordItems? t r.keywords
  | .keyword r _ t, .keyword => src.keywordItems? t r.keywords
  | .keyword r _ t, .message => some (r.messages, t)
  | _, _ => none

/-- Number of keywords below a node, if they are there. -/
def keywordCount? (src : Source) (p : Plain) : Option Nat :=
  (src.items? p .keyword).map (·.1.length)

/-- The keywords of a node with a split file are those of the file. -/
theorem items?_split (src : Source) {p : Plain} {file : String} (h : p.splitFile? = some file) :
    src.items? p .keyword = (src.files file).map fun payload => (payload.keywords, .split file) := by
  have source : ∀ (k : KeywordSource) (t : TableRef), Plain.fileOf? k = some file →
      src.keywordItems? t k = (src.files file).map fun payload => (payload.keywords, .split file) := by
    intro k t hk
    cases k with
    | inline items => cases hk
    | split f => cases hk; rfl
  cases p with
  | suite => cases h
  | test r name failed t => exact source r.keywords t h
  | keyword r path t => exact source r.keywords t h

def readIn {α : Type} (src : Source) (table : TableRef) (x : Lookup α) : Except Error α :=
  Lookup.read (src.entries table) x

/-- The text of a slot, empty if there is none. -/
def slotText (src : Source) (table : TableRef) (slot : Option Raw) : Except Error String :=
  src.readIn table (do return (← StringTable.lookup slot).orEmpty)

/-- The message of a test or suite. -/
def message (src : Source) (table : TableRef) (slot : Option Raw) (aboveFailed : Bool) :
    Except Error String :=
  (src.slotText table slot).map (effectiveMessage · aboveFailed)

/-- A text that is read late. -/
def text? (src : Source) (p : Plain) : TextPart → Option (Except Error String)
  | .doc => some (src.slotText p.table p.doc)
  | .own => p.message?.map fun m => src.slotText p.table m.1
  | .message => p.message?.map fun m => src.message p.table m.1 m.2

def isFailedTeardown (k : KeywordRecord) : Bool :=
  k.type = .teardown && k.status = .fail

/-- Whether the teardown of a suite or of one above it failed. -/
def teardownFailure (src : Source) : Plain → Except Error Bool
  | .suite r _ aboveFailed t =>
    if aboveFailed then .ok true
    else
      match r.keywords.getLast? with
      | some last => (src.readIn t (src.coding.keyword last)).map isFailedTeardown
      | none => .ok false
  | _ => .ok false

/-- Reads a suite; only the root suite has nothing above it. -/
def readSuite (src : Source) (above : Option Plain) (r : Raw) (t : TableRef) :
    Except Error Plain := do
  let record ← src.readIn t (src.coding.suite r)
  let aboveFailed ← match above with
    | some p => src.teardownFailure p
    | none => pure false
  return .suite record (above.elim record.name (·.nameBelow record.name)) aboveFailed t

def readTest (src : Source) (above : Plain) (r : Raw) (t : TableRef) : Except Error Plain := do
  let record ← src.readIn t (src.coding.test r)
  let aboveFailed ← src.teardownFailure above
  return .test record (above.nameBelow record.name) aboveFailed t

def readKeyword (src : Source) (above : Plain) (r : Raw) (t : TableRef) (index : Nat) :
    Except Error Plain := do
  let record ← src.readIn t (src.coding.keyword r)
  return .keyword record s!"{above.pathBase}.{index}" t

/-- Reads the record of a child. -/
def readChild (src : Source) (above : Plain) (step : Segment) (r : Raw) (t : TableRef) :
    Except Error Plain :=
  match step.branch with
  | .suite => src.readSuite (some above) r t
  | .test => src.readTest above r t
  | .keyword => src.readKeyword above r t step.index

/-- The record a step leads to, with its table. -/
def record? (src : Source) (above : Plain) (step : Segment) : Option (Raw × TableRef) :=
  match src.items? above step.branch.kind with
  | some (items, t) => items[step.index]?.map (·, t)
  | none => none

/-- The child a step leads to, if there is one. -/
def child? (src : Source) (above : Plain) (step : Segment) : Except Error (Option Plain) :=
  match src.record? above step with
  | some (r, t) => some <$> src.readChild above step r t
  | none => .ok none

/-- The suite, test or keyword at a route, if there is one. -/
def node? (src : Source) : Route → Except Error (Option Plain)
  | .root => some <$> src.readSuite none src.suite .main
  | .child owner step => do
    match ← src.node? owner with
    | some above => src.child? above step
    | none => return none

end Source

/-! ## More files -/

namespace Source

/-- The same document with at least the same files. -/
structure Within (src src' : Source) : Prop where
  coding : src'.coding = src.coding
  suite : src'.suite = src.suite
  strings : src'.strings = src.strings
  files : ∀ file p, src.files file = some p → src'.files file = some p

variable {src src' src'' : Source}

theorem Within.refl (src : Source) : src.Within src :=
  ⟨rfl, rfl, rfl, fun _ _ h => h⟩

theorem Within.trans (h : src.Within src') (h' : src'.Within src'') : src.Within src'' :=
  ⟨h'.coding.trans h.coding, h'.suite.trans h.suite, h'.strings.trans h.strings,
    fun file p hp => h'.files file p (h.files file p hp)⟩

/-- The table belongs to the root document or to a file that is there. -/
def Has (src : Source) : TableRef → Prop
  | .main => True
  | .split file => ∃ p, src.files file = some p

theorem Within.entries (h : src.Within src') {t : TableRef} (ht : src.Has t) :
    src'.entries t = src.entries t := by
  cases t with
  | main => exact h.strings
  | split file =>
    obtain ⟨p, hp⟩ := ht
    simp only [Source.entries, hp, h.files file p hp]

theorem Within.readIn {α : Type} (h : src.Within src') {t : TableRef} (ht : src.Has t)
    (x : Lookup α) : src'.readIn t x = src.readIn t x := by
  rw [Source.readIn, Source.readIn, h.entries ht]

theorem Within.slotText (h : src.Within src') {t : TableRef} (ht : src.Has t)
    (slot : Option Raw) : src'.slotText t slot = src.slotText t slot :=
  h.readIn ht _

theorem Within.text? (h : src.Within src') {p : Plain} (ht : src.Has p.table) (part : TextPart) :
    src'.text? p part = src.text? p part := by
  cases part <;> simp only [Source.text?, Source.message, h.slotText ht]

theorem Within.keywordItems? (h : src.Within src') {t : TableRef} {k : KeywordSource}
    {x : List Raw × TableRef} (hx : src.keywordItems? t k = some x) :
    src'.keywordItems? t k = some x := by
  cases k with
  | inline items => exact hx
  | split file =>
    obtain ⟨p, hp, rfl⟩ := Option.map_eq_some_iff.1 hx
    exact Option.map_eq_some_iff.2 ⟨p, h.files file p hp, rfl⟩

theorem Within.items? (h : src.Within src') {p : Plain} {kind : NodeKind}
    {x : List Raw × TableRef} (hx : src.items? p kind = some x) :
    src'.items? p kind = some x := by
  cases p <;> cases kind <;> first | exact hx | exact h.keywordItems? hx

theorem Within.keywordCount? (h : src.Within src') {p : Plain} {n : Nat}
    (hn : src.keywordCount? p = some n) : src'.keywordCount? p = some n := by
  obtain ⟨x, hx, rfl⟩ := Option.map_eq_some_iff.1 hn
  exact Option.map_eq_some_iff.2 ⟨x, h.items? hx, rfl⟩

theorem keywordItems?_has {t : TableRef} {k : KeywordSource} {x : List Raw × TableRef}
    (ht : src.Has t) (hx : src.keywordItems? t k = some x) : src.Has x.2 := by
  cases k with
  | inline items => cases hx; exact ht
  | split file =>
    obtain ⟨p, hp, rfl⟩ := Option.map_eq_some_iff.1 hx
    exact ⟨p, hp⟩

/-- The records below a node are in its own document or in its split file. -/
theorem items?_has {p : Plain} {kind : NodeKind} {x : List Raw × TableRef}
    (ht : src.Has p.table) (hx : src.items? p kind = some x) : src.Has x.2 := by
  simp only [Source.items?] at hx
  split at hx
  · cases hx; exact ht
  · cases hx; exact ht
  · cases hx; exact ht
  · exact keywordItems?_has ht hx
  · exact keywordItems?_has ht hx
  · cases hx; exact ht
  · cases hx

theorem Within.teardownFailure (h : src.Within src') {p : Plain} (ht : src.Has p.table) :
    src'.teardownFailure p = src.teardownFailure p := by
  cases p with
  | suite r name failed t =>
    simp only [Source.teardownFailure, h.coding, h.readIn (t := t) ht]
  | test => rfl
  | keyword => rfl

theorem Within.readSuite (h : src.Within src') {above : Option Plain} {r : Raw} {t : TableRef}
    (ha : ∀ p, above = some p → src.Has p.table) (ht : src.Has t) :
    src'.readSuite above r t = src.readSuite above r t := by
  cases above with
  | none => simp only [Source.readSuite, h.coding, h.readIn ht]
  | some p => simp only [Source.readSuite, h.coding, h.readIn ht, h.teardownFailure (ha p rfl)]

theorem Within.readChild (h : src.Within src') {above : Plain} {step : Segment} {r : Raw}
    {t : TableRef} (ha : src.Has above.table) (ht : src.Has t) :
    src'.readChild above step r t = src.readChild above step r t := by
  simp only [Source.readChild]
  split
  · exact h.readSuite (fun p hp => by cases hp; exact ha) ht
  · simp only [Source.readTest, h.coding, h.readIn ht, h.teardownFailure ha]
  · simp only [Source.readKeyword, h.coding, h.readIn ht]

theorem readSuite_below {above p : Plain} {r : Raw} {t : TableRef} :
    src.readSuite (some above) r t = .ok p ↔ ∃ record failed,
      src.readIn t (src.coding.suite r) = .ok record ∧ src.teardownFailure above = .ok failed ∧
      p = .suite record (above.nameBelow record.name) failed t := by
  simp only [Source.readSuite]
  cases src.readIn t (src.coding.suite r) with
  | error e => simp [bind, Except.bind]
  | ok record =>
    cases src.teardownFailure above with
    | error e => simp [bind, Except.bind]
    | ok failed => simp [bind, Except.bind, pure, Except.pure, eq_comm]

theorem readTest_eq_ok {above p : Plain} {r : Raw} {t : TableRef} :
    src.readTest above r t = .ok p ↔ ∃ record failed,
      src.readIn t (src.coding.test r) = .ok record ∧ src.teardownFailure above = .ok failed ∧
      p = .test record (above.nameBelow record.name) failed t := by
  simp only [Source.readTest]
  cases src.readIn t (src.coding.test r) with
  | error e => simp [bind, Except.bind]
  | ok record =>
    cases src.teardownFailure above with
    | error e => simp [bind, Except.bind]
    | ok failed => simp [bind, Except.bind, pure, Except.pure, eq_comm]

theorem readKeyword_eq_ok {above p : Plain} {r : Raw} {t : TableRef} {i : Nat} :
    src.readKeyword above r t i = .ok p ↔ ∃ record,
      src.readIn t (src.coding.keyword r) = .ok record ∧
      p = .keyword record s!"{above.pathBase}.{i}" t := by
  simp only [Source.readKeyword]
  cases src.readIn t (src.coding.keyword r) with
  | error e => simp [bind, Except.bind]
  | ok record => simp [bind, Except.bind, pure, Except.pure, eq_comm]

theorem readSuite_table {above : Option Plain} {r : Raw} {t : TableRef} {p : Plain}
    (h : src.readSuite above r t = .ok p) : p.table = t := by
  simp only [Source.readSuite] at h
  cases hr : src.readIn t (src.coding.suite r) with
  | error e => rw [hr] at h; cases h
  | ok record =>
    rw [hr] at h
    cases above with
    | none => cases h; rfl
    | some a =>
      cases hf : src.teardownFailure a with
      | error e => simp only [hf] at h; cases h
      | ok failed => simp only [hf] at h; cases h; rfl

theorem readTest_table {above : Plain} {r : Raw} {t : TableRef} {p : Plain}
    (h : src.readTest above r t = .ok p) : p.table = t := by
  simp only [Source.readTest] at h
  cases hr : src.readIn t (src.coding.test r) with
  | error e => rw [hr] at h; cases h
  | ok record =>
    rw [hr] at h
    cases hf : src.teardownFailure above with
    | error e => rw [hf] at h; cases h
    | ok failed => rw [hf] at h; cases h; rfl

theorem readKeyword_table {above : Plain} {r : Raw} {t : TableRef} {i : Nat} {p : Plain}
    (h : src.readKeyword above r t i = .ok p) : p.table = t := by
  simp only [Source.readKeyword] at h
  cases hr : src.readIn t (src.coding.keyword r) with
  | error e => rw [hr] at h; cases h
  | ok record => rw [hr] at h; cases h; rfl

theorem readChild_table {above : Plain} {step : Segment} {r : Raw} {t : TableRef} {p : Plain}
    (h : src.readChild above step r t = .ok p) : p.table = t := by
  simp only [Source.readChild] at h
  split at h
  · exact readSuite_table h
  · exact readTest_table h
  · exact readKeyword_table h

theorem record?_eq_some {above : Plain} {step : Segment} {r : Raw} {t : TableRef} :
    src.record? above step = some (r, t) ↔
      ∃ items, src.items? above step.branch.kind = some (items, t) ∧ items[step.index]? = some r := by
  simp only [Source.record?]
  cases src.items? above step.branch.kind with
  | none => simp
  | some x =>
    obtain ⟨items, t'⟩ := x
    simp only [Option.map_eq_some_iff, Prod.mk.injEq, Option.some.injEq]
    constructor
    · rintro ⟨r', hr, rfl, rfl⟩
      exact ⟨items, ⟨rfl, rfl⟩, hr⟩
    · rintro ⟨items', ⟨rfl, rfl⟩, hr⟩
      exact ⟨r, hr, rfl, rfl⟩

theorem record?_has {above : Plain} {step : Segment} {r : Raw} {t : TableRef}
    (ha : src.Has above.table) (h : src.record? above step = some (r, t)) : src.Has t := by
  obtain ⟨items, hi, -⟩ := record?_eq_some.1 h
  exact items?_has ha hi

theorem Within.record? (h : src.Within src') {above : Plain} {step : Segment} {r : Raw}
    {t : TableRef} (hr : src.record? above step = some (r, t)) :
    src'.record? above step = some (r, t) := by
  obtain ⟨items, hi, hs⟩ := record?_eq_some.1 hr
  exact record?_eq_some.2 ⟨items, h.items? hi, hs⟩

theorem some_map_eq_ok {α : Type} {x : Except Error α} {a : α} :
    some <$> x = .ok (some a) ↔ x = .ok a := by
  cases x <;> simp [Functor.map, Except.map]

/-- A step leads to a child exactly when its record is there and can be read. -/
theorem child?_eq_some {above p : Plain} {step : Segment} :
    src.child? above step = .ok (some p) ↔
      ∃ r t, src.record? above step = some (r, t) ∧ src.readChild above step r t = .ok p := by
  simp only [Source.child?]
  cases src.record? above step with
  | none => simp
  | some x =>
    simp only [some_map_eq_ok, Option.some.injEq]
    constructor
    · intro h
      exact ⟨x.1, x.2, rfl, h⟩
    · rintro ⟨r, t, rfl, h⟩
      exact h

theorem child?_has {above p : Plain} {step : Segment} (ha : src.Has above.table)
    (h : src.child? above step = .ok (some p)) : src.Has p.table := by
  obtain ⟨r, t, hr, hp⟩ := child?_eq_some.1 h
  rw [readChild_table hp]
  exact record?_has ha hr

theorem Within.child?_some (h : src.Within src') {above p : Plain} {step : Segment}
    (ha : src.Has above.table) (hp : src.child? above step = .ok (some p)) :
    src'.child? above step = .ok (some p) := by
  obtain ⟨r, t, hr, hp⟩ := child?_eq_some.1 hp
  refine child?_eq_some.2 ⟨r, t, h.record? hr, ?_⟩
  rw [h.readChild ha (record?_has ha hr), hp]

theorem node?_child {owner : Route} {step : Segment} {p : Plain}
    (h : src.node? (.child owner step) = .ok (some p)) :
    ∃ above, src.node? owner = .ok (some above) ∧ src.child? above step = .ok (some p) := by
  simp only [Source.node?] at h
  cases ho : src.node? owner with
  | error e => rw [ho] at h; cases h
  | ok found =>
    cases found with
    | none => rw [ho] at h; cases h
    | some above => rw [ho] at h; exact ⟨above, rfl, h⟩

theorem node?_child_of {owner : Route} {step : Segment} {above : Plain}
    (h : src.node? owner = .ok (some above)) :
    src.node? (.child owner step) = src.child? above step := by
  simp only [Source.node?, h]
  rfl

theorem node?_root {p : Plain} (h : src.node? .root = .ok (some p)) :
    src.readSuite none src.suite .main = .ok p := by
  simpa only [Source.node?, some_map_eq_ok] using h

/-- A node that can be read refers to strings that are there. -/
theorem node?_has {r : Route} {p : Plain} (h : src.node? r = .ok (some p)) : src.Has p.table := by
  induction r generalizing p with
  | root =>
    rw [readSuite_table (node?_root h)]
    trivial
  | child owner step ih =>
    obtain ⟨above, ho, hc⟩ := node?_child h
    exact child?_has (ih ho) hc

/-- What can be read from some of the files is read in the same way from more of them. -/
theorem Within.node? (h : src.Within src') {r : Route} {p : Plain}
    (hp : src.node? r = .ok (some p)) : src'.node? r = .ok (some p) := by
  induction r generalizing p with
  | root =>
    have root := node?_root hp
    simp only [Source.node?, h.suite]
    rw [h.readSuite (fun p hp => by cases hp) (t := .main) trivial, root]
    rfl
  | child owner step ih =>
    obtain ⟨above, ho, hc⟩ := node?_child hp
    rw [node?_child_of (ih ho)]
    exact h.child?_some (node?_has ho) hc

end Source

end RunReport
