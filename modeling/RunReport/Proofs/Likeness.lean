import RunReport.Proofs.Agreement
import RunReport.Proofs.Facts
import RunReport.Proofs.Layout
/-!
# Reports that say the same

Two reports are alike when their records are, slot by slot: what refers to nothing is the same,
references denote the same texts, each in its own string table, and the keywords of some tests and
keywords, which stand in their records in one report, stand in split files in the other. Then the
same nodes can be read from both, and they say the same.
-/

namespace RunReport

/-- Values of one part, of the node at a route, that say the same in two reports. The keywords of
the nodes that `moved` holds of are in a file in the second report. -/
inductive Like (lib lib' : Source) (moved : Route → Prop) :
    Route → Part → TableRef → TableRef → Raw → Raw → Prop
  | same {r : Route} {part : Part} {t t' : TableRef} {u : Raw}
    (entries : lib'.entries t' = lib.entries t) : Like lib lib' moved r part t t' u u
  /-- It has neither references nor parts that have some. -/
  | plain {r : Route} {part : Part} {t t' : TableRef} {u : Raw} (text : part ≠ .text)
    (whole : part.hasSlots = true → ∀ items, u ≠ .list items) : Like lib lib' moved r part t t' u u
  | text {r : Route} {t t' : TableRef} {u v : Raw}
    (denotes : SameText (lib.entries t) (lib'.entries t') (some u) (some v)) :
    Like lib lib' moved r .text t t' u v
  | list {r : Route} {part : Part} {t t' : TableRef} {xs ys : List Raw}
    (slots : part.hasSlots = true) (length : xs.length = ys.length)
    (items : ∀ i u v, xs[i]? = some u → ys[i]? = some v →
      Like lib lib' moved (part.route r i) (part.slot lib.coding.version i) t t' u v) :
    Like lib lib' moved r part t t' (.list xs) (.list ys)
  | moved {r : Route} {t t' : TableRef} {keywords : List Raw} {n : Int} {payload : SplitPayload}
    (here : moved r) (file : lib'.files (lib.coding.splitFileName n) = some payload)
    (content : Like lib lib' moved r .body t (.split (lib.coding.splitFileName n))
      (.list keywords) (.list payload.keywords)) :
    Like lib lib' moved r .body t t' (.list keywords) (.int n)

variable {lib lib' : Source} {moved : Route → Prop}

/-- Lists of values that say the same. -/
def Slots (lib lib' : Source) (moved : Route → Prop) (r : Route) (part : Part) (t t' : TableRef)
    (xs ys : List Raw) : Prop :=
  Matched (fun i => Like lib lib' moved (part.route r i) (part.slot lib.coding.version i) t t')
    xs ys

namespace Like

variable {r : Route} {part : Part} {t t' : TableRef} {u v : Raw}

theorem sameText (h : Like lib lib' moved r .text t t' u v) :
    SameText (lib.entries t) (lib'.entries t') (some u) (some v) := by
  cases h with
  | same entries => rw [SameText, entries]
  | plain text => exact absurd rfl text
  | text denotes => exact denotes
  | list slots => cases slots

theorem eq_of_leaf (h : Like lib lib' moved r part t t' u v) (leaf : part.hasSlots = false)
    (text : part ≠ .text) : u = v := by
  cases h with
  | same => rfl
  | plain => rfl
  | text => exact absurd rfl text
  | list slots => rw [leaf] at slots; cases slots
  | moved => cases leaf

theorem slots {xs ys : List Raw} (h : Like lib lib' moved r part t t' (.list xs) (.list ys))
    (slots : part.hasSlots = true) : Slots lib lib' moved r part t t' xs ys := by
  cases h with
  | same entries => exact .refl (fun _ _ => .same entries) xs
  | plain _ whole => exact absurd rfl (whole slots xs)
  | text => cases slots
  | list _ length items => exact .of_length length items

/-- What is made of slots is alike slot by slot, is the same and no list, or has been moved. -/
theorem shape (h : Like lib lib' moved r part t t' u v) (slots : part.hasSlots = true) :
    (∃ xs ys, u = .list xs ∧ v = .list ys ∧ Slots lib lib' moved r part t t' xs ys) ∨
    (u = v ∧ ∀ items, u ≠ .list items) ∨
    (part = .body ∧ moved r ∧ ∃ keywords n payload, u = .list keywords ∧ v = .int n ∧
      lib'.files (lib.coding.splitFileName n) = some payload ∧
      Slots lib lib' moved r .body t (.split (lib.coding.splitFileName n)) keywords
        payload.keywords) := by
  cases h with
  | same entries =>
    cases u with
    | list xs => exact .inl ⟨xs, xs, rfl, rfl, Like.slots (.same entries) slots⟩
    | _ => exact .inr (.inl ⟨rfl, fun _ => by simp⟩)
  | plain text whole => exact .inr (.inl ⟨rfl, whole slots⟩)
  | text => cases slots
  | list _ length items => exact .inl ⟨_, _, rfl, rfl, .of_length length items⟩
  | moved here file content =>
    exact .inr (.inr ⟨rfl, here, _, _, _, rfl, rfl, file, content.slots rfl⟩)

theorem asList (h : Like lib lib' moved r part t t' u v) (slots : part.hasSlots = true)
    (body : part ≠ .body) (context : String) :
    Concur (Slots lib lib' moved r part t t') (u.asList context) (v.asList context) := by
  rcases h.shape slots with ⟨xs, ys, rfl, rfl, alike⟩ | ⟨rfl, scalar⟩ | ⟨isBody, -⟩
  · exact alike
  · cases u with
    | list xs => exact absurd rfl (scalar xs)
    | _ => rfl
  · exact absurd isBody body

theorem element (h : Like lib lib' moved r part t t' u v) (slots : part.hasSlots = true)
    (body : part ≠ .body) (context : String) :
    Concur (fun a b => ∃ xs ys, a = ⟨context, xs⟩ ∧ b = ⟨context, ys⟩ ∧
      Slots lib lib' moved r part t t' xs ys) (u.element context) (v.element context) :=
  (h.asList slots body context).map fun xs ys alike => ⟨xs, ys, rfl, rfl, alike⟩

/-- What differs in the keywords of one node only. -/
theorem replaceAt (path : List Nat) {a b : Raw} (entries : lib'.entries t' = lib.entries t)
    (there : u.at? path = some a) (body : part.below lib.coding.version path = .body)
    (like : Like lib lib' moved (part.routeBelow lib.coding.version r path) .body t t' a b) :
    Like lib lib' moved r part t t' u (Raw.replaceAt b path u) := by
  induction path generalizing r part u with
  | nil =>
    cases there
    cases body
    exact like
  | cons i path ih =>
    cases u with
    | list xs =>
      obtain ⟨x, hx, there⟩ := Option.bind_eq_some_iff.1 there
      refine .list (Part.hasSlots_of_below body) (by simp) fun j y z hy hz => ?_
      by_cases hj : i = j
      · subst hj
        cases hx.symm.trans hy
        rw [List.getElem?_modify_eq, hx] at hz
        cases hz
        exact ih there body like
      · rw [List.getElem?_modify_ne _ _ hj, hy] at hz
        cases hz
        exact .same entries
    | _ => cases there

end Like

namespace Slots

variable {r : Route} {part : Part} {t t' : TableRef} {xs ys : List Raw}

/-- A text that a record may leave out. -/
theorem text (h : Slots lib lib' moved r part t t' xs ys) {i : Nat}
    (hi : part.slot lib.coding.version i = .text) :
    SameText (lib.entries t) (lib'.entries t') xs[i]? ys[i]? := by
  have there := h i
  simp only [hi] at there
  cases hx : xs[i]? <;> cases hy : ys[i]? <;> rw [hx, hy] at there <;> cases there
  · rfl
  · exact Like.sameText ‹_›

/-- A text that must be there. -/
theorem getText (h : Slots lib lib' moved r part t t' xs ys) {i : Nat}
    (hi : part.slot lib.coding.version i = .text) (context : String) :
    Concur (fun u v => SameText (lib.entries t) (lib'.entries t') (some u) (some v))
      ((Element.mk context xs).get i) ((Element.mk context ys).get i) := by
  have there := Matched.get h context i
  simp only [hi] at there
  exact there.mono fun _ _ => Like.sameText

/-- A number or a code. -/
theorem getLeaf (h : Slots lib lib' moved r part t t' xs ys) {i : Nat}
    (leaf : (part.slot lib.coding.version i).hasSlots = false)
    (text : part.slot lib.coding.version i ≠ .text) (context : String) :
    (Element.mk context xs).get i = (Element.mk context ys).get i :=
  ((Matched.get h context i).mono fun _ _ alike => alike.eq_of_leaf leaf text).eq

/-- A record or a list of records. -/
theorem getElement (h : Slots lib lib' moved r part t t' xs ys) {i : Nat} {q : Part}
    (hi : part.slot lib.coding.version i = q) (slots : q.hasSlots = true)
    (body : q ≠ .body) (context : String) :
    Concur (fun a b => ∃ us vs, a = ⟨context, us⟩ ∧ b = ⟨context, vs⟩ ∧
      Slots lib lib' moved (part.route r i) q t t' us vs)
      ((Element.mk context xs).element i) ((Element.mk context ys).element i) := by
  refine (Matched.get h context i).bind fun u v alike => ?_
  simp only [hi] at alike
  exact alike.element slots body context

end Slots

/-! ## Parts of records -/

section Parts

variable {r : Route} {t t' : TableRef} {u v : Raw} {xs ys : List Raw}

theorem statusPart_concurs (h : Slots lib lib' moved r .status t t' xs ys) (context : String) :
    Concur (fun a b => a.1 = b.1 ∧ a.2.1 = b.2.1 ∧
      SameText (lib.entries t) (lib'.entries t') a.2.2 b.2.2)
      (lib.coding.statusPart ⟨context, xs⟩) (lib.coding.statusPart ⟨context, ys⟩) := by
  have code := h.getLeaf (i := 0) rfl (by simp [Part.slot]) context
  have start := h.getLeaf (i := 1) rfl (by simp [Part.slot]) context
  have elapsed := h.getLeaf (i := 2) rfl (by simp [Part.slot]) context
  have message := h.text (i := 3) rfl
  simp only [Coding.statusPart, Element.int, code, start, elapsed]
  refine .after fun _ => .after fun status => .after fun _ => .after fun start => ?_
  refine .after fun elapsed => ?_
  split
  · exact ⟨rfl, rfl, message⟩
  · rfl

theorem metadataOf_concurs (h : Like lib lib' moved r .texts t t' u v) :
    Lookup.Concur (lib.entries t) (lib'.entries t') (· = ·) (Coding.metadataOf u)
      (Coding.metadataOf v) := by
  refine Lookup.concur_bind (Lookup.concur_except (h.asList rfl (by simp) _)) fun xs ys alike => ?_
  rw [alike.length_eq]
  split
  · refine Lookup.concur_bind (SameText.stringsOf (alike.mono fun _ _ _ => Like.sameText))
      fun _ _ same => ?_
    exact Lookup.concur_pure (congrArg _ same)
  · exact Lookup.concur_except rfl

/-- Where the keywords of a node stand in two reports. -/
def BodyLike (lib lib' : Source) (moved : Route → Prop) (r : Route) (t t' : TableRef) :
    KeywordSource → KeywordSource → Prop
  | .inline xs, .inline ys => Slots lib lib' moved r .body t t' xs ys
  | .inline xs, .split file => moved r ∧ ∃ payload, lib'.files file = some payload ∧
    Slots lib lib' moved r .body t (.split file) xs payload.keywords
  | .split file, .split file' => file = file'
  | .split _, .inline _ => False

theorem keywordSource_concurs (indexed : lib.coding.version = .indexed)
    (h : Like lib lib' moved r .body t t' u v) :
    Concur (BodyLike lib lib' moved r t t') (lib.coding.keywordSource u)
      (lib.coding.keywordSource v) := by
  rcases h.shape rfl with ⟨xs, ys, rfl, rfl, alike⟩ | ⟨rfl, scalar⟩ |
    ⟨-, here, keywords, n, payload, rfl, rfl, file, content⟩
  · exact alike
  · cases u with
    | list xs => exact absurd rfl (scalar xs)
    | null => exact fun _ => .none
    | bool b => rfl
    | str s => rfl
    | int n =>
      simp only [Coding.keywordSource, indexed]
      exact .after fun _ => rfl
    | float x =>
      simp only [Coding.keywordSource, indexed]
      exact .after fun _ => rfl
  · have split : lib.coding.keywordSource (.int n) = .ok (.split (lib.coding.splitFileName n)) := by
      simp only [Coding.keywordSource, indexed]
      rfl
    rw [split]
    exact ⟨here, payload, file, content⟩

end Parts

/-! ## Records -/

/-- The record without the values that are read later. -/
def SuiteRecord.bare (a : SuiteRecord) : SuiteRecord :=
  { a with doc := none, message := none, suites := [], tests := [], keywords := [] }

def TestRecord.bare (a : TestRecord) : TestRecord :=
  { a with doc := none, message := none, keywords := .inline [] }

def KeywordRecord.bare (a : KeywordRecord) : KeywordRecord :=
  { a with doc := none, keywords := .inline [], messages := [] }

section Records

variable (lib lib' : Source) (moved : Route → Prop) (r : Route) (t t' : TableRef)

/-- Records of a suite in two reports that say the same. -/
structure SuiteLike (a b : SuiteRecord) : Prop where
  bare : a.bare = b.bare
  doc : SameText (lib.entries t) (lib'.entries t') a.doc b.doc
  message : SameText (lib.entries t) (lib'.entries t') a.message b.message
  suites : Slots lib lib' moved r (.children .suite) t t' a.suites b.suites
  tests : Slots lib lib' moved r (.children .test) t t' a.tests b.tests
  keywords : Slots lib lib' moved r (.children .keyword) t t' a.keywords b.keywords

structure TestLike (a b : TestRecord) : Prop where
  bare : a.bare = b.bare
  doc : SameText (lib.entries t) (lib'.entries t') a.doc b.doc
  message : SameText (lib.entries t) (lib'.entries t') a.message b.message
  keywords : BodyLike lib lib' moved r t t' a.keywords b.keywords

structure KeywordLike (a b : KeywordRecord) : Prop where
  bare : a.bare = b.bare
  doc : SameText (lib.entries t) (lib'.entries t') a.doc b.doc
  keywords : BodyLike lib lib' moved r t t' a.keywords b.keywords
  messages : Slots lib lib' moved r .messages t t' a.messages b.messages

end Records

section Records

variable {r : Route} {t t' : TableRef}

theorem SuiteLike.name {a b : SuiteRecord} (h : SuiteLike lib lib' moved r t t' a b) :
    a.name = b.name :=
  (congrArg SuiteRecord.name h.bare :)

theorem TestLike.name {a b : TestRecord} (h : TestLike lib lib' moved r t t' a b) :
    a.name = b.name :=
  (congrArg TestRecord.name h.bare :)

theorem KeywordLike.isFailedTeardown {a b : KeywordRecord}
    (h : KeywordLike lib lib' moved r t t' a b) :
    Source.isFailedTeardown a = Source.isFailedTeardown b :=
  (congrArg Source.isFailedTeardown h.bare :)

end Records

section Records

open Lookup

variable {r : Route} {t t' : TableRef} {u v : Raw}

theorem message_concurs (h : Like lib lib' moved r .message t t' u v) :
    Lookup.Concur (lib.entries t) (lib'.entries t') (· = ·) (lib.coding.message u)
      (lib.coding.message v) := by
  refine concur_bind (concur_except (h.element rfl (by simp) _)) ?_
  rintro _ _ ⟨xs, ys, rfl, rfl, alike⟩
  simp only [Element.int]
  refine concur_after ?_ fun offset => ?_
  · rw [alike.getLeaf (i := 0) rfl (by simp [Part.slot])]
  refine concur_after (alike.getLeaf (i := 1) rfl (by simp [Part.slot]) _) fun _ => ?_
  refine concur_after rfl fun level => ?_
  refine concur_bind (alike.text (i := 2) rfl).lookup fun text text' sameText => ?_
  refine concur_bind (alike.text (i := 3) rfl).lookup fun link link' sameLink => ?_
  exact concur_pure (by rw [sameText, sameLink])

theorem keyword_concurs (indexed : lib.coding.version = .indexed)
    (h : Like lib lib' moved r (.record .keyword) t t' u v) :
    Lookup.Concur (lib.entries t) (lib'.entries t') (KeywordLike lib lib' moved r t t')
      (lib.coding.keyword u) (lib.coding.keyword v) := by
  refine concur_bind (concur_except (h.element rfl (by simp) _)) ?_
  rintro _ _ ⟨xs, ys, rfl, rfl, alike⟩
  refine concur_after (alike.getLeaf (i := 0) rfl (by simp [Part.slot]) _) fun _ => ?_
  refine concur_after rfl fun type => ?_
  refine concur_bind (concur_except (alike.getText (i := 1) rfl _)) fun _ _ denotes => ?_
  refine concur_bind denotes.stringOf fun name name' sameName => ?_
  refine concur_bind (alike.text (i := 2) rfl).lookup fun timeout timeout' sameTimeout => ?_
  refine concur_bind (alike.text (i := 4) rfl).lookup fun args args' sameArgs => ?_
  refine concur_bind (concur_except
    (alike.getElement (i := 5) (q := .status) rfl rfl (by simp) _)) ?_
  rintro _ _ ⟨us, vs, rfl, rfl, status⟩
  refine concur_bind (concur_except (statusPart_concurs status _)) ?_
  rintro ⟨st, times, _⟩ ⟨st', times', _⟩ ⟨sameStatus, sameTimes, -⟩
  refine concur_bind (concur_except (Matched.get alike _ 6)) fun _ _ body => ?_
  refine concur_bind (concur_except (keywordSource_concurs indexed body)) fun k k' keywords => ?_
  have doc := alike.text (i := 3) rfl
  have messages := alike 7
  subst sameName sameTimeout sameArgs sameStatus sameTimes
  simp only [Element.opt]
  cases hx : xs[7]? <;> cases hy : ys[7]? <;> rw [hx, hy] at messages <;> cases messages
  case none.none =>
    refine concur_bind (concur_pure (R := Slots lib lib' moved r .messages t t') fun _ => .none)
      fun _ _ slots => ?_
    exact concur_pure ⟨rfl, doc, keywords, slots⟩
  case some.some messages =>
    refine concur_bind (concur_except (messages.asList rfl (by simp [Part.slot]) _))
      fun _ _ slots => ?_
    exact concur_pure ⟨rfl, doc, keywords, slots⟩

theorem test_concurs (indexed : lib.coding.version = .indexed)
    (h : Like lib lib' moved r (.record .test) t t' u v) :
    Lookup.Concur (lib.entries t) (lib'.entries t') (TestLike lib lib' moved r t t')
      (lib.coding.test u) (lib.coding.test v) := by
  refine concur_bind (concur_except (h.element rfl (by simp) _)) ?_
  rintro _ _ ⟨xs, ys, rfl, rfl, alike⟩
  refine concur_bind (concur_except (alike.getText (i := 0) rfl _)) fun _ _ denotes => ?_
  refine concur_bind denotes.stringOf fun name name' sameName => ?_
  refine concur_bind (alike.text (i := 1) rfl).lookup fun timeout timeout' sameTimeout => ?_
  refine concur_after (alike.getLeaf (i := 2) rfl (by simp [Part.slot]) _) fun _ => ?_
  refine concur_after rfl fun critical => ?_
  refine concur_bind (concur_except ((Matched.get alike _ 4).bind fun _ _ tags =>
    Like.asList tags rfl (by simp [Part.slot]) _)) fun _ _ tags => ?_
  refine concur_bind (SameText.stringsOf (tags.mono fun _ _ _ => Like.sameText))
    fun tags tags' sameTags => ?_
  refine concur_bind (concur_except
    (alike.getElement (i := 5) (q := .status) rfl rfl (by simp) _)) ?_
  rintro _ _ ⟨us, vs, rfl, rfl, status⟩
  refine concur_bind (concur_except (statusPart_concurs status _)) ?_
  rintro ⟨st, times, _⟩ ⟨st', times', _⟩ ⟨sameStatus, sameTimes, message⟩
  refine concur_bind (concur_except (Matched.get alike _ 6)) fun _ _ body => ?_
  refine concur_bind (concur_except (keywordSource_concurs indexed body)) fun _ _ keywords => ?_
  have doc := alike.text (i := 3) rfl
  subst sameName sameTimeout sameTags sameStatus sameTimes
  exact concur_pure ⟨rfl, doc, message, keywords⟩

theorem suite_concurs (indexed : lib.coding.version = .indexed)
    (h : Like lib lib' moved r (.record .suite) t t' u v) :
    Lookup.Concur (lib.entries t) (lib'.entries t') (SuiteLike lib lib' moved r t t')
      (lib.coding.suite u) (lib.coding.suite v) := by
  have slot : ∀ i, Part.slot lib.coding.version (.record .suite) i =
      Version.indexed.suiteSlots.part i := by
    intro i
    rw [indexed]
    rfl
  simp only [Coding.suite, indexed]
  refine concur_bind (concur_except (h.element rfl (by simp) _)) ?_
  rintro _ _ ⟨xs, ys, rfl, rfl, alike⟩
  refine concur_bind (concur_except (alike.getText (i := 0) (slot 0) _)) fun _ _ denotes => ?_
  refine concur_bind denotes.stringOf fun name name' sameName => ?_
  refine concur_bind (alike.text (i := 1) (slot 1)).lookup fun source source' sameSource => ?_
  refine concur_bind (alike.text (i := 2) (slot 2)).lookup fun relative relative' sameRelative => ?_
  refine concur_bind (concur_except (Matched.get alike _ 4)) fun _ _ metadata => ?_
  simp only [slot 4] at metadata
  refine concur_bind (metadataOf_concurs metadata) fun metadata metadata' sameMetadata => ?_
  refine concur_bind (concur_except
    (alike.getElement (i := 5) (q := .status) (slot 5) rfl (by simp) _)) ?_
  rintro _ _ ⟨us, vs, rfl, rfl, status⟩
  refine concur_bind (concur_except (statusPart_concurs status _)) ?_
  rintro ⟨st, times, _⟩ ⟨st', times', _⟩ ⟨sameStatus, sameTimes, message⟩
  have stats : (Element.mk "suite" xs).element 9 = (Element.mk "suite" ys).element 9 := by
    rw [Element.element, Element.element, alike.getLeaf (by rw [slot]; rfl) (by rw [slot]; decide)]
  refine concur_after stats fun _ => ?_
  refine concur_after rfl fun counts => ?_
  refine concur_bind (concur_except (Matched.get alike _ 6)) fun _ _ suites => ?_
  simp only [slot 6] at suites
  refine concur_bind (concur_except (suites.asList rfl (by decide) _)) fun _ _ suites => ?_
  refine concur_bind (concur_except (Matched.get alike _ 7)) fun _ _ tests => ?_
  simp only [slot 7] at tests
  refine concur_bind (concur_except (tests.asList rfl (by decide) _)) fun _ _ tests => ?_
  refine concur_bind (concur_except (Matched.get alike _ 8)) fun _ _ keywords => ?_
  simp only [slot 8] at keywords
  refine concur_bind (concur_except (keywords.asList rfl (by decide) _)) fun _ _ keywords => ?_
  have doc := alike.text (i := 3) (slot 3)
  subst sameName sameSource sameRelative sameMetadata sameStatus sameTimes
  exact concur_pure ⟨rfl, doc, message, suites, tests, keywords⟩

end Records

/-! ## Nodes -/

namespace Source

/-- The second report says what the first one says, and has the keywords of the nodes that `moved`
holds of in split files. -/
structure Splits (lib lib' : Source) (moved : Route → Prop) : Prop where
  indexed : lib.coding.version = .indexed
  coding : lib'.coding = lib.coding
  suite : Like lib lib' moved .root (.record .suite) .main .main lib.suite lib'.suite
  /-- Where a file is needed, both reports have it or neither. -/
  files : ∀ r p file, lib.node? r = .ok (some p) → p.splitFile? = some file →
    Option.Rel (fun x y => Like lib lib' moved r .body (.split file) (.split file)
      (.list x.keywords) (.list y.keywords)) (lib.files file) (lib'.files file)

/-- A report with the same files whose root record is alike. -/
theorem Splits.of_suite {lib : Source} {suite : Raw} {moved : Route → Prop}
    (indexed : lib.coding.version = .indexed)
    (alike : Like lib { lib with suite } moved .root (.record .suite) .main .main lib.suite suite) :
    lib.Splits { lib with suite } moved where
  indexed := indexed
  coding := rfl
  suite := alike
  files := by
    intro r p file _ _
    cases lib.files file with
    | none => exact .none
    | some payload => exact .some (.same rfl)

end Source

/-- Nodes of two reports, at one route, that say the same. -/
def PlainLike (lib lib' : Source) (moved : Route → Prop) (r : Route) : Plain → Plain → Prop
  | .suite a name failed t, .suite b name' failed' t' =>
    SuiteLike lib lib' moved r t t' a b ∧ name = name' ∧ failed = failed'
  | .test a name failed t, .test b name' failed' t' =>
    TestLike lib lib' moved r t t' a b ∧ name = name' ∧ failed = failed'
  | .keyword a path t, .keyword b path' t' => KeywordLike lib lib' moved r t t' a b ∧ path = path'
  | _, _ => False

/-- Lists of children, each with its table. -/
def ItemsLike (lib lib' : Source) (moved : Route → Prop) (r : Route) (b : Branch)
    (x y : List Raw × TableRef) : Prop :=
  Matched (fun i => Like lib lib' moved (.child r ⟨b, i⟩) (.record b) x.2 y.2) x.1 y.1

theorem BodyLike.items {r : Route} {t t' : TableRef} {k k' : KeywordSource}
    (h : BodyLike lib lib' moved r t t' k k')
    (files : ∀ file, Plain.fileOf? k = some file → Option.Rel (fun x y =>
      Like lib lib' moved r .body (.split file) (.split file) (.list x.keywords) (.list y.keywords))
      (lib.files file) (lib'.files file)) :
    Option.Rel (ItemsLike lib lib' moved r .keyword) (lib.keywordItems? t k)
      (lib'.keywordItems? t' k') := by
  cases k with
  | inline xs =>
    cases k' with
    | inline ys => exact .some h
    | split file =>
      obtain ⟨-, payload, there, slots⟩ := h
      simp only [Source.keywordItems?, there]
      exact .some slots
  | split file =>
    cases k' with
    | inline ys => exact h.elim
    | split file' =>
      cases show file = file' from h
      have both := files file rfl
      simp only [Source.keywordItems?]
      cases hx : lib.files file <;> cases hy : lib'.files file <;> rw [hx, hy] at both <;>
        cases both
      · exact .none
      · rename_i alike
        exact .some (alike.slots rfl)

namespace PlainLike

variable {r : Route} {p p' : Plain}

theorem pathBase (h : PlainLike lib lib' moved r p p') : p.pathBase = p'.pathBase := by
  cases p <;> cases p' <;> first | exact h.2 | exact h.2.1 | exact h.elim

theorem nameBelow (h : PlainLike lib lib' moved r p p') (name : String) :
    p.nameBelow name = p'.nameBelow name := by
  cases p <;> cases p' <;> first | exact h.elim | rfl | simp only [Plain.nameBelow, h.2.1]

theorem items (splits : lib.Splits lib' moved) (hp : lib.node? r = .ok (some p))
    (h : PlainLike lib lib' moved r p p') (b : Branch) :
    Option.Rel (ItemsLike lib lib' moved r b) (lib.items? p b.kind) (lib'.items? p' b.kind) := by
  have files := fun file => splits.files r p file hp
  cases p with
  | suite a name failed t =>
    cases p' with
    | suite a' name' failed' t' =>
      cases b with
      | suite => exact .some h.1.suites
      | test => exact .some h.1.tests
      | keyword => exact .some h.1.keywords
    | _ => exact h.elim
  | test a name failed t =>
    cases p' with
    | test a' name' failed' t' =>
      cases b with
      | keyword => exact h.1.keywords.items files
      | _ => exact .none
    | _ => exact h.elim
  | keyword a path t =>
    cases p' with
    | keyword a' path' t' =>
      cases b with
      | keyword => exact h.1.keywords.items files
      | _ => exact .none
    | _ => exact h.elim

theorem record (splits : lib.Splits lib' moved) (hp : lib.node? r = .ok (some p))
    (h : PlainLike lib lib' moved r p p') (step : Segment) :
    Option.Rel
      (fun x y => Like lib lib' moved (.child r step) (.record step.branch) x.2 y.2 x.1 y.1)
      (lib.record? p step) (lib'.record? p' step) := by
  have items := h.items splits hp step.branch
  simp only [Source.record?]
  cases hx : lib.items? p step.branch.kind <;> cases hy : lib'.items? p' step.branch.kind <;>
    rw [hx, hy] at items <;> cases items
  case none.none => exact .none
  case some.some x y items =>
    have there := items step.index
    simp only
    cases hi : x.1[step.index]? <;> cases hj : y.1[step.index]? <;> rw [hi, hj] at there <;>
      cases there
    · exact .none
    · exact .some ‹_›

end PlainLike

namespace Source.Splits

variable (h : lib.Splits lib' moved) {r : Route} {t t' : TableRef} {u v : Raw} {p p' : Plain}
include h

theorem readRecord_keyword (alike : Like lib lib' moved r (.record .keyword) t t' u v) :
    Concur (KeywordLike lib lib' moved r t t') (lib.readIn t (lib.coding.keyword u))
      (lib'.readIn t' (lib'.coding.keyword v)) := by
  rw [h.coding]
  exact (keyword_concurs h.indexed alike).read

theorem teardownFailure (alike : PlainLike lib lib' moved r p p') :
    lib.teardownFailure p = lib'.teardownFailure p' := by
  cases p with
  | suite a name failed t =>
    cases p' with
    | suite a' name' failed' t' =>
      obtain ⟨record, -, rfl⟩ := alike
      have last := record.keywords.getLast?
      simp only [Source.teardownFailure]
      cases hx : a.keywords.getLast? <;> cases hy : a'.keywords.getLast? <;>
        rw [hx, hy] at last <;> cases last
      case some.some.some both =>
        have read := (h.readRecord_keyword both).map fun _ _ like => like.isFailedTeardown
        simp only [read.eq]
    | _ => exact alike.elim
  | test => cases p' <;> first | rfl | exact alike.elim
  | keyword => cases p' <;> first | rfl | exact alike.elim

theorem readSuite {above above' : Option Plain}
    (alike : Like lib lib' moved r (.record .suite) t t' u v)
    (owners : Option.Rel (fun q q' => ∃ o, PlainLike lib lib' moved o q q') above above') :
    Concur (PlainLike lib lib' moved r) (lib.readSuite above u t) (lib'.readSuite above' v t') := by
  simp only [Source.readSuite, h.coding]
  refine (suite_concurs h.indexed alike).read.bind fun a a' like => ?_
  cases owners with
  | none => exact ⟨like, like.name, rfl⟩
  | some both =>
    obtain ⟨o, both⟩ := both
    simp only [h.teardownFailure both]
    refine .after fun failed => ⟨like, ?_, rfl⟩
    simp only [Option.elim, like.name]
    exact both.nameBelow _

theorem readChild (owners : PlainLike lib lib' moved r p p') {step : Segment}
    (alike : Like lib lib' moved (.child r step) (.record step.branch) t t' u v) :
    Concur (PlainLike lib lib' moved (.child r step)) (lib.readChild p step u t)
      (lib'.readChild p' step v t') := by
  obtain ⟨branch, index⟩ := step
  cases branch with
  | suite => exact h.readSuite alike (.some ⟨r, owners⟩)
  | test =>
    simp only [Source.readChild, Source.readTest, h.coding, h.teardownFailure owners]
    refine (test_concurs h.indexed alike).read.bind fun a a' like => .after fun failed => ?_
    exact ⟨like, by rw [like.name]; exact owners.nameBelow _, rfl⟩
  | keyword =>
    simp only [Source.readChild, Source.readKeyword, owners.pathBase]
    exact (h.readRecord_keyword alike).bind fun a a' like => ⟨like, rfl⟩

theorem child? (hp : lib.node? r = .ok (some p)) (owners : PlainLike lib lib' moved r p p')
    (step : Segment) :
    Concur (Option.Rel (PlainLike lib lib' moved (.child r step))) (lib.child? p step)
      (lib'.child? p' step) := by
  have records := owners.record h hp step
  simp only [Source.child?]
  cases hx : lib.record? p step <;> cases hy : lib'.record? p' step <;> rw [hx, hy] at records <;>
    cases records
  · exact .none
  · exact (h.readChild owners ‹_›).map fun _ _ => .some

/-- At every route both reports have the same to say. -/
theorem node? (r : Route) :
    Concur (Option.Rel (PlainLike lib lib' moved r)) (lib.node? r) (lib'.node? r) := by
  induction r with
  | root => exact (h.readSuite h.suite .none).map fun _ _ => .some
  | child owner step ih =>
    simp only [Source.node?]
    cases hx : lib.node? owner <;> cases hy : lib'.node? owner <;> rw [hx, hy] at ih
    case error.error => exact ih
    case ok.ok =>
      cases ih with
      | none => exact .none
      | some both => exact h.child? hx both step
    all_goals exact ih.elim

end Source.Splits

end RunReport
