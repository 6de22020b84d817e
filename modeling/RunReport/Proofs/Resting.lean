import RunReport.Proofs.Habits
/-!
# Reading a closed session

Once the report is dropped no node can be made. What is read then is what is there, and reading
changes nothing but what is remembered of texts, and of lists besides their slots.
-/

namespace RunReport.Session

open Effects

/-- A course that reading a closed session does not leave. -/
class Idle (R : Session → Session → Prop) : Prop extends Course R where
  table : ∀ (s : Session) ref t, R s (setTable ref t s)
  text : ∀ (s : Session) id part text, R s (keepText id part text s)
  list : ∀ (s : Session) owner kind (f : LazyList NodeId → LazyList NodeId),
    (∀ l, (f l).slots = l.slots) → R s ((made owner kind).update f s)

/-- From a closed session the computation leads along the course to a closed one. -/
def Rests (R : Session → Session → Prop) {α : Type} (x : Run α) : Prop :=
  ∀ s : Session, s.isOpen = false → (x.run s).2.isOpen = false ∧ R s (x.run s).2

/-- In a closed session the computation fails. -/
def Refuses (R : Session → Session → Prop) {α : Type} (x : Run α) : Prop :=
  Rests R x ∧ ∀ s : Session, s.isOpen = false → ∃ e, (x.run s).1 = .error e

theorem isOpen_setTable (ref : TableRef) (t : StringTable) (s : Session) :
    (setTable ref t s).isOpen = s.isOpen := by
  obtain ⟨strings, splitStrings, eq⟩ := setTable_frame (s := s) ref t
  rw [eq]

section Rests

variable {R : Session → Session → Prop} [Course R] {α β : Type}

theorem rests_pure (a : α) : Rests R (pure a : Run α) :=
  fun s h => ⟨h, Course.refl s⟩

theorem rests_get : Rests R (get : Run Session) :=
  fun s h => ⟨h, Course.refl s⟩

theorem refuses_throw (e : Error) : Refuses R (throw e : Run α) :=
  ⟨fun s h => ⟨h, Course.refl s⟩, fun _ _ => ⟨e, rfl⟩⟩

theorem rests_bind {x : Run α} {f : α → Run β} (hx : Rests R x) (hf : ∀ a, Rests R (f a)) :
    Rests R (x >>= f) := by
  intro s h
  obtain ⟨closed, along⟩ := hx s h
  rw [run_bind]
  rcases hrun : x.run s with ⟨_ | a, t⟩ <;> rw [hrun] at closed along
  · exact ⟨closed, along⟩
  · obtain ⟨closed', along'⟩ := hf a t closed
    exact ⟨closed', Course.trans along along'⟩

omit [Course R] in
/-- What comes after a refusal does not come. -/
theorem refuses_bind {x : Run α} (f : α → Run β) (hx : Refuses R x) : Refuses R (x >>= f) := by
  have run : ∀ s : Session, s.isOpen = false → ∃ e, (x >>= f).run s = (.error e, (x.run s).2) := by
    intro s h
    obtain ⟨e, fails⟩ := hx.2 s h
    exact ⟨e, run_bind_error (Prod.ext fails rfl)⟩
  constructor
  · intro s h
    obtain ⟨e, run⟩ := run s h
    rw [run]
    exact hx.1 s h
  · intro s h
    obtain ⟨e, run⟩ := run s h
    exact ⟨e, by rw [run]⟩

theorem refuses_after {x : Run α} {f : α → Run β} (hx : Rests R x) (hf : ∀ a, Refuses R (f a)) :
    Refuses R (x >>= f) := by
  refine ⟨rests_bind hx fun a => (hf a).1, fun s h => ?_⟩
  obtain ⟨closed, -⟩ := hx s h
  rw [run_bind]
  rcases hrun : x.run s with ⟨e | a, t⟩ <;> rw [hrun] at closed
  · exact ⟨e, rfl⟩
  · exact (hf a).2 t closed

omit [Course R] in
theorem rests_map {x : Run α} (f : α → β) (hx : Rests R x) : Rests R (f <$> x) := by
  intro s h
  rw [run_map]
  exact hx s h

omit [Course R] in
theorem rests_attempt {x : Run α} (hx : Rests R x) : Rests R (attempt x) := by
  intro s h
  rw [attempt_run]
  exact hx s h

omit [Course R] in
theorem rests_ite {c : Prop} [Decidable c] {x y : Run α} (hx : Rests R x) (hy : Rests R y) :
    Rests R (if c then x else y) := by
  split
  · exact hx
  · exact hy

end Rests

section Idle

variable {R : Session → Session → Prop} [Idle R]

/-! ## Nothing is made -/

theorem rests_withTable {α : Type} (ref : TableRef) (x : Lookup α) : Rests R (withTable ref x) := by
  intro s h
  have run : ((withTable ref x).run s).2 = s.setTable ref (x.run (s.tableOf ref)).2 := rfl
  rw [run, isOpen_setTable]
  exact ⟨h, Idle.table s ref _⟩

theorem refuses_checkOpen {β : Type} (f : Unit → Run β) : Refuses R (checkOpen >>= f) := by
  refine refuses_bind f ?_
  have run : ∀ s : Session, s.isOpen = false → checkOpen.run s = (.error .sessionClosed, s) := by
    intro s h
    simp only [checkOpen, run_bind, run_get, h]
    rfl
  constructor
  · intro s h
    rw [run s h]
    exact ⟨h, Course.refl s⟩
  · intro s h
    exact ⟨_, by rw [run s h]⟩

theorem refuses_decodeChild (kind : NodeKind) (owner : Route) (r : Raw) (t : TableRef) (i : Nat) :
    Refuses R (decodeChild kind owner r t i) := by
  cases kind with
  | suite => exact refuses_checkOpen _
  | test => exact refuses_checkOpen _
  | keyword => exact refuses_checkOpen _
  | message =>
    refine refuses_after rests_get fun s => refuses_after (rests_withTable t _) fun record => ?_
    exact refuses_checkOpen _

theorem refuses_createWith {decode : Route → Raw → TableRef → Nat → Run NodeId}
    (hd : ∀ owner r t i, Refuses R (decode owner r t i)) (owner : Route) (kind : NodeKind)
    (i : Nat) : Refuses R (createWith decode owner kind i) := by
  refine refuses_after rests_get fun s => ?_
  cases s.list? owner kind with
  | none => exact refuses_throw _
  | some l =>
    simp only
    cases l.items[i]? with
    | none => exact refuses_throw _
    | some r => exact hd owner r l.table i

theorem rests_length (owner : Route) (kind : NodeKind) :
    Rests R ((made owner kind).length : Run Nat) :=
  fun s h => ⟨h, Idle.list s owner kind _ fun _ => rfl⟩

theorem rests_slot {owner : Route} {kind : NodeKind} {create : Nat → Run NodeId}
    (hc : ∀ i, Refuses R (create i)) (i : Nat) : Rests R ((made owner kind).get create i) := by
  refine rests_bind (rests_length owner kind) fun n => rests_ite ?_ (rests_pure _)
  refine rests_bind rests_get fun s => ?_
  cases ((made owner kind).view s).slot? i with
  | some a => exact rests_pure _
  | none => exact (refuses_bind _ (hc i)).1

theorem rests_childAt (owner : Route) (kind : NodeKind) (i : Nat) :
    Rests R (childAt owner kind i) :=
  rests_slot (refuses_createWith (refuses_decodeChild kind) owner kind) i

theorem rests_itemsAt {place : Place Session NodeId} {create : Nat → Run NodeId}
    (get : ∀ i, Rests R (place.get create i)) (is : List Nat) :
    Rests R (place.itemsAt create is) := by
  induction is with
  | nil => exact rests_pure _
  | cons i is ih => exact rests_bind (get i) fun _ => rests_bind ih fun _ => rests_pure _

theorem rests_childList (owner : Route) (kind : NodeKind) : Rests R (childList owner kind) := by
  refine rests_bind rests_get fun s => ?_
  cases ((made owner kind).view s).all with
  | some all => exact rests_pure _
  | none =>
    refine rests_bind (rests_bind (rests_length owner kind) fun _ =>
      rests_itemsAt (rests_childAt owner kind) _) fun items => ?_
    refine rests_bind (fun s h => ⟨h, Idle.list s owner kind (·.settle items) fun _ => rfl⟩) fun _ => ?_
    exact rests_bind rests_get fun _ => rests_pure _

theorem rests_hasTeardownFailure (r : Route) : Rests R (hasTeardownFailure r) := by
  refine rests_bind rests_get fun s => ?_
  split
  · refine rests_ite (rests_pure _) ?_
    have last : Rests R (lastKeyword r) := by
      refine rests_bind (rests_length r .keyword) fun n => ?_
      cases n with
      | zero => exact rests_pure _
      | succ n =>
        exact rests_slot (refuses_createWith (refuses_decodeChild .keyword) r .keyword) n
    refine rests_bind last fun found => ?_
    cases found with
    | some id => exact rests_bind rests_get fun _ => rests_pure _
    | none => exact rests_pure _
  · exact rests_pure _

/-! ## Reads -/

theorem rests_slotText (ref : TableRef) (slot : Option Raw) : Rests R (slotText ref slot) :=
  rests_bind (rests_withTable ref _) fun _ => rests_pure _

theorem rests_readOnce (id : NodeId) (part : TextPart) {read : Run String} (h : Rests R read) :
    Rests R (readOnce id part read) := by
  refine rests_bind rests_get fun s => ?_
  cases s.text? id part with
  | some text => exact rests_pure _
  | none =>
    refine rests_bind h fun text => ?_
    refine rests_bind (fun s h => ⟨h, Idle.text s id part text⟩) fun _ => ?_
    exact rests_bind rests_get fun _ => rests_pure _

theorem rests_doc (id : NodeId) : Rests R (doc id) := by
  refine rests_bind rests_get fun s => ?_
  split
  · exact rests_readOnce id .doc (rests_slotText _ _)
  · exact rests_pure _

theorem rests_statusMessage (id : NodeId) : Rests R (statusMessage id) := by
  refine rests_bind rests_get fun s => ?_
  split
  · exact rests_readOnce id .message
      (rests_bind (rests_readOnce id .own (rests_slotText _ _)) fun _ => rests_pure _)
  · exact rests_pure _

theorem rests_typedList (id : NodeId) (kind : NodeKind) : Rests R (typedList id kind) := by
  cases id with
  | message => exact rests_pure _
  | branch r =>
    refine rests_bind rests_get fun s => ?_
    split
    · exact rests_pure _
    · exact rests_bind (rests_childList r kind) fun _ => rests_pure _

theorem rests_children (id : NodeId) : Rests R (children id) := by
  refine rests_bind rests_get fun s => ?_
  split
  · refine rests_bind (rests_childList _ _) fun _ => ?_
    refine rests_bind (rests_childList _ _) fun _ => ?_
    exact rests_bind (rests_childList _ _) fun _ => rests_pure _
  · exact rests_typedList _ _
  · refine rests_bind (rests_typedList _ _) fun ids => ?_
    split
    · exact rests_pure _
    · exact rests_bind (rests_childList _ _) fun _ => rests_pure _
  · exact rests_pure _

theorem rests_child (id : NodeId) (step : Segment) : Rests R (child id step) := by
  cases id with
  | message => exact rests_pure _
  | branch r =>
    refine rests_bind rests_get fun s => ?_
    split
    · exact rests_pure _
    · exact rests_childAt _ _ _

theorem rests_messageAt (id : NodeId) (i : Nat) : Rests R (messageAt id i) := by
  cases id with
  | message => exact rests_pure _
  | branch r =>
    refine rests_bind rests_get fun s => ?_
    split
    · exact rests_pure _
    · exact rests_childAt _ _ _

theorem rests_describe (id : NodeId) : Rests R (describe id) := by
  refine rests_bind rests_get fun s => ?_
  cases s.node? id with
  | none => exact rests_pure _
  | some n =>
    refine rests_bind ?_ fun _ => rests_pure _
    cases n with
    | suite su =>
      refine rests_bind (rests_attempt (rests_doc _)) fun _ => ?_
      refine rests_bind (rests_attempt (rests_statusMessage _)) fun _ => ?_
      refine rests_bind (rests_attempt ?_) fun _ => rests_bind rests_get fun _ => rests_pure _
      cases id with
      | branch r => exact rests_hasTeardownFailure r
      | message number => exact rests_pure _
    | test t =>
      refine rests_bind (rests_attempt (rests_doc _)) fun _ => ?_
      exact rests_bind (rests_attempt (rests_statusMessage _)) fun _ => rests_pure _
    | keyword k => exact rests_bind (rests_attempt (rests_doc _)) fun _ => rests_pure _
    | message m => exact rests_bind rests_get fun _ => rests_pure _

theorem rests_peekAnswer (id : Option NodeId) : Rests R (peekAnswer id) := by
  refine rests_bind rests_get fun s => ?_
  cases id.bind s.peek? with
  | none => exact rests_pure _
  | some p => exact rests_pure _

/-! ## Dumps -/

theorem rests_loadIf (files : Option Files) (id : NodeId) : Rests R (loadIf files id) := by
  cases files with
  | none => exact rests_pure _
  | some files =>
    intro s h
    have run : (loadIf (some files) id).run s = (.ok none, s) := by
      simp only [loadIf, loadChildren, run_bind, run_get, h]
      rfl
    rw [run]
    exact ⟨h, Course.refl s⟩

theorem rests_dumpFrom (files : Option Files) (depth : Nat) (id : NodeId) :
    Rests R (dumpFrom files depth id) := by
  induction depth generalizing id with
  | zero => exact rests_pure _
  | succ depth ih =>
    have each : ∀ ids, Rests R (dumpEach (dumpFrom files depth) ids) := by
      intro ids
      induction ids with
      | nil => exact rests_pure _
      | cons id ids later => exact rests_bind (ih id) fun _ => rests_bind later fun _ => rests_pure _
    refine rests_bind (rests_describe id) fun found => ?_
    split
    · exact rests_pure _
    · exact rests_pure _
    · refine rests_bind (rests_loadIf files id) fun _ => rests_bind ?_ fun _ => rests_pure _
      refine rests_bind (rests_attempt (rests_children id)) fun found => ?_
      split
      · exact rests_pure _
      · exact rests_pure _
      · exact rests_bind (each _) fun _ => rests_pure _

/-! ## Searches -/

theorem rests_suitesOf (r : Route) : Rests R (suitesOf r) :=
  rests_bind (rests_childList r .suite) fun _ => rests_pure _

theorem rests_flatMapRun {α : Type} {f : Route → Run (List α)} (hf : ∀ r, Rests R (f r))
    (rs : List Route) : Rests R (flatMapRun f rs) := by
  induction rs with
  | nil => exact rests_pure _
  | cons r rs ih => exact rests_bind (hf r) fun _ => rests_bind ih fun _ => rests_pure _

theorem rests_searchTests (p : Test → Bool) (r : Route) : Rests R (searchTests p r) := by
  have below : ∀ depth r, Rests R (searchFrom p depth r) := by
    intro depth
    induction depth with
    | zero => exact fun _ => rests_pure _
    | succ depth ih =>
      intro r
      refine rests_bind (rests_suitesOf r) fun _ => rests_bind (rests_flatMapRun ih _) fun _ => ?_
      exact rests_bind (rests_childList r .test) fun _ => rests_bind rests_get fun _ => rests_pure _
  exact rests_bind rests_get fun _ => below _ r

theorem rests_testsInSuites (pattern : String) (r : Route) : Rests R (testsInSuites pattern r) := by
  have below : ∀ (m : Query.Matcher .standard) depth r, Rests R (inMatchingFrom m depth r) := by
    intro m depth
    induction depth with
    | zero => exact fun _ => rests_pure _
    | succ depth ih =>
      intro r
      refine rests_bind rests_get fun s => rests_ite (rests_searchTests _ r) ?_
      exact rests_bind (rests_suitesOf r) fun _ => rests_flatMapRun ih _
  exact rests_bind rests_get fun _ => below _ _ r

theorem rests_findSuite (name : String) (r : Route) : Rests R (findSuite name r) := by
  have first : ∀ {f : Route → Run (Option Route)}, (∀ r, Rests R (f r)) → ∀ rs,
      Rests R (findFirst f rs) := by
    intro f hf rs
    induction rs with
    | nil => exact rests_pure _
    | cons r rs ih =>
      refine rests_bind (hf r) fun found => ?_
      cases found with
      | some x => exact rests_pure _
      | none => exact ih
  have below : ∀ depth r, Rests R (findSuiteFrom name depth r) := by
    intro depth
    induction depth with
    | zero => exact fun _ => rests_pure _
    | succ depth ih =>
      intro r
      refine rests_bind rests_get fun s => rests_ite (rests_pure _) ?_
      exact rests_bind (rests_suitesOf r) fun _ => first ih _
  exact rests_bind rests_get fun _ => below _ r

theorem rests_searchAnswer (r : Route) (query : SuiteQuery) : Rests R (searchAnswer r query) := by
  cases query with
  | all => exact rests_map _ (rests_searchTests _ r)
  | critical => exact rests_map _ (rests_searchTests _ r)
  | tag => exact rests_map _ (rests_searchTests _ r)
  | tagQuery => exact rests_map _ (rests_searchTests _ r)
  | name => exact rests_map _ (rests_searchTests _ r)
  | suites pattern => exact rests_map _ (rests_testsInSuites pattern r)
  | findSuite name =>
    refine rests_bind (rests_findSuite name r) fun found => ?_
    cases found with
    | some x => exact rests_pure _
    | none => exact rests_pure _

/-! ## Answers -/

/-- Whether a step reads a node and does nothing else. -/
def NodeStep.reads : NodeStep → Bool
  | .whenReady _ => false
  | .hold _ => false
  | _ => true

/-- What a question about a node does to a closed session. -/
theorem rests_nodeAnswer (files : Files) (id : NodeId) {step : NodeStep}
    (reads : step.reads = true) : Rests R (nodeAnswer files id step) := by
  cases step with
  | peek => exact rests_peekAnswer _
  | describe =>
    refine rests_bind (rests_describe id) fun found => ?_
    cases found with
    | none => exact rests_pure _
    | some d => exact rests_pure _
  | dump load =>
    refine rests_bind (rests_bind rests_get fun _ => rests_dumpFrom _ _ id) fun found => ?_
    cases found with
    | nil => exact rests_pure _
    | cons t ts => exact rests_pure _
  | child kind index =>
    simp only [nodeAnswer]
    cases branchOf? kind with
    | none => exact rests_pure _
    | some branch => exact rests_bind (rests_child id _) fun _ => rests_peekAnswer _
  | children =>
    refine rests_bind (rests_children id) fun found => ?_
    cases found with
    | none => exact rests_pure _
    | some ids => exact rests_bind rests_get fun _ => rests_pure _
  | list kind =>
    refine rests_bind (rests_typedList id kind) fun found => ?_
    cases found with
    | none => exact rests_pure _
    | some ids => exact rests_pure _
  | message index =>
    refine rests_bind (rests_messageAt id index) fun found => ?_
    cases found with
    | none => exact rests_pure _
    | some m =>
      refine rests_bind (rests_describe m) fun found => ?_
      cases found with
      | none => exact rests_pure _
      | some d => exact rests_pure _
  | parent => exact rests_bind rests_get fun _ => rests_peekAnswer _
  | loaded => exact rests_bind rests_get fun _ => rests_pure _
  | whenReady label => cases reads
  | hold name => cases reads
  | same other =>
    refine rests_bind rests_get fun s => ?_
    cases other with
    | none => exact rests_pure _
    | some text =>
      refine rests_ite ?_ (rests_pure _)
      cases s.loaded? text with
      | none => exact rests_pure _
      | some o => exact rests_pure _
  | search query =>
    cases id with
    | message number => exact rests_pure _
    | branch r =>
      refine rests_bind rests_get fun s => ?_
      cases s.suite? r with
      | none => exact rests_pure _
      | some suite => exact rests_searchAnswer r query

end Idle

end RunReport.Session
