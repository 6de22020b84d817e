import RunReport.Proofs.Decoding
import RunReport.Session.Read
/-!
# Reading keeps a session consistent

Whatever is read of a session, from whichever node and whether it fails or not, leaves it
consistent; nodes may have been made, and nothing else has happened.
-/

namespace RunReport.Session

open Effects

/-- A way for a session to go on that may be followed again and again. -/
class Course (R : Session → Session → Prop) : Prop where
  refl : ∀ s, R s s
  trans : ∀ {s s' s''}, R s s' → R s' s'' → R s s''

instance : Course Explores := ⟨.refl, .trans⟩

instance : Course Extends := ⟨.refl, .trans⟩

/-- From a consistent session the computation leads to a consistent one, failing or not. -/
def Keeps (R : Session → Session → Prop) {α : Type} (x : Run α) : Prop :=
  ∀ s : Session, s.Consistent → (x.run s).2.Consistent ∧ R s (x.run s).2

/-- A failure becomes a value, and what was done stays done. -/
theorem attempt_run {α : Type} (x : Run α) (s : Session) :
    (attempt x).run s = (.ok (x.run s).1, (x.run s).2) := by
  simp only [attempt, tryCatch, tryCatchThe, MonadExceptOf.tryCatch, ExceptT.tryCatch, ExceptT.run,
    ExceptT.mk, bind, StateT.bind, ExceptT.bind]
  rcases x s with ⟨_ | a, t⟩ <;> rfl

section Keeps

variable {R : Session → Session → Prop} [Course R] {α β : Type}

theorem keeps_pure (a : α) : Keeps R (pure a : Run α) :=
  fun s h => ⟨h, Course.refl s⟩

theorem keeps_throw (e : Error) : Keeps R (throw e : Run α) :=
  fun s h => ⟨h, Course.refl s⟩

theorem keeps_get : Keeps R (get : Run Session) :=
  fun s h => ⟨h, Course.refl s⟩

theorem keeps_except (x : Except Error α) : Keeps R (liftM x : Run α) :=
  fun s h => ⟨h, Course.refl s⟩

theorem keeps_bind {x : Run α} {f : α → Run β} (hx : Keeps R x) (hf : ∀ a, Keeps R (f a)) :
    Keeps R (x >>= f) := by
  intro s h
  obtain ⟨h', hr⟩ := hx s h
  rw [run_bind]
  rcases hrun : x.run s with ⟨_ | a, t⟩ <;> rw [hrun] at h' hr
  · exact ⟨h', hr⟩
  · obtain ⟨h'', hr'⟩ := hf a t h'
    exact ⟨h'', Course.trans hr hr'⟩

omit [Course R] in
theorem keeps_map {x : Run α} (f : α → β) (hx : Keeps R x) : Keeps R (f <$> x) := by
  intro s h
  rw [run_map]
  exact hx s h

omit [Course R] in
theorem keeps_attempt {x : Run α} (hx : Keeps R x) : Keeps R (attempt x) := by
  intro s h
  rw [attempt_run]
  exact hx s h

end Keeps

theorem Keeps.extends {α : Type} {x : Run α} (h : Keeps Explores x) : Keeps Extends x :=
  fun s hs => ⟨(h s hs).1, (h s hs).2.extends⟩

variable {s s' : Session}

/-! ## Messages -/

/-- A message takes the next number once its record has been read. -/
theorem decodeMessage_run (h : s.Consistent) (owner : Option Route) (r : Raw) (t : TableRef) :
    ∃ s', s.Refreshes s' ∧ (decodeMessage owner r t).run s =
      match s.source.readIn t (s.coding.message r) with
      | .ok record => (.ok (.message (s'.messageCount + 1)),
          register (.message (s'.messageCount + 1)) (.message ⟨record, owner⟩)
            (s'.messageCount + 1) s')
      | .error e => (.error e, s') := by
  obtain ⟨s', run, refreshes⟩ := withTable_run h t (s.coding.steady_message r)
  refine ⟨s', refreshes, ?_⟩
  simp only [decodeMessage, run_bind, run_get, run]
  cases s.source.readIn t (s.coding.message r) with
  | error e => rfl
  | ok record =>
    simp only [checkOpen_run refreshes.consistent.isOpen]
    rfl

theorem registrable_message (h : s.Consistent) (m : Message) :
    s.Registrable (.message (s.messageCount + 1)) (.message m) (s.messageCount + 1) := by
  refine ⟨?_, ?_, fun r hr => (by cases hr), ?_⟩
  · rw [← Option.not_isSome_iff_eq_none, h.counted]
    omega
  · intro kind l hl
    cases kind <;> cases hl
  · rintro number ⟨⟩
    exact ⟨rfl, rfl, m, rfl⟩

/-- A message that has just been made is the one its record stands for. -/
theorem recorded_message (e : s.Refreshes s') {owner : Route} {l : ChildList} {i : Nat} {raw : Raw}
    {record : MessageRecord} (hr : l.items[i]? = some raw)
    (read : s.source.readIn l.table (s.coding.message raw) = .ok record) :
    (register (.message (s'.messageCount + 1)) (.message ⟨record, some owner⟩)
      (s'.messageCount + 1) s').Recorded owner l i (.message (s'.messageCount + 1)) := by
  have new := registrable_message e.consistent ⟨record, some owner⟩
  refine ⟨raw, record, hr, ?_, node?_register_new new.new⟩
  have source : (register (.message (s'.messageCount + 1)) (.message ⟨record, some owner⟩)
      (s'.messageCount + 1) s').source = s.source := e.explores.source
  rw [source]
  exact read

/-- What a session answers about a message whose record says `read`; a message that is made now has
the next number. -/
def Logs (s s' : Session) (owner : Route) (read : Except Error (Option MessageRecord)) (made : Bool)
    (result : Except Error (Option NodeId)) : Prop :=
  match read with
  | .error e => result = .error e
  | .ok none => result = .ok none
  | .ok (some record) => ∃ number, result = .ok (some (.message number)) ∧
    s'.node? (.message number) = some (.message ⟨record, some owner⟩) ∧
    (made = false → number = s.messageCount + 1)

/-- The message at a place is the one that its record stands for, whenever it is made. -/
theorem messageAt_finds (h : s.Consistent) {owner : Route} {l : ChildList}
    (hl : s.list? owner .message = some l) (i : Nat) :
    ∃ s' result, ((made owner .message).get (create owner .message) i).run s = (result, s') ∧
      s'.Consistent ∧ s.Explores s' ∧
      s.Logs s' owner (match l.items[i]? with
        | some raw => some <$> s.source.readIn l.table (s.source.coding.message raw)
        | none => .ok none) (l.made.slot? i).isSome result := by
  have consistent₀ := consistent_measure h owner .message
  have explores₀ := explores_measure s owner .message
  have count₀ : ((made owner .message).update (·.measure) s).messageCount = s.messageCount := rfl
  have hl₀ := list?_measure hl
  obtain ⟨-, -, items, t, -, -, -, -, -, reads⟩ := h.list hl
  rw [Place.get_run, view_made hl₀]
  simp only [show l.made.measure.length = l.made.length from rfl, LazyList.slot?_measure,
    reads.length, reads.items]
  generalize (made owner .message).update (·.measure) s = s₀ at *
  cases hr : items[i]? with
  | none =>
    have outside : ¬ i < items.length := by
      have := List.getElem?_eq_none_iff.1 hr
      omega
    rw [if_neg outside]
    exact ⟨s₀, _, rfl, consistent₀, explores₀, rfl⟩
  | some raw =>
    have inside : i < items.length := (List.getElem?_eq_some_iff.1 hr).1
    rw [if_pos inside]
    cases hs : l.made.slot? i with
    | some id =>
      -- It has been made before.
      refine ⟨s₀, _, rfl, consistent₀, explores₀, ?_⟩
      obtain ⟨raw', record, hraw, read, hn⟩ := consistent₀.recorded owner _ i id hl₀ hs
      obtain ⟨number, rfl⟩ := (h.filled owner .message l i id hl hs).1
      rw [reads.items, hr] at hraw
      cases hraw
      simp only [explores₀.source] at read
      simp only [read]
      exact ⟨number, rfl, hn, fun absurd => by cases absurd⟩
    | none =>
      have hitems : { l with made := l.made.measure }.items[i]? = some raw := by
        rw [reads.items]
        exact hr
      have coding : s₀.coding = s.source.coding := congrArg Source.coding explores₀.source
      obtain ⟨s₁, refreshes, run⟩ := decodeMessage_run consistent₀ (some owner) raw l.table
      simp only [create, createWith, run_bind, run_get, hl₀, hitems, decodeChild, run]
      rw [explores₀.source, coding]
      have explores₁ := explores₀.trans refreshes.explores
      cases hread : s.source.readIn l.table (s.source.coding.message raw) with
      | error e => exact ⟨s₁, _, rfl, refreshes.consistent, explores₁, rfl⟩
      | ok record =>
        have new := registrable_message refreshes.consistent ⟨record, some owner⟩
        have hl₁ := (refreshes.list? owner .message).trans hl₀
        have inside₁ : i < { l with made := l.made.measure }.items.length := by
          rw [reads.items]
          exact inside
        have read₀ : s₀.source.readIn l.table (s₀.coding.message raw) = .ok record := by
          rw [explores₀.source, coding]
          exact hread
        refine ⟨place owner .message i _ _ _ s₁, .ok (some (.message (s₁.messageCount + 1))), ?_,
          refreshes.consistent.place new hl₁ inside₁ hs ⟨_, rfl⟩ fun _ => ?_,
          explores₁.trans (explores_place new.new), s₁.messageCount + 1, rfl, ?_, ?_⟩
        · have slot : ((made owner .message).view (place owner .message i
              (.message (s₁.messageCount + 1)) (.message ⟨record, some owner⟩)
              (s₁.messageCount + 1) s₁)).slot? i = some (.message (s₁.messageCount + 1)) := by
            rw [view_made (list?_place new.new hl₁)]
            exact slot?_place refreshes.consistent hl₁ inside₁ hs _
          exact congrArg (fun x => (Except.ok x, _)) slot
        · exact recorded_message refreshes hitems read₀
        · rw [place, node?_update, if_neg (by simp), node?_register_new new.new]
        · intro _
          rw [refreshes.messageCount, count₀]

theorem view_unlisted {owner : Route} {kind : NodeKind} (hl : s.list? owner kind = none) :
    ((made owner kind).view ((made owner kind).update (·.measure) s)).length = 0 := by
  have hl₀ : ((made owner kind).update (·.measure) s).list? owner kind = none := by
    rw [list?_update, if_pos ⟨rfl, rfl⟩, hl]
    rfl
  simp only [show ∀ t : Session, (made owner kind).view t =
    ((t.list? owner kind).map (·.made)).getD (.ofLength 0) from fun _ => rfl, hl₀]
  rfl

/-- Nothing is made of a list that is not there. -/
theorem keeps_unlisted (h : s.Consistent) {owner : Route} {kind : NodeKind}
    (hl : s.list? owner kind = none) (create : Nat → Run NodeId) (i : Nat) :
    ((((made owner kind).get create i).run s).2).Consistent ∧
      s.Explores (((made owner kind).get create i).run s).2 := by
  rw [Place.get_run, view_unlisted hl, if_neg (by omega)]
  exact ⟨consistent_measure h owner kind, explores_measure s owner kind⟩

theorem keeps_messageAt (owner : Route) (i : Nat) :
    Keeps Explores ((made owner .message).get (create owner .message) i) := by
  intro s h
  cases hl : s.list? owner .message with
  | none => exact keeps_unlisted h hl _ i
  | some l =>
    obtain ⟨s', result, run, consistent, explores, -⟩ := messageAt_finds h hl i
    rw [run]
    exact ⟨consistent, explores⟩

/-! ## Children -/

theorem keeps_childAt (owner : Route) (kind : NodeKind) (i : Nat) :
    Keeps Explores (childAt owner kind i) := by
  have branch : ∀ b : Branch, Keeps Explores (childAt owner b.kind i) := by
    intro b s h
    cases hl : s.list? owner b.kind with
    | some l =>
      obtain ⟨n, p, -, -, hn, hl', hf, hp, -⟩ := h.list hl
      obtain ⟨s', result, run, finds, -⟩ := childAt_finds h hn hf hp hl' i
      rw [run]
      exact ⟨finds.consistent, finds.explores⟩
    | none => exact keeps_unlisted h hl _ i
  cases kind with
  | suite => exact branch .suite
  | test => exact branch .test
  | keyword => exact branch .keyword
  | message => exact keeps_messageAt owner i

theorem keeps_itemsAt {place : Place Session NodeId} {create : Nat → Run NodeId}
    (get : ∀ i, Keeps Explores (place.get create i)) (is : List Nat) :
    Keeps Explores (place.itemsAt create is) := by
  induction is with
  | nil => exact keeps_pure _
  | cons i is ih => exact keeps_bind (get i) fun _ => keeps_bind ih fun _ => keeps_pure _

theorem listed_update (owner : Route) (kind : NodeKind) (f : LazyList NodeId → LazyList NodeId) :
    (((made owner kind).update f s).list? owner kind).isSome = (s.list? owner kind).isSome := by
  rw [list?_update, if_pos ⟨rfl, rfl⟩, Option.isSome_map]

theorem view_update {owner : Route} {kind : NodeKind} (f : LazyList NodeId → LazyList NodeId)
    (listed : (s.list? owner kind).isSome) :
    (made owner kind).view ((made owner kind).update f s) = f ((made owner kind).view s) := by
  obtain ⟨l, hl⟩ := Option.isSome_iff_exists.1 listed
  have changed : ((made owner kind).update f s).list? owner kind =
      some { l with made := f l.made } := by
    rw [list?_update, if_pos ⟨rfl, rfl⟩, hl]
    rfl
  rw [view_made changed, view_made hl]

theorem updateNode_same {id : NodeId} {f : Node → Node} (same : ∀ n, s.node? id = some n → f n = n) :
    updateNode id f s = s := by
  have nodes : updateIn id f s.nodes = s.nodes := by
    simp only [node?] at same
    revert same
    induction s.nodes with
    | nil => exact fun _ => rfl
    | cons entry rest ih =>
      obtain ⟨i, m⟩ := entry
      intro same
      by_cases here : i = id
      · subst here
        rw [updateIn, if_pos rfl, same m (by simp)]
      · rw [updateIn, if_neg here, ih fun n hn => same n ?_]
        rw [List.lookup_cons, beq_eq_false_iff_ne.2 (Ne.symm here)]
        exact hn
  rw [updateNode, nodes]

theorem update_same {owner : Route} {kind : NodeKind} {f : LazyList NodeId → LazyList NodeId}
    (same : ∀ l, s.list? owner kind = some l → f l.made = l.made) :
    (made owner kind).update f s = s := by
  refine updateNode_same fun n hn => Node.updateList_same fun l hl => ?_
  rw [same l ((list?_of_branch s hn kind).trans hl)]

/-- All children of a kind, one after the other. -/
def gathered (owner : Route) (kind : NodeKind) : Run (List NodeId) :=
  (made owner kind).gather (create owner kind)

theorem update_unlisted {owner : Route} {kind : NodeKind} (hl : s.list? owner kind = none)
    (f : LazyList NodeId → LazyList NodeId) : (made owner kind).update f s = s :=
  update_same fun l hl' => by rw [hl] at hl'; cases hl'

/-- Where there is no list there is nothing to gather. -/
theorem gathered_unlisted {owner : Route} {kind : NodeKind} (hl : s.list? owner kind = none) :
    (gathered owner kind).run s = (.ok [], s) := by
  have view : (made owner kind).view s = .ofLength 0 := by simp [made, hl]
  rw [gathered, Place.gather_run, update_unlisted hl, view]
  rfl

/-- Sessions whose lists requests for children of a kind keep in order and only add to. -/
structure Tends (I : Session → Prop) (owner : Route) (kind : NodeKind) : Prop where
  sound : ∀ s l, I s → s.list? owner kind = some l → l.made.Sound
  measure : ∀ s, I s → I ((made owner kind).update (·.measure) s)
  item : ∀ i s, I s → I ((childAt owner kind i).run s).2
  grows : ∀ i s l, I s → s.list? owner kind = some l →
    ∃ l', ((childAt owner kind i).run s).2.list? owner kind = some l' ∧ l.made.Grows l'.made

section Tends

variable {I : Session → Prop} {owner : Route} {kind : NodeKind}

theorem Tends.keeps (tends : Tends I owner kind) : (made owner kind).Keeps (create owner kind)
    fun s => I s ∧ (s.list? owner kind).isSome where
  sound := by
    rintro s ⟨h, listed⟩
    obtain ⟨l, hl⟩ := Option.isSome_iff_exists.1 listed
    rw [view_made hl]
    exact tends.sound s l h hl
  view := by
    rintro f s (⟨-, listed⟩ | ⟨-, listed⟩)
    · exact view_update f listed
    · rw [listed_update] at listed
      exact view_update f listed
  same := by
    rintro f s - same
    refine update_same fun l hl => ?_
    rwa [view_made hl] at same
  measure := by
    rintro s ⟨h, listed⟩
    refine ⟨tends.measure s h, ?_⟩
    rwa [listed_update]
  get := by
    rintro i s ⟨h, listed⟩
    obtain ⟨l, hl⟩ := Option.isSome_iff_exists.1 listed
    obtain ⟨l', hl', grows⟩ := tends.grows i s l h hl
    change (((made owner kind).get (create owner kind) i).run s).2.list? owner kind = some l' at hl'
    refine ⟨⟨tends.item i s h, by rw [hl']; rfl⟩, ?_⟩
    rw [view_made hl, view_made hl']
    exact grows

/-- All children of a kind are those that gathering them gives, and then they are remembered. -/
theorem Tends.childList_run (tends : Tends I owner kind) (h : I s) :
    (childList owner kind).run s =
      match (gathered owner kind).run s with
      | (.ok items, t) => (.ok items, (made owner kind).update (·.settle items) t)
      | (.error e, t) => (.error e, t) := by
  cases listed : (s.list? owner kind).isSome with
  | true =>
    rw [childList, gathered, tends.keeps.items_eq ⟨h, listed⟩]
    rcases ((made owner kind).gather (create owner kind)).run s with ⟨_ | _, _⟩ <;> rfl
  | false =>
    have hl : s.list? owner kind = none := by simpa using listed
    have view : (made owner kind).view s = .ofLength 0 := by simp [made, hl]
    have run := gathered_unlisted hl
    rw [run]
    rw [gathered] at run
    rw [childList, Place.items_run, view, run]
    simp only [update_unlisted hl, view]
    rfl

/-- What is remembered is sound. -/
theorem Tends.sound_settle (tends : Tends I owner kind) (h : I s) {items : List NodeId} {t : Session}
    (run : (gathered owner kind).run s = (.ok items, t)) {l : ChildList}
    (hl : t.list? owner kind = some l) : (l.made.settle items).Sound := by
  cases listed : (s.list? owner kind).isSome with
  | true =>
    have sound := tends.keeps.sound_settle ⟨h, listed⟩ run
    rwa [view_made hl] at sound
  | false =>
    have unlisted : s.list? owner kind = none := by simpa using listed
    cases (gathered_unlisted unlisted).symm.trans run
    rw [unlisted] at hl
    cases hl

end Tends

theorem tends_consistent (owner : Route) (kind : NodeKind) : Tends Consistent owner kind where
  sound s l h hl := by
    obtain ⟨-, -, _, _, -, -, -, -, -, reads⟩ := h.list hl
    exact reads.sound
  measure s h := consistent_measure h owner kind
  item i s h := (keeps_childAt owner kind i s h).1
  grows i s l h hl := by
    obtain ⟨l', hl', grows⟩ := (keeps_childAt owner kind i s h).2.lists owner kind l hl
    exact ⟨l', hl', grows.made⟩

theorem keeps_gathered (owner : Route) (kind : NodeKind) : Keeps Explores (gathered owner kind) := by
  have length : Keeps Explores (made owner kind).length := fun s h =>
    ⟨consistent_measure h owner kind, explores_measure s owner kind⟩
  exact keeps_bind length fun n => keeps_itemsAt (keeps_childAt owner kind) _

/-- Remembering them changes nothing else. -/
theorem childList_gathers (h : s.Consistent) (owner : Route) (kind : NodeKind) :
    ∃ t, (childList owner kind).run s = (((gathered owner kind).run s).1, t) ∧ t.Consistent ∧
      ((gathered owner kind).run s).2.Explores t := by
  have tends := tends_consistent owner kind
  obtain ⟨h', e⟩ := keeps_gathered owner kind s h
  rw [tends.childList_run h]
  rcases run : (gathered owner kind).run s with ⟨err | items, t⟩ <;> rw [run] at h' e
  · exact ⟨t, rfl, h', .refl t⟩
  · refine ⟨_, rfl, h'.update owner kind (·.grows_settle items) (fun l hl _ => ?_)
      (·.slot?_settle items), explores_update owner kind (·.grows_settle items)⟩
    exact tends.sound_settle h run hl

theorem keeps_childList (owner : Route) (kind : NodeKind) :
    Keeps Explores (childList owner kind) := by
  intro s h
  obtain ⟨t, run, h', e⟩ := childList_gathers h owner kind
  rw [run]
  exact ⟨h', (keeps_gathered owner kind s h).2.trans e⟩

theorem keeps_hasTeardownFailure (r : Route) : Keeps Explores (hasTeardownFailure r) := by
  intro s h
  cases hn : s.branch? r with
  | none =>
    have run : (hasTeardownFailure r).run s = (.ok false, s) := by
      simp only [hasTeardownFailure, run_bind, run_get, hn]
      rfl
    rw [run]
    exact ⟨h, .refl s⟩
  | some n =>
    obtain ⟨p, hp, -⟩ := h.plain hn
    obtain ⟨s', run, h', e, -⟩ := hasTeardownFailure_run h hn hp
    rw [run]
    exact ⟨h', e⟩

/-! ## The root suite -/

theorem rootSuite_run (h : s.Consistent) :
    ∃ s', rootSuite.run s =
        ((s.source.readSuite none s.suite .main).map fun _ => NodeId.root, s') ∧
      s'.Consistent ∧ s.Explores s' ∧
      ∀ p, s.source.readSuite none s.suite .main = .ok p →
        ∃ n, s'.branch? .root = some n ∧ n.plain? = some p := by
  have run : rootSuite.run s = (decodeSuiteAt none s.suite .main 0).run s := by
    simp only [rootSuite, run_bind, run_get]
  rw [run]
  simp only [decodeSuiteAt, run_bind, checkOpen_run h.isOpen, exists?_run]
  cases hn : s.node? (.branch .root) with
  | some n =>
    obtain ⟨p, hp, hroot, -⟩ := h.plain hn
    have root : s.source.readSuite none s.suite .main = .ok p := Source.node?_root hroot
    rw [root]
    refine ⟨s, rfl, h, .refl s, ?_⟩
    rintro q ⟨⟩
    exact ⟨n, hn, hp⟩
  | none =>
    obtain ⟨s₁, run₁, refreshes⟩ := withTable_run h .main (s.coding.steady_suite s.suite)
    have coding : s.source.coding = s.coding := rfl
    have suite : s.source.suite = s.suite := rfl
    simp only [Option.isSome_none, Bool.false_eq_true, if_false, run_bind, run_get, run₁,
      Source.readSuite, coding]
    cases hrecord : s.source.readIn .main (s.coding.suite s.suite) with
    | error e =>
      exact ⟨s₁, rfl, refreshes.consistent, refreshes.explores, fun _ hp => (by cases hp)⟩
    | ok record =>
      have root : s.source.readSuite none s.suite .main =
          .ok (.suite record record.name false .main) := by
        simp only [Source.readSuite, coding, hrecord]
        rfl
      have new₁ : s₁.node? (.branch .root) = none := (refreshes.node? _).trans hn
      have registrable : s₁.Registrable (.branch .root)
          (Plain.suite record record.name false .main).node s₁.messageCount := by
        refine ⟨new₁, fun kind l hl => Plain.slot?_node hl, ?_, fun _ hm => (by cases hm)⟩
        rintro r ⟨⟩
        refine ⟨rfl, _, ?_, Plain.follows_node _ _⟩
        rw [refreshes.explores.source, Source.node?, suite, root]
        rfl
      refine ⟨_, rfl, refreshes.consistent.register registrable (fun _ _ hid => by cases hid),
        refreshes.explores.trans (explores_register new₁), ?_⟩
      rintro p ⟨⟩
      exact ⟨_, node?_register_new new₁, rfl⟩

theorem keeps_rootSuite : Keeps Explores rootSuite := by
  intro s h
  obtain ⟨s', run, h', e, -⟩ := rootSuite_run h
  rw [run]
  exact ⟨h', e⟩

/-! ## Execution errors -/

theorem consistent_errors (h : s.Consistent) {f : LazyList NodeId → LazyList NodeId}
    (size : (f s.errors.made).size = s.errors.made.size) (sound : (f s.errors.made).Sound)
    (fills : ∀ i id, (f s.errors.made).slot? i = some id →
      (∃ number, id = .message number) ∧ (s.node? id).isSome) :
    (madeErrors.update f s).Consistent where
  isOpen := h.isOpen
  tables := h.tables
  texts := h.texts
  unique := h.unique
  follows := h.follows
  filled := h.filled
  counted := h.counted
  logged := h.logged
  recorded := h.recorded
  errors := ⟨rfl, h.errors.table, size.trans h.errors.size, sound⟩
  failures := fills
  distinct := h.distinct
  waiting := h.waiting
  owned := h.owned

theorem explores_errors {f : LazyList NodeId → LazyList NodeId}
    (grows : s.errors.made.Grows (f s.errors.made)) : s.Explores (madeErrors.update f s) :=
  ⟨rfl, fun _ n hn => ⟨n, hn, rfl, rfl, fun _ => rfl⟩, fun _ _ l hl => ⟨l, hl, .refl l⟩,
    ⟨rfl, rfl, grows⟩, rfl, rfl, rfl, rfl, rfl⟩

theorem consistent_measure_errors (h : s.Consistent) :
    (madeErrors.update (·.measure) s).Consistent :=
  consistent_errors h rfl h.errors.sound.measure h.failures

theorem keeps_errorAt (i : Nat) : Keeps Explores (madeErrors.get createError i) := by
  intro s h
  have consistent₀ := consistent_measure_errors h
  have explores₀ := explores_errors (s := s) (LazyList.grows_measure _)
  rw [Place.get_run]
  generalize madeErrors.update (·.measure) s = s₀ at *
  split
  · rename_i inside
    cases hs : (madeErrors.view s₀).slot? i with
    | some id => exact ⟨consistent₀, explores₀⟩
    | none =>
      have inside' : i < s₀.errors.items.length := consistent₀.errors.length ▸ inside
      have hr : s₀.errors.items[i]? = some s₀.errors.items[i] := List.getElem?_eq_getElem inside'
      obtain ⟨s₁, refreshes, run⟩ := decodeMessage_run consistent₀ none s₀.errors.items[i] .main
      simp only [createError, run_bind, run_get, hr, run]
      have explores₁ := explores₀.trans refreshes.explores
      cases s₀.source.readIn .main (s₀.coding.message s₀.errors.items[i]) with
      | error e => exact ⟨refreshes.consistent, explores₁⟩
      | ok record =>
        have new := registrable_message refreshes.consistent ⟨record, none⟩
        have registered := refreshes.consistent.register new (fun _ _ hid => by cases hid)
        have explores₂ : s.Explores (Session.register (.message (s₁.messageCount + 1))
            (.message ⟨record, none⟩) (s₁.messageCount + 1) s₁) :=
          explores₁.trans (explores_register new.new)
        refine ⟨consistent_errors (f := (·.fill i (.message (s₁.messageCount + 1)))) registered rfl
          (registered.errors.sound.fill i _) ?_, explores₂.trans (explores_errors
            (f := (·.fill i (.message (s₁.messageCount + 1)))) (LazyList.grows_fill _ i _))⟩
        intro j id hj
        by_cases hji : j = i
        · subst hji
          have slot : (s₁.errors.made.fill j (.message (s₁.messageCount + 1))).slot? j =
              some (.message (s₁.messageCount + 1)) := by
            rw [refreshes.errors]
            exact LazyList.slot?_fill_empty _ (consistent₀.errors.length ▸ inside') hs
          cases slot.symm.trans hj
          refine ⟨⟨_, rfl⟩, ?_⟩
          rw [node?_register_new new.new]
          rfl
        · have old : s₁.errors.made.slot? j = some id := by
            rw [← hj]
            exact (LazyList.slot?_fill_other _ _ hji).symm
          exact registered.failures j id old
  · exact ⟨consistent₀, explores₀⟩

/-- The list of the execution errors is always there. -/
theorem keeps_madeErrors : madeErrors.Keeps createError Consistent where
  sound s h := h.errors.sound
  view f s _ := rfl
  same f s _ same := by
    change { s with errors := { s.errors with made := f s.errors.made } } = s
    rw [show f s.errors.made = s.errors.made from same]
  measure s h := consistent_measure_errors h
  get i s h := ⟨(keeps_errorAt i s h).1, (keeps_errorAt i s h).2.errors.made⟩

theorem keeps_gatheredErrors : Keeps Explores (madeErrors.gather createError) := by
  have length : Keeps Explores madeErrors.length := fun s h =>
    ⟨consistent_measure_errors h, explores_errors (LazyList.grows_measure _)⟩
  exact keeps_bind length fun n => keeps_itemsAt keeps_errorAt _

theorem keeps_errorList : Keeps Explores errorList := by
  intro s h
  obtain ⟨h', e⟩ := keeps_gatheredErrors s h
  rw [errorList, keeps_madeErrors.items_eq h]
  rcases run : (madeErrors.gather createError).run s with ⟨err | items, t⟩ <;> rw [run] at h' e
  · exact ⟨h', e⟩
  · have sound := keeps_madeErrors.sound_settle h run
    exact ⟨consistent_errors (f := (·.settle items)) h' rfl sound h'.failures,
      e.trans (explores_errors (f := (·.settle items)) (LazyList.grows_settle _ items))⟩

/-! ## Nodes and their texts -/

theorem slotText_run (h : s.Consistent) (ref : TableRef) (slot : Option Raw) :
    ∃ s', (slotText ref slot).run s = (s.source.slotText ref slot, s') ∧ s.Refreshes s' := by
  obtain ⟨s', run, refreshes⟩ := withTable_run h ref (Lookup.steady_lookup slot)
  refine ⟨s', ?_, refreshes⟩
  have read : s.source.slotText ref slot =
      (s.source.readIn ref (StringTable.lookup slot)).map (·.orEmpty) := by
    rw [Source.slotText, Source.readIn, Lookup.read_bind (Lookup.steady_lookup slot)
      (fun _ => Lookup.steady_pure _)]
    simp only [Source.readIn]
    cases Lookup.read (s.source.entries ref) (StringTable.lookup slot) <;> rfl
  rw [read]
  simp only [slotText, run_bind, run]
  cases s.source.readIn ref (StringTable.lookup slot) <;> rfl

theorem refreshes_keepText (h : s.Consistent) {id : NodeId} {n : Node} {p : Plain} {part : TextPart}
    {text : String} (hn : s.node? id = some n) (hp : n.plain? = some p)
    (read : s.source.text? p part = some (.ok text)) : s.Refreshes (keepText id part text s) := by
  refine ⟨⟨{ h.toFaithful with texts := ?_ }, h.owned⟩,
    ⟨rfl, fun _ n hn => ⟨n, hn, rfl, rfl, fun _ => rfl⟩,
    fun _ _ l hl => ⟨l, hl, .refl l⟩, .refl _, rfl, rfl, rfl, rfl, rfl⟩, rfl, rfl, rfl, rfl⟩
  intro id' part' text' kept
  rw [text?_keepText] at kept
  rcases Option.or_eq_some_iff.1 kept with old | ⟨-, new⟩
  · exact h.texts id' part' text' old
  · split at new
    · rename_i same
      obtain ⟨rfl, rfl⟩ := same
      cases new
      exact ⟨n, p, hn, hp, read⟩
    · cases new

/-- A text is what the source has, whether it is remembered or read. -/
theorem readOnce_run (h : s.Consistent) {id : NodeId} {n : Node} {p : Plain} {part : TextPart}
    {value : Except Error String} (hn : s.node? id = some n) (hp : n.plain? = some p)
    (text : s.source.text? p part = some value) {read : Run String}
    (reads : ∃ s', read.run s = (value, s') ∧ s.Refreshes s') :
    ∃ s', (readOnce id part read).run s = (value, s') ∧ s.Refreshes s' := by
  have known : ∀ {t : Session} {text}, t.Consistent → t.source = s.source → t.node? id = some n →
      t.text? id part = some text → value = .ok text := by
    intro t old ht source hn' kept
    obtain ⟨n', p', hn'', hp', read'⟩ := ht.texts id part old kept
    cases hn'.symm.trans hn''
    cases hp.symm.trans hp'
    rw [source, text] at read'
    exact Option.some.inj read'
  simp only [readOnce, run_bind, run_get]
  cases kept : s.text? id part with
  | some old =>
    rw [known h rfl hn kept]
    exact ⟨s, rfl, .refl h⟩
  | none =>
    obtain ⟨s', run, refreshes⟩ := reads
    simp only [run_bind, run]
    cases value with
    | error e => exact ⟨s', rfl, refreshes⟩
    | ok new =>
      have hn' : s'.node? id = some n := (refreshes.node? id).trans hn
      have text' : s'.source.text? p part = some (.ok new) := refreshes.explores.source ▸ text
      refine ⟨keepText id part new s', ?_,
        refreshes.trans (refreshes_keepText refreshes.consistent hn' hp text')⟩
      simp only [run_modify, run_get, run_pure, text?_keepText, and_self, if_true]
      cases kept' : s'.text? id part with
      | none => rfl
      | some old =>
        cases known refreshes.consistent refreshes.explores.source hn' kept'
        rfl

/-- The documentation of a node is the one that the source has. -/
theorem doc_run (h : s.Consistent) {id : NodeId} {n : Node} {p : Plain} (hn : s.node? id = some n)
    (hp : n.plain? = some p) :
    ∃ s', (doc id).run s = (s.source.slotText p.table p.doc, s') ∧ s.Refreshes s' := by
  simp only [doc, run_bind, run_get, hn, Option.bind_some, Node.doc?_of_plain hp]
  exact readOnce_run h hn hp rfl (slotText_run h p.table p.doc)

/-- Its message is the one that the source has, with the note on a failed teardown. -/
theorem statusMessage_run (h : s.Consistent) {id : NodeId} {n : Node} {p : Plain}
    (hn : s.node? id = some n) (hp : n.plain? = some p) {slot : Option Raw} {aboveFailed : Bool}
    (hm : p.message? = some (slot, aboveFailed)) :
    ∃ s', (statusMessage id).run s = (s.source.message p.table slot aboveFailed, s') ∧
      s.Refreshes s' := by
  have own : s.source.text? p .own = some (s.source.slotText p.table slot) := by
    simp [Source.text?, hm]
  have shown : s.source.text? p .message = some (s.source.message p.table slot aboveFailed) := by
    simp [Source.text?, hm]
  obtain ⟨s', run, refreshes⟩ := readOnce_run h hn hp own (slotText_run h p.table slot)
  simp only [statusMessage, run_bind, run_get, hn, Option.bind_some, Node.message?_of_plain hp, hm,
    Option.map_some]
  refine readOnce_run h hn hp shown ⟨s', ?_, refreshes⟩
  simp only [run_bind, run, Source.message]
  cases s.source.slotText p.table slot <;> rfl

theorem keeps_doc (id : NodeId) : Keeps Explores (doc id) := by
  intro s h
  cases hn : s.node? id with
  | none =>
    simp only [doc, run_bind, run_get, hn, Option.bind_none]
    exact ⟨h, .refl s⟩
  | some n =>
    cases hp : n.plain? with
    | none =>
      simp only [doc, run_bind, run_get, hn, Option.bind_some, Node.doc?_of_message hp]
      exact ⟨h, .refl s⟩
    | some p =>
      obtain ⟨s', run, refreshes⟩ := doc_run h hn hp
      rw [run]
      exact ⟨refreshes.consistent, refreshes.explores⟩

theorem keeps_statusMessage (id : NodeId) : Keeps Explores (statusMessage id) := by
  intro s h
  cases hn : s.node? id with
  | none =>
    simp only [statusMessage, run_bind, run_get, hn, Option.bind_none]
    exact ⟨h, .refl s⟩
  | some n =>
    cases hm : n.message? with
    | none =>
      simp only [statusMessage, run_bind, run_get, hn, Option.bind_some, hm]
      exact ⟨h, .refl s⟩
    | some m =>
      obtain ⟨p, slot, aboveFailed, hp, hm⟩ := Node.plain_of_message? hm
      obtain ⟨s', run, refreshes⟩ := statusMessage_run h hn hp hm
      rw [run]
      exact ⟨refreshes.consistent, refreshes.explores⟩

theorem keeps_typedList (id : NodeId) (kind : NodeKind) : Keeps Explores (typedList id kind) := by
  cases id with
  | message => exact keeps_pure _
  | branch r =>
    refine keeps_bind keeps_get fun s => ?_
    split
    · exact keeps_pure _
    · exact keeps_bind (keeps_childList r kind) fun _ => keeps_pure _

theorem keeps_children (id : NodeId) : Keeps Explores (children id) := by
  refine keeps_bind keeps_get fun s => ?_
  split
  · refine keeps_bind (keeps_childList _ _) fun _ => ?_
    refine keeps_bind (keeps_childList _ _) fun _ => ?_
    exact keeps_bind (keeps_childList _ _) fun _ => keeps_pure _
  · exact keeps_typedList _ _
  · refine keeps_bind (keeps_typedList _ _) fun ids => ?_
    split
    · exact keeps_pure _
    · exact keeps_bind (keeps_childList _ _) fun _ => keeps_pure _
  · exact keeps_pure _

theorem keeps_child (id : NodeId) (step : Segment) : Keeps Explores (child id step) := by
  cases id with
  | message => exact keeps_pure _
  | branch r =>
    refine keeps_bind keeps_get fun s => ?_
    split
    · exact keeps_pure _
    · exact keeps_childAt _ _ _

theorem keeps_message (id : NodeId) (i : Nat) : Keeps Explores (messageAt id i) := by
  cases id with
  | message => exact keeps_pure _
  | branch r =>
    refine keeps_bind keeps_get fun s => ?_
    split
    · exact keeps_pure _
    · exact keeps_childAt _ _ _

theorem keeps_describeNode (id : NodeId) (n : Node) : Keeps Explores (describeNode id n) := by
  cases n with
  | suite su =>
    refine keeps_bind (keeps_attempt (keeps_doc _)) fun _ => ?_
    refine keeps_bind (keeps_attempt (keeps_statusMessage _)) fun _ => ?_
    refine keeps_bind (keeps_attempt ?_) fun _ => ?_
    · cases id with
      | branch r => exact keeps_hasTeardownFailure r
      | message => exact keeps_pure _
    · exact keeps_bind keeps_get fun _ => keeps_pure _
  | test t =>
    refine keeps_bind (keeps_attempt (keeps_doc _)) fun _ => ?_
    exact keeps_bind (keeps_attempt (keeps_statusMessage _)) fun _ => keeps_pure _
  | keyword k => exact keeps_bind (keeps_attempt (keeps_doc _)) fun _ => keeps_pure _
  | message m => exact keeps_bind keeps_get fun _ => keeps_pure _

theorem keeps_describe (id : NodeId) : Keeps Explores (describe id) := by
  refine keeps_bind keeps_get fun s => ?_
  split
  · exact keeps_bind (keeps_describeNode _ _) fun _ => keeps_pure _
  · exact keeps_pure _

end RunReport.Session
