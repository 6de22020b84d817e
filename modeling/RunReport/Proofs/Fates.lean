import RunReport.Proofs.Announcing
/-!
# What becomes of a request

A request to resolve a path, or somebody who already waits, has a fate that the source alone decides:
it ends, or it waits for a file. As files arrive a fate that is an end stays, and one that is a wait
is the fate of the waiter it left.
-/

namespace RunReport

/-- Something that will be answered once its files are there. -/
inductive Task where
  | request (path label : String)
  | parked (file : String) (w : Waiter)

namespace Source

/-- The walk down a path from the root suite. -/
def resolution (src : Source) (path : String) : Walk :=
  match src.node? .root with
  | .ok (some p) => src.walk (parsePath path) [.root] .root p
  | _ => .done (.ok [])

def fate (src : Source) : Task → Outcome
  | .request path label => (src.resolution path).outcome (.callback label)
  | .parked file w =>
    match src.files file with
    | none => .waits file w
    | some _ => src.outcome w

/-- The callbacks that become due when the files of `src` become those of `src'`. -/
def due (src src' : Source) (t : Task) : List Event :=
  match src.fate t with
  | .waits _ _ => (src'.fate t).events
  | .ends _ => []

/-- Who waits does so at a node that is there and whose keywords stand in the file; a request begins
at a root suite that can be read. -/
def Stands (src : Source) : Task → Prop
  | .request _ _ => ∃ p, src.node? .root = .ok (some p)
  | .parked file (.children node _) => ∃ p, src.node? node = .ok (some p) ∧ p.splitFile? = some file
  | .parked _ (.payload _) => True

end Source

def Outcome.waiting? : Outcome → Option (String × Waiter)
  | .ends _ => none
  | .waits file w => some (file, w)

namespace Source

variable {src src' : Source}

theorem Stands.within {t : Task} (h : src.Stands t) (le : src.Within src') : src'.Stands t := by
  cases t with
  | request path label =>
    obtain ⟨p, hp⟩ := h
    exact ⟨p, le.node? hp⟩
  | parked file w =>
    cases w with
    | payload n => trivial
    | children node next =>
      obtain ⟨p, hp, hf⟩ := h
      exact ⟨p, le.node? hp, hf⟩

/-- A walk that waits is the fate of the waiter it leaves. -/
theorem walk_fate (le : src.Within src') {steps : List Segment} {met : List NodeId} {r : Route}
    {p : Plain} (hp : src.node? r = .ok (some p)) (sink : Sink) {file : String} {w : Waiter}
    (hw : (src.walk steps met r p).outcome sink = .waits file w) :
    src.files file = none ∧ src.Stands (.parked file w) ∧
      src'.fate (.parked file w) = (src'.walk steps met r p).outcome sink := by
  cases hwalk : src.walk steps met r p with
  | done result => rw [hwalk] at hw; cases hw
  | waits file' node step rest met' =>
    rw [hwalk] at hw
    cases hw
    obtain ⟨q, hq, missing, resume⟩ := walk_waits hp hwalk
    obtain ⟨split, absent⟩ := missing?_eq_some.1 missing
    refine ⟨absent, ⟨q, hq, split⟩, ?_⟩
    rw [resume src' le]
    simp only [fate]
    cases hfile : src'.files file with
    | none =>
      have missing' : src'.missing? q = some file := missing?_eq_some.2 ⟨split, hfile⟩
      simp only [walk, missing', Walk.outcome]
    | some payload => simp only [outcome, le.node? hq]

/-- An end stays an end. -/
theorem fate_ends (le : src.Within src') {t : Task} (stands : src.Stands t) {events : List Event}
    (h : src.fate t = .ends events) : src'.fate t = .ends events := by
  have walked : ∀ {steps met r p sink}, src.node? r = .ok (some p) →
      (src.walk steps met r p).outcome sink = .ends events →
      (src'.walk steps met r p).outcome sink = .ends events := by
    intro steps met r p sink hp hw
    cases hwalk : src.walk steps met r p with
    | waits => rw [hwalk] at hw; cases hw
    | done result =>
      rw [hwalk] at hw
      rw [le.walk_done (node?_has hp) hwalk]
      exact hw
  cases t with
  | request path label =>
    obtain ⟨p, hp⟩ := stands
    simp only [fate, resolution, hp, le.node? hp] at h ⊢
    exact walked hp h
  | parked file w =>
    simp only [fate] at h ⊢
    cases hf : src.files file with
    | none => rw [hf] at h; cases h
    | some payload =>
      rw [hf] at h
      rw [le.files file payload hf]
      cases w with
      | payload n => exact h
      | children node next =>
        cases next with
        | nothing => exact h
        | notify label =>
          obtain ⟨p, hp, split⟩ := stands
          have ready : src.missing? p = none :=
            missing?_eq_none.2 fun f hfile => ⟨payload, by cases split.symm.trans hfile; exact hf⟩
          rw [outcome, le.sight? hp ready]
          exact h
        | resolve step rest met sink =>
          obtain ⟨p, hp, -⟩ := stands
          simp only [outcome, hp, le.node? hp] at h ⊢
          exact walked hp h

/-- Who waits is in the place of what was asked. -/
theorem fate_waits (le : src.Within src') {t : Task} (stands : src.Stands t) {file : String}
    {w : Waiter} (h : src.fate t = .waits file w) :
    src.files file = none ∧ src.Stands (.parked file w) ∧
      src'.fate (.parked file w) = src'.fate t := by
  cases t with
  | request path label =>
    obtain ⟨p, hp⟩ := stands
    simp only [fate, resolution, hp] at h
    obtain ⟨absent, stands', fate'⟩ := walk_fate le hp _ h
    refine ⟨absent, stands', ?_⟩
    rw [fate']
    simp only [fate, resolution, le.node? hp]
  | parked file' w' =>
    simp only [fate] at h
    cases hf : src.files file' with
    | none =>
      rw [hf] at h
      cases h
      exact ⟨hf, stands, rfl⟩
    | some payload =>
      rw [hf] at h
      cases w' with
      | payload n => cases h
      | children node next =>
        cases next with
        | nothing => cases h
        | notify label => cases h
        | resolve step rest met sink =>
          obtain ⟨p, hp, -⟩ := stands
          simp only [outcome, hp] at h
          obtain ⟨absent, stands', fate'⟩ := walk_fate le hp sink h
          refine ⟨absent, stands', ?_⟩
          rw [fate']
          simp only [fate, le.files file' payload hf, outcome, le.node? hp]

/-- Whose turn has come is answered, and nobody else. -/
theorem events_fate (le : src.Within src') {t : Task} (stands : src.Stands t) :
    (src'.fate t).events = (src.fate t).events ++ src.due src' t := by
  simp only [due]
  cases h : src.fate t with
  | ends events =>
    rw [fate_ends le stands h]
    exact (List.append_nil _).symm
  | waits file w => rfl

theorem due_self (src : Source) (t : Task) : src.due src t = [] := by
  simp only [due]
  cases h : src.fate t with
  | ends events => rfl
  | waits file w => rfl

theorem flatMap_due_self (src : Source) (ts : List Task) : ts.flatMap (src.due src) = [] :=
  List.flatMap_eq_nil_iff.2 fun t _ => src.due_self t

/-! ## Many of them -/

/-- Those who wait, of a list of tasks. -/
def pending (src : Source) (ts : List Task) : List (String × Waiter) :=
  ts.filterMap fun t => (src.fate t).waiting?

theorem pending_cons (t : Task) (ts : List Task) :
    src.pending (t :: ts) = (src.fate t).waiting?.toList ++ src.pending ts := by
  simp only [pending, List.filterMap_cons]
  cases (src.fate t).waiting? <;> rfl

theorem pending_append (ts us : List Task) :
    src.pending (ts ++ us) = src.pending ts ++ src.pending us :=
  List.filterMap_append

/-- What those who wait will do is what the tasks will do. -/
theorem pending_within (le : src.Within src') {ts : List Task} (stand : ∀ t ∈ ts, src.Stands t) :
    (src.pending ts).filterMap (fun x => (src'.fate (.parked x.1 x.2)).waiting?) =
      src'.pending ts := by
  induction ts with
  | nil => rfl
  | cons t ts ih =>
    rw [pending_cons, pending_cons, List.filterMap_append, ih fun u hu => stand u (by simp [hu])]
    cases h : src.fate t with
    | ends events =>
      rw [fate_ends le (stand t (by simp)) h]
      rfl
    | waits file w =>
      obtain ⟨-, -, same⟩ := fate_waits le (stand t (by simp)) h
      simp only [Outcome.waiting?, Option.toList_some, List.filterMap_cons, same]
      cases src'.fate t <;> rfl

theorem flatMap_pending (le : src.Within src') {ts : List Task}
    (stand : ∀ t ∈ ts, src.Stands t) :
    (src.pending ts).flatMap (fun x => (src'.fate (.parked x.1 x.2)).events) =
      ts.flatMap (src.due src') := by
  induction ts with
  | nil => rfl
  | cons t ts ih =>
    rw [pending_cons, List.flatMap_append, List.flatMap_cons, ih fun u hu => stand u (by simp [hu])]
    cases h : src.fate t with
    | ends events => simp [Outcome.waiting?, due, h]
    | waits file w =>
      obtain ⟨-, -, same⟩ := fate_waits le (stand t (by simp)) h
      simp [Outcome.waiting?, due, h, same]

/-- Who waits for files that are not there goes on waiting. -/
theorem still_waiting {xs : List (String × Waiter)} (absent : ∀ x ∈ xs, src.files x.1 = none) :
    xs.filterMap (fun x => (src.fate (.parked x.1 x.2)).waiting?) = xs ∧
      xs.flatMap (fun x => (src.fate (.parked x.1 x.2)).events) = [] := by
  induction xs with
  | nil => exact ⟨rfl, rfl⟩
  | cons x xs ih =>
    obtain ⟨waiting, events⟩ := ih fun y hy => absent y (by simp [hy])
    have fate : src.fate (.parked x.1 x.2) = .waits x.1 x.2 := by
      simp only [Source.fate, absent x (by simp)]
    constructor
    · rw [List.filterMap_cons, fate, waiting]
      rfl
    · rw [List.flatMap_cons, fate, events]
      rfl

/-- Those whose file is there have the outcome the source gives them. -/
theorem fate_released {file : String} {payload : SplitPayload} (there : src.files file = some payload)
    (w : Waiter) : src.fate (.parked file w) = src.outcome w := by
  simp only [fate, there]

end Source

end RunReport
