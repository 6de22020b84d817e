import RunReport.Proofs.Answering
/-!
# Runs of a session

A report that opens gives a consistent session. As long as the report is not dropped every step keeps
it consistent, loses nothing and answers what the source says, and so does every run.
-/

namespace RunReport

mutual

/-- Whether two values without fractions are the same. -/
def Raw.same : Raw → Raw → Bool
  | .null, .null => true
  | .bool a, .bool b => a == b
  | .int m, .int n => m == n
  | .str a, .str b => a == b
  | .list xs, .list ys => Raw.sameAll xs ys
  | _, _ => false

def Raw.sameAll : List Raw → List Raw → Bool
  | [], [] => true
  | x :: xs, y :: ys => x.same y && Raw.sameAll xs ys
  | _, _ => false

end

mutual

theorem Raw.eq_of_same : ∀ x y : Raw, x.same y = true → x = y
  | .null, .null, _ => rfl
  | .bool a, .bool b, h => by rw [eq_of_beq h]
  | .int m, .int n, h => by rw [eq_of_beq h]
  | .str a, .str b, h => by rw [eq_of_beq h]
  | .list xs, .list ys, h => by rw [Raw.eq_of_sameAll xs ys h]

theorem Raw.eq_of_sameAll : ∀ xs ys : List Raw, Raw.sameAll xs ys = true → xs = ys
  | [], [], _ => rfl
  | x :: xs, y :: ys, h => by
    rw [Raw.sameAll, Bool.and_eq_true] at h
    rw [Raw.eq_of_same x y h.1, Raw.eq_of_sameAll xs ys h.2]

end

namespace Session

open Effects

/-! ## Opening -/

theorem consistent_ofPayload {p : Payload} {s : Session} (h : ofPayload p = .ok s) :
    s.Consistent := by
  simp only [ofPayload] at h
  cases he : p.errors.asList "errors" with
  | error e => rw [he] at h; cases h
  | ok errors =>
    rw [he] at h
    cases h
    refine ⟨⟨rfl, ?_, fun _ _ _ kept => (by cases kept), List.nodup_nil,
      fun _ _ hn => (by cases hn), fun _ _ _ _ _ hl => (by cases hl), ?_,
      fun _ _ hn => (by cases hn), fun _ _ _ _ hl => (by cases hl),
      ChildList.reads_ofItems .., ?_, List.nodup_nil,
      fun _ _ hs => (by cases hs)⟩, fun _ _ hs => (by cases hs)⟩
    · intro ref
      cases ref with
      | main => exact ⟨StringTable.sound_ofEntries _, rfl⟩
      | split file => exact ⟨StringTable.sound_ofEntries _, rfl⟩
    · intro number
      constructor
      · intro hn; cases hn
      · intro hn
        have none : number ≤ 0 := hn.2
        omega
    · intro i id hi
      cases (LazyList.slot?_ofLength i _).symm.trans hi

/-- A report that opens gives a consistent session. -/
theorem consistent_open {text : String} {s : Session} (h : open? text = .ok s) : s.Consistent := by
  simp only [open?] at h
  cases hp : Payload.read text with
  | error e => rw [hp] at h; cases h
  | ok p =>
    rw [hp] at h
    exact consistent_ofPayload h

/-- Whether a report opens to a session that passes a check. -/
def opensTo (check : Session → Bool) (text : String) : Bool :=
  match open? text with
  | .ok s => check s
  | .error _ => false

theorem opensTo_iff {check : Session → Bool} {text : String} :
    opensTo check text = true ↔ ∃ s, open? text = .ok s ∧ check s = true := by
  rw [opensTo]
  cases open? text with
  | ok s => simp
  | error e => simp

/-- The same of the characters of a text, which can be evaluated without decoding the text. -/
def opensFrom (check : Session → Bool) (cs : List Char) : Bool :=
  match Json.whole Payload.reader cs with
  | .ok (p, _) =>
    match ofPayload p with
    | .ok s => check s
    | .error _ => false
  | .error _ => false

theorem opensTo_eq_opensFrom (check : Session → Bool) (cs : List Char) :
    opensTo check (String.ofList cs) = opensFrom check cs := by
  rw [opensTo, opensFrom, open?, Payload.read, Json.read, String.toList_ofList]
  cases Json.whole Payload.reader cs with
  | error e => rfl
  | ok found => rfl

theorem opensTo_ofList {check : Session → Bool} {cs : List Char} (h : opensFrom check cs = true) :
    opensTo check (String.ofList cs) = true :=
  (opensTo_eq_opensFrom check cs).trans h

/-! ## Steps -/

/-- Like `Tells`, of a computation that cannot fail. -/
structure Says (lib : Source) {α : Type} (x : StateM Session α) (Q : α → Prop) : Prop where
  proceeds : Proceeds x
  result : ∀ s : Session, s.Consistent → (x.run s).2.source.Within lib → Q (x.run s).1

section Says

variable {lib : Source} {α β : Type}

theorem says_pure {a : α} {Q : α → Prop} (h : Q a) : Says lib (pure a) Q :=
  ⟨proceeds_pure a, fun _ _ _ => h⟩

theorem says_bind {x : StateM Session α} {f : α → StateM Session β} {P : α → Prop} {Q : β → Prop}
    (hx : Says lib x P) (hf : ∀ a, Says lib (f a) fun b => P a → Q b) :
    Says lib (x >>= f) Q := by
  refine ⟨proceeds_bind hx.proceeds fun a => (hf a).proceeds, ?_⟩
  intro s h within
  obtain ⟨h', -⟩ := hx.proceeds s h
  obtain ⟨-, extension⟩ := (hf (x.run s).1).proceeds _ h'
  exact (hf _).result _ h' within (hx.result s h (extension.source.trans within))

theorem Proceeds.says {x : StateM Session α} (h : Proceeds x) : Says lib x fun _ => True :=
  ⟨h, fun _ _ _ => trivial⟩

theorem says_after {x : StateM Session α} {f : α → StateM Session β} {Q : β → Prop}
    (hx : Proceeds x) (hf : ∀ a, Says lib (f a) Q) : Says lib (x >>= f) Q :=
  says_bind hx.says fun a => ⟨(hf a).proceeds, fun s h within _ => (hf a).result s h within⟩

end Says

variable {lib : Source}

theorem answer_run (x : Run Answer) (s : Session) :
    (answer x).run s =
      ((match (x.run s).1 with | .ok a => a | .error e => .failed e), (x.run s).2) := by
  simp only [answer, state_bind]
  cases h : (x.run s).1 with
  | ok a => simp only [StateT.run, h]; rfl
  | error e => simp only [StateT.run, h]; rfl

theorem says_answer {x : Run Answer} (h : Tells lib x (Answer.Agrees lib)) :
    Says lib (answer x) (Answer.Agrees lib) := by
  constructor
  · intro s hs
    rw [answer_run]
    exact h.keeps s hs
  · intro s hs within
    rw [answer_run] at within ⊢
    cases hx : (x.run s).1 with
    | error e => trivial
    | ok a => exact h.result s hs within a hx

theorem says_pollAnswer (label : String) : Says lib (pollAnswer label) (Answer.Agrees lib) := by
  have run : ∀ s, ∃ a labels, (pollAnswer label).run s = (a, { s with labels }) ∧ a.Agrees lib := by
    intro s
    simp only [pollAnswer, state_bind, StateT.run_get, pure]
    cases s.labels.lookup label with
    | none => exact ⟨_, s.labels, rfl, trivial⟩
    | some n =>
      simp only
      cases s.futures[n]?.bind (·.settled) with
      | none => exact ⟨_, s.labels, rfl, trivial⟩
      | some r => exact ⟨_, _, rfl, trivial⟩
  constructor
  · intro s h
    obtain ⟨a, labels, run, -⟩ := run s
    rw [run]
    exact ⟨h.peripheral s.loader.requests s.loader.queue s.futures labels s.held s.fired,
      .refl _, fun _ n hn => ⟨n, hn, rfl⟩⟩
  · intro s h _
    obtain ⟨a, labels, run, agrees⟩ := run s
    rw [run]
    exact agrees

/-- Whether the report is still there after a step. -/
def Step.keepsReport (st : Step) : Bool :=
  match st with
  | .report .drop => false
  | _ => true

theorem says_stepAnswer (files : Files) {st : Step} (kept : st.keepsReport = true) :
    Says lib (stepAnswer files st) (Answer.Agrees lib) := by
  cases st with
  | poll label => exact says_pollAnswer label
  | report step =>
    refine says_after proceeds_get fun s => ?_
    split
    · refine says_answer (tells_reportAnswer files ?_)
      rintro rfl
      cases kept
    · exact says_pure trivial
  | node target step =>
    refine says_after proceeds_get fun s => ?_
    cases s.target? target with
    | none => exact says_pure trivial
    | some id => exact says_answer (tells_nodeAnswer files id step)

/-- What one step keeps, and what it answers. -/
theorem says_step (files : Files) {st : Step} (kept : st.keepsReport = true) :
    Says lib (step files st) fun a => a.1.Agrees lib := by
  refine says_after ?_ fun _ => says_bind (says_stepAnswer files kept) fun a => ?_
  · exact proceeds_peripheral fun s =>
      ⟨s.loader.requests, s.loader.queue, s.futures, s.labels, s.held, [], rfl⟩
  · exact says_after proceeds_get fun _ => says_pure id

/-! ## Single steps -/

variable {s : Session}

theorem Consistent.silent (h : s.Consistent) : ({ s with fired := [] } : Session).Consistent :=
  h.peripheral s.loader.requests s.loader.queue s.futures s.labels s.held []

theorem step_answer (files : Files) (st : Step) (s : Session) :
    ((step files st).run s).1.1 = ((stepAnswer files st).run { s with fired := [] }).1 := rfl

theorem stepAnswer_report (h : s.Consistent) (files : Files) (step : ReportStep) :
    (stepAnswer files (.report step)).run s = (answer (reportAnswer files step)).run s := by
  simp only [stepAnswer, state_bind, StateT.run_get, pure, h.isOpen, Bool.or_true, if_true]

theorem stepAnswer_node {target : Target} {id : NodeId} (ht : s.target? target = some id)
    (files : Files) (step : NodeStep) :
    (stepAnswer files (.node target step)).run s = (answer (nodeAnswer files id step)).run s := by
  simp only [stepAnswer, state_bind, StateT.run_get, pure, ht]

/-! ## Runs -/

/-- Step after step; each may be served from other files. -/
def play : List (Files × Step) → StateM Session (List (Answer × List Event))
  | [] => return []
  | (files, st) :: rest => do
    let first ← step files st
    let later ← play rest
    return first :: later

/-- What a run keeps, and what it answers. -/
theorem says_play (lib : Source) {run : List (Files × Step)} (kept : ∀ m ∈ run, m.2.keepsReport = true) :
    Says lib (play run) fun answers => ∀ a ∈ answers, a.1.Agrees lib := by
  induction run with
  | nil => exact says_pure fun a ha => by cases ha
  | cons m rest ih =>
    refine says_bind (says_step m.1 (kept m (by simp))) fun first => ?_
    refine says_bind (ih fun m' hm => kept m' (by simp [hm])) fun later => says_pure ?_
    intro hlater hfirst a ha
    rcases List.mem_cons.1 ha with rfl | ha
    · exact hfirst
    · exact hlater a ha

/-- A session of a report that opened, after any run in which the report was not dropped. -/
def Reachable (s : Session) : Prop :=
  ∃ text s₀ run, open? text = .ok s₀ ∧ (∀ m ∈ run, m.2.keepsReport = true) ∧
    s = ((play run).run s₀).2

theorem Reachable.consistent {s : Session} (h : s.Reachable) : s.Consistent := by
  obtain ⟨text, s₀, run, opened, kept, rfl⟩ := h
  exact ((says_play s₀.source kept).proceeds s₀ (consistent_open opened)).1

/-! ## A sample -/

/-- A suite with one keyword, whose own keywords are in a file. -/
def sampleReport : String :=
  "\x7b\"version\":2,\"generatedMillis\":0,\"baseMillis\":0,\"strings\":[\"*\",\"*Root\",\"*k\"]," ++
    "\"suite\":[1,0,0,0,[],[1,0,1],[],[],[[0,2,0,0,0,[1,0,1],1,[]]],[0,0,0,0]],\"stats\":[]\x7d"

/-- Its characters, each of which takes one byte. -/
def sampleChars : List Char :=
  sampleReport.toByteArray.data.toList.map fun b => Char.ofNat b.toNat

theorem ofList_sampleChars : String.ofList sampleChars = sampleReport := by
  decide +kernel

theorem opensTo_sample (check : Session → Bool) :
    opensTo check sampleReport = opensFrom check sampleChars :=
  (congrArg (opensTo check) ofList_sampleChars).symm.trans (opensTo_eq_opensFrom check sampleChars)

/-- What becomes of the sample is evaluated without decoding the text each time. -/
instance (check : Session → Bool) : Decidable (opensTo check sampleReport = true) :=
  decidable_of_iff (opensFrom check sampleChars = true) (Bool.eq_iff_iff.1 (opensTo_sample check).symm)

/-- No file can be read. -/
def sampleFiles : Files :=
  fun _ => .error .unreadable

/-- What the file of the keyword may hold: one keyword. -/
def deepText : String :=
  "\x7b\"keywords\":[[0,0,0,0,0,[1,0,1],[],[]]],\"strings\":[\"*deep\"]\x7d"

/-- The route of that keyword, `s1-k1-k1`. -/
def deepRoute : Route :=
  .child (.child .root ⟨.keyword, 0⟩) ⟨.keyword, 0⟩

/-- The ids on the way to it. -/
def deepChain : List NodeId :=
  [.root, .branch (.child .root ⟨.keyword, 0⟩), .branch deepRoute]

/-- The suite is shown, then its keyword. -/
def sampleRun : List (Files × Step) :=
  [(sampleFiles, .report .suite), (sampleFiles, .node (.id "s1") (.child .keyword 0))]

theorem sampleRun_keeps : ∀ m ∈ sampleRun, m.2.keepsReport = true := by
  simp [sampleRun, Step.keepsReport]

/-- The sample opens, and its run makes the root and the keyword. -/
theorem sample_opens : ∃ s₀, open? sampleReport = .ok s₀ ∧
    (((play sampleRun).run s₀).2.node? .root).isSome ∧
    (((play sampleRun).run s₀).2.branch? (.child .root ⟨.keyword, 0⟩)).isSome := by
  have shows : opensTo (fun s₀ => (((play sampleRun).run s₀).2.node? .root).isSome &&
      (((play sampleRun).run s₀).2.branch? (.child .root ⟨.keyword, 0⟩)).isSome) sampleReport =
      true := by
    decide +kernel
  obtain ⟨s₀, opened, made⟩ := opensTo_iff.1 shows
  exact ⟨s₀, opened, Bool.and_eq_true_iff.1 made⟩

theorem sample_reachable {s₀ : Session} (opened : open? sampleReport = .ok s₀) :
    ((play sampleRun).run s₀).2.Reachable :=
  ⟨sampleReport, s₀, sampleRun, opened, sampleRun_keeps, rfl⟩

end Session

end RunReport
