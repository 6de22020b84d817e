import Mathlib.Data.List.Find
import RunReport.Proofs.Addressing
import RunReport.Proofs.Children
import RunReport.Proofs.FullNames
/-!
# Suites by their full names

In a report whose suites can all be read, a session that looks for a full name finds what a search
of the report itself finds, and one that goes down by names ends where a descent in the report
itself ends. The chain of ids that is given for a name leads to a suite with that name exactly when
the suite that the search finds is not hidden by an earlier one.
-/

namespace RunReport

theorem Source.Whole.legible {src : Source} (h : src.Whole) (bs : List Branch) :
    src.Legible bs := by
  intro r _
  obtain ⟨found, there, -⟩ := h r
  exact ⟨found, there⟩

namespace Session

open Effects

variable {s s₁ s₂ : Session} {r : Route} {t : Title} {name : String} {bs : List Branch}

/-! ## Reading a value -/

/-- The computation gives a value; nodes may have been made. -/
structure Obtains (s : Session) {α : Type} (x : Run α) (a : α) (s' : Session) : Prop where
  run : x.run s = (.ok a, s')
  consistent : s'.Consistent
  explores : s.Explores s'

section Obtains

variable {α β : Type}

theorem obtains_pure (h : s.Consistent) (a : α) : s.Obtains (pure a : Run α) a s :=
  ⟨rfl, h, .refl s⟩

theorem obtains_get (h : s.Consistent) : s.Obtains (get : Run Session) s s :=
  ⟨rfl, h, .refl s⟩

theorem Obtains.bind {x : Run α} {f : α → Run β} {a : α} {b : β} (first : s.Obtains x a s₁)
    (second : s₁.Obtains (f a) b s₂) : s.Obtains (x >>= f) b s₂ :=
  ⟨(run_bind_ok first.run).trans second.run, second.consistent,
    first.explores.trans second.explores⟩

theorem Obtains.isSome {x : Run α} {a : α} (h : s.Obtains x a s₁)
    (registered : (s.branch? r).isSome) : (s₁.branch? r).isSome :=
  h.explores.extends.isSome registered

end Obtains

/-! ## The names of registered suites -/

theorem suite?_title (h : s.Consistent) (registered : (s.branch? r).isSome) :
    (s.suite? r).map (fun su => ⟨su.record.name, su.fullName⟩) = s.source.title? .suite r := by
  obtain ⟨n, hn⟩ := Option.isSome_iff_exists.1 registered
  obtain ⟨p, plain, there, -⟩ := h.plain hn
  simp only [suite?, hn, Source.title?, there]
  cases n <;> cases plain <;> rfl

theorem hasFullName_eq (h : s.Consistent) (registered : (s.branch? r).isSome) :
    s.hasFullName name r = s.source.isNamed .suite name r := by
  rw [hasFullName, Source.isNamed, Source.isTitled, ← suite?_title h registered]
  cases s.suite? r <;> rfl

theorem leadsTo_eq (h : s.Consistent) (registered : (s.branch? r).isSome) :
    s.leadsTo name r = s.source.leads name r := by
  rw [leadsTo, Source.leads, Source.isTitled, ← suite?_title h registered]
  cases s.suite? r <;> rfl

/-! ## What is below a suite -/

/-- Below a suite everything of the kinds that can be read is there. -/
theorem readable_below {src : Source} (legible : src.Legible bs) (suites : .suite ∈ bs) {b : Branch}
    (kind : b ∈ bs) (there : src.title? .suite r = some t) {p : Plain}
    (node : src.node? r = .ok (some p)) {items : List Raw} {table : TableRef}
    (hi : src.items? p b.kind = some (items, table)) {i : Nat} (inside : i < items.length) :
    ∃ c, src.child? p ⟨b, i⟩ = .ok (some c) := by
  have steps : ∀ step ∈ (Route.child r ⟨b, i⟩).steps, step.branch ∈ bs := by
    intro step mem
    rcases List.mem_append.1 mem with before | last
    · rw [Source.branch_of_title? there step before]
      exact suites
    · rw [List.mem_singleton.1 last]
      exact kind
  obtain ⟨found, read⟩ := legible (.child r ⟨b, i⟩) steps
  rw [Source.node?_child_of node] at read
  cases found with
  | none => exact absurd read (child?_ne_none hi inside)
  | some c => exact ⟨c, read⟩

/-- A registered suite has a list of each kind of children. -/
theorem listed_suite (h : s.Consistent) (b : Branch)
    (there : s.source.title? .suite r = some t) (registered : (s.branch? r).isSome) :
    ∃ p items table, s.source.node? r = .ok (some p) ∧
      s.source.items? p b.kind = some (items, table) ∧ (s.list? r b.kind).isSome := by
  obtain ⟨n, hn⟩ := Option.isSome_iff_exists.1 registered
  obtain ⟨p, plain, node, follows⟩ := h.plain hn
  obtain ⟨p', node', suite, -⟩ := Source.title?_eq_some.1 there
  cases node.symm.trans node'
  have listed : (s.list? r b.kind).isSome := by
    rw [list?_of_branch s hn]
    cases n with
    | suite su => cases b <;> rfl
    | test => cases plain; cases suite
    | keyword => cases plain; cases suite
    | message => cases plain
  obtain ⟨l, hl⟩ := Option.isSome_iff_exists.1 listed
  rw [list?_of_branch s hn] at hl
  obtain ⟨items, table, hi, -⟩ := follows.listed b.kind l hl
  exact ⟨p, items, table, node, hi, listed⟩

theorem childIds_below {src : Source} {b : Branch} {p : Plain}
    (node : src.node? r = .ok (some p)) {items : List Raw} {table : TableRef}
    (hi : src.items? p b.kind = some (items, table)) :
    childIds r b (List.range items.length) = (src.below b r).map .branch := by
  rw [Source.below_of_items? node hi, List.map_map]
  rfl

/-- Whoever lists what is below a suite is given all of it, if all of it can be read. -/
theorem childList_obtains_of (h : s.Consistent) {b : Branch}
    (there : s.source.title? .suite r = some t) (registered : (s.branch? r).isSome)
    (readable : ∀ p items table, s.source.node? r = .ok (some p) →
      s.source.items? p b.kind = some (items, table) →
      ∀ i < items.length, ∃ c, s.source.child? p ⟨b, i⟩ = .ok (some c)) :
    ∃ s', s.Obtains (childList r b.kind) ((s.source.below b r).map .branch) s' ∧
      ∀ q ∈ s.source.below b r, (s'.branch? q).isSome := by
  obtain ⟨p, items, table, node, hi, listed⟩ := listed_suite h b there registered
  obtain ⟨s', result, run, lists⟩ := childList_lists h node hi listed
  obtain ⟨ids, rfl⟩ := lists.found fun i inside =>
    readable p items table node hi i (List.mem_range.1 inside)
  obtain ⟨all, made⟩ := lists.all ids rfl
  rw [all, childIds_below node hi] at run made
  exact ⟨s', ⟨run, lists.consistent, lists.explores⟩,
    fun q mem => made (.branch q) (List.mem_map_of_mem mem)⟩

theorem childList_obtains (h : s.Consistent) (legible : s.source.Legible bs) (suites : .suite ∈ bs)
    {b : Branch} (kind : b ∈ bs) (there : s.source.title? .suite r = some t)
    (registered : (s.branch? r).isSome) :
    ∃ s', s.Obtains (childList r b.kind) ((s.source.below b r).map .branch) s' ∧
      ∀ q ∈ s.source.below b r, (s'.branch? q).isSome :=
  childList_obtains_of h there registered fun _ _ _ node hi _ inside =>
    readable_below legible suites kind there node hi inside

theorem routes_branches (rs : List Route) : routes (rs.map .branch) = rs := by
  rw [routes, List.filterMap_map]
  exact List.filterMap_some

theorem suitesOf_obtains (h : s.Consistent) (legible : s.source.Legible bs) (suites : .suite ∈ bs)
    (there : s.source.title? .suite r = some t) (registered : (s.branch? r).isSome) :
    ∃ s', s.Obtains (suitesOf r) (s.source.below .suite r) s' ∧
      ∀ q ∈ s.source.below .suite r, (s'.branch? q).isSome := by
  obtain ⟨s', listed, made⟩ := childList_obtains h legible suites suites there registered
  refine ⟨s', listed.bind ?_, made⟩
  rw [routes_branches]
  exact obtains_pure listed.consistent _

/-- A suite that has been listed is there. -/
theorem title?_of_mem (h : s.Consistent) {q : Route} (mem : q ∈ s.source.below .suite r)
    (registered : (s.branch? q).isSome) : ∃ t, s.source.title? .suite q = some t := by
  obtain ⟨i, rfl⟩ := Source.eq_child_of_mem_below mem
  obtain ⟨n, hn⟩ := Option.isSome_iff_exists.1 registered
  obtain ⟨p, -, there, -⟩ := h.plain hn
  exact Source.title?_of_contains ⟨p, there⟩

/-! ## The search -/

theorem findFirst_obtains {src : Source} {f : Route → Run (Option Route)} {g : Route → Option Route}
    {rs : List Route} (each : ∀ {s : Session}, s.Consistent → s.source = src → ∀ q ∈ rs,
      (s.branch? q).isSome → ∃ s', s.Obtains (f q) (g q) s')
    (h : s.Consistent) (source : s.source = src) (registered : ∀ q ∈ rs, (s.branch? q).isSome) :
    ∃ s', s.Obtains (findFirst f rs) (rs.findSome? g) s' := by
  induction rs generalizing s with
  | nil => exact ⟨s, obtains_pure h none⟩
  | cons q rs ih =>
    obtain ⟨s₁, first⟩ := each h source q (by simp) (registered q (by simp))
    rw [List.findSome?_cons]
    cases found : g q with
    | some a =>
      rw [found] at first
      exact ⟨s₁, first.bind (obtains_pure first.consistent (some a))⟩
    | none =>
      rw [found] at first
      obtain ⟨s₂, later⟩ := ih (fun h source q mem => each h source q (by simp [mem]))
        first.consistent (first.explores.source.trans source)
        fun q mem => first.isSome (registered q (by simp [mem]))
      exact ⟨s₂, first.bind later⟩

theorem findSuiteFrom_obtains (depth : Nat) (h : s.Consistent) (legible : s.source.Legible bs)
    (suites : .suite ∈ bs) (there : s.source.title? .suite r = some t)
    (registered : (s.branch? r).isSome) :
    ∃ s', s.Obtains (findSuiteFrom name depth r) (s.source.findNamed name depth r) s' := by
  induction depth generalizing s r t with
  | zero => exact ⟨s, obtains_pure h none⟩
  | succ depth ih =>
    rw [findSuiteFrom, Source.findNamed, ← hasFullName_eq h registered]
    by_cases named : s.hasFullName name r = true
    · refine ⟨s, (obtains_get h).bind ?_⟩
      rw [if_pos named, if_pos named]
      exact obtains_pure h (some r)
    · obtain ⟨s₁, listed, made⟩ := suitesOf_obtains h legible suites there registered
      have source := listed.explores.source
      have each : ∀ {u : Session}, u.Consistent → u.source = s.source →
          ∀ q ∈ s.source.below .suite r, (u.branch? q).isSome →
          ∃ u', u.Obtains (findSuiteFrom name depth q) (s.source.findNamed name depth q) u' := by
        intro u hu same q mem registered
        rw [← same] at mem legible ⊢
        obtain ⟨y, there⟩ := title?_of_mem hu mem registered
        exact ih hu legible there registered
      obtain ⟨s₂, found⟩ := findFirst_obtains each listed.consistent source made
      refine ⟨s₂, (obtains_get h).bind ?_⟩
      rw [if_neg named, if_neg named]
      exact listed.bind found

/-! ## The descent -/

/-- What a descent from a suite gives are the routes on to where it ends. -/
theorem descendFrom_obtains (depth : Nat) (h : s.Consistent) (legible : s.source.Legible bs)
    (suites : .suite ∈ bs) (there : s.source.title? .suite r = some t)
    (registered : (s.branch? r).isSome) :
    ∃ rs s', s.Obtains (descendFrom name depth r) rs s' ∧
      r.owners ++ r :: rs = (s.source.descend name depth r).line ∧
      (s'.branch? (s.source.descend name depth r)).isSome := by
  induction depth generalizing s r t with
  | zero => exact ⟨[], s, obtains_pure h [], rfl, registered⟩
  | succ depth ih =>
    rw [descendFrom, Source.descend, ← hasFullName_eq h registered]
    by_cases named : s.hasFullName name r = true
    · rw [if_pos named]
      refine ⟨[], s, (obtains_get h).bind ?_, rfl, registered⟩
      rw [if_pos named]
      exact obtains_pure h []
    · obtain ⟨s₁, listed, made⟩ := suitesOf_obtains h legible suites there registered
      have source := listed.explores.source
      have same : ∀ q ∈ s.source.below .suite r, s₁.leadsTo name q = s.source.leads name q := by
        intro q mem
        rw [leadsTo_eq listed.consistent (made q mem), source]
      rw [if_neg named, ← List.find?_congr same]
      cases found : (s.source.below .suite r).find? (s₁.leadsTo name) with
      | none =>
        refine ⟨[], s₁, (obtains_get h).bind ?_, rfl, listed.isSome registered⟩
        rw [if_neg named]
        refine listed.bind ((obtains_get listed.consistent).bind ?_)
        rw [found]
        exact obtains_pure listed.consistent []
      | some next =>
        have mem := List.mem_of_find?_eq_some found
        have registered' := made next mem
        rw [← source] at mem legible ⊢
        obtain ⟨y, there'⟩ := title?_of_mem listed.consistent mem registered'
        -- Listing has made the suite that is entered, so the descent goes on from it.
        obtain ⟨rs, s₂, onward, line, reached⟩ := ih listed.consistent legible there' registered'
        obtain ⟨i, rfl⟩ := Source.eq_child_of_mem_below mem
        refine ⟨.child r ⟨.suite, i⟩ :: rs, s₂, (obtains_get h).bind ?_, ?_, reached⟩
        · rw [if_neg named]
          refine listed.bind ((obtains_get listed.consistent).bind ?_)
          rw [found]
          exact onward.bind (obtains_pure onward.consistent _)
        · rw [← line]
          simp [Route.owners]

theorem rootSuite_obtains (h : s.Consistent) (legible : s.source.Legible bs) :
    ∃ s', s.Obtains rootSuite .root s' ∧ (s'.branch? .root).isSome := by
  obtain ⟨t, there⟩ := legible.root
  obtain ⟨p, node, -⟩ := Source.title?_eq_some.1 there
  have read : s.source.readSuite none s.suite .main = .ok p := Source.node?_root node
  obtain ⟨s', run, consistent, explores, made⟩ := rootSuite_run h
  obtain ⟨n, hn, -⟩ := made p read
  rw [read] at run
  exact ⟨s', ⟨run, consistent, explores⟩, by rw [hn]; rfl⟩

/-- Going down from the root by names gives the way to where the descent ends. -/
theorem routeToSuite_obtains (name : String) (h : s.Consistent) (legible : s.source.Legible bs)
    (suites : .suite ∈ bs) : ∃ s', s.Obtains (routeToSuite name) (s.source.wayTo name) s' ∧
      (s.source.leads name .root = true → (s'.branch? (s.source.goal name)).isSome) := by
  obtain ⟨s₁, begun, registered⟩ := rootSuite_obtains h legible
  have source := begun.explores.source
  have same : s₁.leadsTo name .root = s.source.leads name .root := by
    rw [leadsTo_eq begun.consistent registered, source]
  rw [Source.wayTo, ← same]
  by_cases onward : s₁.leadsTo name .root = true
  · rw [← source] at legible ⊢
    obtain ⟨t, there⟩ := legible.root
    obtain ⟨rs, s₂, descended, line, reached⟩ := descendFrom_obtains s₁.suiteDepth begun.consistent
      legible suites there registered
    refine ⟨s₂, begun.bind ((obtains_get begun.consistent).bind ?_), fun _ => reached⟩
    rw [if_pos onward, if_pos onward]
    have whole : .root :: rs = (s₁.source.goal name).line := line
    rw [← whole]
    exact descended.bind (obtains_pure descended.consistent _)
  · refine ⟨s₁, begun.bind ((obtains_get begun.consistent).bind ?_), fun way => absurd way onward⟩
    rw [if_neg onward, if_neg onward]
    exact obtains_pure begun.consistent []

theorem pathToSuite_obtains (name : String) (h : s.Consistent) (legible : s.source.Legible bs)
    (suites : .suite ∈ bs) :
    ∃ s', s.Obtains (pathToSuite name) ((s.source.wayTo name).map .branch) s' := by
  obtain ⟨s', descended, -⟩ := routeToSuite_obtains name h legible suites
  exact ⟨s', descended.bind (obtains_pure descended.consistent _)⟩

theorem findSuite_obtains (name : String) (h : s.Consistent) (legible : s.source.Legible bs)
    (suites : .suite ∈ bs) :
    ∃ s', s.Obtains (rootSuite >>= fun _ => findSuite name .root) (s.source.named? name) s' := by
  obtain ⟨s₁, begun, registered⟩ := rootSuite_obtains h legible
  rw [← begun.explores.source] at legible ⊢
  obtain ⟨t, there⟩ := legible.root
  obtain ⟨s₂, searched⟩ := findSuiteFrom_obtains s₁.suiteDepth begun.consistent legible suites there
    registered
  exact ⟨s₂, begun.bind ((obtains_get begun.consistent).bind searched)⟩

theorem chain_eq_iff {rs : List Route} {q : Route} : rs.map NodeId.branch = q.chain ↔ rs = q.line :=
  List.map_inj_right fun _ _ same => NodeId.branch.inj same

/-- In a report whose suites can all be read, whatever has been read of it: a search from the root
finds a suite with the full name if there is one. The way that is given for the name leads from the
root down through suites whose names lead on. It ends at a suite with the name exactly when no suite
on the way to the one that was found comes after another that leads on, and then at that one. -/
theorem path_to_suite_agrees_unless_hidden (h : s.Reachable) (legible : s.source.Legible [.suite])
    (name : String) : ∃ found chain s₁ s₂,
      (rootSuite >>= fun _ => findSuite name .root : Run (Option Route)).run s = (.ok found, s₁) ∧
      (pathToSuite name).run s = (.ok chain, s₂) ∧
      (∀ r, s.source.isNamed .suite name r = true → found.isSome) ∧
      (chain = [] ∨ ∃ q : Route, chain = q.chain ∧ s.source.leads name q = true) ∧
      ∀ r, found = some r → s.source.isNamed .suite name r = true ∧
        ((∃ q : Route, chain = q.chain ∧ s.source.isNamed .suite name q = true) ↔
          s.source.isHidden name r = false) ∧
        (s.source.isHidden name r = false → chain = r.chain) := by
  obtain ⟨s₁, searched⟩ := findSuite_obtains name h.consistent legible (by simp)
  obtain ⟨s₂, descended⟩ := pathToSuite_obtains name h.consistent legible (by simp)
  refine ⟨_, _, s₁, s₂, searched.run, descended.run, fun r named => Source.named?_complete named,
    ?_, ?_⟩
  · by_cases onward : s.source.leads name .root = true
    · refine .inr ⟨s.source.goal name, ?_, (Source.goal_stays onward).1⟩
      rw [Source.wayTo_of_leads onward]
      rfl
    · rw [Source.wayTo, if_neg onward]
      exact .inl rfl
  · intro r found
    have named := Source.named?_sound found
    simp only [chain_eq_iff]
    refine ⟨named, Source.wayTo_reaches_iff found, fun clear => ?_⟩
    obtain ⟨-, reached⟩ := Source.reached_of_not_hidden named clear
    rw [Source.wayTo_of_leads (Source.leads_root (Source.leads_of_isNamed named)), reached]

/-! ## Namesakes -/

/-- Whether the computation gives the value. -/
def gives {α : Type} [DecidableEq α] (s : Session) (x : Run α) (a : α) : Bool :=
  match (x.run s).1 with
  | .ok b => b = a
  | .error _ => false

theorem gives_iff {α : Type} [DecidableEq α] {x : Run α} {a : α} :
    s.gives x a = true ↔ ∃ s', x.run s = (.ok a, s') := by
  rw [gives]
  constructor
  · intro h
    split at h
    · rename_i b ran
      cases of_decide_eq_true h
      exact ⟨(x.run s).2, Prod.ext ran rfl⟩
    · cases h
  · rintro ⟨s', ran⟩
    simp [ran]

/-- A root suite with two suites of the same name, of which the second has a suite below it. -/
def namesakes : String :=
  "\x7b\"version\":2,\"generatedMillis\":0,\"baseMillis\":0,
    \"strings\":[\"*\",\"*Root\",\"*A\",\"*B\"],\"suite\":[1,0,0,0,[],[1,0,1],
    [[2,0,0,0,[],[1,0,1],[],[],[],[0,0,0,0]],
    [2,0,0,0,[],[1,0,1],[[3,0,0,0,[],[1,0,1],[],[],[],[0,0,0,0]]],[],[],[0,0,0,0]]],
    [],[],[0,0,0,0]],\"stats\":[]\x7d"

/-- The first of the two. -/
def firstNamesake : Route :=
  .child .root ⟨.suite, 0⟩

/-- The suite below the second one. -/
def hiddenSuite : Route :=
  .child (.child .root ⟨.suite, 1⟩) ⟨.suite, 0⟩

set_option maxRecDepth 2000 in
/-- The first of the two is found, and the way to it is given. -/
theorem path_to_suite_agrees_unless_hidden_sample : ∃ s s₁ s₂ : Session, s.Reachable ∧
    s.source.Legible [.suite] ∧
    (rootSuite >>= fun _ => findSuite "Root.A" .root : Run (Option Route)).run s =
      (.ok (some firstNamesake), s₁) ∧
    (pathToSuite "Root.A").run s = (.ok firstNamesake.chain, s₂) := by
  have opens : opensTo (fun s => s.source.isWhole 4 &&
      s.gives (rootSuite >>= fun _ => findSuite "Root.A" .root) (some firstNamesake) &&
      !s.source.isHidden "Root.A" firstNamesake) namesakes = true :=
    opensTo_ofList (by decide +kernel)
  obtain ⟨s, opened, checked⟩ := opensTo_iff.1 opens
  simp only [Bool.and_eq_true, Bool.not_eq_true'] at checked
  obtain ⟨⟨isWhole, gives⟩, clear⟩ := checked
  have reachable : s.Reachable := ⟨namesakes, s, [], opened, by simp, rfl⟩
  have legible := (Source.whole_of_isWhole isWhole).legible [.suite]
  obtain ⟨found, chain, s₁, s₂, searched, descended, -, -, agrees⟩ :=
    path_to_suite_agrees_unless_hidden reachable legible "Root.A"
  obtain ⟨s', searched'⟩ := gives_iff.1 gives
  cases searched.symm.trans searched'
  obtain ⟨-, -, same⟩ := agrees firstNamesake rfl
  rw [same clear] at descended
  exact ⟨s, s₁, s₂, reachable, legible, searched, descended⟩

set_option maxRecDepth 2000 in
/-- A search finds the suite below the second one, but the way that is given for its name ends at
the first one. -/
theorem namesake_hides_suite : ∃ s s₁ s₂ : Session, s.Reachable ∧ s.source.Legible [.suite] ∧
    (rootSuite >>= fun _ => findSuite "Root.A.B" .root : Run (Option Route)).run s =
      (.ok (some hiddenSuite), s₁) ∧
    s.source.isNamed .suite "Root.A.B" hiddenSuite = true ∧
    (pathToSuite "Root.A.B").run s = (.ok firstNamesake.chain, s₂) ∧
    ¬∃ q : Route, firstNamesake.chain = q.chain ∧ s.source.isNamed .suite "Root.A.B" q = true := by
  have opens : opensTo (fun s => s.source.isWhole 4 &&
      s.gives (rootSuite >>= fun _ => findSuite "Root.A.B" .root) (some hiddenSuite) &&
      s.source.isNamed .suite "Root.A.B" hiddenSuite &&
      s.gives (pathToSuite "Root.A.B") firstNamesake.chain &&
      !s.source.isNamed .suite "Root.A.B" firstNamesake) namesakes = true :=
    opensTo_ofList (by decide +kernel)
  obtain ⟨s, opened, checked⟩ := opensTo_iff.1 opens
  simp only [Bool.and_eq_true, Bool.not_eq_true'] at checked
  obtain ⟨⟨⟨⟨isWhole, finds⟩, named⟩, leads⟩, other⟩ := checked
  obtain ⟨s₁, searched⟩ := gives_iff.1 finds
  obtain ⟨s₂, descended⟩ := gives_iff.1 leads
  refine ⟨s, s₁, s₂, ⟨namesakes, s, [], opened, by simp, rfl⟩,
    (Source.whole_of_isWhole isWhole).legible _, searched, named, descended, ?_⟩
  rintro ⟨q, same, namedAgain⟩
  rw [← Route.line_injective (chain_eq_iff.1 same), other] at namedAgain
  cases namedAgain

end Session

end RunReport
