import RunReport.Proofs.Reading
import RunReport.Session.Names
import RunReport.Session.Views
/-!
# Searching and rendering keep a session consistent

Every walk over the tree, for a search, a name or a rendering, only reads.
-/

namespace RunReport.Session

theorem keeps_ite {R : Session → Session → Prop} {α : Type} {c : Prop} [Decidable c] {x y : Run α}
    (hx : Keeps R x) (hy : Keeps R y) : Keeps R (if c then x else y) := by
  split
  · exact hx
  · exact hy

/-- What comes after two ways to begin. -/
theorem keeps_ite_bind {R : Session → Session → Prop} [Course R] {α β : Type} {c : Prop}
    [Decidable c] {x y : Run α} {f : α → Run β} (hx : Keeps R x) (hy : Keeps R y)
    (hf : ∀ a, Keeps R (f a)) : Keeps R (if c then x >>= f else y >>= f) :=
  keeps_ite (keeps_bind hx hf) (keeps_bind hy hf)

/-! ## Searches -/

theorem keeps_suitesOf (r : Route) : Keeps Explores (suitesOf r) :=
  keeps_bind (keeps_childList r .suite) fun _ => keeps_pure _

theorem keeps_testsOf (r : Route) : Keeps Explores (testsOf r) :=
  keeps_childList r .test

theorem keeps_flatMapRun {α : Type} {f : Route → Run (List α)} (hf : ∀ r, Keeps Explores (f r))
    (rs : List Route) : Keeps Explores (flatMapRun f rs) := by
  induction rs with
  | nil => exact keeps_pure _
  | cons r rs ih => exact keeps_bind (hf r) fun _ => keeps_bind ih fun _ => keeps_pure _

theorem keeps_searchFrom (p : Test → Bool) (depth : Nat) (r : Route) :
    Keeps Explores (searchFrom p depth r) := by
  induction depth generalizing r with
  | zero => exact keeps_pure _
  | succ depth ih =>
    refine keeps_bind (keeps_suitesOf r) fun _ => ?_
    refine keeps_bind (keeps_flatMapRun ih _) fun _ => ?_
    refine keeps_bind (keeps_testsOf r) fun _ => ?_
    exact keeps_bind keeps_get fun _ => keeps_pure _

theorem keeps_searchTests (p : Test → Bool) (r : Route) : Keeps Explores (searchTests p r) :=
  keeps_bind keeps_get fun _ => keeps_searchFrom p _ r

theorem keeps_searchByTag (query : String) : Keeps Explores (searchByTag query) :=
  keeps_bind keeps_rootSuite fun _ => keeps_searchTests _ _

theorem keeps_statistics : Keeps Explores statistics :=
  keeps_bind keeps_get fun _ => keeps_except _

theorem keeps_combinedStat (query : String) (name : Option String) :
    Keeps Explores (combinedStat query name) :=
  keeps_bind (keeps_searchByTag query) fun _ => keeps_bind keeps_get fun _ => keeps_pure _

/-! ## Names -/

theorem keeps_ownerFrom (path : String) (depth : Nat) (r : Route) :
    Keeps Explores (ownerFrom path depth r) := by
  induction depth generalizing r with
  | zero => exact keeps_pure _
  | succ depth ih =>
    refine keeps_bind (keeps_testsOf r) fun tests => keeps_bind keeps_get fun s => ?_
    cases tests.find? (s.testNamed (isNameStart · path)) with
    | some t => exact keeps_pure _
    | none =>
      refine keeps_bind (keeps_suitesOf r) fun below => keeps_bind keeps_get fun s => ?_
      cases below.find? (s.leadsTo path) with
      | some next => exact ih next
      | none => exact keeps_pure _

/-! ## Outlines -/

theorem keeps_mapRun {α β : Type} {f : α → Run β} (hf : ∀ a, Keeps Explores (f a)) (as : List α) :
    Keeps Explores (mapRun f as) := by
  induction as with
  | nil => exact keeps_pure _
  | cons a as ih => exact keeps_bind (hf a) fun _ => keeps_bind ih fun _ => keeps_pure _

theorem keeps_flatRun {α β : Type} {f : α → Run (List β)} (hf : ∀ a, Keeps Explores (f a))
    (as : List α) : Keeps Explores (flatRun f as) :=
  keeps_bind (keeps_mapRun hf as) fun _ => keeps_pure _

theorem keeps_testEntry (wanted : Test → Bool) (id : NodeId) :
    Keeps Explores (testEntry wanted id) := by
  refine keeps_bind keeps_get fun s => ?_
  cases s.test? id with
  | none => exact keeps_pure _
  | some test =>
    exact keeps_ite_bind (keeps_statusMessage id) (keeps_pure _) fun _ => keeps_pure _

theorem keeps_textOutline (withDoc : Bool) (depth : Nat) (r : Route) :
    Keeps Explores (textOutline withDoc depth r) := by
  induction depth generalizing r with
  | zero => exact keeps_pure _
  | succ depth ih =>
    refine keeps_bind keeps_get fun s => ?_
    cases s.suite? r with
    | none => exact keeps_pure _
    | some suite =>
      refine keeps_ite_bind (keeps_doc _) (keeps_pure _) fun _ => ?_
      refine keeps_bind (keeps_suitesOf r) fun _ => keeps_bind (keeps_flatRun ih _) fun _ => ?_
      refine keeps_bind (keeps_testsOf r) fun _ => ?_
      exact keeps_bind (keeps_flatRun (keeps_testEntry _) _) fun _ => keeps_pure _

theorem keeps_dataOutline (depth : Nat) (r : Route) : Keeps Explores (dataOutline depth r) := by
  induction depth generalizing r with
  | zero => exact keeps_pure _
  | succ depth ih =>
    refine keeps_bind keeps_get fun s => ?_
    cases s.suite? r with
    | none => exact keeps_pure _
    | some suite =>
      refine keeps_bind (keeps_statusMessage _) fun _ => ?_
      refine keeps_bind (keeps_suitesOf r) fun _ => keeps_bind (keeps_flatRun ih _) fun _ => ?_
      refine keeps_bind (keeps_testsOf r) fun _ => ?_
      exact keeps_bind (keeps_flatRun (keeps_testEntry _) _) fun _ => keeps_pure _

theorem keeps_pageOutline (depth : Nat) (r : Route) : Keeps Explores (pageOutline depth r) := by
  induction depth generalizing r with
  | zero => exact keeps_pure _
  | succ depth ih =>
    refine keeps_bind keeps_get fun s => ?_
    cases s.suite? r with
    | none => exact keeps_pure _
    | some suite =>
      refine keeps_bind (keeps_suitesOf r) fun _ => keeps_bind (keeps_testsOf r) fun _ => ?_
      refine keeps_bind (keeps_flatRun (keeps_testEntry _) _) fun _ => ?_
      exact keeps_bind (keeps_flatRun ih _) fun _ => keeps_pure _

theorem keeps_keywordTree (withDoc : Bool) (depth : Nat) (id : NodeId) :
    Keeps Explores (keywordTree withDoc depth id) := by
  induction depth generalizing id with
  | zero => exact keeps_pure _
  | succ depth ih =>
    refine keeps_bind keeps_get fun s => ?_
    split
    · have messages : ∀ (r : Route) (f : List NodeId → Session → List KeywordTree),
          Keeps Explores (childList r .message >>= fun ids => get >>= fun s => pure (f ids s)) :=
        fun r f => keeps_bind (keeps_childList r _) fun _ => keeps_bind keeps_get fun _ =>
          keeps_pure _
      refine keeps_ite_bind (keeps_doc _) (keeps_pure _) fun doc => ?_
      refine keeps_bind (keeps_typedList _ _) fun ids => ?_
      cases ids with
      | none => exact keeps_bind (keeps_pure _) fun _ => messages _ _
      | some ids => exact keeps_bind (keeps_map _ (keeps_flatRun ih ids)) fun _ => messages _ _
    · exact keeps_pure _

theorem keeps_summaryFrom (depth : Nat) (id : NodeId) : Keeps Explores (summaryFrom depth id) := by
  induction depth generalizing id with
  | zero => exact keeps_pure _
  | succ depth ih =>
    refine keeps_bind keeps_get fun s => ?_
    cases s.node? id with
    | none => exact keeps_pure _
    | some n =>
      refine keeps_bind (keeps_children id) fun ids => ?_
      cases ids with
      | none =>
        refine keeps_bind (keeps_pure _) fun _ => keeps_bind keeps_get fun s => ?_
        cases s.node? id <;> exact keeps_pure _
      | some ids =>
        refine keeps_bind (keeps_map _ (keeps_flatRun ih ids)) fun _ =>
          keeps_bind keeps_get fun s => ?_
        cases s.node? id <;> exact keeps_pure _

/-! ## Renderings -/

theorem keeps_reportView (withDoc : Bool) (combined : List TagStat) :
    Keeps Explores (reportView withDoc combined) := by
  refine keeps_bind keeps_rootSuite fun _ => keeps_bind keeps_get fun _ => ?_
  refine keeps_bind (keeps_textOutline _ _ _) fun _ => keeps_bind keeps_statistics fun _ => ?_
  exact keeps_bind keeps_errorList fun _ => keeps_bind keeps_get fun s => keeps_pure _

theorem keeps_consoleReport (o : Render.ConsoleOptions) (combined : List TagStat) :
    Keeps Explores (consoleReport o combined) := by
  refine keeps_bind (keeps_reportView _ _) fun view => ?_
  cases view with
  | none => exact keeps_pure _
  | some view => exact keeps_pure _

theorem keeps_testEntries (ids : List NodeId) : Keeps Explores (testEntries ids) :=
  keeps_flatRun (keeps_testEntry _) ids

theorem keeps_keywordTrees (verbose : Bool) (ids : List NodeId) :
    Keeps Explores (keywordTrees verbose ids) :=
  keeps_bind keeps_get fun _ => keeps_flatRun (keeps_keywordTree verbose _) ids

theorem keeps_nodeView (o : Render.ConsoleOptions) (id : NodeId) (n : Node) :
    Keeps Explores (nodeView o id n) := by
  unfold nodeView
  split
  · refine keeps_bind (keeps_doc _) fun _ => keeps_bind (keeps_statusMessage _) fun _ => ?_
    refine keeps_bind (keeps_childList _ _) fun _ => keeps_bind (keeps_keywordTrees _ _) fun _ => ?_
    exact keeps_bind keeps_get fun _ => keeps_bind (keeps_textOutline _ _ _) fun _ => keeps_pure _
  · refine keeps_bind (keeps_doc _) fun _ => keeps_bind (keeps_statusMessage _) fun _ => ?_
    refine keeps_bind (keeps_typedList _ _) fun ids => ?_
    cases ids with
    | none => exact keeps_pure _
    | some ids => exact keeps_bind (keeps_keywordTrees _ ids) fun _ => keeps_pure _
  · exact keeps_bind (keeps_keywordTrees _ _) fun _ => keeps_pure _
  · exact keeps_pure _
  · exact keeps_pure _

theorem keeps_consoleNode (o : Render.ConsoleOptions) (chain : List String) (id : NodeId) :
    Keeps Explores (consoleNode o chain id) := by
  refine keeps_bind keeps_get fun s => ?_
  cases s.node? id with
  | none => exact keeps_pure _
  | some n =>
    refine keeps_bind (keeps_nodeView o id n) fun view => ?_
    cases view with
    | none => exact keeps_pure _
    | some v => exact keeps_pure _

theorem keeps_dataReport (pretty : Bool) (combined : List TagStat) :
    Keeps Explores (dataReport pretty combined) := by
  refine keeps_bind keeps_errorList fun _ => keeps_bind keeps_rootSuite fun _ => ?_
  refine keeps_bind keeps_get fun _ => keeps_bind (keeps_dataOutline _ _) fun _ => ?_
  exact keeps_bind keeps_statistics fun _ => keeps_bind keeps_get fun _ => keeps_pure _

theorem keeps_pageReport (combined : List TagStat) : Keeps Explores (pageReport combined) := by
  refine keeps_bind keeps_rootSuite fun _ => keeps_bind keeps_statistics fun _ => ?_
  refine keeps_bind keeps_get fun _ => keeps_bind (keeps_pageOutline _ _) fun _ => ?_
  exact keeps_bind keeps_get fun _ => keeps_pure _

end RunReport.Session
