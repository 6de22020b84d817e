import RunReport.Proofs.Circularity
import RunReport.Proofs.Instances
/-!
# Suites within suites

Suites never stand in split files, so they nest no deeper than the record of the root suite. A walk
over the suites that goes down as many levels leaves none out.
-/

namespace RunReport

namespace Coding

open Lookup

variable {c : Coding}

/-- The suites below a suite stand in a slot of its record. -/
theorem suite_nests (r : Raw) :
    Ensures (c.suite r) fun record => depthOfItems record.suites < r.depth := by
  refine .lift fun el element => .after fun _ => .after fun _ => .after fun _ => ?_
  have smaller : ∀ i slot suites context, el.get i = .ok slot → slot.asList context = .ok suites →
      depthOfItems suites < r.depth := by
    intro i slot suites context got list
    obtain ⟨items, rfl, mem⟩ := mem_of_get element got
    have within := depth_le_depthOfItems mem
    cases slot with
    | list suites' =>
      cases list
      rw [Raw.depth] at within ⊢
      omega
    | _ => cases list
  -- Whether there is a relative source or not, the other slots are read in the same way.
  split
  all_goals
    refine .after fun _ => .after fun _ => .after fun _ => .after fun _ => .after fun _ => ?_
    refine .after fun _ => .after fun _ => .lift fun slot got => .lift fun suites list => ?_
    refine .after fun _ => .after fun _ => .after fun _ => .after fun _ => ?_
    exact ensures_pure (smaller _ slot suites _ got list)

end Coding

/-- How deep the records of the suites below nest. -/
def Plain.suiteLevels : Plain → Nat
  | .suite r _ _ _ => depthOfItems r.suites
  | _ => 0

namespace Source

variable {src : Source} {p c : Plain}

theorem readSuite_levels {above : Option Plain} {r : Raw} {t : TableRef}
    (h : src.readSuite above r t = .ok p) : p.suiteLevels < r.depth := by
  simp only [readSuite] at h
  cases read : src.readIn t (src.coding.suite r) with
  | error e => rw [read] at h; cases h
  | ok record =>
    have smaller := (Coding.suite_nests r).read read
    rw [read] at h
    cases above with
    | none => cases h; exact smaller
    | some above =>
      simp only [bind, Except.bind] at h
      cases failed : src.teardownFailure above with
      | error e => rw [failed] at h; cases h
      | ok failed' => rw [failed] at h; cases h; exact smaller

/-- A suite below another nests less deep. -/
theorem child?_levels {i : Nat} (h : src.child? p ⟨.suite, i⟩ = .ok (some c)) :
    c.suiteLevels < p.suiteLevels := by
  obtain ⟨raw, t, found, read⟩ := child?_eq_some.1 h
  obtain ⟨items, hi, there⟩ := record?_eq_some.1 found
  have outer := depth_le_depthOfItems (List.mem_of_getElem? there)
  rw [readChild] at read
  have inner := readSuite_levels read
  cases p with
  | suite r name failed t' =>
    cases hi
    exact Nat.lt_of_lt_of_le inner outer
  | test r name failed t' => cases hi
  | keyword r path t' => cases hi

theorem node?_levels {r : Route} (h : src.node? r = .ok (some p)) :
    p.suiteLevels ≤ src.suite.depth := by
  induction r generalizing p with
  | root =>
    rw [node?] at h
    cases read : src.readSuite none src.suite .main with
    | error e => rw [read] at h; cases h
    | ok q =>
      rw [read] at h
      cases h
      exact Nat.le_of_lt (readSuite_levels read)
  | child owner step ih =>
    obtain ⟨above, hp, hc⟩ := node?_child h
    obtain ⟨b, i⟩ := step
    cases b with
    | suite => exact Nat.le_trans (Nat.le_of_lt (child?_levels hc)) (ih hp)
    | test =>
      obtain ⟨raw, t, -, read⟩ := child?_eq_some.1 hc
      obtain ⟨record, failed, -, -, rfl⟩ := readTest_eq_ok.1 read
      exact Nat.zero_le _
    | keyword =>
      obtain ⟨raw, t, -, read⟩ := child?_eq_some.1 hc
      obtain ⟨record, -, rfl⟩ := readKeyword_eq_ok.1 read
      exact Nat.zero_le _

end Source

namespace Session

variable {s : Session} {r : Route}

/-- How deep the records of the suites below a suite nest. -/
def levels (s : Session) (r : Route) : Nat :=
  ((s.list? r .suite).map fun l => depthOfItems l.items).getD 0

theorem Consistent.levels (h : s.Consistent) {l : ChildList} (hl : s.list? r .suite = some l) :
    ∃ p, s.source.node? r = .ok (some p) ∧ s.levels r = p.suiteLevels := by
  obtain ⟨n, p, items, table, -, -, -, hp, hi, reads⟩ := h.list hl
  refine ⟨p, hp, ?_⟩
  rw [Session.levels, hl, Option.map_some, Option.getD_some, reads.items]
  cases p with
  | suite record name failed t =>
    cases hi
    rfl
  | test record name failed t => cases hi
  | keyword record path t => cases hi

/-- The suites of a report are within the levels of every walk. -/
theorem Consistent.shallow (h : s.Consistent) (r : Route) : s.levels r < s.suiteDepth := by
  cases hl : s.list? r .suite with
  | none =>
    rw [Session.levels, hl]
    exact Nat.succ_pos _
  | some l =>
    obtain ⟨p, hp, eq⟩ := h.levels hl
    rw [eq]
    exact Nat.lt_succ_of_le (Source.node?_levels hp)

theorem Consistent.nested (h : s.Consistent) {l : ChildList} {i : Nat} {r' : Route}
    (hl : s.list? r .suite = some l) (hi : l.made.slot? i = some (.branch r')) :
    s.levels r' < s.levels r := by
  obtain ⟨p, hp, eq⟩ := h.levels hl
  obtain ⟨same, registered⟩ := h.slot (b := .suite) hl hi
  cases same
  obtain ⟨n, hn⟩ := Option.isSome_iff_exists.1 registered
  obtain ⟨c, -, hc, -⟩ := h.plain hn
  have below : s.source.child? p ⟨.suite, i⟩ = .ok (some c) := by
    rw [← Source.node?_child_of hp]
    exact hc
  have smaller := Source.child?_levels below
  rw [eq]
  cases hl' : s.list? (.child r ⟨.suite, i⟩) .suite with
  | none =>
    rw [Session.levels, hl']
    exact Nat.lt_of_le_of_lt (Nat.zero_le _) smaller
  | some l' =>
    obtain ⟨c', hc', eq'⟩ := h.levels hl'
    cases hc'.symm.trans hc
    rwa [eq']

end Session

end RunReport
