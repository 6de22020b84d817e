import RunReport.Proofs.Naming
import RunReport.Proofs.Runs
/-!
# Every node is there once

In every session that can be reached, a suite, test or keyword stands in the registry under its id
and in the slot of its owner that its id names, and nowhere else; messages are numbered from one
without gaps.
-/

namespace RunReport.Session

variable {s : Session}

/-- The owner of a registered node is registered. -/
theorem Consistent.owner (h : s.Consistent) {owner : Route} {step : Segment}
    (hs : (s.branch? (.child owner step)).isSome) : (s.branch? owner).isSome := by
  obtain ⟨l, hl, -⟩ := h.owned owner step hs
  obtain ⟨n, hn, -⟩ := (list?_eq_some s).1 hl
  rw [hn]
  rfl

theorem Consistent.owner? (h : s.Consistent) (owner : Route) (step : Segment) :
    s.owner? (.branch (.child owner step)) = some owner := by
  simp [Session.owner?, Route.owner?, isAlive, h.isOpen]

/-- A slot holds the node whose id names the slot. -/
theorem Consistent.slot (h : s.Consistent) {owner : Route} {b : Branch} {l : ChildList} {i : Nat}
    {id : NodeId} (hl : s.list? owner b.kind = some l) (hi : l.made.slot? i = some id) :
    id = .branch (.child owner ⟨b, i⟩) ∧ (s.node? id).isSome := by
  obtain ⟨belongs, registered⟩ := h.filled owner b.kind l i id hl hi
  exact ⟨belongs_branch.1 belongs, registered⟩

theorem text_child (owner : Route) (b : Branch) (i : Nat) :
    (NodeId.branch (.child owner ⟨b, i⟩)).text =
      owner.text ++ "-" ++ String.singleton b.letter ++ toString (i + 1) := by
  simp only [NodeId.text, Route.text, Segment.text, String.append_assoc]

theorem Consistent.distinct_ids (h : s.Consistent) : (s.nodes.map (·.1.text)).Nodup := by
  rw [show s.nodes.map (·.1.text) = (s.nodes.map Prod.fst).map NodeId.text by simp]
  refine List.pairwise_map.2 (h.unique.imp ?_)
  intro id id' different same
  exact different (NodeId.text_injective same)

/-- Registered ids are closed under owners, slots and registry agree, ids are unambiguous, and the
registered messages are the numbers from one to the counter. -/
theorem registry_matches_slots (h : s.Reachable) :
    (∀ owner step, (s.branch? (.child owner step)).isSome →
      (s.branch? owner).isSome ∧ s.owner? (.branch (.child owner step)) = some owner) ∧
    (∀ owner (b : Branch) l i id, s.list? owner b.kind = some l → l.made.slot? i = some id →
      id = .branch (.child owner ⟨b, i⟩) ∧ (s.node? id).isSome ∧
      id.text = owner.text ++ "-" ++ String.singleton b.letter ++ toString (i + 1)) ∧
    (∀ owner step, (s.branch? (.child owner step)).isSome →
      ∃ l, s.list? owner step.branch.kind = some l ∧
        l.made.slot? step.index = some (.branch (.child owner step))) ∧
    (∀ r r' : Route, r ≠ r' → (NodeId.branch r).text ≠ (NodeId.branch r').text) ∧
    (∀ r number, (NodeId.branch r).text ≠ (NodeId.message number).text) ∧
    (s.nodes.map (·.1.text)).Nodup ∧
    (∀ number, (s.node? (.message number)).isSome ↔ 1 ≤ number ∧ number ≤ s.messageCount) := by
  have consistent := h.consistent
  refine ⟨?_, ?_, consistent.owned, ?_, NodeId.text_branch_ne_message, consistent.distinct_ids,
    consistent.counted⟩
  · intro owner step hs
    exact ⟨consistent.owner hs, consistent.owner? owner step⟩
  · intro owner b l i id hl hi
    obtain ⟨rfl, registered⟩ := consistent.slot hl hi
    exact ⟨rfl, registered, text_child owner b i⟩
  · intro r r' different same
    exact different (Route.text_injective same)

theorem registry_matches_slots_sample : ∃ s : Session, s.Reachable ∧
    (s.branch? (.child .root ⟨.keyword, 0⟩)).isSome ∧ (s.branch? .root).isSome ∧
    ∃ l, s.list? .root .keyword = some l ∧
      l.made.slot? 0 = some (.branch (.child .root ⟨.keyword, 0⟩)) := by
  obtain ⟨s₀, opened, -, keyword⟩ := sample_opens
  obtain ⟨closed, -, placed, -⟩ := registry_matches_slots (sample_reachable opened)
  exact ⟨_, sample_reachable opened, keyword, (closed _ _ keyword).1, placed _ _ keyword⟩

end RunReport.Session
