import RunReport.Proofs.Source
/-!
# The nodes above a node

The route of a node names all the nodes above it: each is reached by the first steps of the route.
Where a source has a node it has those above it too.
-/

namespace RunReport

namespace Route

/-- The nodes above, the root first. -/
def owners : Route → List Route
  | .root => []
  | .child owner _ => owner.owners ++ [owner]

/-- The steps from the root. -/
def steps : Route → List Segment
  | .root => []
  | .child owner step => owner.steps ++ [step]

/-- The ids from the root down to a node. -/
def chain (r : Route) : List NodeId :=
  (r.owners ++ [r]).map .branch

theorem append_steps (r : Route) : Route.root.append r.steps = r := by
  induction r with
  | root => rfl
  | child owner step ih =>
    simp only [append, steps, List.foldl_append, List.foldl_cons, List.foldl_nil] at ih ⊢
    rw [ih]

theorem chain_child (owner : Route) (step : Segment) :
    (Route.child owner step).chain = owner.chain ++ [.branch (.child owner step)] := by
  simp [chain, owners]

end Route

namespace Source

/-- The source has a node at the route. -/
def Contains (src : Source) (r : Route) : Prop :=
  ∃ p, src.node? r = .ok (some p)

variable {src : Source}

theorem Contains.owner {owner : Route} {step : Segment} (h : src.Contains (.child owner step)) :
    src.Contains owner := by
  obtain ⟨p, hp⟩ := h
  obtain ⟨above, ho, -⟩ := node?_child hp
  exact ⟨above, ho⟩

theorem Contains.of_append {r : Route} {steps : List Segment} (h : src.Contains (r.append steps)) :
    src.Contains r := by
  induction steps generalizing r with
  | nil => exact h
  | cons step rest ih => exact (ih (r := .child r step) h).owner

end Source

end RunReport
