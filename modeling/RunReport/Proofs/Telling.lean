import RunReport.Proofs.Facts
/-!
# What a computation tells

Every suite, test and keyword that is described or dumped is the one that the source has at that
route, whatever was made before and while it was read.
-/

namespace RunReport.Session

open Effects

/-! ## What a dump shows -/

/-- The description stands somewhere in the dump. -/
inductive Dump.Shows (d : Description) : Dump → Prop
  | message : Shows d (.message d)
  | here (load : Option Error) (children : Except Error (Option (List Dump))) :
    Shows d (.node d load children)
  | under {e : Description} {load : Option Error} {ds : List Dump} {t : Dump} (mem : t ∈ ds)
    (shown : Shows d t) : Shows d (.node e load (.ok (some ds)))

def Dump.Agrees (src : Source) (t : Dump) : Prop :=
  ∀ d, t.Shows d → d.Agrees src

/-! ## What a computation tells -/

/-- Besides keeping the session consistent, what the computation gives satisfies `Q`, provided that
the files are those of the library. -/
structure Tells (lib : Source) {α : Type} (x : Run α) (Q : α → Prop) : Prop where
  keeps : Keeps Extends x
  result : ∀ s : Session, s.Consistent → (x.run s).2.source.Within lib →
    ∀ a, (x.run s).1 = .ok a → Q a

section Tells

variable {lib : Source} {α β : Type}

theorem tells_pure {a : α} {Q : α → Prop} (h : Q a) : Tells lib (pure a) Q := by
  refine ⟨keeps_pure a, ?_⟩
  rintro s _ _ b ⟨⟩
  exact h

theorem Keeps.tells {x : Run α} (h : Keeps Extends x) : Tells lib x fun _ => True :=
  ⟨h, fun _ _ _ _ _ => trivial⟩

theorem Tells.imp {x : Run α} {P Q : α → Prop} (h : Tells lib x P) (hq : ∀ a, P a → Q a) :
    Tells lib x Q :=
  ⟨h.keeps, fun s hs within a ha => hq a (h.result s hs within a ha)⟩

/-- The library has the files of the first part too, because none of them goes away. -/
theorem tells_bind {x : Run α} {f : α → Run β} {P : α → Prop} {Q : β → Prop}
    (hx : Tells lib x P) (hf : ∀ a, Tells lib (f a) fun b => P a → Q b) :
    Tells lib (x >>= f) Q := by
  refine ⟨keeps_bind hx.keeps fun a => (hf a).keeps, ?_⟩
  intro s h within b hb
  obtain ⟨h', -⟩ := hx.keeps s h
  have told := hx.result s h
  rw [run_bind] at within hb
  rcases hrun : x.run s with ⟨_ | a, t⟩ <;> rw [hrun] at within hb h' told
  · cases hb
  · obtain ⟨-, extension⟩ := (hf a).keeps t h'
    exact (hf a).result t h' within b hb (told (extension.source.trans within) a rfl)

/-- Whatever comes first, the last part tells. -/
theorem tells_after {x : Run α} {f : α → Run β} {Q : β → Prop} (hx : Keeps Extends x)
    (hf : ∀ a, Tells lib (f a) Q) : Tells lib (x >>= f) Q :=
  tells_bind hx.tells fun a => (hf a).imp fun _ hq _ => hq

theorem tells_map {x : Run α} {f : α → β} {P : α → Prop} {Q : β → Prop} (hx : Tells lib x P)
    (h : ∀ a, P a → Q (f a)) : Tells lib (f <$> x) Q :=
  tells_bind hx fun a => tells_pure (h a)

end Tells

variable {lib : Source}

theorem tells_describe (id : NodeId) :
    Tells lib (describe id) fun found => ∀ d, found = some d → d.Agrees lib := by
  refine ⟨(keeps_describe id).extends, ?_⟩
  rintro s h within found hfound d rfl
  have explores := (keeps_describe id s h).2
  exact (describe_agrees h id hfound).within (explores.source ▸ within)

/-! ## Dumps -/

theorem tells_dumpEach {dump : NodeId → Run (List Dump)}
    (hd : ∀ id, Tells lib (dump id) fun ts => ∀ t ∈ ts, t.Agrees lib) (ids : List NodeId) :
    Tells lib (dumpEach dump ids) fun ts => ∀ t ∈ ts, t.Agrees lib := by
  induction ids with
  | nil => exact tells_pure fun t ht => by cases ht
  | cons id ids ih =>
    refine tells_bind (hd id) fun first => tells_bind ih fun later => tells_pure ?_
    intro hlater hfirst t ht
    rcases List.mem_append.1 ht with ht | ht
    · exact hfirst t ht
    · exact hlater t ht

theorem tells_dumpBelow {dump : NodeId → Run (List Dump)}
    (hd : ∀ id, Tells lib (dump id) fun ts => ∀ t ∈ ts, t.Agrees lib) (id : NodeId) :
    Tells lib (dumpBelow dump id) fun below =>
      ∀ ts, below = .ok (some ts) → ∀ t ∈ ts, t.Agrees lib := by
  refine tells_after (keeps_attempt (keeps_children id).extends) fun found => ?_
  split
  · exact tells_pure fun _ h => by cases h
  · exact tells_pure fun _ h => by cases h
  · refine tells_bind (tells_dumpEach hd _) fun ts => tells_pure ?_
    rintro hts ts' ⟨⟩
    exact hts

/-- The description of a node is followed by what was found below it. -/
theorem agrees_node {d : Description} {load : Option Error}
    {children : Except Error (Option (List Dump))} (hd : d.Agrees lib)
    (hc : ∀ ts, children = .ok (some ts) → ∀ t ∈ ts, t.Agrees lib) :
    Dump.Agrees lib (.node d load children) := by
  intro e shown
  cases shown with
  | here => exact hd
  | under mem shown => exact hc _ rfl _ mem e shown

theorem tells_dumpFrom (files : Option Files) (depth : Nat) (id : NodeId) :
    Tells lib (dumpFrom files depth id) fun ts => ∀ t ∈ ts, t.Agrees lib := by
  induction depth generalizing id with
  | zero => exact tells_pure fun t ht => by cases ht
  | succ depth ih =>
    refine tells_bind (tells_describe id) fun found => ?_
    split
    · exact tells_pure fun _ t ht => by cases ht
    · refine tells_pure fun hd t ht e shown => ?_
      cases List.mem_singleton.1 ht
      cases shown
      exact hd _ rfl
    · refine tells_after (keeps_loadIf files id) fun load => ?_
      refine tells_bind (tells_dumpBelow ih id) fun below => tells_pure ?_
      intro hbelow hd t ht
      cases List.mem_singleton.1 ht
      exact agrees_node (hd _ rfl) hbelow

theorem tells_dump (files : Option Files) (id : NodeId) :
    Tells lib (dump files id) fun ts => ∀ t ∈ ts, t.Agrees lib :=
  tells_after keeps_get fun _ => tells_dumpFrom files _ id

end RunReport.Session
