import RunReport.Proofs.Confluence
import RunReport.Proofs.Habits
/-!
# What a future is owed

A future is for the ids on a path or for the content of a file. The files that have come decide what
it has been given: its value once all that it needs are there, and before that somebody waits on its
behalf, once. A file that comes keeps it so.
-/

namespace RunReport

/-- What a future is for. -/
inductive Wanted where
  /-- The ids on a path. -/
  | chain (path : String)
  /-- The content of a file. -/
  | content (file : String)

namespace Wanted

def name : Wanted → String
  | .chain path => path
  | .content file => file

/-- The step that gives a future for it. -/
def step (label : String) : Wanted → Session.Step
  | .chain path => .report (.resolveFuture path label)
  | .content file => .report (.fileFuture file label)

end Wanted

def Walk.result? : Walk → Option (Except Error (List NodeId))
  | .done result => some result
  | .waits _ _ _ _ _ => none

namespace Source

/-- What a future has been given, once its files are there. -/
def settled? (src : Source) : Wanted → Option (Except Error FutureValue)
  | .chain path => (src.resolution path).result?.map (·.map .chain)
  | .content file => (src.files file).map fun p => .ok (.keywords p.keywords.length)

/-- Who waits on behalf of a future, and for which file. -/
def awaiting? (src : Source) (n : Nat) : Wanted → Option (String × Waiter)
  | .chain path => ((src.resolution path).outcome (.future n)).waiting?
  | .content file =>
    match src.files file with
    | none => some (file, .payload n)
    | some _ => none

/-- A path is resolved below a root suite that can be read. -/
def Offers (src : Source) : Wanted → Prop
  | .chain _ => ∃ p, src.node? .root = .ok (some p)
  | .content _ => True

/-- What a future is given by somebody whose file has come. -/
def paid? (src : Source) (file : String) (n : Nat) : Waiter → Option (Except Error FutureValue)
  | .payload m => if m = n then src.settled? (.content file) else none
  | .children node (.resolve step rest met (.future m)) =>
    if m = n then
      match src.node? node with
      | .ok (some p) => (src.walk (step :: rest) met node p).result?.map (·.map .chain)
      | _ => none
    else none
  | _ => none

variable {src src' : Source} {n : Nat} {w : Wanted}

theorem Offers.within (h : src.Offers w) (le : src.Within src') : src'.Offers w := by
  cases w with
  | content file => trivial
  | chain path =>
    obtain ⟨p, hp⟩ := h
    exact ⟨p, le.node? hp⟩

/-- Somebody waits as long as nothing has been given. -/
theorem awaiting?_isNone : src.awaiting? n w = none ↔ (src.settled? w).isSome := by
  cases w with
  | chain path => cases h : src.resolution path <;>
      simp [awaiting?, settled?, h, Walk.result?, Walk.outcome, Outcome.waiting?]
  | content file => cases h : src.files file <;> simp [awaiting?, settled?, h]

theorem awaited_awaiting {x : String × Waiter} (h : src.awaiting? n w = some x) :
    Session.awaitedFuture? x.2 = some n := by
  cases w with
  | content file =>
    simp only [awaiting?] at h
    split at h
    · cases h
      rfl
    · cases h
  | chain path =>
    simp only [awaiting?] at h
    cases hw : src.resolution path with
    | done result => rw [hw] at h; cases h
    | waits file node step rest met =>
      rw [hw] at h
      cases h
      rfl

/-- What has been given stays. -/
theorem settled?_within (le : src.Within src') (offers : src.Offers w)
    {r : Except Error FutureValue} (h : src.settled? w = some r) : src'.settled? w = some r := by
  cases w with
  | content file =>
    obtain ⟨p, hp, rfl⟩ := Option.map_eq_some_iff.1 h
    simp only [settled?, le.files file p hp, Option.map_some]
  | chain path =>
    obtain ⟨p, hp⟩ := offers
    simp only [settled?, resolution, hp, le.node? hp] at h ⊢
    cases hw : src.walk (parsePath path) [.root] .root p with
    | waits => rw [hw] at h; cases h
    | done result =>
      rw [hw] at h
      rw [le.walk_done (node?_has hp) hw]
      exact h

/-- Who waits goes on in the place of the one before. -/
theorem awaiting?_within (le : src.Within src') (offers : src.Offers w) :
    src'.awaiting? n w =
      (src.awaiting? n w).bind fun x => (src'.fate (.parked x.1 x.2)).waiting? := by
  cases w with
  | content file =>
    cases h : src.files file with
    | some p => simp only [awaiting?, h, le.files file p h, Option.bind_none]
    | none =>
      simp only [awaiting?, h, Option.bind_some, fate]
      cases src'.files file with
      | none => rfl
      | some p => rfl
  | chain path =>
    obtain ⟨p, hp⟩ := offers
    simp only [awaiting?, resolution, hp, le.node? hp]
    cases hw : (src.walk (parsePath path) [.root] .root p).outcome (.future n) with
    | ends events =>
      cases walked : src.walk (parsePath path) [.root] .root p with
      | waits => rw [walked] at hw; cases hw
      | done result =>
        rw [le.walk_done (node?_has hp) walked]
        rfl
    | waits file wt =>
      obtain ⟨-, -, same⟩ := walk_fate le hp (.future n) hw
      simp only [Outcome.waiting?, Option.bind_some, same]

/-- Whoever goes on waiting does so for the same future. -/
theorem awaited_fate {file file' : String} {wt wt' : Waiter}
    (h : src.fate (.parked file wt) = .waits file' wt') :
    Session.awaitedFuture? wt' = Session.awaitedFuture? wt := by
  simp only [fate] at h
  cases hf : src.files file with
  | none =>
    rw [hf] at h
    cases h
    rfl
  | some p =>
    rw [hf] at h
    cases wt with
    | payload m => cases h
    | children node next =>
      cases next with
      | nothing => cases h
      | notify label => cases h
      | resolve step rest met sink =>
        simp only [outcome] at h
        split at h
        · rename_i q hq
          cases hw : src.walk (step :: rest) met node q with
          | done result => rw [hw] at h; cases h
          | waits =>
            rw [hw] at h
            cases h
            cases sink <;> rfl
        · cases h

/-- A future is given something by those who wait for it only. -/
theorem paid?_other {file : String} {wt : Waiter}
    (h : Session.awaitedFuture? wt ≠ some n) : src.paid? file n wt = none := by
  cases wt with
  | payload m => exact if_neg fun same => h (by rw [same]; rfl)
  | children node next =>
    cases next with
    | nothing => rfl
    | notify label => rfl
    | resolve step rest met sink =>
      cases sink with
      | callback label => rfl
      | future m => exact if_neg fun same => h (by rw [same]; rfl)

/-- Whoever waits on behalf of a future gives it what the files say. -/
theorem paid?_awaiting (le : src.Within src') (offers : src.Offers w) {file : String}
    {wt : Waiter} (h : src.awaiting? n w = some (file, wt)) :
    src'.paid? file n wt = src'.settled? w := by
  cases w with
  | content name =>
    simp only [awaiting?] at h
    split at h
    · cases h
      exact if_pos rfl
    · cases h
  | chain path =>
    obtain ⟨p, hp⟩ := offers
    simp only [awaiting?, resolution, hp] at h
    cases hw : src.walk (parsePath path) [.root] .root p with
    | done result => rw [hw] at h; cases h
    | waits name node step rest met =>
      rw [hw] at h
      cases h
      obtain ⟨q, hq, -, resume⟩ := walk_waits hp hw
      simp only [paid?, if_true, le.node? hq, settled?, resolution, le.node? hp, resume src' le]

end Source

namespace Session

open Effects

variable {s s' s'' : Session}

/-! ## Giving -/

/-- Every future that has nothing yet is given what it is paid, and keeps its label. -/
structure Pays (s s' : Session) (pay : Nat → Option (Except Error FutureValue)) : Prop where
  futures : ∀ n, s'.futures[n]? =
    s.futures[n]?.map fun f : Future => { f with settled := f.settled.or (pay n) }
  labels : s'.labels = s.labels

theorem pays_nothing (futures : s'.futures = s.futures) (labels : s'.labels = s.labels) :
    s.Pays s' fun _ => none := by
  refine ⟨fun n => ?_, labels⟩
  rw [futures]
  cases s.futures[n]? with
  | none => rfl
  | some f => simp

theorem Pays.trans {pay pay' : Nat → Option (Except Error FutureValue)} (h : s.Pays s' pay)
    (h' : s'.Pays s'' pay') : s.Pays s'' fun n => (pay n).or (pay' n) := by
  refine ⟨fun n => ?_, h'.labels.trans h.labels⟩
  rw [h'.futures n, h.futures n, Option.map_map]
  cases s.futures[n]? with
  | none => rfl
  | some f => simp [Option.or_assoc]

theorem Pays.lt_length {pay : Nat → Option (Except Error FutureValue)} (h : s.Pays s' pay)
    (n : Nat) : n < s'.futures.length ↔ n < s.futures.length := by
  rw [← Nat.not_le, ← Nat.not_le, ← List.getElem?_eq_none_iff, ← List.getElem?_eq_none_iff,
    h.futures n, Option.map_eq_none_iff]

theorem settle_pays (m : Nat) (result : Except Error FutureValue) :
    s.Pays (settle m result s) fun n => if m = n then some result else none := by
  refine ⟨fun n => ?_, rfl⟩
  simp only [settle, List.getElem?_modify]
  cases hf : s.futures[n]? with
  | none => rfl
  | some f =>
    by_cases same : m = n
    · cases hs : f.settled <;> simp [same, settleFuture, hs]
    · simp [same]

theorem deliver_pays (sink : Sink) (result : Except Error (List NodeId)) :
    s.Pays ((deliver sink result).run s).2 fun n =>
      if sink = .future n then some (result.map .chain) else none := by
  cases sink with
  | callback label =>
    have pays : s.Pays ((deliver (.callback label) result).run s).2 fun _ => none :=
      pays_nothing rfl rfl
    simpa using pays
  | future m =>
    have pays : s.Pays ((deliver (.future m) result).run s).2 _ :=
      settle_pays m (result.map .chain)
    simpa using pays

theorem resolveFrom_pays (h : s.Consistent) {r : Route} {n : Node} {p : Plain}
    (hn : s.branch? r = some n) (hf : n.Follows s.source p)
    (hp : s.source.node? r = .ok (some p)) (sink : Sink) (steps : List Segment)
    (met : List NodeId) :
    s.Pays ((resolveFrom sink steps met (.branch r)).run s).2 fun m =>
      if sink = .future m then (s.source.walk steps met r p).result?.map (·.map .chain)
      else none := by
  obtain ⟨s', -, unfolds, run⟩ := resolveFrom_run h hn hf hp sink steps met
  cases hw : s.source.walk steps met r p with
  | done result =>
    rw [hw] at run
    rw [run.1]
    exact (pays_nothing unfolds.futures unfolds.labels).trans (deliver_pays sink result)
  | waits file node step rest met' =>
    rw [hw] at run
    rw [run.1]
    have pays : s.Pays (park file (.children node (.resolve step rest met' sink)) s')
        fun _ => none := pays_nothing unfolds.futures unfolds.labels
    simpa [Walk.result?] using pays

theorem runWaiter_pays (h : s.Consistent) {file : String} {payload : SplitPayload} {wt : Waiter}
    (a : s.Awaits file payload [wt]) :
    s.Pays ((runWaiter file payload wt).run s).2 fun n => s.source.paid? file n wt := by
  cases wt with
  | payload m =>
    have pays := settle_pays (s := s) m (.ok (.keywords payload.keywords.length))
    simp only [Source.paid?, Source.settled?, a.come]
    exact pays
  | children node next =>
    obtain ⟨n, hn, hf⟩ := a.nodes (List.mem_singleton_self _)
    have installed := h.install hn hf a.come
    have unfolds : s.Unfolds (install node file payload s) := unfolds_install
    cases next with
    | nothing => exact pays_nothing unfolds.futures unfolds.labels
    | notify label => exact pays_nothing unfolds.futures unfolds.labels
    | resolve step rest met sink =>
      obtain ⟨p, hread, hf'⟩ := installed.follows node _ (branch?_install hn)
      have pays : s.Pays
          ((runWaiter file payload (.children node (.resolve step rest met sink))).run s).2 _ :=
        (pays_nothing unfolds.futures unfolds.labels).trans
          (resolveFrom_pays installed (branch?_install hn) hf' hread sink (step :: rest) met)
      rw [unfolds.source] at hread pays
      cases sink with
      | callback label => simpa [Source.paid?] using pays
      | future m => simpa [Source.paid?, hread] using pays

theorem runWaiters_pay (h : s.Consistent) {file : String} {payload : SplitPayload}
    {ws : List Waiter} (a : s.Awaits file payload ws) :
    s.Pays ((runWaiters file payload ws).run s).2 fun n =>
      ws.findSome? (s.source.paid? file n) := by
  induction ws generalizing s with
  | nil => exact pays_nothing rfl rfl
  | cons w ws ih =>
    have first := runWaiter_goes h a.head
    have later := ih first.consistent (a.tail h)
    rw [first.source] at later
    have both := (runWaiter_pays h a.head).trans later
    have found : ∀ n, (w :: ws).findSome? (s.source.paid? file n) =
        (s.source.paid? file n w).or (ws.findSome? (s.source.paid? file n)) := by
      intro n
      rw [List.findSome?_cons]
      cases s.source.paid? file n w <;> rfl
    simp only [found]
    exact both

theorem announce_pays (h : s.Consistent) {file : String} (new : s.loader.payload? file = none)
    (payload : SplitPayload) :
    s.Pays ((announce file payload).run s).2 fun n =>
      (s.loader.waitersFor file).findSome?
        (((announce file payload).run s).2.source.paid? file n) := by
  obtain ⟨s', run, -, -, source, -⟩ := announce_run h new payload
  have paid := runWaiters_pay (h.arrive new payload) (h.awaits new payload)
  rw [← announce_run_new new, Loader.announce_releases new] at paid
  rw [run] at paid ⊢
  rw [source]
  exact ⟨paid.futures, paid.labels⟩

/-! ## Owing -/

/-- The future has been given what the files say, and as long as that is nothing somebody waits on
its behalf. -/
structure Owes (s : Session) (n : Nat) (w : Wanted) : Prop where
  offers : s.source.Offers w
  future : s.futures[n]? = some ⟨w.name, s.source.settled? w⟩
  awaited : ∀ x, (x ∈ s.loader.parked ∧ awaitedFuture? x.2 = some n) ↔
    s.source.awaiting? n w = some x

section Owes

variable {n : Nat} {w : Wanted}

theorem Owes.frame (h : s.Owes n w) (source : s'.source = s.source)
    (future : s'.futures[n]? = s.futures[n]?)
    (parked : ∀ x, awaitedFuture? x.2 = some n → (x ∈ s'.loader.parked ↔ x ∈ s.loader.parked)) :
    s'.Owes n w where
  offers := source ▸ h.offers
  future := by rw [future, source]; exact h.future
  awaited := by
    intro x
    rw [source, ← h.awaited x]
    constructor
    · rintro ⟨mem, awaited⟩
      exact ⟨(parked x awaited).1 mem, awaited⟩
    · rintro ⟨mem, awaited⟩
      exact ⟨(parked x awaited).2 mem, awaited⟩

/-- Whoever waits for a file and for the future is the one who waits on its behalf. -/
theorem Owes.unique (h : s.Owes n w) (consistent : s.Consistent) {file : String} {wt : Waiter}
    (mem : wt ∈ s.loader.waitersFor file) (awaited : awaitedFuture? wt = some n) :
    s.source.awaiting? n w = some (file, wt) := by
  refine (h.awaited (file, wt)).1 ⟨(Loader.mem_parked consistent.distinct).2 ?_, awaited⟩
  simp only [Loader.waitersFor] at mem
  cases hs : s.loader.state? file with
  | none => rw [hs] at mem; cases mem
  | some state =>
    rw [hs] at mem
    obtain ⟨ws, rfl, hmem⟩ := Loader.mem_waitersOf.1 mem
    exact ⟨ws, rfl, hmem⟩

/-- A search in which everything found is the same finds that. -/
theorem findSome?_eq_of {α β : Type} {f : α → Option β} {l : List α} {v : Option β}
    (each : ∀ a ∈ l, f a = none ∨ f a = v) {a : α} (mem : a ∈ l) (ha : f a = v) :
    l.findSome? f = v := by
  cases found : l.findSome? f with
  | none => rw [← ha, List.findSome?_eq_none_iff.1 found a mem]
  | some r =>
    obtain ⟨b, hb, hr⟩ := List.exists_of_findSome?_eq_some found
    rcases each b hb with none | same
    · rw [none] at hr
      cases hr
    · rw [← hr, same]

/-- Those who go on when a file has come give the future what the files now say. -/
theorem Owes.paid (h : s.Owes n w) (consistent : s.Consistent) (file : String) {src : Source}
    (le : s.source.Within src) (others : ∀ name, name ≠ file → src.files name = s.source.files name)
    (unsettled : s.source.settled? w = none) :
    (s.loader.waitersFor file).findSome? (src.paid? file n) = src.settled? w := by
  have waits : s.source.awaiting? n w ≠ none := by
    rw [ne_eq, Source.awaiting?_isNone, unsettled]
    simp
  obtain ⟨⟨name, wt⟩, hx⟩ := Option.ne_none_iff_exists'.1 waits
  obtain ⟨mem, -⟩ := (h.awaited _).2 hx
  by_cases here : name = file
  · subst here
    obtain ⟨ws, hs, hmem⟩ := (Loader.mem_parked consistent.distinct).1 mem
    have released : wt ∈ s.loader.waitersFor name := by
      simp only [Loader.waitersFor, hs]
      exact hmem
    refine findSome?_eq_of (fun wt' hwt' => ?_) released (Source.paid?_awaiting le h.offers hx)
    by_cases awaited : awaitedFuture? wt' = some n
    · exact .inr (Source.paid?_awaiting le h.offers (h.unique consistent hwt' awaited))
    · exact .inl (Source.paid?_other awaited)
  · -- The file it waits for has not come, and nobody who goes on waits for the future.
    have still : src.awaiting? n w = some (name, wt) := by
      rw [Source.awaiting?_within le h.offers, hx, Option.bind_some]
      simp only [Source.fate, others name here, consistent.parked_missing mem]
      rfl
    have nothing : src.settled? w = none := by
      cases given : src.settled? w with
      | none => rfl
      | some r =>
        rw [Source.awaiting?_isNone.2 (by rw [given]; rfl)] at still
        cases still
    rw [nothing, List.findSome?_eq_none_iff]
    intro wt' hwt'
    refine Source.paid?_other fun awaited => here ?_
    cases hx.symm.trans (h.unique consistent hwt' awaited)
    rfl

/-- When a file comes, every future is given what the files now say. -/
theorem Owes.announce (h : s.Owes n w) (consistent : s.Consistent) (file : String)
    (payload : SplitPayload) : ((announce file payload).run s).2.Owes n w := by
  cases there : s.loader.payload? file with
  | some p =>
    rw [announce_run_loaded there]
    exact h
  | none =>
    have pays := (announce_pays consistent there payload).futures n
    obtain ⟨s', run, -, extension, files, parked, -⟩ := announce_fates consistent file payload
    have le := extension.source
    rw [run] at pays ⊢
    refine ⟨h.offers.within le, ?_, ?_⟩
    · rw [pays, h.future, Option.map_some]
      cases unsettled : s.source.settled? w with
      | some r => rw [Source.settled?_within le h.offers unsettled, Option.some_or]
      | none =>
        have paid := h.paid consistent file le (fun name other => by
          rw [files, if_neg other, Option.or_none]) unsettled
        simp only [Option.none_or, paid]
    · intro y
      rw [parked.mem_iff, List.mem_filterMap, Source.awaiting?_within le h.offers]
      constructor
      · rintro ⟨⟨x, hx, hy⟩, awaited⟩
        have same : awaitedFuture? x.2 = some n := by
          cases hfate : s'.source.fate (.parked x.1 x.2) with
          | ends events => rw [hfate] at hy; cases hy
          | waits name wt =>
            rw [hfate] at hy
            cases hy
            rw [← Source.awaited_fate hfate]
            exact awaited
        rw [(h.awaited x).1 ⟨hx, same⟩, Option.bind_some]
        exact hy
      · intro hy
        obtain ⟨x, hx, hy'⟩ := Option.bind_eq_some_iff.1 hy
        refine ⟨⟨x, ((h.awaited x).2 hx).1, hy'⟩, ?_⟩
        rw [← Source.awaiting?_within le h.offers] at hy
        exact Source.awaited_awaiting hy

end Owes

/-! ## Every future -/

/-- Every future is owed something, nobody waits for a future that there is not, and no label stands
for one. -/
structure Promising (s : Session) : Prop where
  owed : ∀ n, n < s.futures.length → ∃ w, s.Owes n w
  awaited : ∀ x ∈ s.loader.parked, ∀ n, awaitedFuture? x.2 = some n → n < s.futures.length
  labels : ∀ x ∈ s.labels, x.2 < s.futures.length

/-- What was promised is kept. -/
def Honours (s s' : Session) : Prop :=
  s.Promising → s'.Promising ∧ ∀ n w, s.Owes n w → s'.Owes n w

instance : Course Honours where
  refl _ h := ⟨h, fun _ _ owes => owes⟩
  trans h h' promising := by
    obtain ⟨promising', kept⟩ := h promising
    obtain ⟨promising'', kept'⟩ := h' promising'
    exact ⟨promising'', fun n w owes => kept' n w (kept n w owes)⟩

/-- Nothing that leaves the futures and those who wait for them as they are breaks a promise. -/
theorem honours_frame (source : s'.source = s.source) (futures : s'.futures = s.futures)
    (parked : ∀ x, awaitedFuture? x.2 ≠ none → (x ∈ s'.loader.parked ↔ x ∈ s.loader.parked))
    (labels : ∀ x ∈ s'.labels, x ∈ s.labels) : s.Honours s' := by
  intro h
  have kept : ∀ n w, s.Owes n w → s'.Owes n w := fun n w owes =>
    owes.frame source (by rw [futures]) fun x awaited => parked x (by rw [awaited]; simp)
  refine ⟨⟨?_, ?_, ?_⟩, kept⟩
  · intro n hn
    rw [futures] at hn
    obtain ⟨w, owes⟩ := h.owed n hn
    exact ⟨w, kept n w owes⟩
  · intro x hx n awaited
    rw [futures]
    exact h.awaited x ((parked x (by rw [awaited]; simp)).1 hx) n awaited
  · intro x hx
    rw [futures]
    exact h.labels x (labels x hx)

theorem honours_unfolds (h : s.Unfolds s') : s.Honours s' :=
  honours_frame h.source h.futures (fun x _ => by rw [h.loader]) fun x hx => h.labels ▸ hx

theorem honours_park {file : String} (missing : s.source.files file = none) {wt : Waiter}
    (nobody : awaitedFuture? wt = none) : s.Honours (park file wt s) := by
  refine honours_frame (source_park file wt) rfl (fun x awaited => ?_) fun x hx => hx
  have perm := Loader.parked_ensure missing wt
  rw [park, perm.mem_iff, List.mem_append, List.mem_singleton]
  constructor
  · rintro (mem | rfl)
    · exact mem
    · exact absurd nobody awaited
  · exact .inl

/-- A new future for something: who waits for it is new too. -/
theorem Promising.grow (h : s.Promising) {w : Wanted} (offers : s.source.Offers w)
    (source : s'.source = s.source)
    (futures : s'.futures = s.futures ++ [⟨w.name, s.source.settled? w⟩])
    (parked : s'.loader.parked.Perm
      (s.loader.parked ++ (s.source.awaiting? s.futures.length w).toList))
    (labels : ∀ x ∈ s'.labels, x ∈ s.labels ∨ x.2 = s.futures.length) :
    s'.Promising ∧ s'.Owes s.futures.length w ∧ ∀ n v, s.Owes n v → s'.Owes n v := by
  have length : s'.futures.length = s.futures.length + 1 := by rw [futures]; simp
  have mem : ∀ x, x ∈ s'.loader.parked ↔
      x ∈ s.loader.parked ∨ s.source.awaiting? s.futures.length w = some x := by
    intro x
    rw [parked.mem_iff, List.mem_append, Option.mem_toList]
  have new : s'.Owes s.futures.length w := by
    refine ⟨source ▸ offers, ?_, fun x => ?_⟩
    · rw [futures, source, List.getElem?_append_right (Nat.le_refl _)]
      simp
    · rw [mem, source]
      constructor
      · rintro ⟨old | new, awaited⟩
        · exact absurd (h.awaited x old _ awaited) (Nat.lt_irrefl _)
        · exact new
      · intro hx
        exact ⟨.inr hx, Source.awaited_awaiting hx⟩
  have kept : ∀ n v, s.Owes n v → s'.Owes n v := by
    intro n v owes
    have old : n < s.futures.length := (List.getElem?_eq_some_iff.1 owes.future).1
    refine owes.frame source (by rw [futures, List.getElem?_append_left old]) fun x awaited => ?_
    rw [mem]
    constructor
    · rintro (mem | hx)
      · exact mem
      · rw [Source.awaited_awaiting hx, Option.some_inj] at awaited
        omega
    · exact .inl
  refine ⟨⟨?_, ?_, ?_⟩, new, kept⟩
  · intro n hn
    by_cases old : n < s.futures.length
    · obtain ⟨v, owes⟩ := h.owed n old
      exact ⟨v, kept n v owes⟩
    · have last : n = s.futures.length := by omega
      exact ⟨w, last ▸ new⟩
  · intro x hx n awaited
    rcases (mem x).1 hx with old | hx
    · have := h.awaited x old n awaited
      omega
    · rw [Source.awaited_awaiting hx, Option.some_inj] at awaited
      omega
  · intro x hx
    rcases labels x hx with old | last
    · have := h.labels x old
      omega
    · omega

end Session

end RunReport
