import RunReport.Proofs.Confluence
import RunReport.Proofs.Habits
/-!
# Serving all requests

Every file that is asked for stands in the queue until it is taken from there, and files that come
let others be asked for. A pump goes on until the queue is empty, or a file cannot be served: each
time somebody asks for one more file there is one step less to take. With an empty queue nobody waits
in vain.
-/

namespace RunReport

namespace Loader

variable {W : Type} {taken : List String} {l : Loader W}

/-- Every file that is asked for and has not come stands in the queue or has been taken from it. -/
def Queued (taken : List String) (l : Loader W) : Prop :=
  ∀ file ws, l.state? file = some (.pending ws) → file ∈ taken ∨ file ∈ l.queue

theorem queued_empty : (empty : Loader W).Queued taken := by
  intro file ws hs
  cases hs

theorem Queued.ensure (h : l.Queued taken) (file : String) (w : W) :
    (l.ensure file w).2.Queued taken := by
  intro name ws hs
  rw [state?_ensure] at hs
  rw [queue_ensure]
  cases known : l.state? file with
  | none =>
    simp only [known] at hs ⊢
    by_cases here : name = file
    · simp [here]
    · rw [if_neg here] at hs
      rcases h name ws hs with old | old <;> simp [old]
  | some state =>
    simp only [List.append_nil]
    cases state with
    | loaded p =>
      rw [known] at hs
      exact h name ws hs
    | pending others =>
      simp only [known] at hs
      by_cases here : name = file
      · exact here ▸ h file others known
      · rw [if_neg here] at hs
        exact h name ws hs

theorem Queued.announce (h : l.Queued taken) (file : String) (p : SplitPayload) :
    (l.announce file p).2.Queued taken := by
  intro name ws hs
  rw [state?_announce] at hs
  rw [queue_announce]
  by_cases here : name = file
  · rw [if_pos here] at hs
    cases hs
  · rw [if_neg here] at hs
    exact h name ws hs

theorem Queued.pop (h : l.Queued taken) {file : String} {rest : Loader W}
    (popped : l.pop = (some file, rest)) : rest.Queued (file :: taken) := by
  simp only [Loader.pop] at popped
  cases hq : l.queue with
  | nil => rw [hq] at popped; cases popped
  | cons next others =>
    rw [hq] at popped
    cases popped
    intro name ws hs
    rcases h name ws hs with old | queued
    · simp [old]
    · rw [hq] at queued
      rcases List.mem_cons.1 queued with rfl | later <;> simp [*]

/-- A file that has come is waited for no longer. -/
theorem Queued.served {file : String} (h : l.Queued (file :: taken))
    (there : ∃ p, l.payload? file = some p) : l.Queued taken := by
  obtain ⟨p, there⟩ := there
  intro name ws hs
  rcases h name ws hs with mem | queued
  · rcases List.mem_cons.1 mem with rfl | old
    · rw [payload?_of_pending hs] at there
      cases there
    · exact .inl old
  · exact .inr queued

theorem state?_of_mem (distinct : l.names.Nodup) {file : String} {state : FileState W}
    (mem : (file, state) ∈ l.files) : l.state? file = some state := by
  obtain ⟨before, after, split⟩ := List.append_of_mem mem
  simp only [names, split, List.map_append, List.map_cons] at distinct
  refine List.lookup_eq_some_iff.2 ⟨before, after, split, fun x hx => ?_⟩
  have other := (List.nodup_append.1 distinct).2.2 x.1 (List.mem_map_of_mem hx) file (by simp)
  exact bne_iff_ne.2 other.symm

/-- When all requests have been served nobody waits and nothing is missing. -/
theorem Queued.settled (h : l.Queued []) (distinct : l.names.Nodup) (idle : l.queue = []) :
    l.parked = [] ∧ l.pendingFiles = [] := by
  have nothing : ∀ f ∈ l.files, isPending f.2 = false := by
    rintro ⟨file, state⟩ mem
    cases state with
    | loaded p => rfl
    | pending ws =>
      have queued := h file ws (state?_of_mem distinct mem)
      rw [idle] at queued
      simp at queued
  constructor
  · simp only [parked, List.flatMap_eq_nil_iff, List.map_eq_nil_iff]
    intro f hf
    have loaded := nothing f hf
    cases hs : f.2 with
    | loaded p => rfl
    | pending ws => rw [hs] at loaded; cases loaded
  · have none : (l.files.filter fun f => isPending f.2) = [] := by
      simpa [List.filter_eq_nil_iff] using nothing
    simp [pendingFiles, none]

end Loader

namespace Session

open Effects

variable {s s' : Session}

/-! ## What is in the queue -/

/-- The requests stay in the queue. -/
def Demands (taken : List String) (s s' : Session) : Prop :=
  s.loader.Queued taken → s'.loader.Queued taken

theorem demands_of_loader {taken : List String} (h : s'.loader = s.loader) :
    Demands taken s s' := by
  rw [Demands, h]
  exact id

instance (taken : List String) : Tame (Demands taken) where
  refl _ := id
  trans h h' := h' ∘ h
  explores h := demands_of_loader h.loader
  install _ _ _ := demands_of_loader rfl
  park _ w h := h.ensure _ w
  arrive _ payload h := h.announce _ payload
  aside _ _ _ _ _ := demands_of_loader rfl

end Session

/-! ## Steps that are left -/

/-- The steps that those who wait may still take. -/
def stepsOf (ws : List Waiter) : Nat :=
  (ws.map Session.stepsLeft).foldr (· + ·) 0

theorem stepsOf_cons (w : Waiter) (ws : List Waiter) :
    stepsOf (w :: ws) = Session.stepsLeft w + stepsOf ws := rfl

theorem stepsOf_append (ws ws' : List Waiter) : stepsOf (ws ++ ws') = stepsOf ws + stepsOf ws' := by
  induction ws with
  | nil => exact (Nat.zero_add _).symm
  | cons w ws ih => rw [List.cons_append, stepsOf_cons, stepsOf_cons, ih, Nat.add_assoc]

theorem stepsOf_perm {ws ws' : List Waiter} (h : ws.Perm ws') : stepsOf ws = stepsOf ws' := by
  induction h with
  | nil => rfl
  | cons w _ ih => rw [stepsOf_cons, stepsOf_cons, ih]
  | swap w w' ws =>
    simp only [stepsOf_cons]
    omega
  | trans _ _ ih ih' => exact ih.trans ih'

namespace Loader

/-- The requests in the queue and the steps that those who wait may still take. -/
def bound (l : Loader Waiter) : Nat :=
  l.queue.length + stepsOf (l.parked.map Prod.snd)

variable {l : Loader Waiter}

theorem bound_ensure (l : Loader Waiter) (file : String) (w : Waiter) :
    (l.ensure file w).2.bound ≤ l.bound + 1 + Session.stepsLeft w := by
  cases there : l.payload? file with
  | some p =>
    have same : (l.ensure file w).2 = l := by rw [ensure_loaded there]
    rw [same]
    omega
  | none =>
    have queue := length_queue_ensure l file w
    have steps := stepsOf_perm ((parked_ensure there w).map Prod.snd)
    rw [List.map_append, stepsOf_append] at steps
    have new : stepsOf ([(file, w)].map Prod.snd) = Session.stepsLeft w := rfl
    rw [bound, bound, steps, new]
    omega

theorem bound_announce (l : Loader Waiter) (file : String) (payload : SplitPayload) :
    (l.announce file payload).2.bound + stepsOf (l.announce file payload).1 = l.bound := by
  have steps := stepsOf_perm ((parked_announce l file payload).map Prod.snd)
  have own : ((l.announce file payload).1.map (file, ·)).map Prod.snd =
      (l.announce file payload).1 := by
    rw [List.map_map]
    exact List.map_id _
  rw [List.map_append, stepsOf_append, own] at steps
  rw [bound, bound, queue_announce, ← steps]
  omega

theorem bound_pop {file : String} {rest : Loader Waiter} (popped : l.pop = (some file, rest)) :
    rest.bound + 1 = l.bound := by
  simp only [pop] at popped
  cases hq : l.queue with
  | nil => rw [hq] at popped; cases popped
  | cons next others =>
    rw [hq] at popped
    cases popped
    simp only [bound, hq, List.length_cons, parked]
    omega

/-- Whoever waits again has taken a step, so that its request is accounted for. -/
theorem bound_foldl {src : Source} {ws : List Waiter}
    (shorter : ∀ w ∈ ws, ∀ file w', src.outcome w = .waits file w' →
      Session.stepsLeft w' + 1 ≤ Session.stepsLeft w) (l : Loader Waiter) :
    (ws.foldl (fun l w => (src.outcome w).loader l) l).bound ≤
      l.bound + stepsOf ws := by
  induction ws generalizing l with
  | nil => exact Nat.le_refl _
  | cons w ws ih =>
    have later := ih (fun w' mem => shorter w' (by simp [mem])) ((src.outcome w).loader l)
    have first : ((src.outcome w).loader l).bound ≤ l.bound + Session.stepsLeft w := by
      cases outcome : src.outcome w with
      | ends events => exact Nat.le_add_right _ _
      | waits file w' =>
        have step := shorter w (by simp) file w' outcome
        have asked := bound_ensure l file w'
        simp only [Outcome.loader]
        omega
    rw [List.foldl_cons, stepsOf_cons]
    omega

end Loader

namespace Source

variable {src : Source}

theorem walk_shortens {steps : List Segment} {met : List NodeId} {r : Route} {p : Plain}
    {file : String} {node : Route} {step : Segment} {rest : List Segment} {met' : List NodeId}
    (hw : src.walk steps met r p = .waits file node step rest met') :
    rest.length + 1 ≤ steps.length := by
  induction steps generalizing met r p with
  | nil => cases hw
  | cons first others ih =>
    simp only [walk] at hw
    cases hm : src.missing? p with
    | some name =>
      rw [hm] at hw
      cases hw
      exact Nat.le_refl _
    | none =>
      rw [hm] at hw
      cases hc : src.child? p first with
      | error e => rw [hc] at hw; cases hw
      | ok found =>
        cases found with
        | none => rw [hc] at hw; cases hw
        | some c =>
          rw [hc] at hw
          exact Nat.le_succ_of_le (ih hw)

/-- Whoever goes on takes the step it waited for. -/
theorem outcome_shortens {file : String} {w : Waiter} (stands : src.Stands (.parked file w))
    {payload : SplitPayload} (there : src.files file = some payload) {name : String} {w' : Waiter}
    (waits : src.outcome w = .waits name w') :
    Session.stepsLeft w' + 1 ≤ Session.stepsLeft w := by
  cases w with
  | payload n => cases waits
  | children node next =>
    cases next with
    | nothing => cases waits
    | notify label => cases waits
    | resolve step rest met sink =>
      obtain ⟨p, hp, split⟩ := stands
      have ready : src.missing? p = none := by
        rw [missing?_eq_none]
        intro other hother
        cases split.symm.trans hother
        exact ⟨payload, there⟩
      simp only [outcome, hp, walk, ready] at waits
      cases hc : src.child? p step with
      | error e => rw [hc] at waits; cases waits
      | ok found =>
        cases found with
        | none => rw [hc] at waits; cases waits
        | some c =>
          simp only [hc] at waits
          cases hw : src.walk rest (.branch (.child node step) :: met) (.child node step) c with
          | done result => rw [hw] at waits; cases waits
          | waits file' node' step' rest' met' =>
            rw [hw] at waits
            cases waits
            exact walk_shortens hw

end Source

namespace Session

open Effects

variable {s s' : Session}

theorem requestBound_eq (s : Session) : s.requestBound = s.loader.bound := by
  rw [requestBound, Loader.waiters_eq_parked]
  rfl

/-- A file that comes lets no more files be asked for than was foreseen. -/
theorem announce_bound (h : s.Consistent) (file : String) (payload : SplitPayload) :
    ((announce file payload).run s).2.requestBound ≤ s.requestBound := by
  cases there : s.loader.payload? file with
  | some p => exact Nat.le_of_eq (by rw [announce_run_loaded there])
  | none =>
    obtain ⟨s', run, -, extension, source, loader, -, -⟩ := announce_run h there payload
    have arrived : s'.source.files file = some payload := by
      rw [source, files_arrive there, if_pos rfl]
    have shorter : ∀ w ∈ (s.loader.announce file payload).1, ∀ name w',
        s'.source.outcome w = .waits name w' → stepsLeft w' + 1 ≤ stepsLeft w := by
      intro w hw name w' waits
      have parked : (file, w) ∈ s.loader.parked :=
        (Loader.mem_parked h.distinct).2 (announce_fst _ _ _ _ hw)
      have stands := (h.parked_stands parked).within extension.source
      exact Source.outcome_shortens stands arrived waits
    rw [run, requestBound_eq, requestBound_eq, loader, ← Loader.bound_announce s.loader file payload]
    exact Loader.bound_foldl shorter _

/-- After an announcement the file is there. -/
theorem announced_there (h : s.Consistent) (file : String) (payload : SplitPayload) :
    ∃ p, ((announce file payload).run s).2.loader.payload? file = some p := by
  obtain ⟨s', run, -, -, files, -⟩ := announce_fates h file payload
  rw [run]
  have here := files file
  rw [if_pos rfl] at here
  change ∃ p, s'.source.files file = some p
  rw [here]
  cases s.source.files file with
  | none => exact ⟨payload, rfl⟩
  | some p => exact ⟨p, rfl⟩

/-! ## Pumping -/

/-- So many requests have been taken one after the other, and their files have been read and
announced. -/
inductive Feeds (files : Files) : Nat → Session → Session → Prop
  | nothing (s : Session) : Feeds files 0 s s
  | file {n : Nat} {s s' : Session} {file text : String} {loader : Loader Waiter}
    {payload : SplitPayload} (popped : s.loader.pop = (some file, loader))
    (read : files file = .ok text) (decoded : SplitPayload.read text = .ok payload)
    (rest : Feeds files n ((announce file payload).run { s with loader }).2 s') :
    Feeds files (n + 1) s s'

/-- The next request is for a file that cannot be read, or is no split file. -/
def Chokes (files : Files) (e : Error) (s s' : Session) : Prop :=
  ∃ file loader, s.loader.pop = (some file, loader) ∧ s' = { s with loader } ∧
    (files file = .error e ∨ ∃ text, files file = .ok text ∧ SplitPayload.read text = .error e)

variable {files : Files}

theorem serveUpTo_feeds (files : Files) (n : Nat) (s : Session) :
    match serveUpTo (m := Id) files n s with
    | (.ok k, s') => Feeds files k s s' ∧ (s'.loader.queue = [] ∨ k = n)
    | (.error e, s') => ∃ k t, Feeds files k s t ∧ k < n ∧ Chokes files e t s' := by
  induction n generalizing s with
  | zero => exact ⟨.nothing s, .inr rfl⟩
  | succ n ih =>
    cases popped : s.loader.pop with
    | mk request loader =>
      cases request with
      | none =>
        have run : serveUpTo (m := Id) files (n + 1) s = (.ok 0, s) := by
          simp only [serveUpTo, popped]
          rfl
        rw [run]
        refine ⟨.nothing s, .inl ?_⟩
        simp only [Loader.pop] at popped
        cases hq : s.loader.queue with
        | nil => rfl
        | cons file rest => rw [hq] at popped; cases popped
      | some file =>
        have stops : ∀ e, (files file = .error e ∨
            ∃ text, files file = .ok text ∧ SplitPayload.read text = .error e) →
            ∃ k t, Feeds files k s t ∧ k < n + 1 ∧ Chokes files e t { s with loader } :=
          fun e why => ⟨0, s, .nothing s, Nat.succ_pos n, file, loader, popped, rfl, why⟩
        cases read : files file with
        | error e =>
          have run : serveUpTo (m := Id) files (n + 1) s = (.error e, { s with loader }) := by
            simp only [serveUpTo, popped, bind, pure, read]
          rw [run]
          exact stops e (.inl read)
        | ok text =>
          cases decoded : SplitPayload.read text with
          | error e =>
            have run : serveUpTo (m := Id) files (n + 1) s = (.error e, { s with loader }) := by
              simp only [serveUpTo, popped, bind, pure, read, decoded]
            rw [run]
            exact stops e (.inr ⟨text, read, decoded⟩)
          | ok payload =>
            have later := ih ((announce file payload).run { s with loader }).2
            cases served : serveUpTo (m := Id) files n
              ((announce file payload).run { s with loader }).2 with
            | mk count s' =>
              have run : serveUpTo (m := Id) files (n + 1) s = (count.map (· + 1), s') := by
                simp only [serveUpTo, popped, bind, pure, read, decoded]
                exact congrArg (fun x : Except Error Nat × Session => (x.1.map (· + 1), x.2)) served
              rw [run]
              rw [served] at later
              cases count with
              | error e =>
                obtain ⟨k, t, fed, less, chokes⟩ := later
                exact ⟨k + 1, t, .file popped read decoded fed, Nat.succ_lt_succ less, chokes⟩
              | ok k =>
                obtain ⟨fed, ended⟩ := later
                exact ⟨.file popped read decoded fed, ended.imp id (congrArg Nat.succ)⟩

theorem Feeds.consistent {n : Nat} (fed : Feeds files n s s') (h : s.Consistent) :
    s'.Consistent ∧ n + s'.requestBound ≤ s.requestBound := by
  induction fed with
  | nothing s => exact ⟨h, by omega⟩
  | @file n s s' name text loader payload popped read decoded rest ih =>
    have taken := (consistent_pop h).1
    rw [popped] at taken
    have announced := announce_bound taken name payload
    obtain ⟨consistent, bound⟩ := ih (proceeds_announce name payload _ taken).1
    have less := Loader.bound_pop popped
    rw [requestBound_eq { s with loader }] at announced
    rw [requestBound_eq s]
    refine ⟨consistent, ?_⟩
    simp only at announced
    omega

theorem Feeds.queued {n : Nat} (fed : Feeds files n s s') (h : s.Consistent)
    (queued : s.loader.Queued []) : s'.loader.Queued [] := by
  induction fed with
  | nothing s => exact queued
  | @file n s s' name text loader payload popped read decoded rest ih =>
    have taken := (consistent_pop h).1
    rw [popped] at taken
    obtain ⟨consistent, announced⟩ := follows_announce (R := Demands [name]) name payload _ taken
    refine ih consistent ((announced (queued.pop popped)).served ?_)
    exact announced_there taken name payload

/-- A pump serves every request, and those that come up on the way, unless a file cannot be served;
it serves no more than were foreseen. -/
theorem pumpFiles_feeds (h : s.Consistent) (files : Files) :
    match (pumpFiles files).run s with
    | (.ok k, s') => Feeds files k s s' ∧ s'.Consistent ∧ s'.loader.queue = [] ∧ k ≤ s.requestBound
    | (.error e, s') => ∃ k t, Feeds files k s t ∧ k < s.requestBound ∧ Chokes files e t s' := by
  have fed := serveUpTo_feeds files s.requestBound s
  change match serveUpTo (m := Id) files s.requestBound s with | (.ok k, s') => _ | (.error e, s') => _
  cases run : serveUpTo (m := Id) files s.requestBound s with
  | mk served s' =>
    rw [run] at fed
    cases served with
    | error e => exact fed
    | ok k =>
      obtain ⟨fed, ended⟩ := fed
      obtain ⟨consistent, bound⟩ := fed.consistent h
      refine ⟨fed, consistent, ?_, by omega⟩
      rcases ended with empty | all
      · exact empty
      · have none : s'.requestBound = 0 := by omega
        rw [requestBound_eq, Loader.bound] at none
        exact List.eq_nil_of_length_eq_zero (by omega)

/-- When every file that is asked for stands in the queue, nobody is left waiting by a pump. -/
theorem pumpFiles_settles (h : s.Consistent) (queued : s.loader.Queued []) {k : Nat}
    (run : (pumpFiles files).run s = (.ok k, s')) :
    s'.loader.Queued [] ∧ s'.loader.queue = [] ∧ s'.loader.parked = [] ∧
      s'.loader.pendingFiles = [] := by
  have pumped := pumpFiles_feeds h files
  rw [run] at pumped
  obtain ⟨fed, consistent, idle, -⟩ := pumped
  have queued := fed.queued h queued
  exact ⟨queued, idle, queued.settled consistent.distinct idle⟩

end Session

end RunReport
