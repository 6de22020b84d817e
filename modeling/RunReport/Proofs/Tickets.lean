import Mathlib.Data.List.Nodup
import RunReport.Proofs.Agenda
/-!
# Tickets

Every ticket that was given out is accounted for: its holder had the file, is about to have it, or
waits for it. A file is what its first announcement brought, and those who wait for it are those who
asked for it, in the order they asked. Each task keeps that.
-/

namespace RunReport.Loader

variable {l l' : Ledger} {t : Task} {new rest : List Task}

/-! ## What follows from one step -/

theorem Free.wakes_append (free : Free new) (rest : List Task) : wakes (new ++ rest) = wakes rest := by
  simp only [List.filterMap_append, free.1, List.nil_append]

theorem Free.wakes_cons (free : Free [t]) (rest : List Task) : wakes (t :: rest) = wakes rest :=
  free.wakes_append rest

theorem Free.endings_append (free : Free new) (rest : List Task) :
    endings (new ++ rest) = endings rest := by
  simp only [List.filterMap_append, free.2, List.nil_append]

theorem Free.endings_cons (free : Free [t]) (rest : List Task) :
    endings (t :: rest) = endings rest :=
  free.endings_append rest

theorem Free.ends_nothing (free : Free [t]) (e : Happening) : t.end? ≠ some e := by
  intro ends
  have none := free.2
  simp only [List.filterMap_cons, ends] at none
  cases none

theorem wakes_cons (t : Task) (rest : List Task) :
    wakes (t :: rest) = wakes [t] ++ wakes rest := by
  rw [← List.filterMap_append, List.singleton_append]

theorem wakes_waiters (ks : List Ticket) (file : String) (p : SplitPayload) :
    wakes (ks.map (.wake · file p)) = ks.map (·, file, p) := by
  simp [List.filterMap_map, Function.comp_def, Task.wake?]

theorem endings_waiters (ks : List Ticket) (file : String) (p : SplitPayload) :
    endings (ks.map (.wake · file p)) = [] := by
  simp [List.filterMap_map, Function.comp_def, Task.end?]

/-- A file that is there stays what it is. -/
theorem Acts.keeps_payload (acts : Acts l t new l') {file : String} {p : SplitPayload}
    (there : l.loader.payload? file = some p) : l'.loader.payload? file = some p := by
  cases acts with
  | requests => rw [payload?_ensure, there]
  | joins => rw [payload?_ensure, there]
  | arrives free absent =>
    rw [payload?_announce, if_neg, there]
    rintro rfl
    rw [absent] at there
    cases there
  | _ => exact there

/-- What a step adds to the history, and who gets a file by it: the one whose turn it was, if it was
somebody's turn, and others who have just asked or who waited for a file that was not there. The
step that ends a call does nothing else. -/
structure Delivers (l : Ledger) (t : Task) (new : List Task) (l' : Ledger) (es : List Happening)
    (others : List (Ticket × String × SplitPayload)) : Prop where
  history : l'.history = l.history ++ es
  delivers : runs es ++ wakes new = wakes [t] ++ others
  there : ∀ r ∈ others, l'.loader.payload? r.2.1 = some r.2.2
  others : ∀ r ∈ others, r.1.number = l.issued ∨
    l.loader.payload? r.2.1 = none ∧ r.1 ∈ l.loader.waitersFor r.2.1
  ends : ∀ e, t.end? = some e → es = [e] ∧ new = []

theorem Acts.delivers (acts : Acts l t new l') : ∃ es others, Delivers l t new l' es others := by
  cases acts with
  | nothing free next =>
    exact ⟨[], [], by simp, by simp [free.1, next.1], by simp, by simp,
      fun e ends => absurd ends (free.ends_nothing e)⟩
  | takes free next =>
    exact ⟨_, [], rfl, by simp [List.filterMap_cons, free.1, next.1], by simp, by simp,
      fun e ends => absurd ends (free.ends_nothing e)⟩
  | requests free number unknown =>
    exact ⟨_, [], rfl, by simp [List.filterMap_cons, free.1], by simp, by simp,
      fun e ends => absurd ends (free.ends_nothing e)⟩
  | joins free number pending =>
    exact ⟨_, [], rfl, by simp [List.filterMap_cons, free.1], by simp, by simp,
      fun e ends => absurd ends (free.ends_nothing e)⟩
  | @hasIt _ file k p free number there =>
    exact ⟨_, [(k, file, p)], rfl, by simp [List.filterMap_cons, free.1], by simpa using there,
      by simp [number], fun e ends => absurd ends (free.ends_nothing e)⟩
  | @arrives _ file p free absent =>
    refine ⟨_, (l.loader.waitersFor file).map (·, file, p), rfl, ?_, ?_, ?_, ?_⟩
    · simp only [List.filterMap_append, wakes_waiters, free.1]
      simp [List.filterMap_cons]
    · simp [payload?_announce, absent]
    · intro r hr
      obtain ⟨k, hk, rfl⟩ := List.mem_map.1 hr
      exact .inr ⟨absent, hk⟩
    · exact fun e ends => absurd ends (free.ends_nothing e)
  | again free there =>
    exact ⟨_, [], rfl, by simp [List.filterMap_cons, free.1], by simp, by simp,
      fun e ends => absurd ends (free.ends_nothing e)⟩
  | hands next =>
    exact ⟨_, [], rfl, by simp [next.1], by simp, by simp, by simp⟩
  | givesBack => exact ⟨_, [], rfl, rfl, by simp, by simp, by simp⟩
  | finishes => exact ⟨_, [], rfl, rfl, by simp, by simp, by simp⟩

/-! ## Tickets -/

/-- Those who had their file, are about to have it, or wait for it. -/
def holders (agenda : List Task) (l : Ledger) : List (String × Ticket) :=
  (runs l.history ++ wakes agenda).map (fun r => (r.2.1, r.1)) ++ l.loader.parked

/-- Whoever asked has not been forgotten. -/
structure Accounted (agenda : List Task) (l : Ledger) : Prop where
  distinct : l.loader.names.Nodup
  numbers : (asks l.history).map (·.1.number) = List.range l.issued
  /-- The first announcement of a file counts. -/
  loaded : ∀ file, l.loader.payload? file = (announcements l.history).lookup file
  kept : (holders agenda l).Perm ((asks l.history).map fun a => (a.2, a.1))
  delivered : ∀ r ∈ runs l.history ++ wakes agenda, l.loader.payload? r.2.1 = some r.2.2
  waiting : ∀ file, l.loader.payload? file = none →
    (l.loader.waitersFor file).map (·.number) = askersOf file l.history

theorem Acts.distinct (acts : Acts l t new l') (h : l.loader.names.Nodup) :
    l'.loader.names.Nodup := by
  cases acts with
  | requests => exact nodup_ensure h _ _
  | joins => exact nodup_ensure h _ _
  | arrives => exact nodup_announce h _ _
  | _ => exact h

theorem Acts.numbers (acts : Acts l t new l')
    (h : (asks l.history).map (·.1.number) = List.range l.issued) :
    (asks l'.history).map (·.1.number) = List.range l'.issued := by
  cases acts with
  | requests free number => simp [h, List.filterMap_cons, number, List.range_succ]
  | joins free number => simp [h, List.filterMap_cons, number, List.range_succ]
  | hasIt free number => simp [h, number, List.range_succ]
  | _ => simp [h, List.filterMap_cons]

theorem Acts.loaded (acts : Acts l t new l')
    (h : ∀ file, l.loader.payload? file = (announcements l.history).lookup file) (file : String) :
    l'.loader.payload? file = (announcements l'.history).lookup file := by
  cases acts with
  | requests => simp [payload?_ensure, h, List.filterMap_cons]
  | joins => simp [payload?_ensure, h, List.filterMap_cons]
  | takes => exact (h file).trans (by simp [List.filterMap_cons])
  | @arrives _ name p _ absent =>
    by_cases hf : file = name
    · subst hf
      simp [payload?_announce, absent, ← h, List.lookup_append]
    · simp [payload?_announce, hf, h, List.lookup_append, List.lookup_cons,
        beq_eq_false_iff_ne.2 hf]
  | @again _ name p q _ there =>
    by_cases hf : file = name
    · subst hf
      simp [there, ← h, List.lookup_append]
    · simp [h, List.lookup_append, List.lookup_cons, beq_eq_false_iff_ne.2 hf]
  | _ => simp [h, List.filterMap_cons]

/-- Those who ask in a step are the new holders. -/
theorem Acts.kept (acts : Acts l t new l')
    (h : (holders (t :: rest) l).Perm ((asks l.history).map fun a => (a.2, a.1))) :
    (holders (new ++ rest) l').Perm ((asks l'.history).map fun a => (a.2, a.1)) := by
  -- Whoever has to wait is added to those who wait.
  have parks {file : String} (k : Ticket) (absent : l.loader.payload? file = none) :
      List.Perm
        ((runs l.history ++ wakes (t :: rest)).map (fun r => (r.2.1, r.1)) ++
          (l.loader.ensure file k).2.parked)
        ((asks l.history).map (fun a => (a.2, a.1)) ++ [(file, k)]) := by
    refine ((parked_ensure absent k).append_left _).trans ?_
    rw [← List.append_assoc]
    exact h.append_right _
  simp only [holders] at h ⊢
  cases acts with
  | nothing free next =>
    rw [free.wakes_cons] at h
    rw [next.wakes_append]
    exact h
  | takes free next =>
    rw [free.wakes_cons] at h
    rw [next.wakes_append]
    simp only [List.filterMap_append, List.filterMap_cons, List.filterMap_nil, Happening.asked?,
      Happening.ran?, List.append_nil]
    exact h
  | @requests _ file k free number unknown =>
    have waits := parks k (payload?_of_unknown unknown)
    rw [free.wakes_cons] at waits
    simpa [List.filterMap_cons] using waits
  | @joins _ file k ks free number pending =>
    have waits := parks k (payload?_of_pending pending)
    rw [free.wakes_cons] at waits
    simpa [List.filterMap_cons] using waits
  | @hasIt _ file k p free number there =>
    rw [free.wakes_cons] at h
    have more := (h.cons (file, k)).trans (List.perm_append_singleton (file, k) _).symm
    refine .trans ?_ (more.trans (.of_eq ?_))
    · simp [List.filterMap_cons]
    · simp
  | @arrives _ file p free absent =>
    rw [free.wakes_cons] at h
    have released := parked_announce l.loader file p
    rw [announce_releases absent] at released
    simp only [List.filterMap_append, wakes_waiters] at h ⊢
    simp only [List.filterMap_cons, List.filterMap_nil, Happening.ran?, Happening.asked?,
      Task.wake?, List.append_nil, List.map_append, List.map_map, List.append_assoc] at h ⊢
    refine .trans (List.Perm.append_left _ ?_) h
    refine List.perm_append_comm.trans ?_
    rw [List.append_assoc]
    exact released.append_left _
  | again free there =>
    rw [free.wakes_cons] at h
    simpa [List.filterMap_cons] using h
  | hands next =>
    simp only [List.filterMap_append]
    simpa [List.filterMap_cons, next.1] using h
  | givesBack => simpa [List.filterMap_cons] using h
  | finishes => simpa [List.filterMap_cons] using h

theorem Acts.delivered (acts : Acts l t new l')
    (h : ∀ r ∈ runs l.history ++ wakes (t :: rest), l.loader.payload? r.2.1 = some r.2.2) :
    ∀ r ∈ runs l'.history ++ wakes (new ++ rest), l'.loader.payload? r.2.1 = some r.2.2 := by
  obtain ⟨es, others, history, delivers, there, -⟩ := acts.delivers
  have same : runs l'.history ++ wakes (new ++ rest) =
      runs l.history ++ (runs es ++ wakes new) ++ wakes rest := by
    simp only [history, List.filterMap_append, List.append_assoc]
  intro r hr
  rw [same, delivers] at hr
  by_cases ho : r ∈ others
  · exact there r ho
  · refine acts.keeps_payload (h r ?_)
    rw [wakes_cons]
    simp only [List.mem_append, ho, or_false] at hr ⊢
    exact or_assoc.1 hr

theorem Acts.waiting (acts : Acts l t new l')
    (h : ∀ file, l.loader.payload? file = none →
      (l.loader.waitersFor file).map (·.number) = askersOf file l.history)
    (name : String) (absent' : l'.loader.payload? name = none) :
    (l'.loader.waitersFor name).map (·.number) = askersOf name l'.history := by
  cases acts with
  | takes => 
    refine (h name absent').trans ?_
    simp [List.filterMap_cons]
  | @requests _ file k free number unknown =>
    rw [payload?_ensure] at absent'
    rw [waitersFor_ensure (payload?_of_unknown unknown)]
    by_cases hn : name = file
    · subst hn
      simp [List.filterMap_cons, h name absent']
    · simp [List.filterMap_cons, hn, Ne.symm hn, h name absent']
  | @joins _ file k ks free number pending =>
    rw [payload?_ensure] at absent'
    rw [waitersFor_ensure (payload?_of_pending pending)]
    by_cases hn : name = file
    · subst hn
      simp [List.filterMap_cons, h name absent']
    · simp [List.filterMap_cons, hn, Ne.symm hn, h name absent']
  | @hasIt _ file k p free number there =>
    have hn : file ≠ name := by
      rintro rfl
      rw [there] at absent'
      cases absent'
    simp [hn, h name absent']
  | @arrives _ file p free absent =>
    rw [payload?_announce] at absent'
    have hn : name ≠ file := by
      rintro rfl
      simp at absent'
    rw [if_neg hn] at absent'
    rw [waitersFor_announce l.loader hn]
    simp [List.filterMap_cons, h name absent']
  | _ => simpa [List.filterMap_cons] using h name absent'

theorem Accounted.step (acts : Acts l t new l') (h : Accounted (t :: rest) l) :
    Accounted (new ++ rest) l' :=
  ⟨acts.distinct h.distinct, acts.numbers h.numbers, acts.loaded h.loaded, acts.kept h.kept,
    acts.delivered h.delivered, acts.waiting h.waiting⟩

theorem mem_askersOf {file : String} {n : Nat} {history : List Happening} :
    n ∈ askersOf file history ↔ ∃ k, (k, file) ∈ asks history ∧ k.number = n := by
  simp only [List.mem_filterMap]
  constructor
  · rintro ⟨e, he, hn⟩
    cases e with
    | asked k name =>
      simp only [Happening.asker?, Option.ite_none_right_eq_some, Option.some.injEq] at hn
      exact ⟨k, ⟨_, he, by simp [hn.1]⟩, hn.2⟩
    | _ => cases hn
  · rintro ⟨k, ⟨e, he, hk⟩, rfl⟩
    cases e with
    | asked k' name =>
      cases hk
      exact ⟨_, he, by simp⟩
    | _ => cases hk

/-- Nobody asks twice under one number. -/
theorem Accounted.file_unique {agenda : List Task} (h : Accounted agenda l) {file name : String}
    {n : Nat} (hf : n ∈ askersOf file l.history) (hn : n ∈ askersOf name l.history) :
    file = name := by
  obtain ⟨k, hk, rfl⟩ := mem_askersOf.1 hf
  obtain ⟨k', hk', same⟩ := mem_askersOf.1 hn
  have nodup : ((asks l.history).map (·.1.number)).Nodup := by
    rw [h.numbers]
    exact List.nodup_range
  have eq := List.inj_on_of_nodup_map nodup hk hk' same.symm
  exact congrArg Prod.snd eq

theorem Accounted.asker_lt {agenda : List Task} (h : Accounted agenda l) {file : String} {n : Nat}
    (hn : n ∈ askersOf file l.history) : n < l.issued := by
  obtain ⟨k, hk, rfl⟩ := mem_askersOf.1 hn
  have number : k.number ∈ (asks l.history).map (·.1.number) := List.mem_map.2 ⟨_, hk, rfl⟩
  rw [h.numbers] at number
  exact List.mem_range.1 number

end RunReport.Loader
