import RunReport.Proofs.Effects
import RunReport.Record
/-!
# Lookups do not depend on earlier lookups

A string table keeps the texts it has found. A table is sound when what it keeps is what its entries
say. On a sound table every lookup that the records make gives what it would give on a table that
has never been used, failures included, and leaves the table sound.
-/

namespace RunReport

open Effects

namespace StringTable

/-- What an entry says by itself. -/
def entryText (id : Nat) (entry : String) : Except Error String :=
  ((decode id entry).run (.ofEntries [])).1

def Sound (t : StringTable) : Prop :=
  ∀ id s, t.decoded.lookup id = some s →
    ∃ entry, t.entries[id]? = some entry ∧ entryText id entry = .ok s

theorem sound_ofEntries (entries : List String) : (ofEntries entries).Sound := by
  intro id s h
  simp [ofEntries] at h

theorem extract_run (id : Nat) (entry : String) (t t' : StringTable) :
    ((extract id entry).run t).1 = ((extract id entry).run t').1 ∧
    ((extract id entry).run t).2.entries = t.entries ∧
    ((extract id entry).run t).2.decoded = t.decoded := by
  simp only [extract, run_bind, run_except, run_modify]
  cases bytes id entry with
  | error e => exact ⟨rfl, rfl, rfl⟩
  | ok out => cases h : String.fromUTF8? out <;> simp [h, run_pure, run_throw]

/-- Finding out what an entry says does not read the table. -/
theorem decode_run (id : Nat) (entry : String) (t : StringTable) :
    ((decode id entry).run t).1 = entryText id entry ∧
    ((decode id entry).run t).2.entries = t.entries ∧
    ((decode id entry).run t).2.decoded = t.decoded := by
  simp only [entryText, decode]
  split
  · exact ⟨rfl, rfl, rfl⟩
  · exact ⟨rfl, rfl, rfl⟩
  · exact extract_run id entry t _

/-- The text of entry `id` of a table with these entries. -/
def textIn (entries : List String) (id : Nat) : Except Error String :=
  match entries[id]? with
  | none => .ok ""
  | some entry => entryText id entry

theorem text_run (id : Nat) (t : StringTable) (sound : t.Sound) :
    ((text id).run t).1 = textIn t.entries id ∧ ((text id).run t).2.Sound ∧
    ((text id).run t).2.entries = t.entries := by
  simp only [text, textIn, run_bind, run_get]
  cases he : t.entries[id]? with
  | none => exact ⟨rfl, sound, rfl⟩
  | some entry =>
    cases hd : t.decoded.lookup id with
    | some s =>
      obtain ⟨entry', he', hs⟩ := sound id s hd
      rw [he] at he'
      cases he'
      exact ⟨hs.symm, sound, rfl⟩
    | none =>
      obtain ⟨hr, hentries, hdecoded⟩ := decode_run id entry t
      simp only [run_bind, run_modify, run_pure]
      rcases hrun : (decode id entry).run t with ⟨_ | s, t'⟩ <;>
        simp only [hrun] at hr hentries hdecoded
      · refine ⟨hr, ?_, hentries⟩
        intro i u h
        rw [hdecoded] at h
        rw [hentries]
        exact sound i u h
      · refine ⟨hr, ?_, hentries⟩
        intro i u h
        simp only [hdecoded, List.lookup_cons] at h
        simp only [hentries]
        by_cases hi : i = id
        · subst hi
          simp only [beq_self_eq_true, Option.some.injEq] at h
          subst h
          exact ⟨entry, he, hr.symm⟩
        · rw [beq_eq_false_iff_ne.2 hi] at h
          exact sound i u h

end StringTable

namespace Lookup

variable {α β : Type}

/-- What a lookup gives on a table that has never been used. -/
def read (entries : List String) (x : Lookup α) : Except Error α :=
  (x.run (.ofEntries entries)).1

/-- On every sound table the lookup gives what it gives on a fresh one. -/
def Steady (x : Lookup α) : Prop :=
  ∀ t : StringTable, t.Sound →
    (x.run t).1 = read t.entries x ∧ (x.run t).2.Sound ∧ (x.run t).2.entries = t.entries

theorem steady_pure (a : α) : Steady (pure a) :=
  fun _ sound => ⟨rfl, sound, rfl⟩

theorem steady_except (x : Except Error α) : Steady (liftM x) :=
  fun _ sound => ⟨rfl, sound, rfl⟩

theorem steady_throw (e : Error) : Steady (throw e : Lookup α) :=
  fun _ sound => ⟨rfl, sound, rfl⟩

theorem steady_bind {x : Lookup α} {f : α → Lookup β} (hx : Steady x) (hf : ∀ a, Steady (f a)) :
    Steady (x >>= f) := by
  intro t sound
  have fresh := hx _ (StringTable.sound_ofEntries t.entries)
  have used := hx t sound
  simp only [read, run_bind] at *
  rcases hu : x.run t with ⟨r, u⟩
  rcases hv : x.run (.ofEntries t.entries) with ⟨r', v⟩
  simp only [hu, hv] at fresh used
  obtain ⟨rfl, usound, uentries⟩ := used
  obtain ⟨-, vsound, ventries⟩ := fresh
  cases r with
  | error e => exact ⟨rfl, usound, uentries⟩
  | ok a =>
    -- Both tables are sound and have the same entries, so both runs of the second part give
    -- what a fresh table gives.
    have hu' := hf a u usound
    have hv' := hf a v vsound
    rw [uentries] at hu'
    rw [ventries] at hv'
    exact ⟨hu'.1.trans hv'.1.symm, hu'.2⟩

theorem read_bind {x : Lookup α} (hx : Steady x) {f : α → Lookup β} (hf : ∀ a, Steady (f a))
    (entries : List String) :
    read entries (x >>= f) = (read entries x) >>= fun a => read entries (f a) := by
  have fresh := hx _ (StringTable.sound_ofEntries entries)
  simp only [read, run_bind] at *
  rcases hv : x.run (.ofEntries entries) with ⟨_ | a, v⟩
  · rfl
  · rw [hv] at fresh
    have hv' := hf a v fresh.2.1
    rw [fresh.2.2] at hv'
    exact hv'.1

theorem steady_text (id : Nat) : Steady (StringTable.text id) := by
  intro t sound
  have fresh := StringTable.text_run id _ (StringTable.sound_ofEntries t.entries)
  have used := StringTable.text_run id t sound
  exact ⟨used.1.trans fresh.1.symm, used.2⟩

theorem steady_lookup (slot : Option Raw) : Steady (StringTable.lookup slot) := by
  simp only [StringTable.lookup]
  split
  · exact steady_pure _
  · exact steady_pure _
  · refine steady_bind (steady_except _) fun n => ?_
    split
    · exact steady_throw _
    · exact steady_bind (steady_text _) fun _ => steady_pure _

end Lookup

namespace Coding

open Lookup

theorem steady_stringOf (r : Raw) : Steady (stringOf r) :=
  steady_bind (steady_lookup _) fun _ => steady_pure _

theorem steady_stringsOf (rs : List Raw) : Steady (stringsOf rs) := by
  induction rs with
  | nil => exact steady_pure _
  | cons r rs ih =>
    exact steady_bind (steady_stringOf r) fun _ => steady_bind ih fun _ => steady_pure _

theorem steady_metadataOf (r : Raw) : Steady (metadataOf r) := by
  refine steady_bind (steady_except _) fun items => ?_
  split
  · exact steady_bind (steady_stringsOf _) fun _ => steady_pure _
  · exact steady_throw _

variable (c : Coding) (r : Raw)

theorem steady_suite : Steady (c.suite r) := by
  refine steady_bind (steady_except _) fun el => ?_
  refine steady_bind (steady_except _) fun _ => ?_
  refine steady_bind (steady_stringOf _) fun _ => ?_
  refine steady_bind (steady_lookup _) fun _ => ?_
  dsimp only
  cases c.version.suiteSlots.relativeSource
  case' none => refine steady_bind (steady_pure _) fun _ => ?_
  case' some => refine steady_bind (steady_lookup _) fun _ => ?_
  -- With or without a relative source, the other slots are read alike.
  all_goals
    refine steady_bind (steady_except _) fun _ => ?_
    refine steady_bind (steady_metadataOf _) fun _ => ?_
    refine steady_bind (steady_except _) fun _ => ?_
    refine steady_bind (steady_except _) fun _ => ?_
    refine steady_bind (steady_except _) fun _ => ?_
    refine steady_bind (steady_except _) fun _ => ?_
    refine steady_bind (steady_except _) fun _ => ?_
    refine steady_bind (steady_except _) fun _ => ?_
    refine steady_bind (steady_except _) fun _ => ?_
    refine steady_bind (steady_except _) fun _ => ?_
    refine steady_bind (steady_except _) fun _ => ?_
    refine steady_bind (steady_except _) fun _ => ?_
    exact steady_pure _

theorem steady_test : Steady (c.test r) := by
  refine steady_bind (steady_except _) fun el => ?_
  refine steady_bind (steady_except _) fun _ => ?_
  refine steady_bind (steady_stringOf _) fun _ => ?_
  refine steady_bind (steady_lookup _) fun _ => ?_
  refine steady_bind (steady_except _) fun _ => ?_
  refine steady_bind (steady_except _) fun _ => ?_
  refine steady_bind (steady_except _) fun _ => ?_
  refine steady_bind (steady_stringsOf _) fun _ => ?_
  refine steady_bind (steady_except _) fun _ => ?_
  refine steady_bind (steady_except _) fun _ => ?_
  refine steady_bind (steady_except _) fun _ => ?_
  refine steady_bind (steady_except _) fun _ => ?_
  exact steady_pure _

theorem steady_keyword : Steady (c.keyword r) := by
  refine steady_bind (steady_except _) fun el => ?_
  refine steady_bind (steady_except _) fun _ => ?_
  refine steady_bind (steady_except _) fun _ => ?_
  refine steady_bind (steady_except _) fun _ => ?_
  refine steady_bind (steady_stringOf _) fun _ => ?_
  refine steady_bind (steady_lookup _) fun _ => ?_
  refine steady_bind (steady_lookup _) fun _ => ?_
  refine steady_bind (steady_except _) fun _ => ?_
  refine steady_bind (steady_except _) fun _ => ?_
  refine steady_bind (steady_except _) fun _ => ?_
  refine steady_bind (steady_except _) fun _ => ?_
  dsimp only
  split
  · exact steady_bind (steady_except _) fun _ => steady_pure _
  · exact steady_bind (steady_pure _) fun _ => steady_pure _

theorem steady_message : Steady (c.message r) := by
  refine steady_bind (steady_except _) fun el => ?_
  refine steady_bind (steady_except _) fun _ => ?_
  refine steady_bind (steady_except _) fun _ => ?_
  refine steady_bind (steady_except _) fun _ => ?_
  refine steady_bind (steady_lookup _) fun _ => ?_
  refine steady_bind (steady_lookup _) fun _ => ?_
  exact steady_pure _

end Coding

end RunReport
