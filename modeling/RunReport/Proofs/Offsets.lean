import RunReport.Record
/-!
# Offsets of times

A status gives its start as an offset from the base time of the report, and its end as a duration after
that. Every instant of the calendar is a 64-bit number of milliseconds, so the sum with the base is
checked for nothing that the calendar does not ask. The sum of offset and duration is: a status is taken
when its start and its end are instants and the end has an offset of 64 bits too. Ends without one are
refused, though they may be instants.
-/

namespace RunReport

namespace Times

variable {base offset elapsed : Int} {start : Option Int} {t : Instant}

theorem fits_of_isRepresentable {millis : Int} (h : Calendar.isRepresentable millis = true) :
    Json.fitsI64 millis = true := by
  simp only [Calendar.isRepresentable, Bool.and_eq_true, decide_eq_true_eq] at h
  simp only [Calendar.earliest, Calendar.latest] at h
  simp only [Json.fitsI64, Bool.and_eq_true, decide_eq_true_eq]
  omega

/-- A start is the instant that the integers give, if that is one. -/
theorem timestamp_eq_some : timestamp base offset = some t ↔
    Calendar.isRepresentable (base + offset) = true ∧ t = ⟨base + offset⟩ := by
  rw [timestamp, checkedAdd]
  cases instant : Calendar.isRepresentable (base + offset) with
  | false => cases Json.fitsI64 (base + offset) <;> simp [instant]
  | true =>
    rw [if_pos (fits_of_isRepresentable instant)]
    simp [instant, eq_comm (a := t)]

/-- An end is the instant that the integers give, if that is one and has an offset of 64 bits. -/
theorem timestampEnd_eq_some : timestampEnd base offset elapsed = some t ↔
    Json.fitsI64 (offset + elapsed) = true ∧
      Calendar.isRepresentable (base + offset + elapsed) = true ∧ t = ⟨base + offset + elapsed⟩ := by
  rw [timestampEnd, checkedAdd, Int.add_assoc]
  cases Json.fitsI64 (offset + elapsed) with
  | false => simp
  | true => simpa using timestamp_eq_some

/-- A start and its end are instants, and the end has an offset of 64 bits. -/
structure Placed (base offset elapsed : Int) : Prop where
  start : Calendar.isRepresentable (base + offset) = true
  stop : Calendar.isRepresentable (base + offset + elapsed) = true
  offset : Json.fitsI64 (offset + elapsed) = true

theorem inRange_iff : inRange base start elapsed = true ↔
    ∀ offset, start = some offset → Placed base offset elapsed := by
  cases start with
  | none => simp [inRange]
  | some offset =>
    simp only [inRange, Bool.and_eq_true, Option.isSome_iff_exists, timestamp_eq_some,
      timestampEnd_eq_some, Option.some.injEq, forall_eq']
    constructor
    · rintro ⟨⟨_, first, -⟩, _, offset, last, -⟩
      exact ⟨first, last, offset⟩
    · rintro ⟨first, last, offset⟩
      exact ⟨⟨_, first, rfl⟩, _, offset, last, rfl⟩

theorem Placed.ofOffsets (h : Placed base offset elapsed) : ofOffsets base (some offset) elapsed =
    ⟨some ⟨base + offset⟩, some ⟨base + offset + elapsed⟩, elapsed⟩ := by
  have first := timestamp_eq_some.2 ⟨h.start, rfl⟩
  have last := timestampEnd_eq_some.2 ⟨h.offset, h.stop, rfl⟩
  simp only [Times.ofOffsets, Option.bind_some, first, last]

end Times

namespace Coding

open Times

/-- A start as a status has it. -/
def startSlot : Option Int → Raw
  | none => .null
  | some offset => .int offset

theorem asOptInt_startSlot (context : String) (start : Option Int) :
    (startSlot start).asOptInt context = .ok start := by
  cases start <;> rfl

/-- A status with a known code is taken or refused for its times. -/
theorem statusPart_eq (c : Coding) (context : String) {code : Raw} {status : Status}
    (coded : c.version.status code = .ok status) (start : Option Int) (elapsed : Int)
    (more : List Raw) :
    c.statusPart ⟨context, code :: startSlot start :: .int elapsed :: more⟩ =
      if inRange c.baseMillis start elapsed then
        .ok (status, ofOffsets c.baseMillis start elapsed, more.head?)
      else .error (.shape "status" (.timesOutOfRange start elapsed)) := by
  have message : (code :: startSlot start :: .int elapsed :: more)[3]? = more.head? := by
    cases more <;> rfl
  simp only [statusPart, Element.get, Element.int, Element.opt, List.getElem?_cons_zero,
    List.getElem?_cons_succ, message]
  change (c.version.status code >>= _) = _
  rw [coded]
  change ((startSlot start).asOptInt "status start" >>= _) = _
  rw [asOptInt_startSlot]
  rfl

/-- A status with a known code is taken exactly when it has no start, or start and end are instants and
the end has an offset of 64 bits; otherwise the error tells of the times. A status that is taken has
either no start and no end, or both at the milliseconds that the integers give. -/
theorem status_times_accepted_iff_placed (c : Coding) (context : String) {code : Raw}
    {status : Status} (coded : c.version.status code = .ok status) (start : Option Int)
    (elapsed : Int) (more : List Raw) :
    ((∃ taken, c.statusPart ⟨context, code :: startSlot start :: .int elapsed :: more⟩ = .ok taken) ↔
      ∀ offset, start = some offset → Placed c.baseMillis offset elapsed) ∧
    (∀ e, c.statusPart ⟨context, code :: startSlot start :: .int elapsed :: more⟩ = .error e →
      e = .shape "status" (.timesOutOfRange start elapsed)) ∧
    ∀ status' times message,
      c.statusPart ⟨context, code :: startSlot start :: .int elapsed :: more⟩ =
        .ok (status', times, message) →
      status' = status ∧ times.elapsed = elapsed ∧
      (start = none → times.start = none ∧ times.stop = none) ∧
      ∀ offset, start = some offset → ∃ first last : Instant,
        times.start = some first ∧ times.stop = some last ∧
        first.millis = c.baseMillis + offset ∧ last.millis - first.millis = elapsed := by
  rw [statusPart_eq c context coded]
  cases taken : inRange c.baseMillis start elapsed with
  | false =>
    have placed := mt inRange_iff.2 (Bool.eq_false_iff.1 taken)
    refine ⟨⟨?_, fun h => absurd h placed⟩, ?_, ?_⟩
    · rintro ⟨_, ⟨⟩⟩
    · rintro e ⟨⟩
      rfl
    · rintro status' times message ⟨⟩
  | true =>
    have placed := inRange_iff.1 taken
    refine ⟨⟨fun _ => placed, fun _ => ⟨_, rfl⟩⟩, ?_, ?_⟩
    · rintro e ⟨⟩
    · rintro status' times message ⟨⟩
      refine ⟨rfl, rfl, ?_, ?_⟩
      · rintro rfl
        exact ⟨rfl, rfl⟩
      · rintro offset rfl
        rw [(placed offset rfl).ofOffsets]
        refine ⟨_, _, rfl, rfl, rfl, ?_⟩
        change c.baseMillis + offset + elapsed - (c.baseMillis + offset) = elapsed
        omega

/-- A status that begins at the last offset of 64 bits and ends there. -/
theorem status_times_accepted_iff_placed_sample :
    Version.indexed.status (.int 1) = .ok .pass ∧
    ∃ taken, statusPart ⟨.indexed, -9223372036854775807, none⟩
      ⟨"suite", [.int 1, .int 9223372036854775807, .int 0]⟩ = .ok taken := by
  have coded : Version.indexed.status (.int 1) = .ok .pass := rfl
  refine ⟨coded, (status_times_accepted_iff_placed ⟨.indexed, -9223372036854775807, none⟩ "suite" coded
    (some 9223372036854775807) 0 []).1.2 ?_⟩
  rintro offset ⟨⟩
  exact ⟨by decide, by decide, by decide⟩

/-- A base near the least number of 64 bits and a start at the largest offset make an instant, and so
does the end one millisecond later. The status is refused, because the end has no offset of 64 bits. -/
theorem late_end_is_refused : ¬∀ base offset elapsed : Int,
    Json.fitsI64 base = true → Json.fitsI64 offset = true → Json.fitsI64 elapsed = true →
    Calendar.isRepresentable (base + offset) = true →
    Calendar.isRepresentable (base + offset + elapsed) = true →
    ∃ taken, statusPart ⟨.indexed, base, none⟩ ⟨"suite", [.int 1, .int offset, .int elapsed]⟩ =
      .ok taken := by
  intro takes
  obtain ⟨taken, h⟩ := takes (-9223372036854775807) 9223372036854775807 1 (by decide) (by decide)
    (by decide) (by decide) (by decide)
  cases h

end Coding

end RunReport
