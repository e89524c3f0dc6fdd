import Mathlib.Data.Int.ConditionallyCompleteOrder
import SqlServerMcp.ColumnTypes
import SqlServerMcp.IsoTexts

/-!
What the JSON text of a temporal cell says. The formatting library is taken to
print what its format specifiers are documented to print; every cell in the
range of its type is then shown by a text that denotes it and no other.
-/
namespace SqlServerMcp.TemporalTexts

open Calendar ColumnTypes FixedWidth IsoTexts JsonValue SqlType SqlValue

def civil (date : NaiveDate) : CivilDate := CivilDate.ofDayNumber date.val

/-- The format specifiers of the dates and times, leap seconds apart: year,
month and day; hour, minute and second; and the fraction of a second by threes.
The last one shows an instant at its offset. -/
structure ChronoFormats (lib : Libraries) : Prop where
  formatDate : ∀ date, lib.formatDate "%Y-%m-%d" date = String.ofList (isoDate (civil date))
  formatTime : ∀ time : NaiveTime, time.frac.val < 10 ^ 9 →
    lib.formatTime "%H:%M:%S%.f" time =
      String.ofList (isoTime time.secs.val.toNat time.frac.val.toNat)
  formatDateTime : ∀ dt : NaiveDateTime, dt.time.frac.val < 10 ^ 9 →
    lib.formatDateTime "%Y-%m-%dT%H:%M:%S%.f" dt =
      String.ofList (isoDateTime (civil dt.date) dt.time.secs.val.toNat dt.time.frac.val.toNat)
  formatDateTimeSeconds : ∀ dt : NaiveDateTime, dt.time.frac.val < 10 ^ 9 →
    lib.formatDateTime "%Y-%m-%dT%H:%M:%S" dt =
      String.ofList (isoDateTime (civil dt.date) dt.time.secs.val.toNat 0)
  toRfc3339 : ∀ dt : DateTimeFixed, dt.naiveUtc.date.val ∈ Set.Icc 1 3652059 →
    dt.naiveUtc.time.frac.val < 10 ^ 9 → dt.offset.val % 60 = 0 →
    lib.toRfc3339 dt =
      String.ofList (isoInstant dt.naiveUtc.date.val dt.naiveUtc.time.secs.val
        dt.naiveUtc.time.frac.val.toNat (dt.offset.val / 60))

def IsTemporal : ColumnType → Prop
  | .date | .time _ | .smallDateTime | .dateTime | .dateTime2 _ | .dateTimeOffset _ => True
  | _ => False

/-- The nanoseconds of a time since midnight. -/
def timeNanos (time : WireTime) : ℤ :=
  time.increments.val * 10 ^ (9 - time.scale.val.toNat)

/-- The day numbers and nanoseconds that a value of each type stands for. -/
def Denotes : (t : ColumnType) → t.Value → List Char → Prop
  | .date, (date : WireDate), l => DateText l (jan1Year1 + date.days.val)
  | .time _, (time : WireTime), l => TimeText l (timeNanos time)
  | .smallDateTime, (dt : WireSmallDateTime), l =>
    DateTimeText l (jan1Year1900 + dt.days.val) (dt.secondsFragments.val * 60 * 10 ^ 9)
  | .dateTime, (dt : WireDateTime), l =>
    DateTimeText l (jan1Year1900 + dt.days.val) (dt.secondsFragments.val * 10 ^ 9 / 300)
  | .dateTime2 _, (dt2 : WireDateTime2), l =>
    DateTimeText l (jan1Year1 + dt2.date.days.val) (timeNanos dt2.time)
  | .dateTimeOffset _, (dto : WireDateTimeOffset), l =>
    InstantText l ((jan1Year1 + dto.datetime2.date.days.val) * nanosPerDay +
      timeNanos dto.datetime2.time) dto.offset.val
  | _, _, _ => False

section Parts

theorem timeText_of_nanos (time : NaiveTime) (h : time.frac.val < 10 ^ 9) :
    TimeText (isoTime time.secs.val.toNat time.frac.val.toNat)
      (time.secs.val * 10 ^ 9 + time.frac.val) := by
  have hsecs := time.secs.lower
  have hsecs' := time.secs.upper
  have hfrac := time.frac.lower
  have htext := @timeText_isoTime time.secs.val.toNat time.frac.val.toNat (by omega) (by omega)
  rwa [Int.toNat_of_nonneg hsecs, Int.toNat_of_nonneg hfrac] at htext

theorem dateText_civil (date : NaiveDate) : DateText (isoDate (civil date)) date.val := by
  have htext := dateText_isoDate (civil date)
  rwa [civil, CivilDate.dayNumber_ofDayNumber] at htext

theorem dateTimeText_of_nanos (dt : NaiveDateTime) (h : dt.time.frac.val < 10 ^ 9) :
    DateTimeText (isoDateTime (civil dt.date) dt.time.secs.val.toNat dt.time.frac.val.toNat)
      dt.date.val (dt.time.secs.val * 10 ^ 9 + dt.time.frac.val) :=
  ⟨_, _, rfl, dateText_civil dt.date, timeText_of_nanos dt.time h⟩

/-- A time in range is read as its nanoseconds, in whole seconds and a rest. -/
theorem timeOfDay_nanos {overflowChecks : Bool} {scale : RangedInt 0 8} {time : WireTime}
    {naive : NaiveTime} (h : TimeInRange scale time)
    (hnaive : timeOfDay overflowChecks time.increments time.scale = .ok naive) :
    naive.secs.val * 10 ^ 9 + naive.frac.val = timeNanos time ∧
      naive.frac.val < 10 ^ 9 := by
  obtain ⟨hlower, hupper⟩ := nanos_mem_day h
  obtain rfl := Except.ok.inj (hnaive.symm.trans (timeOfDay_eq_ok overflowChecks h))
  refine ⟨?_, midnightPlus_frac_lt _⟩
  rw [midnightPlus_nanos hlower hupper, timeNanos, h.1]

theorem timeNanos_injective {scale : RangedInt 0 8} {a b : WireTime} (ha : TimeInRange scale a)
    (hb : TimeInRange scale b) (h : timeNanos a = timeNanos b) : a = b := by
  have hunit : (10 : ℤ) ^ (9 - a.scale.val.toNat) ≠ 0 := by positivity
  have hscale : a.scale = b.scale := RangedInt.ext (ha.1.trans hb.1.symm)
  rw [timeNanos, timeNanos, ← hscale] at h
  have hincrements : a.increments = b.increments := RangedInt.ext (mul_right_cancel₀ hunit h)
  cases a
  cases b
  simp only [WireTime.mk.injEq]
  exact ⟨hincrements, hscale⟩

end Parts

section Shown

variable {lib : Libraries} (hlib : ChronoFormats lib)
include hlib

theorem date_denoted {date : WireDate} (h : DateInRange date) :
    ∃ text, temporalToJson lib (.date (some date)) = .ok (.str text) ∧
      DateText text.toList (jan1Year1 + date.days.val) := by
  obtain ⟨naive, hnaive, hshown⟩ := date_shown lib h
  refine ⟨_, hshown, ?_⟩
  rw [hlib.formatDate, String.toList_ofList, ← daysToDate_val hnaive]
  exact dateText_civil naive

theorem time_denoted {scale : RangedInt 0 8} {time : WireTime} (h : TimeInRange scale time) :
    ∃ text, temporalToJson lib (.time (some time)) = .ok (.str text) ∧
      TimeText text.toList (timeNanos time) := by
  obtain ⟨naive, hnaive, hfrac, hshown⟩ := time_shown lib h
  refine ⟨_, hshown, ?_⟩
  rw [hlib.formatTime naive hfrac, String.toList_ofList, ← (timeOfDay_nanos h hnaive).1]
  exact timeText_of_nanos naive hfrac

theorem smallDateTime_denoted {dt : WireSmallDateTime} (h : SmallDateTimeInRange dt) :
    ∃ text, temporalToJson lib (.smallDateTime (some dt)) = .ok (.str text) ∧
      DateTimeText text.toList (jan1Year1900 + dt.days.val)
        (dt.secondsFragments.val * 60 * 10 ^ 9) := by
  obtain ⟨date, hdate, hshown⟩ := smallDateTime_shown lib dt
  refine ⟨_, hshown, ?_⟩
  have hlower := dt.secondsFragments.lower
  have hupper : dt.secondsFragments.val < 24 * 60 := h
  generalize hns : dt.secondsFragments.val * 60 * 10 ^ 9 = ns at hshown ⊢
  have hnanos : (midnightPlus ns).secs.val * 10 ^ 9 + (midnightPlus ns).frac.val = ns :=
    midnightPlus_nanos (by omega) (by unfold nanosPerDay; omega)
  have hwhole : (midnightPlus ns).frac.val = 0 := by
    show ns % 10 ^ 9 = 0
    omega
  have htext := dateTimeText_of_nanos ⟨date, midnightPlus ns⟩ (midnightPlus_frac_lt ns)
  rw [hlib.formatDateTimeSeconds _ (midnightPlus_frac_lt ns), String.toList_ofList,
    ← daysToDate_val hdate]
  dsimp only at htext ⊢
  rwa [hnanos, hwhole] at htext

theorem dateTime_denoted {dt : WireDateTime} (h : DateTimeInRange dt) :
    ∃ text, temporalToJson lib (.dateTime (some dt)) = .ok (.str text) ∧
      DateTimeText text.toList (jan1Year1900 + dt.days.val)
        (dt.secondsFragments.val * 10 ^ 9 / 300) := by
  obtain ⟨date, hdate, hshown⟩ := dateTime_shown lib h
  refine ⟨_, hshown, ?_⟩
  have hlower := dt.secondsFragments.lower
  have hupper := h.2.2
  generalize hns : dt.secondsFragments.val * 10 ^ 9 / 300 = ns at hshown ⊢
  have hnanos : (midnightPlus ns).secs.val * 10 ^ 9 + (midnightPlus ns).frac.val = ns :=
    midnightPlus_nanos (by omega) (by unfold nanosPerDay; omega)
  have htext := dateTimeText_of_nanos ⟨date, midnightPlus ns⟩ (midnightPlus_frac_lt ns)
  rw [hlib.formatDateTime _ (midnightPlus_frac_lt ns), String.toList_ofList,
    ← daysToDate_val hdate]
  dsimp only at htext ⊢
  rwa [hnanos] at htext

theorem dateTime2_denoted {scale : RangedInt 0 8} {dt2 : WireDateTime2}
    (h : DateTime2InRange scale dt2) :
    ∃ text, temporalToJson lib (.dateTime2 (some dt2)) = .ok (.str text) ∧
      DateTimeText text.toList (jan1Year1 + dt2.date.days.val) (timeNanos dt2.time) := by
  obtain ⟨naive, hnaive, hfrac, hshown⟩ := dateTime2_shown lib h
  obtain ⟨hdate, htime⟩ := dateTime2_parts lib hnaive
  refine ⟨_, hshown, ?_⟩
  rw [hlib.formatDateTime naive hfrac, String.toList_ofList, ← daysToDate_val hdate,
    ← (timeOfDay_nanos h.2 htime).1]
  exact dateTimeText_of_nanos naive hfrac

theorem dateTimeOffset_denoted {scale : RangedInt 0 8} {dto : WireDateTimeOffset}
    (h : DateTime2InRange scale dto.datetime2) (hlower : -1440 < dto.offset.val)
    (hupper : dto.offset.val < 1440) :
    ∃ text, temporalToJson lib (.dateTimeOffset (some dto)) = .ok (.str text) ∧
      InstantText text.toList ((jan1Year1 + dto.datetime2.date.days.val) * nanosPerDay +
        timeNanos dto.datetime2.time) dto.offset.val := by
  obtain ⟨dt, hnaive, hfrac, hoffset, hshown⟩ := dateTimeOffset_shown lib h hlower hupper
  obtain ⟨hdate, htime⟩ := dateTime2_parts lib hnaive
  have hday := daysToDate_val hdate
  obtain ⟨hnanos, -⟩ := timeOfDay_nanos h.2 htime
  have hdays := dto.datetime2.date.days.lower
  have hdays' : dto.datetime2.date.days.val < 3652059 := h.1
  have hfrac' := dt.naiveUtc.time.frac.lower
  refine ⟨_, hshown, ?_⟩
  have hmem : dt.naiveUtc.date.val ∈ Set.Icc 1 3652059 := by
    rw [hday, jan1Year1, Set.mem_Icc]
    omega
  have hminutes : dt.offset.val / 60 = dto.offset.val := by omega
  rw [hlib.toRfc3339 dt hmem hfrac (by omega), String.toList_ofList, hminutes, ← hday, ← hnanos]
  have htext := @instantText_isoInstant dt.naiveUtc.date.val dt.naiveUtc.time.secs.val
    dt.naiveUtc.time.frac.val.toNat dto.offset.val (by omega) (by omega)
  rwa [Int.toNat_of_nonneg hfrac', add_assoc] at htext

/-- A temporal value in range is shown by a text that denotes it. -/
theorem value_denoted {t : ColumnType} (ht : IsTemporal t) {v : t.Value} (h : t.InRange v) :
    ∃ text, temporalToJson lib (t.cell (some v)) = .ok (.str text) ∧
      Denotes t v text.toList := by
  cases t with
  | dateTime => exact dateTime_denoted hlib h
  | smallDateTime => exact smallDateTime_denoted hlib h
  | time scale => exact time_denoted hlib h
  | date => exact date_denoted hlib h
  | dateTime2 scale => exact dateTime2_denoted hlib h
  | dateTimeOffset scale =>
    obtain ⟨hlower, hupper⟩ := DateTimeOffsetInRange.offset_lt h
    exact dateTimeOffset_denoted hlib h.1 hlower hupper
  | _ => exact ht.elim

end Shown

section Unique

theorem dateTime2_unique {scale : RangedInt 0 8} {a b : WireDateTime2}
    (ha : DateTime2InRange scale a) (hb : DateTime2InRange scale b)
    (hdays : a.date.days.val = b.date.days.val)
    (hnanos : timeNanos a.time = timeNanos b.time) : a = b := by
  have htimes := timeNanos_injective ha.2 hb.2 hnanos
  obtain ⟨⟨days⟩, time⟩ := a
  obtain ⟨⟨days'⟩, time'⟩ := b
  simp only [WireDateTime2.mk.injEq, WireDate.mk.injEq]
  exact ⟨RangedInt.ext hdays, htimes⟩

theorem dateTimeOffset_unique {scale : RangedInt 0 8} {a b : WireDateTimeOffset}
    (ha : DateTimeOffsetInRange scale a) (hb : DateTimeOffsetInRange scale b) {l : List Char}
    (h : Denotes (.dateTimeOffset scale) a l) (h' : Denotes (.dateTimeOffset scale) b l) :
    a = b := by
  obtain ⟨hutc, hminutes⟩ := instantText_unique h h'
  have hday : ∀ dto, DateTimeOffsetInRange scale dto →
      0 ≤ timeNanos dto.datetime2.time ∧ timeNanos dto.datetime2.time < nanosPerDay := by
    intro dto hdto
    have hnanos := nanos_mem_day hdto.1.2
    rwa [← hdto.1.2.1] at hnanos
  have hbounds := hday a ha
  have hbounds' := hday b hb
  unfold nanosPerDay at hutc hbounds hbounds'
  have hdatetime2 : a.datetime2 = b.datetime2 :=
    dateTime2_unique ha.1 hb.1 (by omega) (by omega)
  cases a
  cases b
  simp only [WireDateTimeOffset.mk.injEq]
  exact ⟨hdatetime2, RangedInt.ext hminutes⟩

theorem smallDateTime_unique {a b : WireSmallDateTime} {l : List Char}
    (h : Denotes .smallDateTime a l) (h' : Denotes .smallDateTime b l) : a = b := by
  obtain ⟨hdays, hnanos⟩ := dateTimeText_unique h h'
  have hdays' : a.days.val = b.days.val := by omega
  have hminutes : a.secondsFragments.val = b.secondsFragments.val := by omega
  cases a
  cases b
  exact congrArg₂ WireSmallDateTime.mk (RangedInt.ext hdays') (RangedInt.ext hminutes)

/-- The units of a 300th of a second are further apart than a nanosecond. -/
theorem dateTime_unique {a b : WireDateTime} {l : List Char} (h : Denotes .dateTime a l)
    (h' : Denotes .dateTime b l) : a = b := by
  obtain ⟨hdays, hnanos⟩ := dateTimeText_unique h h'
  have hdays' : a.days.val = b.days.val := by omega
  have hfragments : a.secondsFragments.val = b.secondsFragments.val := by omega
  cases a
  cases b
  exact congrArg₂ WireDateTime.mk (RangedInt.ext hdays') (RangedInt.ext hfragments)

/-- A text denotes one value of a type at most. -/
theorem denotes_unique {t : ColumnType} {v w : t.Value} {l : List Char} (hv : t.InRange v)
    (hw : t.InRange w) (h : Denotes t v l) (h' : Denotes t w l) : v = w := by
  cases t with
  | date =>
    have hdays := add_left_cancel (dateText_unique h h')
    exact congrArg WireDate.mk (RangedInt.ext hdays)
  | time scale => exact timeNanos_injective hv hw (timeText_unique h h')
  | smallDateTime => exact smallDateTime_unique h h'
  | dateTime => exact dateTime_unique h h'
  | dateTime2 scale =>
    obtain ⟨hdays, hnanos⟩ := dateTimeText_unique h h'
    exact dateTime2_unique hv hw (add_left_cancel hdays) hnanos
  | dateTimeOffset scale => exact dateTimeOffset_unique hv hw h h'
  | _ => exact h.elim

end Unique

/-- A temporal value in the range of its type is rendered without a panic, by a
text that denotes it exactly, and by no text that renders another value. -/
theorem temporalToJson_exact (lib : Libraries) (hlib : ChronoFormats lib) (t : ColumnType)
    (ht : IsTemporal t) :
    (∀ v, t.InRange v → ∃ text, temporalToJson lib (t.cell (some v)) = .ok (.str text) ∧
      Denotes t v text.toList) ∧
    ∀ v w, t.InRange v → t.InRange w →
      temporalToJson lib (t.cell (some v)) = temporalToJson lib (t.cell (some w)) → v = w := by
  refine ⟨fun v hv => value_denoted hlib ht hv, ?_⟩
  intro v w hv hw heq
  obtain ⟨text, htext, hdenotes⟩ := value_denoted hlib ht hv
  obtain ⟨text', htext', hdenotes'⟩ := value_denoted hlib ht hw
  rw [htext, htext'] at heq
  obtain rfl := Json.str.inj (Except.ok.inj heq)
  exact denotes_unique hv hw hdenotes hdenotes'

/-- Libraries that print dates and times as their formats are documented. -/
def isoLibraries : Libraries :=
  { numericLibraries with
    formatDate _ date := String.ofList (isoDate (civil date))
    formatTime _ time := String.ofList (isoTime time.secs.val.toNat time.frac.val.toNat)
    formatDateTime format dt :=
      String.ofList (isoDateTime (civil dt.date) dt.time.secs.val.toNat
        (if format = "%Y-%m-%dT%H:%M:%S" then 0 else dt.time.frac.val.toNat))
    toRfc3339 dt :=
      String.ofList (isoInstant dt.naiveUtc.date.val dt.naiveUtc.time.secs.val
        dt.naiveUtc.time.frac.val.toNat (dt.offset.val / 60)) }

theorem isoLibraries_formats : ChronoFormats isoLibraries where
  formatDate _ := rfl
  formatTime _ _ := rfl
  formatDateTime _ _ := rfl
  formatDateTimeSeconds _ _ := rfl
  toRfc3339 _ _ _ _ := rfl

def fullScale : RangedInt 0 8 := ⟨7, by norm_num, by norm_num⟩

/-- The first midnight that there is, shown 14 hours west of it. -/
def firstInstant : WireDateTimeOffset :=
  ⟨⟨firstDay, midnight fullScale⟩, ⟨-840, by norm_num, by norm_num⟩⟩

theorem temporalToJson_exact_firstInstant :
    ∃ text, temporalToJson isoLibraries (.dateTimeOffset (some firstInstant)) =
        .ok (.str text) ∧
      Denotes (.dateTimeOffset fullScale) firstInstant text.toList :=
  (temporalToJson_exact isoLibraries isoLibraries_formats (.dateTimeOffset fullScale)
    trivial).1 firstInstant
    ⟨⟨firstDay_inRange, midnight_inRange _⟩, by norm_num [firstInstant],
      by norm_num [firstInstant]⟩

end SqlServerMcp.TemporalTexts
