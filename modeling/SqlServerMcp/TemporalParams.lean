import SqlServerMcp.TemporalTexts

/-!
A temporal argument, from its text through the parameter it is bound as and the
value the driver encodes to the text that value is shown by. The parsing library
resolves the fields of a text as it is documented to; nothing between it and the
driver bounds the year or the leap second.
-/
namespace SqlServerMcp.TemporalParams

open Calendar ColumnTypes FixedWidth IsoTexts JsonValue Results SqlType SqlValue TemporalTexts

/-- A time of day as a text gives it. Second 60 is a leap second. -/
structure Clock where
  hour : ℕ
  minute : ℕ
  second : ℕ
  nanos : ℕ
  hour_lt : hour < 24
  minute_lt : minute < 60
  second_le : second ≤ 60
  nanos_lt : nanos < 10 ^ 9

namespace Clock

/-- A leap second counts from the second before it. -/
def secs (c : Clock) : ℤ := (c.hour * 60 + c.minute) * 60 + min c.second 59

def frac (c : Clock) : ℤ := c.nanos + if c.second = 60 then 10 ^ 9 else 0

def instant (c : Clock) : ℤ := c.secs * 10 ^ 9 + c.frac

end Clock

/-- A date and time as a text gives them, and its offset in minutes: 0 in a text
that has none. -/
structure Zoned where
  date : CivilDate
  clock : Clock
  offset : ℤ

namespace Zoned

/-- The second in UTC, from the midnight before day 0 on. -/
def utcSecs (z : Zoned) : ℤ := z.date.dayNumber * 86400 + z.clock.secs - z.offset * 60

def instant (z : Zoned) : ℤ := z.utcSecs * 10 ^ 9 + z.clock.frac

def utcDate (z : Zoned) : CivilDate := CivilDate.ofDayNumber (z.utcSecs / 86400)

end Zoned

/-- The fields that the specifiers of the formats find in a text. -/
structure Fields where
  date : String → Option CivilDate
  clock : String → Option Clock
  zoned : String → Option Zoned

/-- The parsers resolve the fields of a text: the year may be any, a second 60
is kept as the nanoseconds from 10^9 on, and a text with an offset is moved to
UTC by it. -/
structure ChronoParses (lib : Libraries) (fields : Fields) : Prop where
  parseDate : ∀ s date, lib.parseDate "%Y-%m-%d" s = .ok date →
    ∃ d, fields.date s = some d ∧ date.val = d.dayNumber
  parseTime : ∀ format ∈ ["%H:%M:%S%.f", "%H:%M:%S", "%H:%M"], ∀ s time,
    lib.parseTime format s = .ok time →
      ∃ c, fields.clock s = some c ∧ time.secs.val = c.secs ∧ time.frac.val = c.frac
  parseDateTime : ∀ s dt, lib.parseDateTime "%Y-%m-%dT%H:%M:%S%.f" s = .ok dt →
    ∃ z, fields.zoned s = some z ∧ z.offset = 0 ∧ dt.date.val = z.date.dayNumber ∧
      dt.time.secs.val = z.clock.secs ∧ dt.time.frac.val = z.clock.frac
  parseRfc3339 : ∀ s dt, lib.parseRfc3339 s = .ok dt →
    ∃ z, fields.zoned s = some z ∧ dt.offset.val = z.offset * 60 ∧
      dt.naiveUtc.date.val * 86400 + dt.naiveUtc.time.secs.val = z.utcSecs ∧
      dt.naiveUtc.time.frac.val = z.clock.frac

section Encoding

def nanosOf (time : NaiveTime) : ℤ := time.secs.val * 10 ^ 9 + time.frac.val

/-- The days since the first of January of year 1, cast to 32 bits and asserted
to fit 24. -/
def encodeDate (date : NaiveDate) : Except Fault WireDate :=
  if h : (date.val - jan1Year1) % 2 ^ 32 < 2 ^ 24 then
    .ok ⟨⟨(date.val - jan1Year1) % 2 ^ 32, by omega, by omega⟩⟩
  else .error (.panic "assertion failed: days >> 24 == 0")

/-- Not every date out of the calendar panics: those of the years from 10000 on
that still fit are sent. -/
theorem encodeDate_panics_iff (date : NaiveDate) :
    (∃ message, encodeDate date = .error (.panic message)) ↔
      date.val < 1 ∨ 2 ^ 24 < date.val := by
  have hlower := date.lower
  have hupper := date.upper
  unfold encodeDate jan1Year1
  split
  · refine iff_of_false (by simp) ?_
    omega
  · refine iff_of_true ⟨_, rfl⟩ ?_
    omega

theorem scale7_lower : (0 : ℤ) ≤ 7 := by norm_num

theorem scale7_upper : (7 : ℤ) < 8 := by norm_num

/-- Units of 100 nanoseconds, which is scale 7. -/
def encodeTime (time : NaiveTime) : WireTime where
  increments := ⟨nanosOf time / 100, by
    have hsecs := time.secs.lower
    have hfrac := time.frac.lower
    unfold nanosOf
    omega, by
    have hsecs := time.secs.upper
    have hfrac := time.frac.upper
    unfold nanosOf
    omega⟩
  scale := ⟨7, scale7_lower, by norm_num⟩

def encodeDateTime2 (dt : NaiveDateTime) : Except Fault WireDateTime2 := do
  let date ← encodeDate dt.date
  .ok ⟨date, encodeTime dt.time⟩

/-- The minutes of an offset, rounded towards zero. -/
def encodeOffset (offset : FixedOffset) : I16 where
  val := if 0 ≤ offset.val then offset.val / 60 else -(-offset.val / 60)
  lower := by
    have hlower := offset.lower
    split <;> omega
  upper := by
    have hupper := offset.upper
    split <;> omega

/-- What the driver makes of the temporal parameters. -/
structure TiberiusEncodes (toSql : BoundParam → Except Fault ColumnData) : Prop where
  naiveDate : ∀ date, toSql (.naiveDate (some date)) =
    (encodeDate date).map fun wire => .date (some wire)
  naiveTime : ∀ time, toSql (.naiveTime (some time)) = .ok (.time (some (encodeTime time)))
  naiveDateTime : ∀ dt, toSql (.naiveDateTime (some dt)) =
    (encodeDateTime2 dt).map fun wire => .dateTime2 (some wire)
  dateTime : ∀ dt, toSql (.dateTime (some dt)) =
    (encodeDateTime2 dt.naiveUtc).map fun wire =>
      .dateTimeOffset (some ⟨wire, encodeOffset dt.offset⟩)

end Encoding

section Holdable

/-- The dates of the server have the years 1 to 9999. -/
def HoldableDate (date : NaiveDate) : Prop := 1 ≤ (civil date).year ∧ (civil date).year ≤ 9999

/-- The times of the server are less than a day. -/
def HoldableTime (time : NaiveTime) : Prop := nanosOf time < nanosPerDay

def HoldableDateTime (dt : NaiveDateTime) : Prop := HoldableDate dt.date ∧ HoldableTime dt.time

def Holdable : BoundParam → Prop
  | .naiveDate (some date) => HoldableDate date
  | .naiveTime (some time) => HoldableTime time
  | .naiveDateTime (some dt) => HoldableDateTime dt
  | .dateTime (some dt) => HoldableDateTime dt.naiveUtc
  | _ => False

theorem holdableDate_iff (date : NaiveDate) :
    HoldableDate date ↔ 1 ≤ date.val ∧ date.val ≤ 3652059 := by
  have hyears := @CivilDate.dayNumber_mem_iff (civil date) 1 9999
  have hfirst : daysBeforeYear 1 = 0 := rfl
  have hlast : daysBeforeYear (9999 + 1) = 3652059 := rfl
  rw [hfirst, hlast, civil, CivilDate.dayNumber_ofDayNumber] at hyears
  rw [HoldableDate, civil, ← hyears]
  omega

theorem encodeDate_of_holdable {date : NaiveDate} (h : HoldableDate date) :
    ∃ wire, encodeDate date = .ok wire ∧ jan1Year1 + wire.days.val = date.val ∧
      DateInRange wire := by
  obtain ⟨hlower, hupper⟩ := (holdableDate_iff date).mp h
  have hdays : (date.val - jan1Year1) % 2 ^ 32 = date.val - jan1Year1 := by
    unfold jan1Year1
    omega
  have hsmall : (date.val - jan1Year1) % 2 ^ 32 < 2 ^ 24 := by
    rw [hdays, jan1Year1]
    omega
  refine ⟨_, dif_pos hsmall, ?_, ?_⟩
  · dsimp only
    omega
  · show (date.val - jan1Year1) % 2 ^ 32 < 3652059
    rw [hdays, jan1Year1]
    omega

/-- The instant of a count of nanoseconds, cut to 100 of them. -/
def truncated (ns : ℤ) : ℤ := ns / 100 * 100

def scale7 : RangedInt 0 8 := ⟨7, scale7_lower, scale7_upper⟩

theorem timeNanos_encodeTime (time : NaiveTime) :
    timeNanos (encodeTime time) = truncated (nanosOf time) := rfl

theorem encodeTime_inRange {time : NaiveTime} (h : HoldableTime time) :
    TimeInRange scale7 (encodeTime time) := by
  refine ⟨rfl, ?_⟩
  unfold HoldableTime nanosPerDay at h
  show nanosOf time / 100 < 86400 * 10 ^ 7
  omega

theorem encodeDateTime2_of_holdable {dt : NaiveDateTime} (h : HoldableDateTime dt) :
    ∃ wire, encodeDateTime2 dt = .ok wire ∧ DateTime2InRange scale7 wire ∧
      jan1Year1 + wire.date.days.val = dt.date.val ∧
      timeNanos wire.time = truncated (nanosOf dt.time) := by
  obtain ⟨date, hdate, hdays, hrange⟩ := encodeDate_of_holdable h.1
  refine ⟨⟨date, encodeTime dt.time⟩, ?_, ⟨hrange, encodeTime_inRange h.2⟩, hdays,
    timeNanos_encodeTime dt.time⟩
  rw [encodeDateTime2, hdate, ok_bind]

theorem encodeOffset_bounds (offset : FixedOffset) :
    -1440 < (encodeOffset offset).val ∧ (encodeOffset offset).val < 1440 := by
  have hlower := offset.lower
  have hupper := offset.upper
  show -1440 < (if 0 ≤ offset.val then offset.val / 60 else -(-offset.val / 60)) ∧
    (if 0 ≤ offset.val then offset.val / 60 else -(-offset.val / 60)) < 1440
  split <;> omega

theorem encodeOffset_of_minutes {offset : FixedOffset} {minutes : ℤ}
    (h : offset.val = minutes * 60) : (encodeOffset offset).val = minutes := by
  show (if 0 ≤ offset.val then offset.val / 60 else -(-offset.val / 60)) = minutes
  split <;> omega

end Holdable

section Shown

variable {lib : Libraries} {toSql : BoundParam → Except Fault ColumnData}

/-- A parameter is encoded without a panic, and what is encoded is shown by a
text with the property. -/
def ShownBy (lib : Libraries) (toSql : BoundParam → Except Fault ColumnData) (p : BoundParam)
    (Property : List Char → Prop) : Prop :=
  ∃ data, toSql p = .ok data ∧
    ∃ text, columnDataToJson lib data = .ok (.str text) ∧ Property text.toList

variable (hformats : ChronoFormats lib) (hencodes : TiberiusEncodes toSql)
include hformats hencodes

theorem date_shownBy {date : NaiveDate} (h : HoldableDate date) :
    ShownBy lib toSql (.naiveDate (some date)) fun l => DateText l date.val := by
  obtain ⟨wire, hwire, hdays, hrange⟩ := encodeDate_of_holdable h
  refine ⟨.date (some wire), by rw [hencodes.naiveDate, hwire]; rfl, ?_⟩
  rw [← hdays]
  exact date_denoted hformats hrange

theorem time_shownBy {time : NaiveTime} (h : HoldableTime time) :
    ShownBy lib toSql (.naiveTime (some time)) fun l => TimeText l (truncated (nanosOf time)) :=
  ⟨_, hencodes.naiveTime time, time_denoted hformats (encodeTime_inRange h)⟩

theorem dateTime_shownBy {dt : NaiveDateTime} (h : HoldableDateTime dt) :
    ShownBy lib toSql (.naiveDateTime (some dt)) fun l =>
      DateTimeText l dt.date.val (truncated (nanosOf dt.time)) := by
  obtain ⟨wire, hwire, hrange, hdays, hnanos⟩ := encodeDateTime2_of_holdable h
  refine ⟨.dateTime2 (some wire), by rw [hencodes.naiveDateTime, hwire]; rfl, ?_⟩
  rw [← hdays, ← hnanos]
  exact dateTime2_denoted hformats hrange

theorem dateTimeOffset_shownBy {dt : DateTimeFixed} (h : HoldableDateTime dt.naiveUtc)
    {minutes : ℤ} (hminutes : dt.offset.val = minutes * 60) :
    ShownBy lib toSql (.dateTime (some dt)) fun l =>
      InstantText l (dt.naiveUtc.date.val * nanosPerDay + truncated (nanosOf dt.naiveUtc.time))
        minutes := by
  obtain ⟨wire, hwire, hrange, hdays, hnanos⟩ := encodeDateTime2_of_holdable h
  refine ⟨.dateTimeOffset (some ⟨wire, encodeOffset dt.offset⟩),
    by rw [hencodes.dateTime, hwire]; rfl, ?_⟩
  obtain ⟨hlower, hupper⟩ := encodeOffset_bounds dt.offset
  rw [← hdays, ← hnanos, ← encodeOffset_of_minutes hminutes]
  exact dateTimeOffset_denoted hformats hrange hlower hupper

end Shown

section Accepted

/-- The types of the temporal arguments, by how their texts are read. -/
inductive TemporalType where
  | date
  | time
  | dateTime
  | dateTimeOffset

/-- The base names of the SQL types. -/
def TemporalType.names : TemporalType → List String
  | .date => ["date"]
  | .time => ["time"]
  | .dateTime => ["datetime", "datetime2", "smalldatetime"]
  | .dateTimeOffset => ["datetimeoffset"]

/-- How a parameter stands for the fields of the text it is bound from. -/
def Binds (fields : Fields) (s : String) : TemporalType → BoundParam → Prop
  | .date, p => ∃ date d, p = .naiveDate (some date) ∧ fields.date s = some d ∧
      date.val = d.dayNumber
  | .time, p => ∃ time c, p = .naiveTime (some time) ∧ fields.clock s = some c ∧
      time.secs.val = c.secs ∧ time.frac.val = c.frac
  | .dateTime, p => ∃ dt z, p = .naiveDateTime (some dt) ∧ fields.zoned s = some z ∧
      dt.date.val * 86400 + dt.time.secs.val = z.utcSecs ∧ dt.time.frac.val = z.clock.frac
  | .dateTimeOffset, p => ∃ dt z, p = .dateTime (some dt) ∧ fields.zoned s = some z ∧
      dt.naiveUtc.date.val * 86400 + dt.naiveUtc.time.secs.val = z.utcSecs ∧
      dt.naiveUtc.time.frac.val = z.clock.frac ∧ dt.offset.val = z.offset * 60

theorem parsedValue_str_eq_ok {A : Type} {lib : Libraries} {parse : String → Except String A}
    {s xSqlType : String} {value : Option A}
    (h : parsedValue lib parse (.str s) xSqlType = .ok value) :
    ∃ a, parse s = .ok a ∧ value = some a := by
  have hvalue : stringValue lib (.str s) xSqlType = .ok (some s) := rfl
  cases hparse : parse s with
  | error err =>
    have hstr : parsedValue lib parse (.str s) xSqlType = .error (.error err) := by
      simp only [parsedValue, hvalue, Results.ok_bind, hparse]
    rw [hstr] at h
    contradiction
  | ok a =>
    have hstr : parsedValue lib parse (.str s) xSqlType = .ok (some a) := by
      simp only [parsedValue, hvalue, Results.ok_bind, hparse]
    rw [hstr] at h
    exact ⟨a, rfl, (Except.ok.inj h).symm⟩

theorem parsedParam_str_eq_ok {A : Type} {lib : Libraries} {parse : String → Except String A}
    {s xSqlType : String} {bind : Option A → BoundParam} {p : BoundParam}
    (h : (parsedValue lib parse (.str s) xSqlType).map bind = .ok p) :
    ∃ a, parse s = .ok a ∧ p = bind (some a) := by
  obtain ⟨value, hvalue, rfl⟩ := (map_eq_ok _ _ _).mp h
  obtain ⟨a, hparse, rfl⟩ := parsedValue_str_eq_ok hvalue
  exact ⟨a, hparse, rfl⟩

theorem parseNaiveTime_eq_ok {lib : Libraries} {s : String} {time : NaiveTime}
    (h : parseNaiveTime lib s = .ok time) :
    ∃ format ∈ ["%H:%M:%S%.f", "%H:%M:%S", "%H:%M"], lib.parseTime format s = .ok time := by
  unfold parseNaiveTime at h
  split at h
  · rename_i found hfound
    obtain rfl := Except.ok.inj h
    obtain ⟨format, hmem, hparse⟩ := List.exists_of_findSome?_eq_some hfound
    refine ⟨format, hmem, ?_⟩
    cases hread : lib.parseTime format s with
    | error err =>
      rw [hread] at hparse
      contradiction
    | ok t =>
      rw [hread] at hparse
      rw [Option.some.inj hparse]
  · contradiction

theorem parseNaiveDatetime_eq_ok {lib : Libraries} {s : String} {dt : NaiveDateTime}
    (h : parseNaiveDatetime lib s = .ok dt) :
    lib.parseDateTime "%Y-%m-%dT%H:%M:%S%.f" s = .ok dt ∨
      ∃ zoned, lib.parseRfc3339 s = .ok zoned ∧ zoned.naiveUtc = dt := by
  unfold parseNaiveDatetime at h
  split at h
  · rename_i found hfound
    rw [Except.ok.inj h] at hfound
    exact Or.inl hfound
  · split at h
    · rename_i zoned hzoned
      exact Or.inr ⟨zoned, hzoned, Except.ok.inj h⟩
    · contradiction

/-- The parser that a temporal type is read with, and the parameter it binds. -/
theorem jsonToParam_temporal (lib : Libraries) (value : Json) {xSqlType : String}
    {type : TemporalType} (h : baseType xSqlType ∈ type.names) :
    jsonToParam lib value xSqlType =
      match type with
      | .date => (parsedValue lib (lib.parseDate "%Y-%m-%d") value xSqlType).map .naiveDate
      | .time => (parsedValue lib (parseNaiveTime lib) value xSqlType).map .naiveTime
      | .dateTime =>
        (parsedValue lib (parseNaiveDatetime lib) value xSqlType).map .naiveDateTime
      | .dateTimeOffset => (parsedValue lib lib.parseRfc3339 value xSqlType).map .dateTime := by
  unfold jsonToParam
  cases type with
  | date =>
    have hbase := List.mem_singleton.mp h
    simp only [hbase]
  | time =>
    have hbase := List.mem_singleton.mp h
    simp only [hbase]
  | dateTime =>
    rcases List.mem_cons.mp h with hbase | hrest
    · simp only [hbase]
    · rcases List.mem_pair.mp hrest with hbase | hbase
      · simp only [hbase]
      · simp only [hbase]
  | dateTimeOffset =>
    have hbase := List.mem_singleton.mp h
    simp only [hbase]

variable {lib : Libraries} {fields : Fields} (hparses : ChronoParses lib fields)
include hparses

theorem utc_of_parseNaiveDatetime {s : String} {dt : NaiveDateTime}
    (h : parseNaiveDatetime lib s = .ok dt) :
    ∃ z, fields.zoned s = some z ∧ dt.date.val * 86400 + dt.time.secs.val = z.utcSecs ∧
      dt.time.frac.val = z.clock.frac := by
  rcases parseNaiveDatetime_eq_ok h with hplain | ⟨zoned, hzoned, rfl⟩
  · obtain ⟨z, hz, hoffset, hdate, hsecs, hfrac⟩ := hparses.parseDateTime s dt hplain
    refine ⟨z, hz, ?_, hfrac⟩
    rw [Zoned.utcSecs, hoffset, hdate, hsecs]
    omega
  · obtain ⟨z, hz, -, hutc, hfrac⟩ := hparses.parseRfc3339 s zoned hzoned
    exact ⟨z, hz, hutc, hfrac⟩

/-- An accepted text is bound as what its fields stand for. -/
theorem binds_of_accepted {s xSqlType : String} {type : TemporalType} {p : BoundParam}
    (htype : baseType xSqlType ∈ type.names)
    (h : jsonToParam lib (.str s) xSqlType = .ok p) : Binds fields s type p := by
  rw [jsonToParam_temporal lib (.str s) htype] at h
  cases type with
  | date =>
    obtain ⟨date, hparse, rfl⟩ := parsedParam_str_eq_ok h
    obtain ⟨d, hd, hval⟩ := hparses.parseDate s date hparse
    exact ⟨date, d, rfl, hd, hval⟩
  | time =>
    obtain ⟨time, hparse, rfl⟩ := parsedParam_str_eq_ok h
    obtain ⟨format, hmem, hread⟩ := parseNaiveTime_eq_ok hparse
    obtain ⟨c, hc, hsecs, hfrac⟩ := hparses.parseTime format hmem s time hread
    exact ⟨time, c, rfl, hc, hsecs, hfrac⟩
  | dateTime =>
    obtain ⟨dt, hparse, rfl⟩ := parsedParam_str_eq_ok h
    obtain ⟨z, hz⟩ := utc_of_parseNaiveDatetime hparses hparse
    exact ⟨dt, z, rfl, hz⟩
  | dateTimeOffset =>
    obtain ⟨dt, hparse, rfl⟩ := parsedParam_str_eq_ok h
    obtain ⟨z, hz, hoffset, hutc, hfrac⟩ := hparses.parseRfc3339 s dt hparse
    exact ⟨dt, z, rfl, hz, hutc, hfrac, hoffset⟩

end Accepted

section Kept

/-- What a text says of the fields of another one: the same instant, cut to 100
nanoseconds. -/
def SameInstant (fields : Fields) (s : String) : TemporalType → List Char → Prop
  | .date, l => ∃ d, fields.date s = some d ∧ DateText l d.dayNumber
  | .time, l => ∃ c, fields.clock s = some c ∧ TimeText l (truncated c.instant)
  | .dateTime, l => ∃ z n ns, fields.zoned s = some z ∧ DateTimeText l n ns ∧
      n * nanosPerDay + ns = truncated z.instant
  | .dateTimeOffset, l => ∃ z, fields.zoned s = some z ∧
      InstantText l (truncated z.instant) z.offset

/-- An argument is kept: the server can hold what is bound, the driver encodes
it, and what it encodes is shown as the instant of the argument. -/
structure Kept (lib : Libraries) (toSql : BoundParam → Except Fault ColumnData) (fields : Fields)
    (type : TemporalType) (s : String) (p : BoundParam) : Prop where
  holdable : Holdable p
  shown : ShownBy lib toSql p (SameInstant fields s type)

/-- A date of the years 1 to 9999, in UTC where the text has an offset, and no
leap second at the end of a day. -/
def InCalendar (fields : Fields) (s : String) : TemporalType → Prop
  | .date => ∀ d, fields.date s = some d → 1 ≤ d.year ∧ d.year ≤ 9999
  | .time => ∀ c, fields.clock s = some c → ¬ (c.hour = 23 ∧ c.minute = 59 ∧ c.second = 60)
  | .dateTime | .dateTimeOffset => ∀ z, fields.zoned s = some z →
      (1 ≤ z.utcDate.year ∧ z.utcDate.year ≤ 9999) ∧
        ¬ (z.utcSecs % 86400 = 86399 ∧ z.clock.second = 60)

theorem holdableTime_iff {time : NaiveTime} {c : Clock} (hfrac : time.frac.val = c.frac) :
    HoldableTime time ↔ ¬ (time.secs.val = 86399 ∧ c.second = 60) := by
  have hsecs := time.secs.upper
  have hnanos := c.nanos_lt
  unfold HoldableTime nanosOf nanosPerDay
  rw [hfrac, Clock.frac]
  split <;> omega

theorem civil_eq_of_dayNumber {date : NaiveDate} {d : CivilDate} (h : date.val = d.dayNumber) :
    civil date = d := by
  rw [civil, h, CivilDate.ofDayNumber_dayNumber]

/-- The day and the second of a moment in UTC. -/
theorem utc_parts {dt : NaiveDateTime} {z : Zoned}
    (h : dt.date.val * 86400 + dt.time.secs.val = z.utcSecs) :
    civil dt.date = z.utcDate ∧ dt.time.secs.val = z.utcSecs % 86400 := by
  have hlower := dt.time.secs.lower
  have hupper := dt.time.secs.upper
  have hday : dt.date.val = z.utcSecs / 86400 := by omega
  refine ⟨?_, by omega⟩
  rw [civil, Zoned.utcDate, hday]

theorem holdableDateTime_iff {dt : NaiveDateTime} {z : Zoned}
    (hutc : dt.date.val * 86400 + dt.time.secs.val = z.utcSecs)
    (hfrac : dt.time.frac.val = z.clock.frac) :
    HoldableDateTime dt ↔ (1 ≤ z.utcDate.year ∧ z.utcDate.year ≤ 9999) ∧
      ¬ (z.utcSecs % 86400 = 86399 ∧ z.clock.second = 60) := by
  obtain ⟨hdate, hsecs⟩ := utc_parts hutc
  rw [HoldableDateTime, HoldableDate, holdableTime_iff hfrac, hdate, hsecs]

/-- What is bound can be held exactly when the text is in the calendar. -/
theorem holdable_iff_inCalendar {fields : Fields} {s : String} {type : TemporalType}
    {p : BoundParam} (h : Binds fields s type p) : Holdable p ↔ InCalendar fields s type := by
  cases type with
  | date =>
    obtain ⟨date, d, rfl, hd, hval⟩ := h
    simp only [Holdable, HoldableDate, InCalendar, civil_eq_of_dayNumber hval, hd,
      Option.some.injEq, forall_eq']
  | time =>
    obtain ⟨time, c, rfl, hc, hsecs, hfrac⟩ := h
    simp only [Holdable, InCalendar, hc, Option.some.injEq, forall_eq', holdableTime_iff hfrac]
    have hhour := c.hour_lt
    have hminute := c.minute_lt
    rw [hsecs, Clock.secs]
    omega
  | dateTime =>
    obtain ⟨dt, z, rfl, hz, hutc, hfrac⟩ := h
    simp only [Holdable, InCalendar, hz, Option.some.injEq, forall_eq',
      holdableDateTime_iff hutc hfrac]
  | dateTimeOffset =>
    obtain ⟨dt, z, rfl, hz, hutc, hfrac, -⟩ := h
    simp only [Holdable, InCalendar, hz, Option.some.injEq, forall_eq',
      holdableDateTime_iff hutc hfrac]

theorem ShownBy.mono {lib : Libraries} {toSql : BoundParam → Except Fault ColumnData}
    {p : BoundParam} {Property Property' : List Char → Prop}
    (h : ShownBy lib toSql p Property) (himp : ∀ l, Property l → Property' l) :
    ShownBy lib toSql p Property' := by
  obtain ⟨data, hdata, text, htext, hproperty⟩ := h
  exact ⟨data, hdata, text, htext, himp _ hproperty⟩

/-- The instant of a day and a time of day is cut within the day. -/
theorem truncated_instant {dt : NaiveDateTime} {z : Zoned}
    (hutc : dt.date.val * 86400 + dt.time.secs.val = z.utcSecs)
    (hfrac : dt.time.frac.val = z.clock.frac) :
    dt.date.val * nanosPerDay + truncated (nanosOf dt.time) = truncated z.instant := by
  unfold truncated nanosOf Zoned.instant nanosPerDay
  rw [hfrac, ← hutc]
  omega

variable {lib : Libraries} {toSql : BoundParam → Except Fault ColumnData} {fields : Fields}

theorem shown_of_holdable (hformats : ChronoFormats lib) (hencodes : TiberiusEncodes toSql)
    {s : String} {type : TemporalType} {p : BoundParam} (h : Binds fields s type p)
    (hholdable : Holdable p) : ShownBy lib toSql p (SameInstant fields s type) := by
  cases type with
  | date =>
    obtain ⟨date, d, rfl, hd, hval⟩ := h
    refine (date_shownBy hformats hencodes hholdable).mono fun l hl => ⟨d, hd, ?_⟩
    rwa [hval] at hl
  | time =>
    obtain ⟨time, c, rfl, hc, hsecs, hfrac⟩ := h
    refine (time_shownBy hformats hencodes hholdable).mono fun l hl => ⟨c, hc, ?_⟩
    rwa [nanosOf, hsecs, hfrac] at hl
  | dateTime =>
    obtain ⟨dt, z, rfl, hz, hutc, hfrac⟩ := h
    exact (dateTime_shownBy hformats hencodes hholdable).mono fun l hl =>
      ⟨z, _, _, hz, hl, truncated_instant hutc hfrac⟩
  | dateTimeOffset =>
    obtain ⟨dt, z, rfl, hz, hutc, hfrac, hoffset⟩ := h
    refine (dateTimeOffset_shownBy hformats hencodes hholdable hoffset).mono fun l hl => ⟨z, hz, ?_⟩
    rwa [truncated_instant hutc hfrac] at hl

/-- An accepted temporal argument is kept exactly when its date is of the years
1 to 9999 and its time is no leap second at the end of a day. -/
theorem jsonToParam_kept_iff (hformats : ChronoFormats lib) (hparses : ChronoParses lib fields)
    (hencodes : TiberiusEncodes toSql) (type : TemporalType) (xSqlType : String)
    (htype : baseType xSqlType ∈ type.names) (s : String) (p : BoundParam)
    (h : jsonToParam lib (.str s) xSqlType = .ok p) :
    Kept lib toSql fields type s p ↔ InCalendar fields s type := by
  have hbinds := binds_of_accepted hparses htype h
  rw [← holdable_iff_inCalendar hbinds]
  constructor
  · exact Kept.holdable
  · intro hholdable
    exact ⟨hholdable, shown_of_holdable hformats hencodes hbinds hholdable⟩

end Kept

section Sample

/-- Libraries that read dates by their fields, and no other text. -/
def dateLibraries (fields : Fields) : Libraries :=
  { isoLibraries with
    parseDate _ s :=
      match (fields.date s).bind fun d => RangedInt.tryFrom _ _ d.dayNumber with
      | some date => .ok date
      | none => .error "input is out of range" }

theorem dateLibraries_formats (fields : Fields) : ChronoFormats (dateLibraries fields) where
  formatDate _ := rfl
  formatTime _ _ := rfl
  formatDateTime _ _ := rfl
  formatDateTimeSeconds _ _ := rfl
  toRfc3339 _ _ _ _ := rfl

theorem dateLibraries_parses (fields : Fields) :
    ChronoParses (dateLibraries fields) fields where
  parseDate s date h := by
    unfold dateLibraries at h
    dsimp only at h
    split at h
    · rename_i found hfound
      obtain rfl := Except.ok.inj h
      obtain ⟨d, hd, hconvert⟩ := Option.bind_eq_some_iff.mp hfound
      exact ⟨d, hd, (RangedInt.tryFrom_eq_some_iff _ _).mp hconvert⟩
    · contradiction
  parseTime _ _ _ _ h := by contradiction
  parseDateTime _ _ h := by contradiction
  parseRfc3339 _ _ h := by contradiction

/-- The driver on the temporal parameters. -/
def temporalDriver : BoundParam → Except Fault ColumnData
  | .naiveDate (some date) => (encodeDate date).map fun wire => .date (some wire)
  | .naiveTime (some time) => .ok (.time (some (encodeTime time)))
  | .naiveDateTime (some dt) => (encodeDateTime2 dt).map fun wire => .dateTime2 (some wire)
  | .dateTime (some dt) => (encodeDateTime2 dt.naiveUtc).map fun wire =>
      .dateTimeOffset (some ⟨wire, encodeOffset dt.offset⟩)
  | _ => .ok (.string none)

theorem temporalDriver_encodes : TiberiusEncodes temporalDriver where
  naiveDate _ := rfl
  naiveTime _ := rfl
  naiveDateTime _ := rfl
  dateTime _ := rfl

/-- The fields of two dates, one of them in year 0. -/
def sampleFields : Fields where
  date s :=
    if s = "2026-07-18" then some ⟨2026, 7, 18, by norm_num, by norm_num, by decide⟩
    else if s = "0000-01-01" then some ⟨0, 1, 1, by norm_num, by norm_num, by decide⟩
    else none
  clock _ := none
  zoned _ := none

/-- The day of the first of them. -/
def sampleDate : NaiveDate := ⟨739815, by norm_num, by norm_num⟩

theorem jsonToParam_kept_iff_sample :
    Kept (dateLibraries sampleFields) temporalDriver sampleFields .date "2026-07-18"
        (.naiveDate (some sampleDate)) ↔
      InCalendar sampleFields "2026-07-18" .date :=
  jsonToParam_kept_iff (dateLibraries_formats sampleFields) (dateLibraries_parses sampleFields)
    temporalDriver_encodes .date "date" List.mem_cons_self "2026-07-18" _ rfl

/-- A date of year 0 is accepted, and the driver panics on it. -/
theorem not_kept_yearZero :
    ¬ ∀ (lib : Libraries) (fields : Fields) (toSql : BoundParam → Except Fault ColumnData),
      ChronoFormats lib → ChronoParses lib fields → TiberiusEncodes toSql →
      ∀ (type : TemporalType) (xSqlType : String), baseType xSqlType ∈ type.names →
      ∀ s p, jsonToParam lib (.str s) xSqlType = .ok p → Kept lib toSql fields type s p := by
  intro h
  have hkept := h (dateLibraries sampleFields) sampleFields temporalDriver
    (dateLibraries_formats sampleFields) (dateLibraries_parses sampleFields)
    temporalDriver_encodes .date "date" List.mem_cons_self "0000-01-01"
    (.naiveDate (some ⟨-365, by norm_num, by norm_num⟩)) rfl
  obtain ⟨data, hdata, -⟩ := hkept.shown
  contradiction

end Sample

end SqlServerMcp.TemporalParams
