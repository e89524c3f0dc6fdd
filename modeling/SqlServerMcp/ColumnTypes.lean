import Mathlib.Data.Set.Function
import SqlServerMcp.Results
import SqlServerMcp.SqlType

/-!
The cells that a column of each type can carry, and what their JSON keeps of
them. A cell within the range of its type is always rendered, and two cells of
one column that are rendered alike are the same. A binary floating-point number
that is not finite is the exception: it is rendered as `null`.
-/
namespace SqlServerMcp.ColumnTypes

open FixedWidth JsonValue Results SqlType SqlValue Text

/-- The type of a column. The metadata of the column fix the scale of its
decimals and times and the schema of its XML. -/
inductive ColumnType where
  | u8
  | i16
  | i32
  | i64
  | f32
  | f64
  | bit
  | string
  | guid
  | binary
  | numeric (scale : RangedInt 0 38)
  | xml (schema : Option XmlSchema)
  | dateTime
  | smallDateTime
  | time (scale : RangedInt 0 8)
  | date
  | dateTime2 (scale : RangedInt 0 8)
  | dateTimeOffset (scale : RangedInt 0 8)

/-- The values of a column type, NULL apart. -/
def ColumnType.Value : ColumnType → Type
  | .u8 => U8
  | .i16 => I16
  | .i32 => I32
  | .i64 => I64
  | .f32 => UInt32
  | .f64 => UInt64
  | .bit => Bool
  | .string => String
  | .guid => Uuid
  | .binary => List UInt8
  | .numeric _ => Numeric
  | .xml _ => XmlData
  | .dateTime => WireDateTime
  | .smallDateTime => WireSmallDateTime
  | .time _ => WireTime
  | .date => WireDate
  | .dateTime2 _ => WireDateTime2
  | .dateTimeOffset _ => WireDateTimeOffset

def ColumnType.cell : (t : ColumnType) → Option t.Value → ColumnData
  | .u8, v => .u8 v
  | .i16, v => .i16 v
  | .i32, v => .i32 v
  | .i64, v => .i64 v
  | .f32, v => .f32 v
  | .f64, v => .f64 v
  | .bit, v => .bit v
  | .string, v => .string v
  | .guid, v => .guid v
  | .binary, v => .binary v
  | .numeric _, v => .numeric v
  | .xml _, v => .xml v
  | .dateTime, v => .dateTime v
  | .smallDateTime, v => .smallDateTime v
  | .time _, v => .time v
  | .date, v => .date v
  | .dateTime2 _, v => .dateTime2 v
  | .dateTimeOffset _, v => .dateTimeOffset v

/-- From the first of January of year 1 to the last day of year 9999. -/
def DateInRange (date : WireDate) : Prop := date.days.val < 3652059

def TimeInRange (scale : RangedInt 0 8) (time : WireTime) : Prop :=
  time.scale.val = scale.val ∧ time.increments.val < 86400 * 10 ^ scale.val.toNat

/-- From the first of January 1753 to the last day of year 9999. -/
def DateTimeInRange (dt : WireDateTime) : Prop :=
  -53690 ≤ dt.days.val ∧ dt.days.val < 2958464 ∧ dt.secondsFragments.val < 86400 * 300

def SmallDateTimeInRange (dt : WireSmallDateTime) : Prop := dt.secondsFragments.val < 24 * 60

def DateTime2InRange (scale : RangedInt 0 8) (dt2 : WireDateTime2) : Prop :=
  DateInRange dt2.date ∧ TimeInRange scale dt2.time

/-- An offset of at most 14 hours. -/
def DateTimeOffsetInRange (scale : RangedInt 0 8) (dto : WireDateTimeOffset) : Prop :=
  DateTime2InRange scale dto.datetime2 ∧ -840 ≤ dto.offset.val ∧ dto.offset.val ≤ 840

theorem DateTimeOffsetInRange.offset_lt {scale : RangedInt 0 8} {dto : WireDateTimeOffset}
    (h : DateTimeOffsetInRange scale dto) : -1440 < dto.offset.val ∧ dto.offset.val < 1440 := by
  obtain ⟨-, hlower, hupper⟩ := h
  omega

/-- The range of the values that the server sends for a column type. -/
def ColumnType.InRange : (t : ColumnType) → t.Value → Prop
  | .numeric scale, (n : Numeric) => n.scale.val = scale.val
  | .xml schema, (x : XmlData) => x.schema = schema
  | .dateTime, dt => DateTimeInRange dt
  | .smallDateTime, dt => SmallDateTimeInRange dt
  | .time scale, t => TimeInRange scale t
  | .date, d => DateInRange d
  | .dateTime2 scale, dt2 => DateTime2InRange scale dt2
  | .dateTimeOffset scale, dto => DateTimeOffsetInRange scale dto
  | _, _ => True

/-- A cell of a column type: NULL, or a value in its range. -/
def Holds (t : ColumnType) (data : ColumnData) : Prop :=
  ∃ value : Option t.Value, data = t.cell value ∧ ∀ v ∈ value, t.InRange v

/-- A binary floating-point number that JSON lacks. -/
def IsNonFinite : ColumnData → Prop
  | .f32 (some bits) => (Float.ofBits (FloatBits.widen bits)).isFinite = false
  | .f64 (some bits) => (Float.ofBits bits).isFinite = false
  | _ => False

/-- What the rendering relies on: each text determines the value it is printed
from, leap seconds and offsets of broken minutes apart. -/
structure ExactText (lib : Libraries) : Prop where
  uuidText : Function.Injective lib.uuidText
  base64Encode : Function.Injective lib.base64Encode
  formatDate : Function.Injective (lib.formatDate "%Y-%m-%d")
  formatTime : Set.InjOn (lib.formatTime "%H:%M:%S%.f") {t | t.frac.val < 10 ^ 9}
  formatDateTime :
    Set.InjOn (lib.formatDateTime "%Y-%m-%dT%H:%M:%S%.f") {dt | dt.time.frac.val < 10 ^ 9}
  formatDateTimeSeconds :
    Set.InjOn (lib.formatDateTime "%Y-%m-%dT%H:%M:%S") {dt | dt.time.frac.val = 0}
  toRfc3339 : Set.InjOn lib.toRfc3339
    {dt | dt.naiveUtc.time.frac.val < 10 ^ 9 ∧ dt.offset.val % 60 = 0}

section Sample

theorem dayText_injective : Function.Injective dayText := by
  intro a b h
  have hlower := a.lower
  have hlower' := b.lower
  have hnumber : (a.val + 95746129).toNat = (b.val + 95746129).toNat := toString_nat_injective h
  exact RangedInt.ext (by omega)

theorem timeText_injective : Function.Injective timeText := by
  intro a b h
  obtain ⟨hsecs, hfrac⟩ := append_number_string_injective rfl (by decide) h
  have hsecs' : a.secs.val.toNat = b.secs.val.toNat := toString_nat_injective hsecs
  have hsecs_eq : a.secs = b.secs := by
    have hlower := a.secs.lower
    have hlower' := b.secs.lower
    exact RangedInt.ext (by omega)
  have hfrac_eq : a.frac = b.frac := by
    have hlower := a.frac.lower
    have hlower' := b.frac.lower
    exact RangedInt.ext (by omega)
  cases a
  cases b
  exact congrArg₂ NaiveTime.mk hsecs_eq hfrac_eq

theorem dateTimeText_injective : Function.Injective fun dt : NaiveDateTime =>
    timeText dt.time ++ "T" ++ dayText dt.date := by
  intro a b h
  obtain ⟨htime, hday⟩ := append_number_string_injective rfl (by decide) h
  have hdate : a.date = b.date := dayText_injective (congrArg toString hday)
  cases a
  cases b
  exact congrArg₂ NaiveDateTime.mk hdate (timeText_injective htime)

theorem byteChar_injective : Function.Injective fun b : UInt8 => Char.ofNat b.toNat := by
  have hcode : ∀ b : UInt8, (Char.ofNat b.toNat).toNat = b.toNat := by
    intro b
    have hlt := b.toNat_lt
    rw [Char.ofNat, dif_pos (Or.inl (by omega))]
    rfl
  intro a b h
  have hnat := congrArg Char.toNat h
  rw [hcode, hcode] at hnat
  exact UInt8.toNat_inj.mp hnat

theorem numericLibraries_exact : ExactText numericLibraries where
  uuidText a b h := BitVec.eq_of_toNat_eq (toString_nat_injective h)
  base64Encode a b h :=
    List.map_injective_iff.mpr byteChar_injective (String.ofList_injective h)
  formatDate := dayText_injective
  formatTime := timeText_injective.injOn
  formatDateTime := dateTimeText_injective.injOn
  formatDateTimeSeconds := dateTimeText_injective.injOn
  toRfc3339 := by
    intro a _ b _ h
    obtain ⟨hutc, hoffset⟩ := append_number_string_injective rfl (by decide) h
    have hlower := a.offset.lower
    have hlower' := b.offset.lower
    have hoffset_eq : a.offset = b.offset := RangedInt.ext (by omega)
    cases a
    cases b
    exact congrArg₂ DateTimeFixed.mk (dateTimeText_injective hutc) hoffset_eq

end Sample

theorem null_isFinite (t : ColumnType) : ¬ IsNonFinite (t.cell none) := by
  cases t <;> exact id

section Calendar

theorem daysToDate_eq_ok (days jan1 : ℤ) (hlower : -95746129 ≤ jan1 + days)
    (hupper : jan1 + days < 95745400) :
    ∃ date, daysToDate days jan1 = .ok date ∧ date.val = jan1 + days := by
  obtain ⟨date, hdate, hval⟩ := RangedInt.exists_tryFrom _ _ hlower hupper
  refine ⟨date, ?_, hval⟩
  rw [daysToDate, hdate]

theorem date_eq_ok {date : WireDate} (h : DateInRange date) :
    ∃ naive, daysToDate date.days.val jan1Year1 = .ok naive := by
  have hlower := date.days.lower
  have hupper : date.days.val < 3652059 := h
  obtain ⟨naive, hnaive, -⟩ := daysToDate_eq_ok date.days.val jan1Year1
    (by unfold jan1Year1; omega) (by unfold jan1Year1; omega)
  exact ⟨naive, hnaive⟩

theorem midnightPlus_frac_lt (ns : ℤ) : (midnightPlus ns).frac.val < 10 ^ 9 :=
  Int.emod_lt_of_pos ns (by norm_num)

/-- Within a day the nanoseconds since midnight are kept. -/
theorem midnightPlus_nanos {ns : ℤ} (hlower : 0 ≤ ns) (hupper : ns < nanosPerDay) :
    (midnightPlus ns).secs.val * 10 ^ 9 + (midnightPlus ns).frac.val = ns := by
  show ns % nanosPerDay / 10 ^ 9 * 10 ^ 9 + ns % 10 ^ 9 = ns
  unfold nanosPerDay at *
  omega

/-- Within a day the time of day determines the nanoseconds since midnight. -/
theorem midnightPlus_injOn : Set.InjOn midnightPlus {ns | 0 ≤ ns ∧ ns < nanosPerDay} := by
  intro a ha b hb h
  rw [← midnightPlus_nanos ha.1 ha.2, h, midnightPlus_nanos hb.1 hb.2]

/-- The units of a time in range are exact nanoseconds within a day. -/
theorem nanos_mem_day {scale : RangedInt 0 8} {time : WireTime} (h : TimeInRange scale time) :
    time.increments.val * 10 ^ (9 - scale.val.toNat) ∈ {ns : ℤ | 0 ≤ ns ∧ ns < nanosPerDay} := by
  obtain ⟨hscale, hincrements⟩ := h
  have hlower := time.increments.lower
  have hscale0 := scale.lower
  have hscale8 := scale.upper
  have hunit : (0 : ℤ) < 10 ^ (9 - scale.val.toNat) := by positivity
  have hns : time.increments.val * 10 ^ (9 - scale.val.toNat) < nanosPerDay := by
    calc time.increments.val * 10 ^ (9 - scale.val.toNat)
        < 86400 * 10 ^ scale.val.toNat * 10 ^ (9 - scale.val.toNat) :=
          mul_lt_mul_of_pos_right hincrements hunit
      _ = nanosPerDay := by
          rw [mul_assoc, ← pow_add, Nat.add_sub_cancel' (by omega), nanosPerDay]
  have hle : time.increments.val ≤ time.increments.val * 10 ^ (9 - scale.val.toNat) :=
    le_mul_of_one_le_right hlower hunit
  exact ⟨le_trans hlower hle, hns⟩

/-- They fit the width, so that every build computes them. -/
theorem timeOfDay_eq_ok (overflowChecks : Bool) {scale : RangedInt 0 8} {time : WireTime}
    (h : TimeInRange scale time) :
    timeOfDay overflowChecks time.increments time.scale =
      .ok (midnightPlus (time.increments.val * 10 ^ (9 - scale.val.toNat))) := by
  obtain ⟨hlower, hupper⟩ := nanos_mem_day h
  obtain ⟨hscale, -⟩ := h
  have hincrements := time.increments.lower
  have hscale8 := scale.upper
  have hunit : (0 : ℤ) < 10 ^ (9 - scale.val.toNat) := by positivity
  have hle : time.increments.val ≤ time.increments.val * 10 ^ (9 - scale.val.toNat) :=
    le_mul_of_one_le_right hincrements hunit
  have hday : nanosPerDay < 2 ^ 63 := by norm_num [nanosPerDay]
  have hsigned : asI64 time.increments = time.increments.val := by
    rw [asI64, if_pos (by omega)]
  obtain ⟨ns, hproduct, hval⟩ := @product_of_bounds overflowChecks 63
    (time.increments.val * 10 ^ (9 - scale.val.toNat)) (by omega) (by omega)
  rw [timeOfDay, if_neg (by omega), hsigned, hscale, hproduct, ok_bind, hval]

theorem timeOfDay_injective {overflowChecks : Bool} {scale : RangedInt 0 8} {a b : WireTime}
    (ha : TimeInRange scale a) (hb : TimeInRange scale b)
    (h : timeOfDay overflowChecks a.increments a.scale =
      timeOfDay overflowChecks b.increments b.scale) : a = b := by
  rw [timeOfDay_eq_ok overflowChecks ha, timeOfDay_eq_ok overflowChecks hb] at h
  have hunits := midnightPlus_injOn (nanos_mem_day ha) (nanos_mem_day hb) (Except.ok.inj h)
  have hunit : (10 : ℤ) ^ (9 - scale.val.toNat) ≠ 0 := by positivity
  have hincrements : a.increments = b.increments :=
    RangedInt.ext (mul_right_cancel₀ hunit hunits)
  have hscale : a.scale = b.scale := RangedInt.ext (ha.1.trans hb.1.symm)
  cases a
  cases b
  simp only [WireTime.mk.injEq]
  exact ⟨hincrements, hscale⟩

theorem daysToDate_val {days jan1 : ℤ} {date : NaiveDate} (h : daysToDate days jan1 = .ok date) :
    date.val = jan1 + days := by
  unfold daysToDate at h
  split at h
  · rename_i converted hsome
    rw [← Except.ok.inj h]
    exact (RangedInt.tryFrom_eq_some_iff _ _).mp hsome
  · contradiction

theorem daysToDate_injective {days days' jan1 : ℤ} {date : NaiveDate}
    (h : daysToDate days jan1 = .ok date) (h' : daysToDate days' jan1 = .ok date) :
    days = days' := by
  have hval := daysToDate_val h
  have hval' := daysToDate_val h'
  omega

/-- A date and a time of day determine the days and nanoseconds they are made
of. -/
theorem dateAndTime_injective {days days' jan1 ns ns' : ℤ} {date date' : NaiveDate}
    (hdate : daysToDate days jan1 = .ok date) (hdate' : daysToDate days' jan1 = .ok date')
    (hns : 0 ≤ ns ∧ ns < nanosPerDay) (hns' : 0 ≤ ns' ∧ ns' < nanosPerDay)
    (h : (⟨date, midnightPlus ns⟩ : NaiveDateTime) = ⟨date', midnightPlus ns'⟩) :
    days = days' ∧ ns = ns' := by
  obtain ⟨rfl, htime⟩ := NaiveDateTime.mk.inj h
  exact ⟨daysToDate_injective hdate hdate', midnightPlus_injOn hns hns' htime⟩

end Calendar

section Decimal

theorem decimalBody_injective {scale n m : ℕ}
    (h : decimalBody scale (toString n).toList = decimalBody scale (toString m).toList) :
    n = m := by
  unfold decimalBody at h
  split at h
  · exact toString_nat_injective (String.toList_injective h)
  · have hpoint : ∀ k : ℕ, '.' ∉ padLeft '0' (scale + 1) (toString k).toList := by
      intro k hmem
      exact absurd (isDigit_of_mem_padLeft hmem) (by decide)
    exact padLeft_digits_injective (take_sep_drop_injective (hpoint n) (hpoint m) h)

theorem minus_notMem_decimalBody (scale n : ℕ) : '-' ∉ decimalBody scale (toString n).toList := by
  have hminus : ∀ width, '-' ∉ padLeft '0' width (toString n).toList := by
    intro width hmem
    exact absurd (isDigit_of_mem_padLeft hmem) (by decide)
  intro hmem
  unfold decimalBody at hmem
  split at hmem
  · exact absurd (isDigit_of_mem_toString hmem) (by decide)
  · rcases List.mem_append.mp hmem with htake | hdrop
    · exact hminus _ (List.mem_of_mem_take htake)
    · rcases List.mem_cons.mp hdrop with hpoint | hdrop
      · exact absurd hpoint (by decide)
      · exact hminus _ (List.mem_of_mem_drop hdrop)

/-- The sign of a decimal can be read off its text. -/
theorem minus_mem_formatNumeric (n : Numeric) :
    '-' ∈ (formatNumeric n).toList ↔ n.value.val < 0 := by
  have hbody := minus_notMem_decimalBody n.scale.val.toNat n.value.val.natAbs
  by_cases hneg : n.value.val < 0
  · simp [formatNumeric, hneg]
  · simp only [formatNumeric, hneg, if_false, String.toList_ofList, hbody]

/-- Decimals of one scale have different texts. -/
theorem formatNumeric_injective {a b : Numeric} (hscale : a.scale.val = b.scale.val)
    (h : formatNumeric a = formatNumeric b) : a = b := by
  have hsign : a.value.val < 0 ↔ b.value.val < 0 := by
    rw [← minus_mem_formatNumeric a, h, minus_mem_formatNumeric b]
  have hbody : decimalBody a.scale.val.toNat (toString a.value.val.natAbs).toList =
      decimalBody a.scale.val.toNat (toString b.value.val.natAbs).toList := by
    have hchars := congrArg String.toList h
    simp only [formatNumeric, String.toList_ofList, ← hscale, ← hsign] at hchars
    split at hchars
    · exact List.tail_eq_of_cons_eq hchars
    · exact hchars
  have hmagnitude := decimalBody_injective hbody
  have hvalue : a.value.val = b.value.val := by omega
  cases a
  cases b
  simp only [Numeric.mk.injEq]
  exact ⟨RangedInt.ext hvalue, RangedInt.ext hscale⟩

end Decimal

section Rendering

variable (lib : Libraries)

theorem f64ToJson_of_finite {bits : UInt64} (h : ¬ (Float.ofBits bits).isFinite = false) :
    f64ToJson bits = .num (.float bits) := by
  rw [f64ToJson, if_pos (Bool.not_eq_false _ ▸ h)]

theorem f64_shown {bits : UInt64} (h : ¬ IsNonFinite (.f64 (some bits))) :
    columnDataToJson lib (.f64 (some bits)) = .ok (.num (.float bits)) := by
  rw [columnDataToJson, orNull_some, f64ToJson_of_finite h]

theorem f32_shown {bits : UInt32} (h : ¬ IsNonFinite (.f32 (some bits))) :
    columnDataToJson lib (.f32 (some bits)) = .ok (.num (.float (FloatBits.widen bits))) := by
  rw [columnDataToJson, orNull_some, f64ToJson_of_finite h]

theorem dateTime2_eq_ok {scale : RangedInt 0 8} {dt2 : WireDateTime2}
    (h : DateTime2InRange scale dt2) :
    ∃ naive, dateTime2 lib dt2 = .ok naive ∧ naive.time.frac.val < 10 ^ 9 := by
  obtain ⟨date, hdate⟩ := date_eq_ok h.1
  have htime := timeOfDay_eq_ok lib.overflowChecks h.2
  refine ⟨⟨date, midnightPlus (dt2.time.increments.val * 10 ^ (9 - scale.val.toNat))⟩, ?_,
    midnightPlus_frac_lt _⟩
  rw [dateTime2, hdate, htime]
  rfl

theorem dateTime2_parts {dt2 : WireDateTime2} {naive : NaiveDateTime}
    (h : dateTime2 lib dt2 = .ok naive) :
    daysToDate dt2.date.days.val jan1Year1 = .ok naive.date ∧
      timeOfDay lib.overflowChecks dt2.time.increments dt2.time.scale = .ok naive.time := by
  obtain ⟨date, hdate, hrest⟩ := (bind_eq_ok _ _ _).mp h
  obtain ⟨time, htime, hnaive⟩ := (bind_eq_ok _ _ _).mp hrest
  rw [← Except.ok.inj hnaive]
  exact ⟨hdate, htime⟩

theorem dateTime2_injective {scale : RangedInt 0 8} {a b : WireDateTime2}
    (ha : DateTime2InRange scale a) (hb : DateTime2InRange scale b) {naive : NaiveDateTime}
    (h : dateTime2 lib a = .ok naive) (h' : dateTime2 lib b = .ok naive) : a = b := by
  obtain ⟨hdate, htime⟩ := dateTime2_parts lib h
  obtain ⟨hdate', htime'⟩ := dateTime2_parts lib h'
  have hdays := daysToDate_injective hdate hdate'
  have htimes := timeOfDay_injective ha.2 hb.2 (htime.trans htime'.symm)
  obtain ⟨⟨days⟩, time⟩ := a
  obtain ⟨⟨days'⟩, time'⟩ := b
  simp only [WireDateTime2.mk.injEq, WireDate.mk.injEq]
  exact ⟨RangedInt.ext hdays, htimes⟩

theorem fixedOffset_eq_ok {minutes : I16} (hlower : -1440 < minutes.val)
    (hupper : minutes.val < 1440) :
    ∃ offset, fixedOffset minutes = .ok offset ∧ offset.val = minutes.val * 60 := by
  have hseconds : minutes.val * 60 < 86400 := by omega
  obtain ⟨offset, hoffset, hval⟩ := RangedInt.exists_tryFrom (-86399) _ (by omega) hseconds
  refine ⟨offset, ?_, hval⟩
  rw [fixedOffset, hoffset]

theorem date_shown {date : WireDate} (h : DateInRange date) :
    ∃ naive, daysToDate date.days.val jan1Year1 = .ok naive ∧
      columnDataToJson lib (.date (some date)) =
        .ok (.str (lib.formatDate "%Y-%m-%d" naive)) := by
  obtain ⟨naive, hnaive⟩ := date_eq_ok h
  refine ⟨naive, hnaive, ?_⟩
  simp only [columnDataToJson, temporalToJson, hnaive, ok_bind]

theorem time_shown {scale : RangedInt 0 8} {time : WireTime} (h : TimeInRange scale time) :
    ∃ naive, timeOfDay lib.overflowChecks time.increments time.scale = .ok naive ∧
      naive.frac.val < 10 ^ 9 ∧
      columnDataToJson lib (.time (some time)) =
        .ok (.str (lib.formatTime "%H:%M:%S%.f" naive)) := by
  have hnaive := timeOfDay_eq_ok lib.overflowChecks h
  refine ⟨_, hnaive, midnightPlus_frac_lt _, ?_⟩
  simp only [columnDataToJson, temporalToJson, hnaive, ok_bind]

theorem smallDateTime_shown (dt : WireSmallDateTime) :
    ∃ date, daysToDate dt.days.val jan1Year1900 = .ok date ∧
      columnDataToJson lib (.smallDateTime (some dt)) =
        .ok (.str (lib.formatDateTime "%Y-%m-%dT%H:%M:%S"
          ⟨date, midnightPlus (dt.secondsFragments.val * 60 * 10 ^ 9)⟩)) := by
  have hlower := dt.days.lower
  have hupper := dt.days.upper
  obtain ⟨date, hdate, -⟩ := daysToDate_eq_ok dt.days.val jan1Year1900
    (by unfold jan1Year1900; omega) (by unfold jan1Year1900; omega)
  refine ⟨date, hdate, ?_⟩
  simp only [columnDataToJson, temporalToJson, hdate, ok_bind]

theorem dateTime_shown {dt : WireDateTime} (h : DateTimeInRange dt) :
    ∃ date, daysToDate dt.days.val jan1Year1900 = .ok date ∧
      columnDataToJson lib (.dateTime (some dt)) =
        .ok (.str (lib.formatDateTime "%Y-%m-%dT%H:%M:%S%.f"
          ⟨date, midnightPlus (dt.secondsFragments.val * 10 ^ 9 / 300)⟩)) := by
  obtain ⟨hlower, hupper, -⟩ := h
  obtain ⟨date, hdate, -⟩ := daysToDate_eq_ok dt.days.val jan1Year1900
    (by unfold jan1Year1900; omega) (by unfold jan1Year1900; omega)
  refine ⟨date, hdate, ?_⟩
  simp only [columnDataToJson, temporalToJson, hdate, ok_bind]

theorem dateTime2_shown {scale : RangedInt 0 8} {dt2 : WireDateTime2}
    (h : DateTime2InRange scale dt2) :
    ∃ naive, dateTime2 lib dt2 = .ok naive ∧ naive.time.frac.val < 10 ^ 9 ∧
      columnDataToJson lib (.dateTime2 (some dt2)) =
        .ok (.str (lib.formatDateTime "%Y-%m-%dT%H:%M:%S%.f" naive)) := by
  obtain ⟨naive, hnaive, hfrac⟩ := dateTime2_eq_ok lib h
  refine ⟨naive, hnaive, hfrac, ?_⟩
  simp only [columnDataToJson, temporalToJson, hnaive, ok_bind]

/-- An offset of less than a day is shown. -/
theorem dateTimeOffset_shown {scale : RangedInt 0 8} {dto : WireDateTimeOffset}
    (h : DateTime2InRange scale dto.datetime2) (hlower : -1440 < dto.offset.val)
    (hupper : dto.offset.val < 1440) :
    ∃ dt : DateTimeFixed, dateTime2 lib dto.datetime2 = .ok dt.naiveUtc ∧
      dt.naiveUtc.time.frac.val < 10 ^ 9 ∧ dt.offset.val = dto.offset.val * 60 ∧
      columnDataToJson lib (.dateTimeOffset (some dto)) = .ok (.str (lib.toRfc3339 dt)) := by
  obtain ⟨naive, hnaive, hfrac⟩ := dateTime2_eq_ok lib h
  obtain ⟨offset, hoffset, hval⟩ := fixedOffset_eq_ok hlower hupper
  refine ⟨⟨naive, offset⟩, hnaive, hfrac, hval, ?_⟩
  simp only [columnDataToJson, temporalToJson, hnaive, hoffset, ok_bind]

/-- A value in the range of its type is rendered, and not as `null`. -/
theorem value_shown (t : ColumnType) {v : t.Value} (h : t.InRange v)
    (hfinite : ¬ IsNonFinite (t.cell (some v))) :
    ∃ json, columnDataToJson lib (t.cell (some v)) = .ok json ∧ json ≠ .null := by
  cases t with
  | f32 => exact ⟨_, f32_shown lib hfinite, by simp⟩
  | f64 => exact ⟨_, f64_shown lib hfinite, by simp⟩
  | dateTime =>
    obtain ⟨_, -, htext⟩ := dateTime_shown lib h
    exact ⟨_, htext, by simp⟩
  | smallDateTime =>
    obtain ⟨_, -, htext⟩ := smallDateTime_shown lib v
    exact ⟨_, htext, by simp⟩
  | time scale =>
    obtain ⟨_, -, -, htext⟩ := time_shown lib h
    exact ⟨_, htext, by simp⟩
  | date =>
    obtain ⟨_, -, htext⟩ := date_shown lib h
    exact ⟨_, htext, by simp⟩
  | dateTime2 scale =>
    obtain ⟨_, -, -, htext⟩ := dateTime2_shown lib h
    exact ⟨_, htext, by simp⟩
  | dateTimeOffset scale =>
    obtain ⟨hlower, hupper⟩ := h.offset_lt
    obtain ⟨_, -, -, -, htext⟩ := dateTimeOffset_shown lib h.1 hlower hupper
    exact ⟨_, htext, by simp⟩
  | _ => exact ⟨_, rfl, nofun⟩

/-- NULL is rendered as `null`. -/
theorem null_shown (t : ColumnType) : columnDataToJson lib (t.cell none) = .ok .null := by
  cases t <;> rfl

/-- Every cell of a column is rendered, also a number that JSON lacks. -/
theorem cell_shown {t : ColumnType} {data : ColumnData} (h : Holds t data) :
    ∃ json, columnDataToJson lib data = .ok json := by
  obtain ⟨value, rfl, hrange⟩ := h
  cases value with
  | none => exact ⟨_, null_shown lib t⟩
  | some v =>
    by_cases hfinite : IsNonFinite (t.cell (some v))
    · cases t with
      | f32 => exact ⟨_, rfl⟩
      | f64 => exact ⟨_, rfl⟩
      | _ => exact hfinite.elim
    · obtain ⟨json, hjson, -⟩ := value_shown lib t (hrange v rfl) hfinite
      exact ⟨json, hjson⟩

variable {lib}

/-- Cells with one rendering were printed from one value. -/
theorem eq_of_text {A : Type} {print : A → String} {s : Set A} (hprint : Set.InjOn print s)
    {data data' : ColumnData} {a b : A} (ha : a ∈ s) (hb : b ∈ s)
    (hdata : columnDataToJson lib data = .ok (.str (print a)))
    (hdata' : columnDataToJson lib data' = .ok (.str (print b)))
    (h : columnDataToJson lib data = columnDataToJson lib data') : a = b := by
  rw [hdata, hdata'] at h
  exact hprint ha hb (Json.str.inj (Except.ok.inj h))

theorem date_injective (htexts : ExactText lib) {a b : WireDate} (ha : DateInRange a)
    (hb : DateInRange b) (h : columnDataToJson lib (.date (some a)) =
      columnDataToJson lib (.date (some b))) : a = b := by
  obtain ⟨naive, hnaive, htext⟩ := date_shown lib ha
  obtain ⟨naive', hnaive', htext'⟩ := date_shown lib hb
  obtain rfl := eq_of_text htexts.formatDate.injOn (Set.mem_univ _) (Set.mem_univ _) htext htext' h
  have hdays := daysToDate_injective hnaive hnaive'
  cases a
  cases b
  exact congrArg WireDate.mk (RangedInt.ext hdays)

theorem time_injective (htexts : ExactText lib) {scale : RangedInt 0 8} {a b : WireTime}
    (ha : TimeInRange scale a) (hb : TimeInRange scale b)
    (h : columnDataToJson lib (.time (some a)) = columnDataToJson lib (.time (some b))) :
    a = b := by
  obtain ⟨naive, hnaive, hfrac, htext⟩ := time_shown lib ha
  obtain ⟨naive', hnaive', hfrac', htext'⟩ := time_shown lib hb
  obtain rfl := eq_of_text htexts.formatTime hfrac hfrac' htext htext' h
  exact timeOfDay_injective ha hb (hnaive.trans hnaive'.symm)

theorem smallDateTime_injective (htexts : ExactText lib) {a b : WireSmallDateTime}
    (ha : SmallDateTimeInRange a) (hb : SmallDateTimeInRange b)
    (h : columnDataToJson lib (.smallDateTime (some a)) =
      columnDataToJson lib (.smallDateTime (some b))) : a = b := by
  obtain ⟨date, hdate, htext⟩ := smallDateTime_shown lib a
  obtain ⟨date', hdate', htext'⟩ := smallDateTime_shown lib b
  have hwhole : ∀ minutes : ℤ, (midnightPlus (minutes * 60 * 10 ^ 9)).frac.val = 0 := by
    intro minutes
    exact Int.mul_emod_left (minutes * 60) (10 ^ 9)
  have hday : ∀ dt : WireSmallDateTime, SmallDateTimeInRange dt →
      0 ≤ dt.secondsFragments.val * 60 * 10 ^ 9 ∧
        dt.secondsFragments.val * 60 * 10 ^ 9 < nanosPerDay := by
    intro dt hdt
    have hlower := dt.secondsFragments.lower
    have hupper : dt.secondsFragments.val < 24 * 60 := hdt
    unfold nanosPerDay
    omega
  obtain ⟨hdays, hns⟩ := dateAndTime_injective hdate hdate' (hday a ha) (hday b hb)
    (eq_of_text htexts.formatDateTimeSeconds (hwhole _) (hwhole _) htext htext' h)
  have hminutes : a.secondsFragments.val = b.secondsFragments.val := by omega
  cases a
  cases b
  exact congrArg₂ WireSmallDateTime.mk (RangedInt.ext hdays) (RangedInt.ext hminutes)

/-- The units of a 300th of a second are further apart than a nanosecond. -/
theorem dateTime_injective (htexts : ExactText lib) {a b : WireDateTime}
    (ha : DateTimeInRange a) (hb : DateTimeInRange b)
    (h : columnDataToJson lib (.dateTime (some a)) =
      columnDataToJson lib (.dateTime (some b))) : a = b := by
  obtain ⟨date, hdate, htext⟩ := dateTime_shown lib ha
  obtain ⟨date', hdate', htext'⟩ := dateTime_shown lib hb
  have hday : ∀ dt : WireDateTime, DateTimeInRange dt →
      0 ≤ dt.secondsFragments.val * 10 ^ 9 / 300 ∧
        dt.secondsFragments.val * 10 ^ 9 / 300 < nanosPerDay := by
    intro dt hdt
    have hlower := dt.secondsFragments.lower
    have hupper := hdt.2.2
    unfold nanosPerDay
    omega
  obtain ⟨hdays, hns⟩ := dateAndTime_injective hdate hdate' (hday a ha) (hday b hb)
    (eq_of_text htexts.formatDateTime (midnightPlus_frac_lt _) (midnightPlus_frac_lt _) htext
      htext' h)
  have hfragments : a.secondsFragments.val = b.secondsFragments.val := by omega
  cases a
  cases b
  exact congrArg₂ WireDateTime.mk (RangedInt.ext hdays) (RangedInt.ext hfragments)

theorem dateTimeOffset_injective (htexts : ExactText lib) {scale : RangedInt 0 8}
    {a b : WireDateTimeOffset} (ha : DateTimeOffsetInRange scale a)
    (hb : DateTimeOffsetInRange scale b)
    (h : columnDataToJson lib (.dateTimeOffset (some a)) =
      columnDataToJson lib (.dateTimeOffset (some b))) : a = b := by
  obtain ⟨hlower, hupper⟩ := ha.offset_lt
  obtain ⟨hlower', hupper'⟩ := hb.offset_lt
  obtain ⟨dt, hnaive, hfrac, hoffset, htext⟩ := dateTimeOffset_shown lib ha.1 hlower hupper
  obtain ⟨dt', hnaive', hfrac', hoffset', htext'⟩ := dateTimeOffset_shown lib hb.1 hlower' hupper'
  have hwhole : dt.offset.val % 60 = 0 ∧ dt'.offset.val % 60 = 0 := by omega
  obtain rfl := eq_of_text htexts.toRfc3339 ⟨hfrac, hwhole.1⟩ ⟨hfrac', hwhole.2⟩ htext htext' h
  have hdt2 := dateTime2_injective lib ha.1 hb.1 hnaive hnaive'
  cases a
  cases b
  simp only [WireDateTimeOffset.mk.injEq]
  exact ⟨hdt2, RangedInt.ext (by dsimp only at hoffset hoffset'; omega)⟩

/-- Two values in the range of one type that are rendered alike are the same. -/
theorem value_injective (htexts : ExactText lib) (t : ColumnType) {v w : t.Value}
    (hv : t.InRange v) (hw : t.InRange w) (hfinite : ¬ IsNonFinite (t.cell (some v)))
    (hfinite' : ¬ IsNonFinite (t.cell (some w)))
    (h : columnDataToJson lib (t.cell (some v)) = columnDataToJson lib (t.cell (some w))) :
    v = w := by
  cases t with
  | u8 => exact Json.ofBounded_injective _ _ (Except.ok.inj h)
  | i16 => exact Json.ofBounded_injective _ _ (Except.ok.inj h)
  | i32 => exact Json.ofBounded_injective _ _ (Except.ok.inj h)
  | i64 => exact Json.ofBounded_injective _ _ (Except.ok.inj h)
  | f32 =>
    have hnumber := (f32_shown lib hfinite).symm.trans (h.trans (f32_shown lib hfinite'))
    exact FloatBits.widen_injective (Number.float.inj (Json.num.inj (Except.ok.inj hnumber)))
  | f64 =>
    have hnumber := (f64_shown lib hfinite).symm.trans (h.trans (f64_shown lib hfinite'))
    exact Number.float.inj (Json.num.inj (Except.ok.inj hnumber))
  | bit => exact Json.bool.inj (Except.ok.inj h)
  | string => exact Json.str.inj (Except.ok.inj h)
  | guid => exact htexts.uuidText (Json.str.inj (Except.ok.inj h))
  | binary => exact htexts.base64Encode (Json.str.inj (Except.ok.inj h))
  | numeric scale =>
    exact formatNumeric_injective (hv.trans hw.symm) (Json.str.inj (Except.ok.inj h))
  | xml schema =>
    have hdata := Json.str.inj (Except.ok.inj h)
    have hschema := hv.trans hw.symm
    cases v
    cases w
    exact congrArg₂ XmlData.mk hdata hschema
  | dateTime => exact dateTime_injective htexts hv hw h
  | smallDateTime => exact smallDateTime_injective htexts hv hw h
  | time scale => exact time_injective htexts hv hw h
  | date => exact date_injective htexts hv hw h
  | dateTime2 scale =>
    obtain ⟨naive, hnaive, hfrac, htext⟩ := dateTime2_shown lib hv
    obtain ⟨naive', hnaive', hfrac', htext'⟩ := dateTime2_shown lib hw
    obtain rfl := eq_of_text htexts.formatDateTime hfrac hfrac' htext htext' h
    exact dateTime2_injective lib hv hw hnaive hnaive'
  | dateTimeOffset scale => exact dateTimeOffset_injective htexts hv hw h

/-- The rendering of a cell of a column determines the cell. -/
theorem cell_injOn (htexts : ExactText lib) (t : ColumnType) :
    Set.InjOn (columnDataToJson lib) {data | Holds t data ∧ ¬ IsNonFinite data} := by
  intro _ h' _ hyp h
  obtain ⟨⟨value, rfl, hrange⟩, hfinite⟩ := h'
  obtain ⟨⟨value', rfl, hrange'⟩, hfinite'⟩ := hyp
  -- NULL and a value differ, because no value is rendered as `null`.
  have hne : ∀ v, t.InRange v → ¬ IsNonFinite (t.cell (some v)) →
      columnDataToJson lib (t.cell (some v)) ≠ columnDataToJson lib (t.cell none) := by
    intro v hv hvfinite heq
    obtain ⟨json, hjson, hnull⟩ := value_shown lib t hv hvfinite
    rw [hjson, null_shown] at heq
    exact hnull (Except.ok.inj heq)
  cases value with
  | none =>
    cases value' with
    | none => rfl
    | some w => exact absurd h.symm (hne w (hrange' w rfl) hfinite')
  | some v =>
    cases value' with
    | none => exact absurd h (hne v (hrange v rfl) hfinite)
    | some w =>
      rw [value_injective htexts t (hrange v rfl) (hrange' w rfl) hfinite hfinite' h]

end Rendering

/-- Times and days are counted from zero. -/
theorem start_lower : (0 : ℤ) ≤ 0 := le_rfl

def midnight (scale : RangedInt 0 8) : WireTime :=
  ⟨⟨0, start_lower, by norm_num⟩, scale.widen start_lower (by norm_num)⟩

theorem midnight_inRange (scale : RangedInt 0 8) : TimeInRange scale (midnight scale) := by
  refine ⟨rfl, ?_⟩
  change (0 : ℤ) < 86400 * 10 ^ scale.val.toNat
  positivity

def firstDay : WireDate := ⟨⟨0, start_lower, by norm_num⟩⟩

theorem firstDay_inRange : DateInRange firstDay := by
  unfold DateInRange firstDay
  norm_num

/-- Every column type has a value, and JSON has it too. -/
theorem exists_value (t : ColumnType) :
    ∃ v : t.Value, t.InRange v ∧ ¬ IsNonFinite (t.cell (some v)) := by
  cases t with
  | u8 => exact ⟨(⟨0, by norm_num, by norm_num⟩ : U8), trivial, id⟩
  | i16 => exact ⟨(⟨0, by norm_num, by norm_num⟩ : I16), trivial, id⟩
  | i32 => exact ⟨(⟨0, by norm_num, by norm_num⟩ : I32), trivial, id⟩
  | i64 => exact ⟨(⟨0, by norm_num, by norm_num⟩ : I64), trivial, id⟩
  | f32 =>
    have hzero : ¬ (Float.ofBits (FloatBits.widen 0)).isFinite = false := by decide
    exact ⟨(0 : UInt32), trivial, hzero⟩
  | f64 =>
    have hzero : ¬ (Float.ofBits 0).isFinite = false := by decide
    exact ⟨(0 : UInt64), trivial, hzero⟩
  | bit => exact ⟨true, trivial, id⟩
  | string => exact ⟨"", trivial, id⟩
  | guid => exact ⟨(0 : BitVec 128), trivial, id⟩
  | binary => exact ⟨([] : List UInt8), trivial, id⟩
  | numeric scale =>
    have hlower := scale.lower
    have hupper := scale.upper
    exact ⟨(⟨⟨0, by norm_num, by norm_num⟩, ⟨scale.val, hlower, by omega⟩, hupper⟩ : Numeric),
      rfl, id⟩
  | xml schema => exact ⟨(⟨"", schema⟩ : XmlData), rfl, id⟩
  | dateTime =>
    exact ⟨(⟨⟨0, by norm_num, by norm_num⟩, ⟨0, by norm_num, by norm_num⟩⟩ : WireDateTime),
      ⟨by norm_num, by norm_num, by norm_num⟩, id⟩
  | smallDateTime =>
    have hminutes : (0 : ℤ) < 24 * 60 := by norm_num
    exact ⟨(⟨⟨0, by norm_num, by norm_num⟩, ⟨0, by norm_num, by norm_num⟩⟩ : WireSmallDateTime),
      hminutes, id⟩
  | time scale => exact ⟨midnight scale, midnight_inRange scale, id⟩
  | date => exact ⟨firstDay, firstDay_inRange, id⟩
  | dateTime2 scale =>
    exact ⟨(⟨firstDay, midnight scale⟩ : WireDateTime2),
      ⟨firstDay_inRange, midnight_inRange scale⟩, id⟩
  | dateTimeOffset scale =>
    exact ⟨(⟨⟨firstDay, midnight scale⟩, ⟨0, by norm_num, by norm_num⟩⟩ : WireDateTimeOffset),
      ⟨⟨firstDay_inRange, midnight_inRange scale⟩, by norm_num, by norm_num⟩, id⟩

end SqlServerMcp.ColumnTypes
