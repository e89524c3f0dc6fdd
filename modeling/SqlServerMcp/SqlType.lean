import SqlServerMcp.FloatBits
import SqlServerMcp.JsonValue
import SqlServerMcp.SqlValue
import SqlServerMcp.Text

/-!
Conversion between JSON and driver values. An argument is bound by the base name
of its declared SQL type; a decoded cell is rendered by the type it came with.
Arithmetic that leaves its width panics in a build that checks it, and wraps
around in the others.
-/
namespace SqlServerMcp.SqlType

open FixedWidth JsonValue SqlValue Text

/-- The type name without its length or precision, in lower case. -/
def baseType (xSqlType : String) : String :=
  let head := (splitAll '(' xSqlType.toList).head?.getD xSqlType.toList
  String.ofList (toAsciiLowercase (trim head))

/-- Precision and scale of a decimal type, `(18, 0)` where they are not given. -/
def precisionScale (xSqlType : String) : U8 × U8 :=
  let default18 : U8 := ⟨18, by norm_num, by norm_num⟩
  let default0 : U8 := ⟨0, by norm_num, by norm_num⟩
  match (splitOnce '(' xSqlType.toList).bind fun p => stripSuffix ')' p.2 with
  | none => (default18, default0)
  | some inner =>
    let parts := (splitAll ',' inner).map trim
    let number (part : Option (List Char)) (default : U8) : U8 :=
      match part.map (parseInt 0 (2 ^ 8)) with
      | some (.ok n) => n
      | _ => default
    (number parts[0]? default18, number parts[1]? default0)

/-- A product as the build gives it in a signed width. -/
def product (overflowChecks : Bool) (n : ℕ) (i : ℤ) :
    Except Fault (RangedInt (-2 ^ n) (2 ^ n)) :=
  if overflowChecks then
    match RangedInt.tryFrom (-2 ^ n) (2 ^ n) i with
    | some value => .ok value
    | none => .error (.panic "attempt to multiply with overflow")
  else .ok (RangedInt.wrapSigned n i)

/-- A product within the width is the same in every build. -/
theorem product_of_bounds (overflowChecks : Bool) {n : ℕ} {i : ℤ} (hlower : -2 ^ n ≤ i)
    (hupper : i < 2 ^ n) : ∃ value, product overflowChecks n i = .ok value ∧ value.val = i := by
  cases overflowChecks with
  | true =>
    obtain ⟨value, hvalue, hval⟩ := RangedInt.exists_tryFrom (-2 ^ n) (2 ^ n) hlower hupper
    refine ⟨value, ?_, hval⟩
    rw [product, if_pos rfl, hvalue]
  | false => exact ⟨RangedInt.wrapSigned n i, rfl, RangedInt.wrapSigned_val hlower hupper⟩

/-- The product after the largest one is the first that a build can tell. -/
theorem product_pow (overflowChecks : Bool) (n : ℕ) :
    product overflowChecks n (2 ^ n) =
      if overflowChecks then .error (.panic "attempt to multiply with overflow")
      else .ok (RangedInt.wrapSigned n (2 ^ n)) := by
  have hnone : RangedInt.tryFrom (-2 ^ n) (2 ^ n) (2 ^ n) = none := by
    rw [RangedInt.tryFrom, dif_neg (by omega)]
  rw [product, hnone]

/-- A decimal text as an exact decimal of the given scale. The integer part and
the padded fraction are read as one integer. -/
def parseNumeric (overflowChecks : Bool) (text : String) (scale : U8) :
    Except Fault Numeric := do
  let trimmed := trim text.toList
  let (sign, unsigned) : ℤ × List Char := match trimmed with
    | '-' :: rest => (-1, rest)
    | '+' :: rest => (1, rest)
    | rest => (1, rest)
  let (intPart, fracPart) := (splitOnce '.' unsigned).getD (unsigned, [])
  if scale.val < byteLength fracPart then
    .error (.error ("value '" ++ String.ofList unsigned ++
      "' has more fractional digits than the declared scale (" ++ toString scale.val ++ ")"))
  let digits := intPart ++ padRight '0' scale.val.toNat fracPart
  let unscaled : ℤ ← if digits = [] then .ok 0 else
    match parseInt (-2 ^ 127) (2 ^ 127) digits with
    | .ok i => .ok i.val
    | .error err => .error (.error err.message)
  let value ← product overflowChecks 127 (sign * unscaled)
  Numeric.newWithScale value scale

/-- Digits with the point that a scale puts among them. -/
def decimalBody (scale : ℕ) (digits : List Char) : List Char :=
  if scale = 0 then digits
  else
    let padded := padLeft '0' (scale + 1) digits
    let splitAt := padded.length - scale
    padded.take splitAt ++ '.' :: padded.drop splitAt

/-- The exact decimal text of a decimal. -/
def formatNumeric (n : Numeric) : String :=
  let digits := (toString n.value.val.natAbs).toList
  let body := decimalBody n.scale.val.toNat digits
  String.ofList (if n.value.val < 0 then '-' :: body else body)

section Bind

variable (lib : Libraries)

def valueText (value : Json) : String := compactText lib.formatF64 value

def integerValue (value : Json) (xSqlType : String) : Except Fault (Option I64) :=
  match value with
  | .null => .ok none
  | _ =>
    match value.asI64 with
    | some i => .ok (some i)
    | none => .error (.error
        ("expected an integer for " ++ xSqlType ++ ", got " ++ valueText lib value))

/-- A number as binary64, an integer rounded to the nearest. -/
def asF64 : Json → Option UInt64
  | .num (.int i) => some (Float.ofInt i.val).toBits
  | .num (.float bits) => some bits
  | _ => none

def floatingValue (value : Json) (xSqlType : String) : Except Fault (Option UInt64) :=
  match value with
  | .null => .ok none
  | _ =>
    match asF64 value with
    | some bits => .ok (some bits)
    | none => .error (.error
        ("expected a number for " ++ xSqlType ++ ", got " ++ valueText lib value))

def stringValue (value : Json) (xSqlType : String) : Except Fault (Option String) :=
  match value with
  | .null => .ok none
  | .str s => .ok (some s)
  | other => .error (.error
      ("expected a string for " ++ xSqlType ++ ", got " ++ valueText lib other))

/-- An integer narrowed to the width of its type. -/
def narrowedInteger (lo hi : ℤ) (typeName : String) (value : Json) (xSqlType : String) :
    Except Fault (Option (RangedInt lo hi)) := do
  match ← integerValue lib value xSqlType with
  | none => .ok none
  | some i =>
    match RangedInt.tryFrom lo hi i.val with
    | some n => .ok (some n)
    | none => .error (.error
        ("value " ++ valueText lib value ++ " is outside the range for " ++ typeName))

/-- The largest binary32 number, as binary64. -/
def f32Max : Float := Float.ofBits 0x47EFFFFFE0000000

def realValue (value : Json) (xSqlType : String) : Except Fault (Option UInt32) := do
  match ← floatingValue lib value xSqlType with
  | none => .ok none
  | some bits =>
    let n := Float.ofBits bits
    if n < -f32Max || n > f32Max then
      .error (.error ("value " ++ valueText lib value ++ " is outside the range for real"))
    else .ok (some n.toFloat32.toBits)

def decimalParam (value : Json) (xSqlType : String) : Except Fault (Option Numeric) :=
  let scale := (precisionScale xSqlType).2
  match value with
  | .null => .ok none
  | .str s => (parseNumeric lib.overflowChecks s scale).map some
  | .num n => (parseNumeric lib.overflowChecks (numberText lib.formatF64 n) scale).map some
  | other => .error (.error ("expected a number or numeric string, got " ++ valueText lib other))

/-- A string argument read by a library; its error is passed on. -/
def parsedValue {A : Type} (parse : String → Except String A) (value : Json)
    (xSqlType : String) : Except Fault (Option A) := do
  match ← stringValue lib value xSqlType with
  | none => .ok none
  | some s =>
    match parse s with
    | .ok a => .ok (some a)
    | .error err => .error (.error err)

def parseNaiveTime (s : String) : Except String NaiveTime :=
  match ["%H:%M:%S%.f", "%H:%M:%S", "%H:%M"].findSome?
      fun format => (lib.parseTime format s).toOption with
  | some time => .ok time
  | none => .error ("could not parse '" ++ s ++ "' as a time")

def parseNaiveDatetime (s : String) : Except String NaiveDateTime :=
  match lib.parseDateTime "%Y-%m-%dT%H:%M:%S%.f" s with
  | .ok dt => .ok dt
  | .error _ =>
    match lib.parseRfc3339 s with
    | .ok dt => .ok dt.naiveUtc
    | .error _ => .error ("could not parse '" ++ s ++ "' as a datetime")

def decodeBinary (s : String) : Except String (List UInt8) :=
  match lib.base64Decode s with
  | .ok bytes => .ok bytes
  | .error err => .error ("expected base64-encoded binary: " ++ err)

/-- The bound parameter of a JSON argument under its declared SQL type. A type
that is not listed takes the argument as text. -/
def jsonToParam (value : Json) (xSqlType : String) : Except Fault BoundParam :=
  match baseType xSqlType with
  | "bit" =>
    match value with
    | .null => .ok (.bool none)
    | .bool b => .ok (.bool (some b))
    | other => .error (.error ("expected a boolean for bit, got " ++ valueText lib other))
  | "tinyint" => (narrowedInteger lib 0 (2 ^ 8) "tinyint" value xSqlType).map .u8
  | "smallint" => (narrowedInteger lib (-2 ^ 15) (2 ^ 15) "smallint" value xSqlType).map .i16
  | "int" => (narrowedInteger lib (-2 ^ 31) (2 ^ 31) "int" value xSqlType).map .i32
  | "bigint" => (integerValue lib value xSqlType).map .i64
  | "real" => (realValue lib value xSqlType).map .f32
  | "float" => (floatingValue lib value xSqlType).map .f64
  | "decimal" | "numeric" | "money" | "smallmoney" =>
    (decimalParam lib value xSqlType).map .numeric
  | "uniqueidentifier" => (parsedValue lib lib.parseUuid value xSqlType).map .uuid
  | "date" => (parsedValue lib (lib.parseDate "%Y-%m-%d") value xSqlType).map .naiveDate
  | "time" => (parsedValue lib (parseNaiveTime lib) value xSqlType).map .naiveTime
  | "datetime" | "datetime2" | "smalldatetime" =>
    (parsedValue lib (parseNaiveDatetime lib) value xSqlType).map .naiveDateTime
  | "datetimeoffset" => (parsedValue lib lib.parseRfc3339 value xSqlType).map .dateTime
  | "binary" | "varbinary" | "image" | "rowversion" | "timestamp" =>
    (parsedValue lib (decodeBinary lib) value xSqlType).map .bytes
  | _ =>
    match value with
    | .null => .ok (.string none)
    | .str s => .ok (.string (some s))
    | other => .ok (.string (some (valueText lib other)))

end Bind

/-- A binary64 number; the infinities and NaN, which JSON lacks, are `null`. -/
def f64ToJson (bits : UInt64) : Json :=
  if (Float.ofBits bits).isFinite then .num (.float bits) else .null

def orNull {A : Type} (render : A → Json) : Option A → Json
  | some a => render a
  | none => .null

@[simp] theorem orNull_some {A : Type} (render : A → Json) (a : A) :
    orNull render (some a) = render a := rfl

/-- The day numbers of the first of January of the years 1 and 1900. -/
def jan1Year1 : ℤ := 1
def jan1Year1900 : ℤ := 693596

def daysToDate (days jan1 : ℤ) : Except Fault NaiveDate :=
  match RangedInt.tryFrom (-95746129) 95745400 (jan1 + days) with
  | some date => .ok date
  | none => .error (.panic "NaiveDate + TimeDelta overflowed")

def nanosPerDay : ℤ := 86400 * 10 ^ 9

/-- Midnight plus a number of nanoseconds, modulo a day. -/
def midnightPlus (ns : ℤ) : NaiveTime where
  secs := ⟨ns % nanosPerDay / 10 ^ 9, by unfold nanosPerDay; omega, by unfold nanosPerDay; omega⟩
  frac := ⟨ns % 10 ^ 9, by omega, by omega⟩

/-- The 64-bit value read as a signed one. -/
def asI64 (increments : U64) : ℤ :=
  if increments.val < 2 ^ 63 then increments.val else increments.val - 2 ^ 64

def timeOfDay (overflowChecks : Bool) (increments : U64) (scale : U8) :
    Except Fault NaiveTime :=
  if 9 < scale.val then
    -- The wrapped exponent is so large that the power of ten wraps to zero.
    if overflowChecks then .error (.panic "attempt to subtract with overflow")
    else .ok (midnightPlus 0)
  else do
    let ns ← product overflowChecks 63 (asI64 increments * 10 ^ (9 - scale.val.toNat))
    .ok (midnightPlus ns.val)

def fixedOffset (minutes : I16) : Except Fault FixedOffset :=
  match RangedInt.tryFrom (-86399) 86400 (minutes.val * 60) with
  | some offset => .ok offset
  | none => .error (.panic "called Option::unwrap() on a None value")

section Render

variable (lib : Libraries)

def dateTime2 (dt2 : WireDateTime2) : Except Fault NaiveDateTime := do
  let date ← daysToDate dt2.date.days.val jan1Year1
  let time ← timeOfDay lib.overflowChecks dt2.time.increments dt2.time.scale
  .ok ⟨date, time⟩

def temporalToJson : ColumnData → Except Fault Json
  | .date (some date) => do
    let date ← daysToDate date.days.val jan1Year1
    .ok (.str (lib.formatDate "%Y-%m-%d" date))
  | .time (some time) => do
    let time ← timeOfDay lib.overflowChecks time.increments time.scale
    .ok (.str (lib.formatTime "%H:%M:%S%.f" time))
  | .smallDateTime (some dt) => do
    let date ← daysToDate dt.days.val jan1Year1900
    let time := midnightPlus (dt.secondsFragments.val * 60 * 10 ^ 9)
    .ok (.str (lib.formatDateTime "%Y-%m-%dT%H:%M:%S" ⟨date, time⟩))
  | .dateTime (some dt) => do
    let date ← daysToDate dt.days.val jan1Year1900
    let time := midnightPlus (dt.secondsFragments.val * 10 ^ 9 / 300)
    .ok (.str (lib.formatDateTime "%Y-%m-%dT%H:%M:%S%.f" ⟨date, time⟩))
  | .dateTime2 (some dt2) => do
    let naive ← dateTime2 lib dt2
    .ok (.str (lib.formatDateTime "%Y-%m-%dT%H:%M:%S%.f" naive))
  | .dateTimeOffset (some dto) => do
    let naive ← dateTime2 lib dto.datetime2
    let offset ← fixedOffset dto.offset
    .ok (.str (lib.toRfc3339 ⟨naive, offset⟩))
  | _ => .ok .null

def columnDataToJson : ColumnData → Except Fault Json
  | .u8 v => .ok (orNull (fun i => Json.ofBounded i (by norm_num) (by norm_num)) v)
  | .i16 v => .ok (orNull (fun i => Json.ofBounded i (by norm_num) (by norm_num)) v)
  | .i32 v => .ok (orNull (fun i => Json.ofBounded i (by norm_num) (by norm_num)) v)
  | .i64 v => .ok (orNull (fun i => Json.ofBounded i (by norm_num) (by norm_num)) v)
  | .f32 v => .ok (orNull (fun bits => f64ToJson (FloatBits.widen bits)) v)
  | .f64 v => .ok (orNull f64ToJson v)
  | .bit v => .ok (orNull .bool v)
  | .numeric v => .ok (orNull (fun n => .str (formatNumeric n)) v)
  | .string v => .ok (orNull .str v)
  | .guid v => .ok (orNull (fun g => .str (lib.uuidText g)) v)
  | .binary v => .ok (orNull (fun b => .str (lib.base64Encode b)) v)
  | .xml v => .ok (orNull (fun x => .str x.data) v)
  | data => temporalToJson lib data

end Render

end SqlServerMcp.SqlType
