import SqlServerMcp.FixedWidth

/-!
The values that cross the database driver: bound parameters on the way in,
decoded cells on the way out, and the calendar and decimal types they carry. A
date is its day number, counted from 1 for the first of January of year 1.
-/
namespace SqlServerMcp.SqlValue

open FixedWidth

/-- How an operation ends early: with an error it returns, or with a panic. -/
inductive Fault where
  | error (message : String)
  | panic (message : String)
  deriving DecidableEq

abbrev Uuid := BitVec 128

/-- An exact decimal; `newWithScale` asserts the bound on the scale. -/
structure Numeric where
  value : I128
  scale : U8
  scale_lt : scale.val < 38
  deriving DecidableEq

def Numeric.newWithScale (value : I128) (scale : U8) : Except Fault Numeric :=
  if h : scale.val < 38 then .ok ⟨value, scale, h⟩
  else .error (.panic "assertion failed: scale < 38")

/-- From the first day of year -262143 to the last of year 262142. -/
abbrev NaiveDate := RangedInt (-95746129) 95745400

/-- Nanoseconds from 10^9 on stand for a leap second. -/
structure NaiveTime where
  secs : RangedInt 0 86400
  frac : RangedInt 0 (2 * 10 ^ 9)
  deriving DecidableEq

structure NaiveDateTime where
  date : NaiveDate
  time : NaiveTime
  deriving DecidableEq

/-- A distance from UTC of less than a day, in seconds. -/
abbrev FixedOffset := RangedInt (-86399) 86400

structure DateTimeFixed where
  naiveUtc : NaiveDateTime
  offset : FixedOffset
  deriving DecidableEq

/-- A bound statement parameter; `none` is NULL of its type. -/
inductive BoundParam where
  | bool (value : Option Bool)
  | u8 (value : Option U8)
  | i16 (value : Option I16)
  | i32 (value : Option I32)
  | i64 (value : Option I64)
  | f32 (bits : Option UInt32)
  | f64 (bits : Option UInt64)
  | numeric (value : Option Numeric)
  | uuid (value : Option Uuid)
  | naiveDate (value : Option NaiveDate)
  | naiveTime (value : Option NaiveTime)
  | naiveDateTime (value : Option NaiveDateTime)
  | dateTime (value : Option DateTimeFixed)
  | bytes (value : Option (List UInt8))
  | string (value : Option String)

/-- Days since the first of January of year 1. -/
structure WireDate where
  days : U32
  deriving DecidableEq

/-- Units of 10^-scale seconds since midnight. -/
structure WireTime where
  increments : U64
  scale : U8
  deriving DecidableEq

/-- Days since the first of January 1900, and minutes. -/
structure WireSmallDateTime where
  days : U16
  secondsFragments : U16
  deriving DecidableEq

/-- Days since the first of January 1900, and units of a 300th of a second. -/
structure WireDateTime where
  days : I32
  secondsFragments : U32
  deriving DecidableEq

structure WireDateTime2 where
  date : WireDate
  time : WireTime
  deriving DecidableEq

/-- A UTC date and time, and the offset in minutes it is shown at. -/
structure WireDateTimeOffset where
  datetime2 : WireDateTime2
  offset : I16
  deriving DecidableEq

structure XmlSchema where
  dbName : String
  owner : String
  collection : String
  deriving DecidableEq

structure XmlData where
  data : String
  schema : Option XmlSchema
  deriving DecidableEq

/-- A decoded cell; `none` is NULL of its type. -/
inductive ColumnData where
  | u8 (value : Option U8)
  | i16 (value : Option I16)
  | i32 (value : Option I32)
  | i64 (value : Option I64)
  | f32 (bits : Option UInt32)
  | f64 (bits : Option UInt64)
  | bit (value : Option Bool)
  | string (value : Option String)
  | guid (value : Option Uuid)
  | binary (value : Option (List UInt8))
  | numeric (value : Option Numeric)
  | xml (value : Option XmlData)
  | dateTime (value : Option WireDateTime)
  | smallDateTime (value : Option WireSmallDateTime)
  | time (value : Option WireTime)
  | date (value : Option WireDate)
  | dateTime2 (value : Option WireDateTime2)
  | dateTimeOffset (value : Option WireDateTimeOffset)

/-- The text conversions of the libraries the code calls, and whether the build
checks its arithmetic. The date and time conversions take the format they are
called with. -/
structure Libraries where
  overflowChecks : Bool
  formatF64 : UInt64 → String
  parseUuid : String → Except String Uuid
  uuidText : Uuid → String
  parseDate : String → String → Except String NaiveDate
  formatDate : String → NaiveDate → String
  parseTime : String → String → Except String NaiveTime
  formatTime : String → NaiveTime → String
  parseDateTime : String → String → Except String NaiveDateTime
  formatDateTime : String → NaiveDateTime → String
  parseRfc3339 : String → Except String DateTimeFixed
  toRfc3339 : DateTimeFixed → String
  base64Decode : String → Except String (List UInt8)
  base64Encode : List UInt8 → String

/-- A number for each day, from 0 for the first one. -/
def dayText (date : NaiveDate) : String := toString (date.val + 95746129).toNat

def timeText (time : NaiveTime) : String :=
  toString time.secs.val.toNat ++ "." ++ toString time.frac.val.toNat

/-- Libraries that write every value as its numbers and read no text, in a
build that checks its arithmetic. -/
def numericLibraries : Libraries where
  overflowChecks := true
  formatF64 bits := toString bits.toNat
  parseUuid _ := .error "not read"
  uuidText u := toString u.toNat
  parseDate _ _ := .error "not read"
  formatDate _ date := dayText date
  parseTime _ _ := .error "not read"
  formatTime _ time := timeText time
  parseDateTime _ _ := .error "not read"
  formatDateTime _ dt := timeText dt.time ++ "T" ++ dayText dt.date
  parseRfc3339 _ := .error "not read"
  toRfc3339 dt := timeText dt.naiveUtc.time ++ "T" ++ dayText dt.naiveUtc.date ++ "Z" ++
    toString (dt.offset.val + 86399).toNat
  base64Decode _ := .error "not read"
  base64Encode bytes := String.ofList (bytes.map fun b => Char.ofNat b.toNat)

end SqlServerMcp.SqlValue
