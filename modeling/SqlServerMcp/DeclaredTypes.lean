import SqlServerMcp.ExactNumerics

/-!
The texts that the generator writes for the types of parameters, against the types
themselves. A type is what the catalog reports of it, and a text is read as the
server reads one in a declaration: with its own length, precision or scale where
the text leaves them out, and not at all where the type takes none.
-/
namespace SqlServerMcp.DeclaredTypes

open Decimals ExactNumerics Generator Text

/-- What the catalog reports of the type of a parameter. -/
structure Reported where
  dataType : String
  maxLength : ℤ
  precision : ℤ
  scale : ℤ

/-- The types that are declared by their names alone. -/
inductive PlainType where
  | bit | tinyint | smallint | int | bigint
  | real | float | money | smallmoney
  | date | datetime | smalldatetime
  | uniqueidentifier | sqlVariant | xml | json
  | geometry | geography | hierarchyid | timestamp | sysname
  | text | ntext | image
  deriving DecidableEq

def PlainType.reported : PlainType → Reported
  | bit => ⟨"bit", 1, 1, 0⟩
  | tinyint => ⟨"tinyint", 1, 3, 0⟩
  | smallint => ⟨"smallint", 2, 5, 0⟩
  | int => ⟨"int", 4, 10, 0⟩
  | bigint => ⟨"bigint", 8, 19, 0⟩
  | real => ⟨"real", 4, 24, 0⟩
  | float => ⟨"float", 8, 53, 0⟩
  | money => ⟨"money", 8, 19, 4⟩
  | smallmoney => ⟨"smallmoney", 4, 10, 4⟩
  | date => ⟨"date", 3, 10, 0⟩
  | datetime => ⟨"datetime", 8, 23, 3⟩
  | smalldatetime => ⟨"smalldatetime", 4, 16, 0⟩
  | uniqueidentifier => ⟨"uniqueidentifier", 16, 0, 0⟩
  | sqlVariant => ⟨"sql_variant", 8016, 0, 0⟩
  | xml => ⟨"xml", -1, 0, 0⟩
  | json => ⟨"json", -1, 0, 0⟩
  | geometry => ⟨"geometry", -1, 0, 0⟩
  | geography => ⟨"geography", -1, 0, 0⟩
  | hierarchyid => ⟨"hierarchyid", 892, 0, 0⟩
  | timestamp => ⟨"timestamp", 8, 0, 0⟩
  | sysname => ⟨"sysname", 256, 0, 0⟩
  | text => ⟨"text", 16, 0, 0⟩
  | ntext => ⟨"ntext", 16, 0, 0⟩
  | image => ⟨"image", 16, 0, 0⟩

/-- The large types that the catalog reports with the length of a pointer. -/
def PlainType.legacy : PlainType → Bool
  | text | ntext | image => true
  | _ => false

inductive SizedKind where
  | char | varchar | nchar | nvarchar | binary | varbinary
  deriving DecidableEq

namespace SizedKind

def name : SizedKind → String
  | char => "char"
  | varchar => "varchar"
  | nchar => "nchar"
  | nvarchar => "nvarchar"
  | binary => "binary"
  | varbinary => "varbinary"

/-- The bytes of one unit of the length. -/
def unit : SizedKind → ℕ
  | nchar | nvarchar => 2
  | _ => 1

def limit (kind : SizedKind) : ℕ := 8000 / kind.unit

def varies : SizedKind → Bool
  | varchar | nvarchar | varbinary => true
  | _ => false

end SizedKind

inductive ExactKind where
  | decimal | numeric
  deriving DecidableEq

def ExactKind.name : ExactKind → String
  | decimal => "decimal"
  | numeric => "numeric"

/-- The bytes of an exact numeric of a precision. -/
def exactBytes (precision : ℕ) : ℤ :=
  if precision ≤ 9 then 5 else if precision ≤ 19 then 9 else if precision ≤ 28 then 13 else 17

/-- The bytes that the digits of a fraction of a second take. -/
def fractionBytes (scale : ℕ) : ℤ := if scale ≤ 2 then 0 else if scale ≤ 4 then 1 else 2

inductive FractionalKind where
  | time | datetime2 | datetimeoffset
  deriving DecidableEq

namespace FractionalKind

def name : FractionalKind → String
  | time => "time"
  | datetime2 => "datetime2"
  | datetimeoffset => "datetimeoffset"

/-- The bytes and the characters of a value without a fraction of a second. -/
def wholeBytes : FractionalKind → ℤ
  | time => 3
  | datetime2 => 6
  | datetimeoffset => 8

def wholeLength : FractionalKind → ℤ
  | time => 8
  | datetime2 => 19
  | datetimeoffset => 26

end FractionalKind

/-- The types of parameters, within the bounds of the server. -/
inductive SqlServerType where
  | plain (type : PlainType)
  | sized (kind : SizedKind) (length : ℕ) (pos : 0 < length) (le : length ≤ kind.limit)
  | max (kind : SizedKind) (varies : kind.varies = true)
  | exact (kind : ExactKind) (precision scale : ℕ) (pos : 0 < precision) (le : precision ≤ 38)
      (scale_le : scale ≤ precision)
  | fractional (kind : FractionalKind) (scale : ℕ) (le : scale ≤ 7)
  | vector (dimensions : ℕ) (pos : 0 < dimensions) (le : dimensions ≤ 1998)
  deriving DecidableEq

namespace SqlServerType

def reported : SqlServerType → Reported
  | plain type => type.reported
  | sized kind length _ _ => ⟨kind.name, length * kind.unit, 0, 0⟩
  | max kind _ => ⟨kind.name, -1, 0, 0⟩
  | exact kind precision scale _ _ _ => ⟨kind.name, exactBytes precision, precision, scale⟩
  | fractional kind scale _ =>
    ⟨kind.name, kind.wholeBytes + fractionBytes scale,
      kind.wholeLength + if scale = 0 then 0 else scale + 1, scale⟩
  | vector dimensions _ _ => ⟨"vector", 8 + 4 * dimensions, 0, 0⟩

/-- The text that the generator writes for the type. -/
def rendered (t : SqlServerType) : String :=
  formatSqlType t.reported.dataType (some t.reported.maxLength) (some t.reported.precision)
    (some t.reported.scale)

end SqlServerType

/-! How the server reads a type in a declaration. -/

/-- What stands in parentheses after the name of a type. -/
inductive Arguments where
  | none
  | max
  | one (n : ℕ)
  | two (n m : ℕ)

def readNumber (l : List Char) : Option ℕ :=
  if l ≠ [] ∧ l.all Char.isDigit then some (digitsValue l) else none

def readArguments (l : List Char) : Option Arguments :=
  match splitAll ',' l with
  | [word] =>
    match readNumber word with
    | some n => some (.one n)
    | none => if toAsciiLowercase word = ['m', 'a', 'x'] then some .max else none
  | [first, second] => do
    let n ← readNumber first
    let m ← readNumber second
    return .two n m
  | _ => none

def readParts (l : List Char) : Option (List Char × Arguments) :=
  match splitOnce '(' l with
  | none => some (l, .none)
  | some (name, rest) => do
    let inner ← stripSuffix ')' rest
    let arguments ← readArguments inner
    return (name, arguments)

def readPlain (type : PlainType) : Arguments → Option SqlServerType
  | .none => some (.plain type)
  | _ => none

/-- A binary number takes the number of its bits. -/
def readFloat : Arguments → Option SqlServerType
  | .none => some (.plain .float)
  | .one n =>
    if 0 < n ∧ n ≤ 24 then some (.plain .real)
    else if 24 < n ∧ n ≤ 53 then some (.plain .float)
    else none
  | _ => none

def sizedOf (kind : SizedKind) (length : ℕ) : Option SqlServerType :=
  if h : 0 < length ∧ length ≤ kind.limit then some (.sized kind length h.1 h.2) else none

def readSized (kind : SizedKind) : Arguments → Option SqlServerType
  | .none => sizedOf kind 1
  | .one n => sizedOf kind n
  | .max => if h : kind.varies = true then some (.max kind h) else none
  | .two _ _ => none

def exactOf (kind : ExactKind) (precision scale : ℕ) : Option SqlServerType :=
  if h : 0 < precision ∧ precision ≤ 38 ∧ scale ≤ precision then
    some (.exact kind precision scale h.1 h.2.1 h.2.2)
  else none

def readExact (kind : ExactKind) : Arguments → Option SqlServerType
  | .none => exactOf kind 18 0
  | .one n => exactOf kind n 0
  | .two n m => exactOf kind n m
  | .max => none

def fractionalOf (kind : FractionalKind) (scale : ℕ) : Option SqlServerType :=
  if h : scale ≤ 7 then some (.fractional kind scale h) else none

def readFractional (kind : FractionalKind) : Arguments → Option SqlServerType
  | .none => fractionalOf kind 7
  | .one n => fractionalOf kind n
  | _ => none

def readVector : Arguments → Option SqlServerType
  | .one n =>
    if h : 0 < n ∧ n ≤ 1998 then some (.vector n h.1 h.2) else none
  | _ => none

def plainTypes : List PlainType :=
  [.bit, .tinyint, .smallint, .int, .bigint, .real, .money, .smallmoney, .date, .datetime,
    .smalldatetime, .uniqueidentifier, .sqlVariant, .xml, .json, .geometry, .geography,
    .hierarchyid, .timestamp, .sysname, .text, .ntext, .image]

/-- The names of types, each with what it makes of its arguments. -/
def typeNames : List (String × (Arguments → Option SqlServerType)) :=
  plainTypes.map (fun type => (type.reported.dataType, readPlain type)) ++
    [("float", readFloat), ("vector", readVector)] ++
    [SizedKind.char, .varchar, .nchar, .nvarchar, .binary, .varbinary].map
      (fun kind => (kind.name, readSized kind)) ++
    [ExactKind.decimal, .numeric].map (fun kind => (kind.name, readExact kind)) ++
    [FractionalKind.time, .datetime2, .datetimeoffset].map
      (fun kind => (kind.name, readFractional kind))

/-- The type that a text declares, or `none` where the text is not legal. -/
def readType (text : String) : Option SqlServerType := do
  let (name, arguments) ← readParts text.toList
  let read ← typeNames.lookup (lower (String.ofList name))
  read arguments

section Reading

variable {name : String}

theorem readNumber_toString (n : ℕ) : readNumber (toString n).toList = some n := by
  have hne : (toString n).toList ≠ [] := by
    rw [toString_nat_toList]
    exact Nat.toDigits_ne_nil
  have hdigits : (toString n).toList.all Char.isDigit = true :=
    List.all_eq_true.mpr fun c hc => isDigit_of_mem_toString hc
  rw [readNumber, if_pos ⟨hne, hdigits⟩, digitsValue_toString]

theorem readArguments_one (n : ℕ) : readArguments (toString n).toList = some (.one n) := by
  rw [readArguments, splitAll_of_notMem ',' (digit_not_in n rfl)]
  dsimp only
  rw [readNumber_toString]

theorem readArguments_two (n m : ℕ) :
    readArguments ((toString n).toList ++ ',' :: (toString m).toList) = some (.two n m) := by
  rw [readArguments, splitAll_append ',' _ (digit_not_in n rfl),
    splitAll_of_notMem ',' (digit_not_in m rfl)]
  dsimp only
  rw [readNumber_toString, readNumber_toString]
  rfl

theorem readType_bare (h : '(' ∉ name.toList) :
    readType name = (typeNames.lookup (lower name)).bind fun read => read .none := by
  rw [readType, readParts, splitOnce_of_notMem '(' h]
  simp only [Option.bind_eq_bind, Option.bind_some, String.ofList_toList]

theorem readType_of_arguments (h : '(' ∉ name.toList) {inner : String} {arguments : Arguments}
    (hinner : readArguments inner.toList = some arguments) :
    readType (name ++ "(" ++ inner ++ ")") =
      (typeNames.lookup (lower name)).bind fun read => read arguments := by
  have htext : (name ++ "(" ++ inner ++ ")").toList =
      name.toList ++ '(' :: (inner.toList ++ [')']) := by
    simp [String.toList_append]
  have hparts : readParts (name.toList ++ '(' :: (inner.toList ++ [')'])) =
      some (name.toList, arguments) := by
    rw [readParts, splitOnce_append '(' _ _ h]
    simp only [Option.bind_eq_bind, stripSuffix_concat, Option.bind_some, hinner, Option.pure_def]
  rw [readType, htext, hparts]
  simp only [Option.bind_eq_bind, Option.bind_some, String.ofList_toList]

theorem readType_one (h : '(' ∉ name.toList) (n : ℕ) :
    readType (name ++ "(" ++ toString (n : ℤ) ++ ")") =
      (typeNames.lookup (lower name)).bind fun read => read (.one n) := by
  rw [toString_natCast]
  exact readType_of_arguments h (readArguments_one n)

theorem readType_two (h : '(' ∉ name.toList) (n m : ℕ) :
    readType (name ++ "(" ++ toString (n : ℤ) ++ "," ++ toString (m : ℤ) ++ ")") =
      (typeNames.lookup (lower name)).bind fun read => read (.two n m) := by
  have hinner : readArguments (toString n ++ "," ++ toString m).toList = some (.two n m) := by
    have hcomma : (toString n ++ "," ++ toString m).toList =
        (toString n).toList ++ ',' :: (toString m).toList := by
      simp [String.toList_append]
    rw [hcomma, readArguments_two]
  have hread := readType_of_arguments h hinner
  rw [toString_natCast, toString_natCast]
  simpa only [String.append_assoc] using hread

theorem readType_max (h : '(' ∉ name.toList) :
    readType (name ++ "(max)") =
      (typeNames.lookup (lower name)).bind fun read => read .max := by
  have hinner : readArguments "max".toList = some .max := rfl
  have hread := readType_of_arguments h hinner
  have hjoin : name ++ "(" ++ "max" ++ ")" = name ++ "(max)" := by
    rw [String.append_assoc, String.append_assoc]
    rfl
  rw [← hjoin]
  exact hread

end Reading

/-- The text declares the type itself where it says all that the type needs. -/
def Declared : SqlServerType → Prop
  | .plain type => type.legacy = false
  | .fractional _ scale _ => scale ≠ 0
  | .vector _ _ _ => False
  | _ => True

section Families

theorem lookup_sized (kind : SizedKind) :
    '(' ∉ kind.name.toList ∧ typeNames.lookup (lower kind.name) = some (readSized kind) := by
  cases kind <;> exact ⟨by decide, rfl⟩

theorem lookup_exact (kind : ExactKind) :
    '(' ∉ kind.name.toList ∧ typeNames.lookup (lower kind.name) = some (readExact kind) := by
  cases kind <;> exact ⟨by decide, rfl⟩

theorem lookup_fractional (kind : FractionalKind) :
    '(' ∉ kind.name.toList ∧
      typeNames.lookup (lower kind.name) = some (readFractional kind) := by
  cases kind <;> exact ⟨by decide, rfl⟩

theorem lookup_plain (type : PlainType) :
    '(' ∉ type.reported.dataType.toList ∧
      ∃ read, typeNames.lookup (lower type.reported.dataType) = some read ∧
        read .none = some (.plain type) := by
  cases type <;> exact ⟨by decide, _, rfl, rfl⟩

theorem readType_plain {type : PlainType} (h : type.legacy = false) :
    readType (SqlServerType.plain type).rendered = some (.plain type) := by
  have hrendered : (SqlServerType.plain type).rendered = type.reported.dataType := by
    cases type <;> first | rfl | contradiction
  obtain ⟨hname, read, hlookup, hread⟩ := lookup_plain type
  rw [hrendered, readType_bare hname, hlookup, Option.bind_some, hread]

/-- The large types take no length, and the generator writes one. -/
theorem readType_legacy {type : PlainType} (h : type.legacy = true) :
    readType (SqlServerType.plain type).rendered = none := by
  have hwritten : ∃ length : ℕ, (SqlServerType.plain type).rendered =
      type.reported.dataType ++ "(" ++ toString (length : ℤ) ++ ")" := by
    cases type with
    | text => exact ⟨16, rfl⟩
    | ntext => exact ⟨8, rfl⟩
    | image => exact ⟨16, rfl⟩
    | _ => contradiction
  obtain ⟨length, hlength⟩ := hwritten
  rw [hlength, readType_one (lookup_plain type).1]
  cases type with
  | text => rfl
  | ntext => rfl
  | image => rfl
  | _ => contradiction

/-- A type with a length is written by its bytes, two for each unit or one. -/
theorem formatSqlType_sized (kind : SizedKind) (maxLength precision scale : ℤ) :
    formatSqlType kind.name (some maxLength) (some precision) (some scale) =
      if maxLength = -1 then kind.name ++ "(max)"
      else kind.name ++ "(" ++ toString (maxLength / kind.unit) ++ ")" := by
  have hprecision : lower kind.name ∉ precisionScaleTypes := by cases kind <;> decide
  have hscale : lower kind.name ∉ scaleOnlyTypes := by cases kind <;> decide
  have hunits : (lower kind.name ∈ unicodeStringTypes ∧ kind.unit = 2) ∨
      (lower kind.name ∉ unicodeStringTypes ∧ lower kind.name ∈ byteLengthStringTypes ∧
        kind.unit = 1) := by
    cases kind <;> decide
  unfold formatSqlType
  simp only [hprecision, hscale, false_and, if_false]
  obtain ⟨hunicode, hunit⟩ | ⟨hunicode, hbytes, hunit⟩ := hunits
  · rw [if_pos hunicode, hunit]
    rfl
  · rw [if_neg hunicode, if_pos hbytes, hunit, Nat.cast_one, Int.ediv_one]

theorem readType_sized (kind : SizedKind) {length : ℕ} (pos : 0 < length)
    (le : length ≤ kind.limit) :
    readType (SqlServerType.sized kind length pos le).rendered =
      some (.sized kind length pos le) := by
  have hunit : 0 < kind.unit := by cases kind <;> decide
  have hbytes : (length : ℤ) * kind.unit ≠ -1 := by
    have hnonneg : (0 : ℤ) ≤ (length : ℤ) * kind.unit := by positivity
    omega
  have hlength : (length : ℤ) * kind.unit / kind.unit = length :=
    Int.mul_ediv_cancel _ (by omega)
  have hrendered : (SqlServerType.sized kind length pos le).rendered =
      kind.name ++ "(" ++ toString (length : ℤ) ++ ")" := by
    rw [SqlServerType.rendered, SqlServerType.reported, formatSqlType_sized, if_neg hbytes, hlength]
  obtain ⟨hname, hlookup⟩ := lookup_sized kind
  rw [hrendered, readType_one hname, hlookup, Option.bind_some, readSized, sizedOf,
    dif_pos ⟨pos, le⟩]

theorem readType_maxSized {kind : SizedKind} (varies : kind.varies = true) :
    readType (SqlServerType.max kind varies).rendered = some (.max kind varies) := by
  have hrendered : (SqlServerType.max kind varies).rendered = kind.name ++ "(max)" := by
    rw [SqlServerType.rendered, SqlServerType.reported, formatSqlType_sized, if_pos rfl]
  obtain ⟨hname, hlookup⟩ := lookup_sized kind
  rw [hrendered, readType_max hname, hlookup, Option.bind_some, readSized, dif_pos varies]

theorem readType_exact (kind : ExactKind) {precision scale : ℕ} (pos : 0 < precision)
    (le : precision ≤ 38) (scale_le : scale ≤ precision) :
    readType (SqlServerType.exact kind precision scale pos le scale_le).rendered =
      some (.exact kind precision scale pos le scale_le) := by
  have hfamily : lower kind.name ∈ precisionScaleTypes := by cases kind <;> decide
  have hrendered : (SqlServerType.exact kind precision scale pos le scale_le).rendered =
      kind.name ++ "(" ++ toString (precision : ℤ) ++ "," ++ toString (scale : ℤ) ++ ")" := by
    rw [SqlServerType.rendered, SqlServerType.reported, formatSqlType,
      if_pos ⟨hfamily, Option.isSome_some⟩]
    rfl
  obtain ⟨hname, hlookup⟩ := lookup_exact kind
  rw [hrendered, readType_two hname, hlookup, Option.bind_some, readExact, exactOf,
    dif_pos ⟨pos, le, scale_le⟩]

/-- A scale of zero is left out, and a type without a scale has seven digits. -/
theorem readType_fractional (kind : FractionalKind) {scale : ℕ} (le : scale ≤ 7) :
    readType (SqlServerType.fractional kind scale le).rendered =
      some (.fractional kind (if scale = 0 then 7 else scale) (by split <;> omega)) := by
  have hprecision : lower kind.name ∉ precisionScaleTypes := by cases kind <;> decide
  have hscale : lower kind.name ∈ scaleOnlyTypes := by cases kind <;> decide
  have hstring : lower kind.name ∉ unicodeStringTypes ∧
      lower kind.name ∉ byteLengthStringTypes := by
    cases kind <;> decide
  obtain ⟨hname, hlookup⟩ := lookup_fractional kind
  by_cases hzero : scale = 0
  · subst hzero
    have hrendered : (SqlServerType.fractional kind 0 le).rendered = kind.name := by
      simp [SqlServerType.rendered, SqlServerType.reported, formatSqlType, hprecision, hstring]
    rw [hrendered, readType_bare hname, hlookup]
    rfl
  · have hrendered : (SqlServerType.fractional kind scale le).rendered =
        kind.name ++ "(" ++ toString (scale : ℤ) ++ ")" := by
      simp [SqlServerType.rendered, SqlServerType.reported, formatSqlType, hprecision, hscale,
        hzero]
    rw [hrendered, readType_one hname, hlookup, Option.bind_some, readFractional, fractionalOf,
      dif_pos le]
    simp only [hzero, if_false]

theorem readType_vector {dimensions : ℕ} (pos : 0 < dimensions) (le : dimensions ≤ 1998) :
    readType (SqlServerType.vector dimensions pos le).rendered = none := by
  have hrendered : (SqlServerType.vector dimensions pos le).rendered = "vector" := by
    have hlower : lower "vector" = "vector" := by rfl
    simp [SqlServerType.rendered, SqlServerType.reported, formatSqlType, hlower,
      precisionScaleTypes, scaleOnlyTypes, unicodeStringTypes, byteLengthStringTypes]
  rw [hrendered, readType_bare (by decide)]
  rfl

end Families

/-- The text of a type declares that type, unless it is one of the large types, a
time with no digits after the second, or a vector. -/
theorem readType_rendered_iff (t : SqlServerType) : readType t.rendered = some t ↔ Declared t := by
  cases t with
  | plain type =>
    cases h : type.legacy with
    | false => exact iff_of_true (readType_plain h) h
    | true =>
      rw [readType_legacy h]
      exact iff_of_false nofun fun hdeclared => Bool.noConfusion (h.symm.trans hdeclared)
  | sized kind length pos le => exact iff_of_true (readType_sized kind pos le) trivial
  | max kind varies => exact iff_of_true (readType_maxSized varies) trivial
  | exact kind precision scale pos le scale_le =>
    exact iff_of_true (readType_exact kind pos le scale_le) trivial
  | fractional kind scale le =>
    rw [readType_fractional, Option.some.injEq, SqlServerType.fractional.injEq, Declared]
    constructor
    · intro h' hzero
      obtain ⟨-, hscale⟩ := h'
      rw [if_pos hzero] at hscale
      omega
    · intro hne
      exact ⟨rfl, if_neg hne⟩
  | vector dimensions pos le =>
    rw [readType_vector]
    exact iff_of_false nofun id

/-- A large Unicode text is written with a length. -/
theorem not_declared_ntext :
    readType (SqlServerType.plain .ntext).rendered ≠ some (.plain .ntext) := by
  rw [readType_legacy rfl]
  exact nofun

end SqlServerMcp.DeclaredTypes
