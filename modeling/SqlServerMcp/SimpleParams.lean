import Mathlib.Data.List.TakeWhile
import SqlServerMcp.Results
import SqlServerMcp.SqlType

/-!
The arguments that are bound as they are: booleans, integers, identifiers, binary
values and texts. An argument is accepted when it is null or of its type, and the
cell that the driver makes of it is rendered as the argument itself, up to the
spelling of an identifier and the text of an argument that is no string.
-/
namespace SqlServerMcp.SimpleParams

open FixedWidth JsonValue Results SqlType SqlValue Text

inductive SimpleType where
  | bit
  | tinyint
  | smallint
  | int
  | bigint
  | uniqueidentifier
  | binary
  | character

/-- The types that are not bound as text. -/
def listedNames : List String :=
  ["bit", "tinyint", "smallint", "int", "bigint", "real", "float", "decimal", "numeric", "money",
    "smallmoney", "uniqueidentifier", "date", "time", "datetime", "datetime2", "smalldatetime",
    "datetimeoffset", "binary", "varbinary", "image", "rowversion", "timestamp"]

def SimpleType.Named : SimpleType → String → Prop
  | .bit, name => name = "bit"
  | .tinyint, name => name = "tinyint"
  | .smallint, name => name = "smallint"
  | .int, name => name = "int"
  | .bigint, name => name = "bigint"
  | .uniqueidentifier, name => name = "uniqueidentifier"
  | .binary, name => name ∈ ["binary", "varbinary", "image", "rowversion", "timestamp"]
  | .character, name => name ∉ listedNames

/-- A type is written as its name in any letter case, with blanks around it or
not, and a suffix that starts with a bracket or none. -/
def Spells (name xSqlType : String) : Prop :=
  ∃ head suffix : List Char, xSqlType.toList = head ++ suffix ∧ '(' ∉ head ∧
    (suffix = [] ∨ suffix.head? = some '(') ∧ toAsciiLowercase (trim head) = name.toList

example : Spells "nvarchar" "NVarChar (256)" :=
  ⟨"NVarChar ".toList, "(256)".toList, by decide, by decide, Or.inr rfl, by decide⟩

theorem exists_head_suffix (l : List Char) :
    ∃ head suffix : List Char, l = head ++ suffix ∧ '(' ∉ head ∧
      (suffix = [] ∨ suffix.head? = some '(') := by
  refine ⟨l.takeWhile (· ≠ '('), l.dropWhile (· ≠ '('), ?_, ?_, ?_⟩
  · exact (List.takeWhile_append_dropWhile).symm
  · intro hmem
    have hne := List.mem_takeWhile_imp hmem
    contradiction
  · cases hdrop : l.dropWhile (· ≠ '(') with
    | nil => exact Or.inl rfl
    | cons c rest =>
      have hhead := List.head?_dropWhile_not (· ≠ '(') l
      rw [hdrop] at hhead
      right
      simpa using hhead

theorem baseType_of_head {head suffix : List Char} {xSqlType : String}
    (hsplit : xSqlType.toList = head ++ suffix) (hhead : '(' ∉ head)
    (hsuffix : suffix = [] ∨ suffix.head? = some '(') :
    baseType xSqlType = String.ofList (toAsciiLowercase (trim head)) := by
  have hwords : ∃ rest, splitAll '(' xSqlType.toList = head :: rest := by
    rw [hsplit]
    cases suffix with
    | nil => exact ⟨[], by rw [List.append_nil, splitAll_of_notMem '(' hhead]⟩
    | cons c rest =>
      rcases hsuffix with hempty | hopen
      · contradiction
      · rw [Option.some.inj hopen]
        exact ⟨splitAll '(' rest, splitAll_append '(' rest hhead⟩
  obtain ⟨rest, hrest⟩ := hwords
  rw [baseType, hrest]
  rfl

/-- The base type is the name that is spelled. -/
theorem spells_iff (name xSqlType : String) : Spells name xSqlType ↔ baseType xSqlType = name := by
  constructor
  · intro h
    obtain ⟨head, suffix, hsplit, hhead, hsuffix, hname⟩ := h
    rw [baseType_of_head hsplit hhead hsuffix, hname, String.ofList_toList]
  · intro h
    obtain ⟨head, suffix, hsplit, hhead, hsuffix⟩ := exists_head_suffix xSqlType.toList
    refine ⟨head, suffix, hsplit, hhead, hsuffix, ?_⟩
    rw [← h, baseType_of_head hsplit hhead hsuffix, String.toList_ofList]

section Accepted

variable (lib : Libraries) (v : Json) {xSqlType : String}

/-- The text that a character type takes an argument as; a string is its own text. -/
def characterText : Json → Option String
  | .null => none
  | .str s => some s
  | other => some (valueText lib other)

theorem jsonToParam_character (h : baseType xSqlType ∉ listedNames) :
    jsonToParam lib v xSqlType = .ok (.string (characterText lib v)) := by
  unfold jsonToParam
  generalize baseType xSqlType = name at h ⊢
  -- every name but that of the last case is in the list
  split
  all_goals first | exact absurd (by decide) h | skip
  cases v <;> rfl

/-- The integer that a JSON number stands for. -/
def IsInteger {lo hi : ℤ} (v : Json) (n : RangedInt lo hi) : Prop :=
  ∃ i : JsonInt, v = .num (.int i) ∧ n.val = i.val

theorem integerValue_eq_ok_iff (o : Option I64) :
    integerValue lib v xSqlType = .ok o ↔
      (v = .null ∧ o = none) ∨ ∃ n : I64, IsInteger v n ∧ o = some n := by
  cases v with
  | null => simp [integerValue, IsInteger, eq_comm]
  | num number =>
    cases number with
    | int i =>
      have hread : integerValue lib (.num (.int i)) xSqlType = .ok o ↔
          ∃ n : I64, RangedInt.tryFrom (-2 ^ 63) (2 ^ 63) i.val = some n ∧ o = some n := by
        unfold integerValue Json.asI64
        dsimp only
        generalize RangedInt.tryFrom (-2 ^ 63) (2 ^ 63) i.val = read
        cases read <;> simp [eq_comm]
      rw [hread]
      simp [RangedInt.tryFrom_eq_some_iff, IsInteger]
    | float bits => simp [integerValue, Json.asI64, IsInteger]
  | bool b => simp [integerValue, Json.asI64, IsInteger]
  | str s => simp [integerValue, Json.asI64, IsInteger]
  | arr items => simp [integerValue, Json.asI64, IsInteger]
  | obj fields => simp [integerValue, Json.asI64, IsInteger]

/-- A narrower integer is accepted when it is in the range of its type. -/
theorem narrowedInteger_eq_ok_iff {lo hi : ℤ} (hlo : -2 ^ 63 ≤ lo) (hhi : hi ≤ 2 ^ 63)
    (typeName : String) (o : Option (RangedInt lo hi)) :
    narrowedInteger lib lo hi typeName v xSqlType = .ok o ↔
      (v = .null ∧ o = none) ∨ ∃ n : RangedInt lo hi, IsInteger v n ∧ o = some n := by
  unfold narrowedInteger
  rw [bind_eq_ok]
  constructor
  · intro h
    obtain ⟨read, hread, hnarrow⟩ := h
    rcases (integerValue_eq_ok_iff lib v read).mp hread with ⟨hv, hnone⟩ | ⟨i, hint, hsome⟩
    · rw [hnone] at hnarrow
      exact Or.inl ⟨hv, (Except.ok.inj hnarrow).symm⟩
    · rw [hsome] at hnarrow
      dsimp only at hnarrow
      cases htry : RangedInt.tryFrom lo hi i.val with
      | none =>
        rw [htry] at hnarrow
        contradiction
      | some n =>
        rw [htry] at hnarrow
        have hn := (RangedInt.tryFrom_eq_some_iff i.val n).mp htry
        obtain ⟨j, hv, hj⟩ := hint
        exact Or.inr ⟨n, ⟨j, hv, hn.trans hj⟩, (Except.ok.inj hnarrow).symm⟩
  · intro h
    rcases h with ⟨hv, hnone⟩ | ⟨n, ⟨j, hv, hj⟩, hsome⟩
    · refine ⟨none, (integerValue_eq_ok_iff lib v none).mpr (Or.inl ⟨hv, rfl⟩), ?_⟩
      rw [hnone]
    · have hlower := n.lower
      have hupper := n.upper
      obtain ⟨i, -, hval⟩ := RangedInt.exists_tryFrom (-2 ^ 63) (2 ^ 63) (i := n.val)
        (by omega) (by omega)
      refine ⟨some i, (integerValue_eq_ok_iff lib v _).mpr
        (Or.inr ⟨i, ⟨j, hv, hval.trans hj⟩, rfl⟩), ?_⟩
      dsimp only
      rw [hval, RangedInt.tryFrom_val, hsome]

theorem parsedValue_eq_ok_iff {A : Type} (parse : String → Except String A) (o : Option A) :
    parsedValue lib parse v xSqlType = .ok o ↔
      (v = .null ∧ o = none) ∨ ∃ a, (∃ s, v = .str s ∧ parse s = .ok a) ∧ o = some a := by
  unfold parsedValue
  rw [bind_eq_ok]
  cases v with
  | null => simp [stringValue, eq_comm]
  | str s =>
    cases hparse : parse s with
    | error err => simp [stringValue, hparse]
    | ok a => simp [stringValue, hparse, eq_comm]
  | bool b => simp [stringValue]
  | num number => simp [stringValue]
  | arr items => simp [stringValue]
  | obj fields => simp [stringValue]

end Accepted

/-- What the text libraries do. A text is read as the identifier it denotes, an
identifier is written as one of its texts, and binary values are read from the
one text that they are written as. -/
structure TextLaws (lib : Libraries) (denotes : String → Uuid → Prop) : Prop where
  parseUuid : ∀ s u, lib.parseUuid s = .ok u ↔ denotes s u
  uuidText : ∀ u, denotes (lib.uuidText u) u
  base64Decode : ∀ s bytes, lib.base64Decode s = .ok bytes ↔ s = lib.base64Encode bytes

/-- What the driver makes of the parameters of these types. -/
structure TiberiusBinds (toSql : BoundParam → Except Fault ColumnData) : Prop where
  bool : ∀ v, toSql (.bool v) = .ok (.bit v)
  u8 : ∀ v, toSql (.u8 v) = .ok (.u8 v)
  i16 : ∀ v, toSql (.i16 v) = .ok (.i16 v)
  i32 : ∀ v, toSql (.i32 v) = .ok (.i32 v)
  i64 : ∀ v, toSql (.i64 v) = .ok (.i64 v)
  uuid : ∀ v, toSql (.uuid v) = .ok (.guid v)
  bytes : ∀ v, toSql (.bytes v) = .ok (.binary v)
  string : ∀ v, toSql (.string v) = .ok (.string v)

section Faithful

variable (lib : Libraries) (toSql : BoundParam → Except Fault ColumnData)
  (denotes : String → Uuid → Prop)

def IntegerIn (lo hi : ℤ) (v : Json) : Prop :=
  ∃ i : JsonInt, v = .num (.int i) ∧ lo ≤ i.val ∧ i.val < hi

/-- The arguments of a type other than null. -/
def InDomain : SimpleType → Json → Prop
  | .bit, v => ∃ b, v = .bool b
  | .tinyint, v => IntegerIn 0 (2 ^ 8) v
  | .smallint, v => IntegerIn (-2 ^ 15) (2 ^ 15) v
  | .int, v => IntegerIn (-2 ^ 31) (2 ^ 31) v
  | .bigint, v => IntegerIn (-2 ^ 63) (2 ^ 63) v
  | .uniqueidentifier, v => ∃ s u, v = .str s ∧ denotes s u
  | .binary, v => ∃ bytes, v = .str (lib.base64Encode bytes)
  | .character, _ => True

/-- How a rendered cell stands for an argument: it is the same value, but for
the spelling of an identifier and the text of an argument that is no string. -/
def StandsFor : SimpleType → Json → Json → Prop
  | .uniqueidentifier, .null, w => w = .null
  | .uniqueidentifier, v, w => ∃ s u, v = .str s ∧ denotes s u ∧ w = .str (lib.uuidText u)
  | .character, v, w => w = orNull .str (characterText lib v)
  | _, v, w => w = v

/-- A parameter is sent as a cell that is rendered as a value that stands for
the argument. -/
def ShownAs (type : SimpleType) (v : Json) (p : BoundParam) : Prop :=
  ∃ data w, toSql p = .ok data ∧ columnDataToJson lib data = .ok w ∧
    StandsFor lib denotes type v w

/-- A type takes null and the values of its domain, and gives back what it takes. -/
structure Faithful (type : SimpleType) (xSqlType : String) : Prop where
  accepted : ∀ v, (∃ p, jsonToParam lib v xSqlType = .ok p) ↔
    v = .null ∨ InDomain lib denotes type v
  shown : ∀ v p, jsonToParam lib v xSqlType = .ok p → ShownAs lib toSql denotes type v p

variable {lib toSql denotes}

/-- A type is faithful when null is bound as the null of one kind of parameter,
and any other argument as the value that it holds. -/
theorem faithful_of_binds {A : Type} {type : SimpleType} {xSqlType : String}
    (bind : Option A → BoundParam) (Holds : Json → A → Prop)
    (hbinds : ∀ v p, jsonToParam lib v xSqlType = .ok p ↔
      (v = .null ∧ p = bind none) ∨ ∃ a, Holds v a ∧ p = bind (some a))
    (hdomain : ∀ v, InDomain lib denotes type v ↔ ∃ a, Holds v a)
    (hnull : ShownAs lib toSql denotes type .null (bind none))
    (hvalue : ∀ v a, Holds v a → ShownAs lib toSql denotes type v (bind (some a))) :
    Faithful lib toSql denotes type xSqlType := by
  constructor
  · intro v
    rw [hdomain]
    constructor
    · intro h
      obtain ⟨p, hp⟩ := h
      rcases (hbinds v p).mp hp with ⟨hv, -⟩ | ⟨a, ha, -⟩
      · exact Or.inl hv
      · exact Or.inr ⟨a, ha⟩
    · intro h
      obtain hv | ⟨a, ha⟩ := h
      · exact ⟨bind none, (hbinds v _).mpr (Or.inl ⟨hv, rfl⟩)⟩
      · exact ⟨bind (some a), (hbinds v _).mpr (Or.inr ⟨a, ha, rfl⟩)⟩
  · intro v p hp
    rcases (hbinds v p).mp hp with ⟨hv, hnone⟩ | ⟨a, ha, hsome⟩
    · rw [hv, hnone]
      exact hnull
    · rw [hsome]
      exact hvalue v a ha

theorem integerIn_iff {lo hi : ℤ} (v : Json) :
    IntegerIn lo hi v ↔ ∃ n : RangedInt lo hi, IsInteger v n := by
  constructor
  · intro h
    obtain ⟨i, hv, hlower, hupper⟩ := h
    exact ⟨⟨i.val, hlower, hupper⟩, i, hv, rfl⟩
  · intro h
    obtain ⟨n, i, hv, hval⟩ := h
    exact ⟨i, hv, hval ▸ n.lower, hval ▸ n.upper⟩

theorem ofBounded_of_isInteger {lo hi : ℤ} {v : Json} {n : RangedInt lo hi} (h : IsInteger v n)
    (hlo : -2 ^ 63 ≤ lo) (hhi : hi ≤ 2 ^ 64) : Json.ofBounded n hlo hhi = v := by
  obtain ⟨i, hv, hval⟩ := h
  have hsame : n.widen hlo hhi = i := RangedInt.ext hval
  rw [hv, Json.ofBounded, hsame]

theorem map_binds {A : Type} {v : Json} {read : Except Fault (Option A)} {Holds : A → Prop}
    (bind : Option A → BoundParam)
    (h : ∀ o, read = .ok o ↔ (v = .null ∧ o = none) ∨ ∃ a, Holds a ∧ o = some a) (p : BoundParam) :
    read.map bind = .ok p ↔ (v = .null ∧ p = bind none) ∨ ∃ a, Holds a ∧ p = bind (some a) := by
  rw [map_eq_ok]
  constructor
  · intro h'
    obtain ⟨o, ho, rfl⟩ := h'
    rcases (h o).mp ho with ⟨hv, rfl⟩ | ⟨a, ha, rfl⟩
    · exact Or.inl ⟨hv, rfl⟩
    · exact Or.inr ⟨a, ha, rfl⟩
  · intro h'
    obtain ⟨hv, rfl⟩ | ⟨a, ha, rfl⟩ := h'
    · exact ⟨none, (h none).mpr (Or.inl ⟨hv, rfl⟩), rfl⟩
    · exact ⟨some a, (h _).mpr (Or.inr ⟨a, ha, rfl⟩), rfl⟩

/-- An integer type is faithful in its range. -/
theorem faithful_integer {lo hi : ℤ} {type : SimpleType} {xSqlType : String}
    (read : Json → Except Fault (Option (RangedInt lo hi)))
    (bind : Option (RangedInt lo hi) → BoundParam) (cell : Option (RangedInt lo hi) → ColumnData)
    (hlo : -2 ^ 63 ≤ lo) (hhi : hi ≤ 2 ^ 64)
    (hparam : ∀ v, jsonToParam lib v xSqlType = (read v).map bind)
    (hread : ∀ v o, read v = .ok o ↔
      (v = .null ∧ o = none) ∨ ∃ n : RangedInt lo hi, IsInteger v n ∧ o = some n)
    (hdomain : ∀ v, InDomain lib denotes type v ↔ IntegerIn lo hi v)
    (hsql : ∀ o, toSql (bind o) = .ok (cell o))
    (hcell : ∀ o, columnDataToJson lib (cell o) =
      .ok (orNull (fun n => Json.ofBounded n hlo hhi) o))
    (hstands : ∀ v, StandsFor lib denotes type v v) :
    Faithful lib toSql denotes type xSqlType := by
  apply faithful_of_binds bind IsInteger
  · intro v p
    rw [hparam]
    exact map_binds bind (hread v) p
  · intro v
    rw [hdomain, integerIn_iff]
  · exact ⟨cell none, .null, hsql none, hcell none, hstands .null⟩
  · intro v n hn
    refine ⟨cell (some n), v, hsql (some n), ?_, hstands v⟩
    rw [hcell, orNull_some, ofBounded_of_isInteger hn]

theorem faithful_bit (hbinds : TiberiusBinds toSql) {xSqlType : String}
    (hbase : baseType xSqlType = "bit") :
    Faithful lib toSql denotes .bit xSqlType := by
  apply faithful_of_binds .bool fun v b => v = .bool b
  · intro v p
    unfold jsonToParam
    simp only [hbase]
    cases v <;> simp [eq_comm]
  · intro v
    rfl
  · exact ⟨.bit none, .null, hbinds.bool none, rfl, rfl⟩
  · intro v b h
    subst h
    exact ⟨.bit (some b), .bool b, hbinds.bool (some b), rfl, rfl⟩

theorem faithful_uniqueidentifier (hlaws : TextLaws lib denotes) (hbinds : TiberiusBinds toSql)
    {xSqlType : String}
    (hbase : baseType xSqlType = "uniqueidentifier") :
    Faithful lib toSql denotes .uniqueidentifier xSqlType := by
  apply faithful_of_binds .uuid fun v u => ∃ s, v = .str s ∧ lib.parseUuid s = .ok u
  · intro v p
    unfold jsonToParam
    simp only [hbase]
    exact map_binds .uuid (parsedValue_eq_ok_iff lib v lib.parseUuid) p
  · intro v
    simp only [InDomain, hlaws.parseUuid]
    exact exists_comm
  · exact ⟨.guid none, .null, hbinds.uuid none, rfl, rfl⟩
  · intro v u h
    obtain ⟨s, rfl, hs⟩ := h
    exact ⟨.guid (some u), .str (lib.uuidText u), hbinds.uuid (some u), rfl, s, u, rfl,
      (hlaws.parseUuid s u).mp hs, rfl⟩

theorem decodeBinary_eq_ok_iff (hlaws : TextLaws lib denotes) (s : String) (bytes : List UInt8) :
    decodeBinary lib s = .ok bytes ↔ s = lib.base64Encode bytes := by
  rw [← hlaws.base64Decode, decodeBinary]
  cases lib.base64Decode s <;> simp

theorem faithful_binary (hlaws : TextLaws lib denotes) (hbinds : TiberiusBinds toSql)
    {xSqlType : String}
    (hbase : baseType xSqlType ∈ ["binary", "varbinary", "image", "rowversion", "timestamp"]) :
    Faithful lib toSql denotes .binary xSqlType := by
  have hparam : ∀ v, jsonToParam lib v xSqlType =
      (parsedValue lib (decodeBinary lib) v xSqlType).map .bytes := by
    intro v
    unfold jsonToParam
    simp only [List.mem_cons, List.not_mem_nil, or_false] at hbase
    rcases hbase with hbase | hbase | hbase | hbase | hbase <;> simp only [hbase]
  apply faithful_of_binds .bytes fun v bytes => ∃ s, v = .str s ∧ decodeBinary lib s = .ok bytes
  · intro v p
    rw [hparam]
    exact map_binds .bytes (parsedValue_eq_ok_iff lib v (decodeBinary lib)) p
  · intro v
    simp only [InDomain, decodeBinary_eq_ok_iff hlaws, exists_eq_right]
  · exact ⟨.binary none, .null, hbinds.bytes none, rfl, rfl⟩
  · intro v bytes h
    obtain ⟨s, rfl, hs⟩ := h
    obtain rfl := (decodeBinary_eq_ok_iff hlaws s bytes).mp hs
    exact ⟨.binary (some bytes), _, hbinds.bytes (some bytes), rfl, rfl⟩

theorem faithful_character (hbinds : TiberiusBinds toSql) {xSqlType : String}
    (hbase : baseType xSqlType ∉ listedNames) :
    Faithful lib toSql denotes .character xSqlType := by
  constructor
  · intro v
    exact iff_of_true ⟨_, jsonToParam_character lib v hbase⟩ (Or.inr trivial)
  · intro v p hp
    rw [jsonToParam_character lib v hbase] at hp
    rw [← Except.ok.inj hp]
    exact ⟨_, _, hbinds.string _, rfl, rfl⟩

/-- Each of these types, however it is written, takes null and the values of its
domain, and gives back what it takes. -/
theorem jsonToParam_faithful (hlaws : TextLaws lib denotes) (hbinds : TiberiusBinds toSql)
    (type : SimpleType) (name xSqlType : String) (hname : type.Named name)
    (hspelled : Spells name xSqlType) :
    Faithful lib toSql denotes type xSqlType := by
  rw [← (spells_iff name xSqlType).mp hspelled] at hname
  cases type with
  | bit => exact faithful_bit hbinds hname
  | tinyint =>
    have hbase : baseType xSqlType = "tinyint" := hname
    refine faithful_integer (fun v => narrowedInteger lib 0 (2 ^ 8) "tinyint" v xSqlType)
      .u8 .u8 (by norm_num) (by norm_num) ?_
      (fun v => narrowedInteger_eq_ok_iff lib v (by norm_num) (by norm_num) "tinyint")
      (fun v => Iff.rfl) hbinds.u8 (fun _ => rfl) (fun _ => rfl)
    intro v
    unfold jsonToParam
    simp only [hbase]
  | smallint =>
    have hbase : baseType xSqlType = "smallint" := hname
    refine faithful_integer (fun v => narrowedInteger lib (-2 ^ 15) (2 ^ 15) "smallint" v xSqlType)
      .i16 .i16 (by norm_num) (by norm_num) ?_
      (fun v => narrowedInteger_eq_ok_iff lib v (by norm_num) (by norm_num) "smallint")
      (fun v => Iff.rfl) hbinds.i16 (fun _ => rfl) (fun _ => rfl)
    intro v
    unfold jsonToParam
    simp only [hbase]
  | int =>
    have hbase : baseType xSqlType = "int" := hname
    refine faithful_integer (fun v => narrowedInteger lib (-2 ^ 31) (2 ^ 31) "int" v xSqlType)
      .i32 .i32 (by norm_num) (by norm_num) ?_
      (fun v => narrowedInteger_eq_ok_iff lib v (by norm_num) (by norm_num) "int")
      (fun v => Iff.rfl) hbinds.i32 (fun _ => rfl) (fun _ => rfl)
    intro v
    unfold jsonToParam
    simp only [hbase]
  | bigint =>
    have hbase : baseType xSqlType = "bigint" := hname
    refine faithful_integer (fun v => integerValue lib v xSqlType) .i64 .i64 (by norm_num)
      (by norm_num) ?_ (fun v => integerValue_eq_ok_iff lib v) (fun v => Iff.rfl) hbinds.i64
      (fun _ => rfl) (fun _ => rfl)
    intro v
    unfold jsonToParam
    simp only [hbase]
  | uniqueidentifier => exact faithful_uniqueidentifier hlaws hbinds hname
  | binary => exact faithful_binary hlaws hbinds hname
  | character => exact faithful_character hbinds hname

end Faithful

section Sample

/-- Identifiers as decimal numbers, and binary values as the characters of their
bytes. -/
def plainLibraries : Libraries :=
  { numericLibraries with
    parseUuid s :=
      let n := Nat.ofDigitChars 10 s.toList 0
      if toString (BitVec.ofNat 128 n).toNat = s then .ok (BitVec.ofNat 128 n)
      else .error "invalid character"
    base64Decode s :=
      let bytes := s.toList.map fun c => UInt8.ofNat c.toNat
      if numericLibraries.base64Encode bytes = s then .ok bytes else .error "Invalid symbol" }

theorem plainLibraries_laws :
    TextLaws plainLibraries fun s u => s = plainLibraries.uuidText u where
  uuidText _ := rfl
  parseUuid s u := by
    constructor
    · intro h
      simp only [plainLibraries] at h
      split at h
      · rename_i htext
        rw [← Except.ok.inj h]
        exact htext.symm
      · contradiction
    · intro h'
      subst h'
      have hdigits : Nat.ofDigitChars 10 (plainLibraries.uuidText u).toList 0 = u.toNat := by
        show Nat.ofDigitChars 10 (toString u.toNat).toList 0 = u.toNat
        rw [toString_nat_toList, Nat.ofDigitChars_ten_toDigits]
      simp only [plainLibraries] at hdigits ⊢
      rw [hdigits, BitVec.ofNat_toNat, BitVec.setWidth_eq]
      exact if_pos rfl
  base64Decode s bytes := by
    constructor
    · intro h
      simp only [plainLibraries] at h
      split at h
      · rename_i htext
        rw [← Except.ok.inj h]
        exact htext.symm
      · contradiction
    · intro h'
      subst h'
      have hbytes : ((plainLibraries.base64Encode bytes).toList.map
          fun c => UInt8.ofNat c.toNat) = bytes := by
        show (String.ofList (bytes.map fun b => Char.ofNat b.toNat)).toList.map _ = bytes
        rw [String.toList_ofList, List.map_map]
        conv_rhs => rw [← List.map_id bytes]
        apply List.map_congr_left
        intro b _
        have hb := b.toNat_lt
        have hchar : (Char.ofNat b.toNat).toNat = b.toNat := by
          rw [Char.ofNat, dif_pos (Or.inl (by omega))]
          rfl
        rw [Function.comp_apply, hchar, UInt8.ofNat_toNat, id]
      simp only [plainLibraries] at hbytes ⊢
      rw [hbytes, if_pos rfl]

/-- The driver on the parameters of these types. -/
def plainDriver : BoundParam → Except Fault ColumnData
  | .bool v => .ok (.bit v)
  | .u8 v => .ok (.u8 v)
  | .i16 v => .ok (.i16 v)
  | .i32 v => .ok (.i32 v)
  | .i64 v => .ok (.i64 v)
  | .uuid v => .ok (.guid v)
  | .bytes v => .ok (.binary v)
  | .string v => .ok (.string v)
  | _ => .error (.error "not of these types")

theorem plainDriver_binds : TiberiusBinds plainDriver :=
  ⟨fun _ => rfl, fun _ => rfl, fun _ => rfl, fun _ => rfl, fun _ => rfl, fun _ => rfl,
    fun _ => rfl, fun _ => rfl⟩

theorem jsonToParam_faithful_tinyint :
    Faithful plainLibraries plainDriver (fun s u => s = plainLibraries.uuidText u) .tinyint
      "TinyInt" :=
  jsonToParam_faithful plainLibraries_laws plainDriver_binds .tinyint "tinyint" "TinyInt" rfl
    ⟨"TinyInt".toList, [], by decide, by decide, Or.inl rfl, by decide⟩

end Sample

end SqlServerMcp.SimpleParams
