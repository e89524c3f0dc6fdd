import SqlServerMcp.Decimals
import SqlServerMcp.JsonValue

/-!
The texts of JSON values. A writer may break lines and indent as it likes; a
reader cuts the text into tokens and puts the tokens together on a stack. What is
read is what was written, under every layout, so a text is the text of one value.
-/
namespace SqlServerMcp.JsonTexts

open Decimals FixedWidth JsonValue Text

def isBlank (c : Char) : Bool := c = ' ' || c = '\n' || c = '\r' || c = '\t'

inductive Token where
  | openArray
  | closeArray
  | openObject
  | closeObject
  | comma
  | colon
  | text (value : String)
  | word (letters : List Char)
  deriving DecidableEq

/-- The tokens of one character. -/
def mark (c : Char) : Option Token :=
  if c = '[' then some .openArray
  else if c = ']' then some .closeArray
  else if c = Char.ofNat 123 then some .openObject
  else if c = Char.ofNat 125 then some .closeObject
  else if c = ',' then some .comma
  else if c = ':' then some .colon
  else none

/-- The characters of numbers and of the three names. -/
def isWordChar (c : Char) : Bool := !isBlank c && (mark c).isNone && c ≠ '"'

section Writing

/-- What a writer puts before each member of a container and before its end, by
how deep the container is, and after a colon. -/
structure Layout where
  line : ℕ → List Char
  gap : List Char
  line_blank : ∀ depth, ∀ c ∈ line depth, isBlank c = true
  gap_blank : ∀ c ∈ gap, isBlank c = true

def compact : Layout where
  line _ := []
  gap := []
  line_blank := by simp
  gap_blank := by simp

theorem pretty_line_blank (depth : ℕ) :
    ∀ c ∈ '\n' :: List.replicate (2 * depth) ' ', isBlank c = true := by
  intro c hc
  rcases List.mem_cons.mp hc with rfl | hc
  · rfl
  · rw [List.eq_of_mem_replicate hc]
    rfl

/-- One member a line, indented by two blanks for each container around it. -/
def pretty : Layout where
  line depth := '\n' :: List.replicate (2 * depth) ' '
  gap := [' ']
  line_blank := pretty_line_blank
  gap_blank := by simp [isBlank]

variable (floatText : UInt64 → String) (layout : Layout)

mutual

def render (depth : ℕ) : Json → List Char
  | .null => "null".toList
  | .bool b => (if b then "true" else "false").toList
  | .num n => (numberText floatText n).toList
  | .str s => (quoteText s).toList
  | .arr [] => ['[', ']']
  | .arr (item :: rest) =>
    '[' :: (layout.line (depth + 1) ++ render (depth + 1) item ++ renderItems (depth + 1) rest ++
      layout.line depth ++ [']'])
  | .obj [] => [Char.ofNat 123, Char.ofNat 125]
  | .obj ((key, value) :: rest) =>
    Char.ofNat 123 :: (layout.line (depth + 1) ++ (quoteText key).toList ++ ':' :: layout.gap ++
      render (depth + 1) value ++ renderFields (depth + 1) rest ++ layout.line depth ++
        [Char.ofNat 125])

/-- The items after the first. -/
def renderItems (depth : ℕ) : List Json → List Char
  | [] => []
  | item :: rest => ',' :: (layout.line depth ++ render depth item ++ renderItems depth rest)

def renderFields (depth : ℕ) : List (String × Json) → List Char
  | [] => []
  | (key, value) :: rest =>
    ',' :: (layout.line depth ++ (quoteText key).toList ++ ':' :: layout.gap ++
      render depth value ++ renderFields depth rest)

end

mutual

/-- The tokens of a value, without what a layout puts in between. -/
def tokens : Json → List Token
  | .null => [.word "null".toList]
  | .bool b => [.word (if b then "true" else "false").toList]
  | .num n => [.word (numberText floatText n).toList]
  | .str s => [.text s]
  | .arr [] => [.openArray, .closeArray]
  | .arr (item :: rest) => .openArray :: (tokens item ++ itemTokens rest ++ [.closeArray])
  | .obj [] => [.openObject, .closeObject]
  | .obj ((key, value) :: rest) =>
    .openObject :: .text key :: .colon :: (tokens value ++ fieldTokens rest ++ [.closeObject])

def itemTokens : List Json → List Token
  | [] => []
  | item :: rest => .comma :: (tokens item ++ itemTokens rest)

def fieldTokens : List (String × Json) → List Token
  | [] => []
  | (key, value) :: rest => .comma :: .text key :: .colon :: (tokens value ++ fieldTokens rest)

end

end Writing

section Reading

/-- Where a reader is in the text: between tokens, in a word, or in a string with
what it has read of it, last character first. A character outside the basic plane
may be escaped as two surrogates. -/
inductive Mode where
  | between
  | word (read : List Char)
  | text (read : List Char)
  | escape (read : List Char)
  | hex (read : List Char) (high : Option ℕ) (digits code : ℕ)
  | low (read : List Char) (high : ℕ)
  | lowEscape (read : List Char) (high : ℕ)

def hexValue (c : Char) : Option ℕ :=
  if c.isDigit then some (c.toNat - '0'.toNat)
  else if 'a' ≤ c ∧ c ≤ 'f' then some (c.toNat - 'a'.toNat + 10)
  else if 'A' ≤ c ∧ c ≤ 'F' then some (c.toNat - 'A'.toNat + 10)
  else none

def isHighSurrogate (code : ℕ) : Bool := 0xD800 ≤ code && code < 0xDC00
def isLowSurrogate (code : ℕ) : Bool := 0xDC00 ≤ code && code < 0xE000

/-- Four digits of an escape have been read. -/
def afterCode (read : List Char) (high : Option ℕ) (code : ℕ) : Option Mode :=
  match high with
  | none =>
    if isHighSurrogate code then some (.low read code)
    else if isLowSurrogate code then none
    else some (.text (Char.ofNat code :: read))
  | some high =>
    if isLowSurrogate code then
      some (.text (Char.ofNat (0x10000 + (high - 0xD800) * 0x400 + (code - 0xDC00)) :: read))
    else none

def simpleEscape (c : Char) : Option Char :=
  if c = '"' || c = '\\' || c = '/' then some c
  else if c = 'b' then some (Char.ofNat 8)
  else if c = 'f' then some (Char.ofNat 12)
  else if c = 'n' then some '\n'
  else if c = 'r' then some '\r'
  else if c = 't' then some '\t'
  else none

/-- One character: the tokens that it completes and where the reader is then. -/
def scan (mode : Mode) (c : Char) : Option (List Token × Mode) :=
  match mode with
  | .between =>
    if isBlank c then some ([], .between)
    else match mark c with
      | some token => some ([token], .between)
      | none => if c = '"' then some ([], .text []) else some ([], .word [c])
  | .word read =>
    if isBlank c then some ([.word read.reverse], .between)
    else match mark c with
      | some token => some ([.word read.reverse, token], .between)
      | none => if c = '"' then none else some ([], .word (c :: read))
  | .text read =>
    if c = '"' then some ([.text (String.ofList read.reverse)], .between)
    else if c = '\\' then some ([], .escape read)
    else if c.toNat < 32 then none
    else some ([], .text (c :: read))
  | .escape read =>
    if c = 'u' then some ([], .hex read none 0 0)
    else (simpleEscape c).map fun c => ([], .text (c :: read))
  | .hex read high digits code => do
    let code := 16 * code + (← hexValue c)
    if digits = 3 then (afterCode read high code).map fun mode => ([], mode)
    else some ([], .hex read high (digits + 1) code)
  | .low read high => if c = '\\' then some ([], .lowEscape read high) else none
  | .lowEscape read high => if c = 'u' then some ([], .hex read (some high) 0 0) else none

/-- The tokens of a text, read on from a mode. -/
def lexFrom (mode : Mode) : List Char → Option (List Token)
  | [] =>
    match mode with
    | .between => some []
    | .word read => some [.word read.reverse]
    | _ => none
  | c :: rest => (scan mode c).bind fun next =>
      (lexFrom next.2 rest).map fun after => next.1 ++ after

/-- A container that is not complete, with what it has, last member first. -/
inductive Frame where
  | items (read : List Json)
  | fields (read : List (String × Json))
  | member (read : List (String × Json)) (key : String)

/-- What is due next. -/
inductive Phase where
  | value
  | itemOrEnd
  | keyOrEnd
  | key
  | colon (key : String)
  | after (value : Json)

variable (readFloat : List Char → Option UInt64)

/-- A run of digits that does not start with a needless zero. -/
def isNatural : List Char → Bool
  | [] => false
  | c :: rest => (c :: rest).all Char.isDigit && (c ≠ '0' || rest.isEmpty)

/-- Integers but for the negative zero, which is a floating-point number. -/
def isInteger : List Char → Bool
  | '-' :: rest => isNatural rest && rest ≠ ['0']
  | letters => isNatural letters

/-- An integer out of range is a floating-point number as well. -/
def readNumber (letters : List Char) : Option Number :=
  match parseInt (-2 ^ 63) (2 ^ 64) letters with
  | .ok i => if isInteger letters then some (.int i) else (readFloat letters).map .float
  | .error _ => (readFloat letters).map .float

def readWord (letters : List Char) : Option Json :=
  if letters = "null".toList then some .null
  else if letters = "true".toList then some (.bool true)
  else if letters = "false".toList then some (.bool false)
  else (readNumber readFloat letters).map .num

/-- A token where a value is due. -/
def startValue (stack : List Frame) : Token → Option (Phase × List Frame)
  | .openArray => some (.itemOrEnd, .items [] :: stack)
  | .openObject => some (.keyOrEnd, .fields [] :: stack)
  | .text s => some (.after (.str s), stack)
  | .word letters => (readWord readFloat letters).map fun value => (.after value, stack)
  | _ => none

def takeKey : List Frame → Token → Option (Phase × List Frame)
  | .fields read :: stack, .text key => some (.colon key, .fields read :: stack)
  | _, _ => none

def place (phase : Phase) (stack : List Frame) (token : Token) : Option (Phase × List Frame) :=
  match phase with
  | .value => startValue readFloat stack token
  | .itemOrEnd =>
    match stack, token with
    | .items [] :: stack, .closeArray => some (.after (.arr []), stack)
    | stack, token => startValue readFloat stack token
  | .keyOrEnd =>
    match stack, token with
    | .fields [] :: stack, .closeObject => some (.after (.obj []), stack)
    | stack, token => takeKey stack token
  | .key => takeKey stack token
  | .colon key =>
    match stack, token with
    | .fields read :: stack, .colon => some (.value, .member read key :: stack)
    | _, _ => none
  | .after value =>
    match stack, token with
    | .items read :: stack, .comma => some (.value, .items (value :: read) :: stack)
    | .items read :: stack, .closeArray => some (.after (.arr (value :: read).reverse), stack)
    | .member read key :: stack, .comma => some (.key, .fields ((key, value) :: read) :: stack)
    | .member read key :: stack, .closeObject =>
      some (.after (.obj ((key, value) :: read).reverse), stack)
    | _, _ => none

def parseFrom (phase : Phase) (stack : List Frame) : List Token → Option Json
  | [] =>
    match phase, stack with
    | .after value, [] => some value
    | _, _ => none
  | token :: rest => (place readFloat phase stack token).bind fun next =>
      parseFrom next.1 next.2 rest

/-- Reading of a whole text. -/
def read (text : List Char) : Option Json :=
  (lexFrom .between text).bind (parseFrom readFloat .value [])

end Reading

section Numbers

theorem isNatural_toDigits (n : ℕ) :
    isNatural (Nat.toDigits 10 n) = true ∧ (n ≠ 0 → Nat.toDigits 10 n ≠ ['0']) := by
  have hdigits : ∀ n : ℕ, (Nat.toDigits 10 n).all Char.isDigit = true := by
    intro n
    rw [List.all_eq_true]
    exact fun c hc => Nat.isDigit_of_mem_toDigits (by decide) (by decide) hc
  -- The first digit of a positive number is not zero.
  have hfirst : ∀ n : ℕ, n ≠ 0 → ∃ c rest, Nat.toDigits 10 n = c :: rest ∧ c ≠ '0' := by
    intro n
    induction n using Nat.strong_induction_on with
    | h n ih =>
      intro hn
      by_cases hlt : n < 10
      · refine ⟨n.digitChar, [], Nat.toDigits_of_lt_base hlt, ?_⟩
        rwa [ne_eq, Nat.digitChar_eq_zero]
      · obtain ⟨c, rest, htext, hc⟩ := ih (n / 10) (by omega) (by omega)
        rw [Nat.toDigits_of_base_le (by decide) (by omega), htext]
        exact ⟨c, rest ++ _, rfl, hc⟩
  by_cases hn : n = 0
  · subst hn
    exact ⟨by decide, fun h => absurd rfl h⟩
  · obtain ⟨c, rest, htext, hc⟩ := hfirst n hn
    have hall := hdigits n
    rw [htext] at hall ⊢
    refine ⟨?_, fun _ heq => hc (List.cons.inj heq).1⟩
    rw [isNatural, hall, Bool.true_and, Bool.or_eq_true]
    exact .inl (decide_eq_true hc)

theorem toString_ofNat_toList (n : ℕ) : (toString (n : ℤ)).toList = Nat.toDigits 10 n := by
  rw [← toString_nat_toList]
  rfl

theorem toString_negSucc_toList (n : ℕ) :
    (toString (Int.negSucc n)).toList = '-' :: Nat.toDigits 10 (n + 1) := by
  rw [← toString_nat_toList]
  show ("-" ++ toString (n + 1)).toList = _
  rw [String.toList_append]
  rfl

theorem integerText_toString (i : ℤ) : IntegerText (toString i).toList i := by
  cases i with
  | ofNat n =>
    refine ⟨Nat.toDigits 10 n, Nat.toDigits_ne_nil, ?_, .inl ⟨toString_ofNat_toList n, ?_⟩⟩
    · exact fun c hc => Nat.isDigit_of_mem_toDigits (by decide) (by decide) hc
    · rw [digitsValue, Nat.ofDigitChars_ten_toDigits]
      rfl
  | negSucc n =>
    refine ⟨Nat.toDigits 10 (n + 1), Nat.toDigits_ne_nil, ?_,
      .inr ⟨false, toString_negSucc_toList n, ?_⟩⟩
    · exact fun c hc => Nat.isDigit_of_mem_toDigits (by decide) (by decide) hc
    · rw [digitsValue, Nat.ofDigitChars_ten_toDigits]
      simp [signValue, Int.negSucc_eq]

theorem toString_int_letters (i : ℤ) :
    (toString i).toList ≠ [] ∧ ∀ c ∈ (toString i).toList, c = '-' ∨ c.isDigit = true := by
  have hdigits : ∀ n : ℕ, ∀ c ∈ Nat.toDigits 10 n, c.isDigit = true :=
    fun n c hc => Nat.isDigit_of_mem_toDigits (by decide) (by decide) hc
  cases i with
  | ofNat n =>
    rw [show (toString (Int.ofNat n)).toList = Nat.toDigits 10 n from toString_ofNat_toList n]
    exact ⟨Nat.toDigits_ne_nil, fun c hc => .inr (hdigits n c hc)⟩
  | negSucc n =>
    rw [toString_negSucc_toList]
    refine ⟨List.cons_ne_nil _ _, fun c hc => ?_⟩
    exact (List.mem_cons.mp hc).imp_right (hdigits (n + 1) c)

theorem isInteger_toString (i : ℤ) : isInteger (toString i).toList = true := by
  cases i with
  | ofNat n =>
    have htext : (toString (Int.ofNat n)).toList = Nat.toDigits 10 n := toString_ofNat_toList n
    have hnatural := (isNatural_toDigits n).1
    rw [htext]
    unfold isInteger
    split
    · rename_i rest heq
      rw [heq, isNatural] at hnatural
      simp at hnatural
    · exact hnatural
  | negSucc n =>
    obtain ⟨hnatural, hzero⟩ := isNatural_toDigits (n + 1)
    rw [toString_negSucc_toList, isInteger, hnatural]
    simpa using hzero (Nat.succ_ne_zero n)

/-- What is asked of the texts of floating-point numbers. -/
structure FloatTexts (floatText : UInt64 → String) (readFloat : List Char → Option UInt64)
    (bits : UInt64) : Prop where
  read_back : readFloat (floatText bits).toList = some bits
  not_integer : isInteger (floatText bits).toList = false
  letters : ∀ c ∈ (floatText bits).toList, isWordChar c = true
  first : ∃ c rest, (floatText bits).toList = c :: rest ∧ (c = '-' ∨ c.isDigit = true)

variable {floatText : UInt64 → String} {readFloat : List Char → Option UInt64}

theorem readNumber_int (i : JsonInt) :
    readNumber readFloat (toString i.val).toList = some (.int i) := by
  have hparse : parseInt (-2 ^ 63) (2 ^ 64) (toString i.val).toList = .ok i :=
    (parseInt_eq_ok_iff (by decide) (by decide) _ i).mpr (integerText_toString i.val)
  rw [readNumber, hparse]
  exact if_pos (isInteger_toString i.val)

/-- A text that starts like a number is none of the three names. -/
theorem readWord_number {letters rest : List Char} {c : Char} (heq : letters = c :: rest)
    (hfirst : c = '-' ∨ c.isDigit = true) :
    readWord readFloat letters = (readNumber readFloat letters).map .num := by
  have hother : ∀ name : String, name.toList.head? = some 'n' ∨ name.toList.head? = some 't' ∨
      name.toList.head? = some 'f' → letters ≠ name.toList := by
    intro name hname hletters
    rw [← hletters, heq, List.head?_cons] at hname
    obtain h | h | h := hname <;> obtain rfl := Option.some.inj h <;>
      exact absurd hfirst (by decide)
  rw [readWord, if_neg (hother "null" (by decide)), if_neg (hother "true" (by decide)),
    if_neg (hother "false" (by decide))]

theorem readNumber_float {bits : UInt64} (h : FloatTexts floatText readFloat bits) :
    readNumber readFloat (floatText bits).toList = some (.float bits) := by
  unfold readNumber
  split
  · rw [h.not_integer, h.read_back]
    rfl
  · rw [h.read_back]
    rfl

end Numbers

/-! Which floating-point numbers a value has. -/

mutual

def FloatsIn (S : UInt64 → Prop) : Json → Prop
  | .num (.float bits) => S bits
  | .arr items => ItemsIn S items
  | .obj fields => FieldsIn S fields
  | _ => True

def ItemsIn (S : UInt64 → Prop) : List Json → Prop
  | [] => True
  | item :: rest => FloatsIn S item ∧ ItemsIn S rest

def FieldsIn (S : UInt64 → Prop) : List (String × Json) → Prop
  | [] => True
  | (_, value) :: rest => FloatsIn S value ∧ FieldsIn S rest

end

mutual

theorem FloatsIn.imp {S T : UInt64 → Prop} (h : ∀ bits, S bits → T bits) :
    ∀ v : Json, FloatsIn S v → FloatsIn T v
  | .num (.float bits), hv => h bits hv
  | .arr items, hv => ItemsIn.imp h items hv
  | .obj fields, hv => FieldsIn.imp h fields hv
  | .num (.int _), _ | .null, _ | .bool _, _ | .str _, _ => trivial

theorem ItemsIn.imp {S T : UInt64 → Prop} (h : ∀ bits, S bits → T bits) :
    ∀ items : List Json, ItemsIn S items → ItemsIn T items
  | [], _ => trivial
  | item :: rest, hitems => ⟨FloatsIn.imp h item hitems.1, ItemsIn.imp h rest hitems.2⟩

theorem FieldsIn.imp {S T : UInt64 → Prop} (h : ∀ bits, S bits → T bits) :
    ∀ fields : List (String × Json), FieldsIn S fields → FieldsIn T fields
  | [], _ => trivial
  | (_, value) :: rest, hfields => ⟨FloatsIn.imp h value hfields.1, FieldsIn.imp h rest hfields.2⟩

end

section Lexing

/-- What may stand after a word. -/
def Delimited (rest : List Char) : Prop :=
  ∀ c tail, rest = c :: tail → isBlank c = true ∨ (mark c).isSome = true

/-- A text is cut into these tokens wherever it stands. -/
def Cuts (text : List Char) (done : List Token) : Prop :=
  ∀ rest, Delimited rest →
    lexFrom .between (text ++ rest) = (lexFrom .between rest).map fun after => done ++ after

theorem delimited_nil : Delimited [] := nofun

theorem delimited_blank {c : Char} (h : isBlank c = true) (rest : List Char) :
    Delimited (c :: rest) := by
  intro c' tail heq
  obtain ⟨rfl, -⟩ := List.cons.inj heq
  exact .inl h

theorem delimited_mark {c : Char} (h : (mark c).isSome = true) (rest : List Char) :
    Delimited (c :: rest) := by
  intro c' tail heq
  obtain ⟨rfl, -⟩ := List.cons.inj heq
  exact .inr h

theorem delimited_append {blanks rest : List Char} (hblank : ∀ c ∈ blanks, isBlank c = true)
    (hrest : Delimited rest) : Delimited (blanks ++ rest) := by
  cases blanks with
  | nil => exact hrest
  | cons c tail => exact delimited_blank (hblank c List.mem_cons_self) _

theorem lexFrom_of_scan {mode mode' : Mode} {c : Char} {done : List Token}
    (h : scan mode c = some (done, mode')) (rest : List Char) :
    lexFrom mode (c :: rest) = (lexFrom mode' rest).map fun after => done ++ after := by
  rw [lexFrom, h, Option.bind_some]

theorem lexFrom_of_silent {mode mode' : Mode} {c : Char} (h : scan mode c = some ([], mode'))
    (rest : List Char) : lexFrom mode (c :: rest) = lexFrom mode' rest := by
  rw [lexFrom_of_scan h]
  exact Option.map_id'

theorem lexFrom_blanks {blanks : List Char} (h : ∀ c ∈ blanks, isBlank c = true)
    (rest : List Char) : lexFrom .between (blanks ++ rest) = lexFrom .between rest := by
  induction blanks with
  | nil => rfl
  | cons c tail ih =>
    have hscan : scan .between c = some ([], .between) := if_pos (h c List.mem_cons_self)
    rw [List.cons_append, lexFrom_of_silent hscan]
    exact ih fun c' hc' => h c' (List.mem_cons_of_mem c hc')

theorem lexFrom_mark {c : Char} {token : Token} (hblank : isBlank c = false)
    (hmark : mark c = some token) (rest : List Char) :
    lexFrom .between (c :: rest) = (lexFrom .between rest).map fun after => token :: after := by
  have hscan : scan .between c = some ([token], .between) := by
    simp only [scan, hblank, Bool.false_eq_true, if_false, hmark]
  exact lexFrom_of_scan hscan rest

theorem lexFrom_word {rest : List Char} (h : Delimited rest) (read : List Char) :
    lexFrom (.word read) rest =
      (lexFrom .between rest).map fun after => .word read.reverse :: after := by
  cases rest with
  | nil => rfl
  | cons c tail =>
    by_cases hblank : isBlank c = true
    · have hscan : scan (.word read) c = some ([.word read.reverse], .between) := if_pos hblank
      have hone : ∀ c' ∈ [c], isBlank c' = true := by simpa using hblank
      have hskip : lexFrom .between (c :: tail) = lexFrom .between tail := lexFrom_blanks hone tail
      rw [lexFrom_of_scan hscan, hskip]
      rfl
    · have hsome : (mark c).isSome = true := (h c tail rfl).resolve_left hblank
      obtain ⟨token, hmark⟩ := Option.isSome_iff_exists.mp hsome
      have hscan : scan (.word read) c = some ([.word read.reverse, token], .between) := by
        simp only [scan, hblank, Bool.false_eq_true, if_false, hmark]
      rw [lexFrom_of_scan hscan, lexFrom_mark (Bool.eq_false_iff.mpr hblank) hmark, Option.map_map]
      rfl

theorem scan_wordChar {c : Char} (h : isWordChar c = true) (read : List Char) :
    scan .between c = some ([], .word [c]) ∧
      scan (.word read) c = some ([], .word (c :: read)) := by
  simp only [isWordChar, Bool.and_eq_true, Bool.not_eq_true', Option.isNone_iff_eq_none,
    decide_eq_true_eq] at h
  obtain ⟨⟨hblank, hmark⟩, hquote⟩ := h
  simp only [scan, hblank, hmark, hquote, Bool.false_eq_true, if_false, and_self]

theorem lexFrom_wordChars {letters : List Char} (h : ∀ c ∈ letters, isWordChar c = true)
    (read rest : List Char) :
    lexFrom (.word read) (letters ++ rest) = lexFrom (.word (letters.reverse ++ read)) rest := by
  induction letters generalizing read with
  | nil => rfl
  | cons c tail ih =>
    rw [List.cons_append, lexFrom_of_silent (scan_wordChar (h c List.mem_cons_self) read).2,
      ih (fun c' hc' => h c' (List.mem_cons_of_mem c hc')), List.reverse_cons, List.append_assoc]
    rfl

theorem cuts_word {letters : List Char} (hne : letters ≠ [])
    (h : ∀ c ∈ letters, isWordChar c = true) : Cuts letters [.word letters] := by
  intro rest hrest
  cases letters with
  | nil => exact absurd rfl hne
  | cons c tail =>
    rw [List.cons_append, lexFrom_of_silent (scan_wordChar (h c List.mem_cons_self) []).1,
      lexFrom_wordChars (fun c' hc' => h c' (List.mem_cons_of_mem c hc')), lexFrom_word hrest,
      List.reverse_append, List.reverse_reverse]
    rfl

theorem hexValue_digitChar {n : ℕ} (h : n < 16) : hexValue (Nat.digitChar n) = some n := by
  have hall : ∀ i : Fin 16, hexValue (Nat.digitChar i) = some i.val := by decide
  exact hall ⟨n, h⟩

theorem lexFrom_simple {c letter : Char} (hletter : letter ≠ 'u')
    (h : simpleEscape letter = some c) (read rest : List Char) :
    lexFrom (.text read) ('\\' :: letter :: rest) = lexFrom (.text (c :: read)) rest := by
  have hopen : scan (.text read) '\\' = some ([], .escape read) := rfl
  have hclose : scan (.escape read) letter = some ([], .text (c :: read)) := by
    simp only [scan, hletter, if_false, h, Option.map_some]
  rw [lexFrom_of_silent hopen, lexFrom_of_silent hclose]

/-- The four digits of a control character. -/
theorem lexFrom_control {c : Char} (h : c.toNat < 32) (read rest : List Char) :
    lexFrom (.text read) ('\\' :: 'u' :: '0' :: '0' :: Nat.digitChar (c.toNat / 16) ::
      Nat.digitChar (c.toNat % 16) :: rest) = lexFrom (.text (c :: read)) rest := by
  have hopen : scan (.text read) '\\' = some ([], .escape read) := rfl
  have hu : scan (.escape read) 'u' = some ([], .hex read none 0 0) := rfl
  have hfirst : scan (.hex read none 0 0) '0' = some ([], .hex read none 1 0) := rfl
  have hsecond : scan (.hex read none 1 0) '0' = some ([], .hex read none 2 0) := rfl
  have hthird : scan (.hex read none 2 0) (Nat.digitChar (c.toNat / 16)) =
      some ([], .hex read none 3 (c.toNat / 16)) := by
    simp [scan, hexValue_digitChar (show c.toNat / 16 < 16 by omega)]
  have hcode : 16 * (c.toNat / 16) + c.toNat % 16 = c.toNat := Nat.div_add_mod _ _
  have hhigh : isHighSurrogate c.toNat = false := by simp [isHighSurrogate]; omega
  have hlow : isLowSurrogate c.toNat = false := by simp [isLowSurrogate]; omega
  have hfourth : scan (.hex read none 3 (c.toNat / 16)) (Nat.digitChar (c.toNat % 16)) =
      some ([], .text (c :: read)) := by
    simp [scan, hexValue_digitChar (Nat.mod_lt _ (by decide)), hcode, afterCode, hhigh, hlow,
      Char.ofNat_toNat]
  rw [lexFrom_of_silent hopen, lexFrom_of_silent hu, lexFrom_of_silent hfirst,
    lexFrom_of_silent hsecond, lexFrom_of_silent hthird, lexFrom_of_silent hfourth]

theorem lexFrom_escapeChar (c : Char) (read rest : List Char) :
    lexFrom (.text read) (escapeChar c ++ rest) = lexFrom (.text (c :: read)) rest := by
  unfold escapeChar
  split_ifs with hquote hslash hback htab hline hfeed hreturn hcontrol
  · exact lexFrom_simple (by decide) (by rw [hquote]; rfl) read rest
  · exact lexFrom_simple (by decide) (by rw [hslash]; rfl) read rest
  · exact lexFrom_simple (by decide) (by rw [hback]; rfl) read rest
  · exact lexFrom_simple (by decide) (by rw [htab]; rfl) read rest
  · exact lexFrom_simple (by decide) (by rw [hline]; rfl) read rest
  · exact lexFrom_simple (by decide) (by rw [hfeed]; rfl) read rest
  · exact lexFrom_simple (by decide) (by rw [hreturn]; rfl) read rest
  · exact lexFrom_control hcontrol read rest
  · refine lexFrom_of_silent ?_ rest
    simp only [scan, hquote, hslash, hcontrol, if_false]

theorem lexFrom_escaped (letters read rest : List Char) :
    lexFrom (.text read) (letters.flatMap escapeChar ++ rest) =
      lexFrom (.text (letters.reverse ++ read)) rest := by
  induction letters generalizing read with
  | nil => rfl
  | cons c tail ih =>
    rw [List.flatMap_cons, List.append_assoc, lexFrom_escapeChar, ih, List.reverse_cons,
      List.append_assoc]
    rfl

/-- A string ends itself, so it may stand before anything. -/
theorem lexFrom_quoteText (s : String) (rest : List Char) :
    lexFrom .between ((quoteText s).toList ++ rest) =
      (lexFrom .between rest).map fun after => .text s :: after := by
  have htext : (quoteText s).toList ++ rest =
      '"' :: (s.toList.flatMap escapeChar ++ '"' :: rest) := by
    simp only [quoteText, String.toList_append, String.toList_ofList, List.append_assoc]
    rfl
  have hopen : scan .between '"' = some ([], .text []) := rfl
  have hclose : ∀ read, scan (.text read) '"' =
    some ([.text (String.ofList read.reverse)], .between) := fun read => rfl
  rw [htext, lexFrom_of_silent hopen, lexFrom_escaped, lexFrom_of_scan (hclose _),
    List.append_nil, List.reverse_reverse, String.ofList_toList]
  rfl

theorem delimited_renderItems (floatText : UInt64 → String) (layout : Layout) (depth : ℕ)
    (items : List Json) {rest : List Char} (h : Delimited rest) :
    Delimited (renderItems floatText layout depth items ++ rest) := by
  cases items with
  | nil => exact h
  | cons item tail => exact delimited_mark rfl _

theorem delimited_renderFields (floatText : UInt64 → String) (layout : Layout) (depth : ℕ)
    (fields : List (String × Json)) {rest : List Char} (h : Delimited rest) :
    Delimited (renderFields floatText layout depth fields ++ rest) := by
  cases fields with
  | nil => exact h
  | cons field tail => exact delimited_mark rfl _

variable {floatText : UInt64 → String} {readFloat : List Char → Option UInt64}

theorem isWordChar_of_notMem {c : Char}
    (h : c ∉ [' ', '\n', '\r', '\t', '[', ']', Char.ofNat 123, Char.ofNat 125, ',', ':', '"']) :
    isWordChar c = true := by
  simp only [List.mem_cons, List.not_mem_nil, or_false, not_or] at h
  simp [isWordChar, isBlank, mark, h]

theorem isWordChar_of_isDigit {c : Char} (h : c.isDigit = true) : isWordChar c = true := by
  apply isWordChar_of_notMem
  intro hmem
  have hall : [' ', '\n', '\r', '\t', '[', ']', Char.ofNat 123, Char.ofNat 125, ',', ':',
      '"'].all (fun c => !c.isDigit) = true := rfl
  simpa [h] using List.all_eq_true.mp hall c hmem

theorem cuts_number {n : Number} (h : FloatsIn (FloatTexts floatText readFloat) (.num n)) :
    Cuts (numberText floatText n).toList [.word (numberText floatText n).toList] := by
  cases n with
  | int i =>
    obtain ⟨hne, hletters⟩ := toString_int_letters i.val
    refine cuts_word hne fun c hc => ?_
    rcases hletters c hc with rfl | hdigit
    · decide
    · exact isWordChar_of_isDigit hdigit
  | float bits =>
    have hfloat : FloatTexts floatText readFloat bits := h
    obtain ⟨c, rest, htext, -⟩ := hfloat.first
    refine cuts_word ?_ hfloat.letters
    rw [numberText, htext]
    exact List.cons_ne_nil c rest

theorem cuts_name (name : String) (h : name ∈ ["null", "true", "false"]) :
    Cuts name.toList [.word name.toList] := by
  have hletters : name.toList ≠ [] ∧ ∀ c ∈ name.toList, isWordChar c = true := by
    simp only [List.mem_cons, List.not_mem_nil, or_false] at h
    rcases h with rfl | rfl | rfl <;> exact ⟨by simp, List.all_eq_true.mp rfl⟩
  exact cuts_word hletters.1 hletters.2

mutual

/-- A value is cut into its tokens under every layout. -/
theorem cuts_render (layout : Layout) (depth : ℕ) : ∀ v : Json,
    FloatsIn (FloatTexts floatText readFloat) v →
    Cuts (render floatText layout depth v) (tokens floatText v)
  | .null, _ => cuts_name "null" (by decide)
  | .bool true, _ => cuts_name "true" (by decide)
  | .bool false, _ => cuts_name "false" (by decide)
  | .num _, h => cuts_number h
  | .str s, _ => fun rest _ => lexFrom_quoteText s rest
  | .arr [], _ => by
    intro rest _
    simp only [render, tokens, List.cons_append, List.nil_append]
    rw [lexFrom_mark (c := '[') rfl rfl, lexFrom_mark (c := ']') rfl rfl, Option.map_map]
    rfl
  | .arr (item :: items), h => by
    intro rest _
    have hend : Delimited (layout.line depth ++ ']' :: rest) :=
      delimited_append (layout.line_blank depth) (delimited_mark rfl rest)
    simp only [render, tokens, List.cons_append, List.append_assoc, List.nil_append]
    rw [lexFrom_mark (c := '[') rfl rfl, lexFrom_blanks (layout.line_blank _),
      cuts_render layout (depth + 1) item h.1 _ (delimited_renderItems _ _ _ items hend),
      cuts_renderItems layout (depth + 1) items h.2 _ hend,
      lexFrom_blanks (layout.line_blank _), lexFrom_mark (c := ']') rfl rfl]
    simp only [Option.map_map, Function.comp_def]
  | .obj [], _ => by
    intro rest _
    simp only [render, tokens, List.cons_append, List.nil_append]
    rw [lexFrom_mark (c := Char.ofNat 123) rfl rfl, lexFrom_mark (c := Char.ofNat 125) rfl rfl,
      Option.map_map]
    rfl
  | .obj ((key, value) :: fields), h => by
    intro rest _
    have hend : Delimited (layout.line depth ++ Char.ofNat 125 :: rest) :=
      delimited_append (layout.line_blank depth) (delimited_mark rfl rest)
    simp only [render, tokens, List.cons_append, List.append_assoc, List.nil_append]
    rw [lexFrom_mark (c := Char.ofNat 123) rfl rfl, lexFrom_blanks (layout.line_blank _),
      lexFrom_quoteText, lexFrom_mark (c := ':') rfl rfl, lexFrom_blanks layout.gap_blank,
      cuts_render layout (depth + 1) value h.1 _ (delimited_renderFields _ _ _ fields hend),
      cuts_renderFields layout (depth + 1) fields h.2 _ hend,
      lexFrom_blanks (layout.line_blank _), lexFrom_mark (c := Char.ofNat 125) rfl rfl]
    simp only [Option.map_map, Function.comp_def]

theorem cuts_renderItems (layout : Layout) (depth : ℕ) : ∀ items : List Json,
    ItemsIn (FloatTexts floatText readFloat) items →
    Cuts (renderItems floatText layout depth items) (itemTokens floatText items)
  | [], _ => fun _ _ => Option.map_id'.symm
  | item :: items, h => by
    intro rest hrest
    simp only [renderItems, itemTokens, List.cons_append, List.append_assoc]
    rw [lexFrom_mark (c := ',') rfl rfl, lexFrom_blanks (layout.line_blank _),
      cuts_render layout depth item h.1 _ (delimited_renderItems _ _ _ items hrest),
      cuts_renderItems layout depth items h.2 _ hrest]
    simp only [Option.map_map, Function.comp_def]

theorem cuts_renderFields (layout : Layout) (depth : ℕ) : ∀ fields : List (String × Json),
    FieldsIn (FloatTexts floatText readFloat) fields →
    Cuts (renderFields floatText layout depth fields) (fieldTokens floatText fields)
  | [], _ => fun _ _ => Option.map_id'.symm
  | (key, value) :: fields, h => by
    intro rest hrest
    simp only [renderFields, fieldTokens, List.cons_append, List.append_assoc]
    rw [lexFrom_mark (c := ',') rfl rfl, lexFrom_blanks (layout.line_blank _), lexFrom_quoteText,
      lexFrom_mark (c := ':') rfl rfl, lexFrom_blanks layout.gap_blank,
      cuts_render layout depth value h.1 _ (delimited_renderFields _ _ _ fields hrest),
      cuts_renderFields layout depth fields h.2 _ hrest]
    simp only [Option.map_map, Function.comp_def]

end

end Lexing

section Parsing

variable {floatText : UInt64 → String} {readFloat : List Char → Option UInt64}

theorem readWord_numberText {n : Number} (h : FloatsIn (FloatTexts floatText readFloat) (.num n)) :
    readWord readFloat (numberText floatText n).toList = some (.num n) := by
  cases n with
  | int i =>
    obtain ⟨hne, hletters⟩ := toString_int_letters i.val
    obtain ⟨c, rest, heq⟩ := List.exists_cons_of_ne_nil hne
    rw [numberText, readWord_number heq (hletters c (heq ▸ List.mem_cons_self)), readNumber_int]
    rfl
  | float bits =>
    have hfloat : FloatTexts floatText readFloat bits := h
    obtain ⟨c, rest, heq, hfirst⟩ := hfloat.first
    rw [numberText, readWord_number heq hfirst, readNumber_float hfloat]
    rfl

theorem parseFrom_of_place {phase phase' : Phase} {stack stack' : List Frame} {token : Token}
    (h : place readFloat phase stack token = some (phase', stack')) (rest : List Token) :
    parseFrom readFloat phase stack (token :: rest) = parseFrom readFloat phase' stack' rest := by
  rw [parseFrom, h, Option.bind_some]

/-- No value starts with the end of an array. -/
theorem parseFrom_first_item (v : Json) (stack : List Frame) (rest : List Token) :
    parseFrom readFloat .itemOrEnd (.items [] :: stack) (tokens floatText v ++ rest) =
      parseFrom readFloat .value (.items [] :: stack) (tokens floatText v ++ rest) := by
  cases v with
  | arr items => cases items <;> rfl
  | obj fields => cases fields <;> rfl
  | _ => rfl

mutual

/-- The tokens of a value are put together to the value. -/
theorem parseFrom_tokens (stack : List Frame) (rest : List Token) : ∀ v : Json,
    FloatsIn (FloatTexts floatText readFloat) v →
    parseFrom readFloat .value stack (tokens floatText v ++ rest) =
      parseFrom readFloat (.after v) stack rest
  | .null, _ => rfl
  | .bool true, _ => rfl
  | .bool false, _ => rfl
  | .num n, h => by
    refine parseFrom_of_place ?_ rest
    rw [place, startValue, readWord_numberText h]
    rfl
  | .str _, _ => rfl
  | .arr [], _ => rfl
  | .arr (item :: items), h => by
    have hopen : place readFloat .value stack .openArray =
      some (.itemOrEnd, .items [] :: stack) := rfl
    simp only [tokens, List.cons_append, List.append_assoc, List.nil_append]
    rw [parseFrom_of_place hopen, parseFrom_first_item, parseFrom_tokens _ _ item h.1,
      parseFrom_itemTokens item [] stack rest items h.2]
    rfl
  | .obj [], _ => rfl
  | .obj ((key, value) :: fields), h => by
    have hopen : place readFloat .value stack .openObject =
      some (.keyOrEnd, .fields [] :: stack) := rfl
    have hkey : place readFloat .keyOrEnd (.fields [] :: stack) (.text key) =
      some (.colon key, .fields [] :: stack) := rfl
    have hcolon : place readFloat (.colon key) (.fields [] :: stack) .colon =
      some (.value, .member [] key :: stack) := rfl
    simp only [tokens, List.cons_append, List.append_assoc, List.nil_append]
    rw [parseFrom_of_place hopen, parseFrom_of_place hkey, parseFrom_of_place hcolon,
      parseFrom_tokens _ _ value h.1, parseFrom_fieldTokens key value [] stack rest fields h.2]
    rfl

theorem parseFrom_itemTokens (last : Json) (before : List Json) (stack : List Frame)
    (rest : List Token) : ∀ items : List Json,
    ItemsIn (FloatTexts floatText readFloat) items →
    parseFrom readFloat (.after last) (.items before :: stack)
        (itemTokens floatText items ++ .closeArray :: rest) =
      parseFrom readFloat (.after (.arr ((last :: before).reverse ++ items))) stack rest
  | [], _ => by
    have hclose : place readFloat (.after last) (.items before :: stack) .closeArray =
      some (.after (.arr (last :: before).reverse), stack) := rfl
    rw [itemTokens, List.nil_append, parseFrom_of_place hclose, List.append_nil]
  | item :: items, h => by
    have hcomma : place readFloat (.after last) (.items before :: stack) .comma =
      some (.value, .items (last :: before) :: stack) := rfl
    simp only [itemTokens, List.cons_append, List.append_assoc]
    rw [parseFrom_of_place hcomma, parseFrom_tokens _ _ item h.1,
      parseFrom_itemTokens item (last :: before) stack rest items h.2, List.reverse_cons,
      List.append_assoc]
    rfl

theorem parseFrom_fieldTokens (key : String) (last : Json) (before : List (String × Json))
    (stack : List Frame) (rest : List Token) : ∀ fields : List (String × Json),
    FieldsIn (FloatTexts floatText readFloat) fields →
    parseFrom readFloat (.after last) (.member before key :: stack)
        (fieldTokens floatText fields ++ .closeObject :: rest) =
      parseFrom readFloat (.after (.obj (((key, last) :: before).reverse ++ fields))) stack rest
  | [], _ => by
    have hclose : place readFloat (.after last) (.member before key :: stack) .closeObject =
      some (.after (.obj ((key, last) :: before).reverse), stack) := rfl
    rw [fieldTokens, List.nil_append, parseFrom_of_place hclose, List.append_nil]
  | (key', value) :: fields, h => by
    have hcomma : place readFloat (.after last) (.member before key :: stack) .comma =
      some (.key, .fields ((key, last) :: before) :: stack) := rfl
    have hkey : place readFloat .key (.fields ((key, last) :: before) :: stack) (.text key') =
      some (.colon key', .fields ((key, last) :: before) :: stack) := rfl
    have hcolon : place readFloat (.colon key') (.fields ((key, last) :: before) :: stack) .colon =
      some (.value, .member ((key, last) :: before) key' :: stack) := rfl
    simp only [fieldTokens, List.cons_append, List.append_assoc]
    rw [parseFrom_of_place hcomma, parseFrom_of_place hkey, parseFrom_of_place hcolon,
      parseFrom_tokens _ _ value h.1,
      parseFrom_fieldTokens key' value ((key, last) :: before) stack rest fields h.2,
      List.reverse_cons, List.append_assoc]
    rfl

end

/-- What was written is read back, under every layout. -/
theorem read_render (layout : Layout) (depth : ℕ) {v : Json}
    (h : FloatsIn (FloatTexts floatText readFloat) v) :
    read readFloat (render floatText layout depth v) = some v := by
  have hcut := cuts_render layout depth v h [] delimited_nil
  have hparse := parseFrom_tokens [] [] v h
  rw [List.append_nil] at hcut hparse
  rw [read, hcut]
  change parseFrom readFloat .value [] (tokens floatText v ++ []) = some v
  rw [List.append_nil, hparse]
  rfl

end Parsing

/-! What may follow a text. -/

section Trailing

/-- The tokens of a text so far and where the reader is then. -/
def scanAll (mode : Mode) : List Char → Option (List Token × Mode)
  | [] => some ([], mode)
  | c :: rest => (scan mode c).bind fun next =>
      (scanAll next.2 rest).map fun after => (next.1 ++ after.1, after.2)

theorem lexFrom_append (mode : Mode) (text rest : List Char) :
    lexFrom mode (text ++ rest) = (scanAll mode text).bind fun done =>
      (lexFrom done.2 rest).map fun after => done.1 ++ after := by
  induction text generalizing mode with
  | nil => simp [scanAll]
  | cons c text ih =>
    rw [List.cons_append, lexFrom, scanAll]
    cases hscan : scan mode c with
    | none => rfl
    | some next =>
      simp only [Option.bind_some, ih]
      cases hall : scanAll next.2 text with
      | none => rfl
      | some done => simp [Function.comp_def]

theorem afterCode_ne_between {read : List Char} {high : Option ℕ} {code : ℕ} {mode : Mode}
    (h : afterCode read high code = some mode) : mode ≠ .between := by
  unfold afterCode at h
  split at h
  · split at h
    · exact Option.some.inj h ▸ nofun
    · split at h
      · contradiction
      · exact Option.some.inj h ▸ nofun
  · split at h
    · exact Option.some.inj h ▸ nofun
    · contradiction

/-- Inside a word or a string only a token leads back out. -/
theorem scan_silent {mode mode' : Mode} {c : Char} (h : scan mode c = some ([], mode'))
    (hmode : mode ≠ .between) : mode' ≠ .between := by
  have hmoves : ∀ {next : Mode}, some (([] : List Token), next) = some ([], mode') →
      next ≠ .between → mode' ≠ .between := fun heq hnext =>
    (Prod.mk.inj (Option.some.inj heq)).2 ▸ hnext
  cases mode with
  | between => exact absurd rfl hmode
  | word read =>
    simp only [scan] at h
    split at h
    · simp at h
    · split at h
      · simp at h
      · split at h
        · contradiction
        · exact hmoves h nofun
  | text read =>
    simp only [scan] at h
    split at h
    · simp at h
    · split at h
      · exact hmoves h nofun
      · split at h
        · contradiction
        · exact hmoves h nofun
  | escape read =>
    simp only [scan] at h
    split at h
    · exact hmoves h nofun
    · obtain ⟨_, -, heq⟩ := Option.map_eq_some_iff.mp h
      exact hmoves (congrArg some heq) nofun
  | hex read high digits code =>
    obtain ⟨value, -, h⟩ := Option.bind_eq_some_iff.mp h
    split at h
    · obtain ⟨next, hafter, heq⟩ := Option.map_eq_some_iff.mp h
      exact hmoves (congrArg some heq) (afterCode_ne_between hafter)
    · exact hmoves h nofun
  | low read high | lowEscape read high =>
    simp only [scan] at h
    split at h
    · exact hmoves h nofun
    · contradiction

theorem lexFrom_ne_nil {mode : Mode} (hmode : mode ≠ .between) (text : List Char) :
    lexFrom mode text ≠ some [] := by
  induction text generalizing mode with
  | nil => cases mode <;> simp_all [lexFrom]
  | cons c rest ih =>
    intro h
    rw [lexFrom] at h
    obtain ⟨⟨done, mode'⟩, hscan, hrest⟩ := Option.bind_eq_some_iff.mp h
    obtain ⟨after, hafter, hnil⟩ := Option.map_eq_some_iff.mp hrest
    obtain ⟨rfl, rfl⟩ := List.append_eq_nil_iff.mp hnil
    exact ih (scan_silent hscan hmode) hafter

/-- Without tokens there are only blanks. -/
theorem lexFrom_eq_nil_iff (text : List Char) :
    lexFrom .between text = some [] ↔ ∀ c ∈ text, isBlank c = true := by
  constructor
  · intro h
    induction text with
    | nil => simp
    | cons c rest ih =>
      rw [lexFrom] at h
      obtain ⟨⟨done, mode⟩, hscan, hrest⟩ := Option.bind_eq_some_iff.mp h
      obtain ⟨after, hafter, hnil⟩ := Option.map_eq_some_iff.mp hrest
      obtain ⟨rfl, rfl⟩ := List.append_eq_nil_iff.mp hnil
      have hmode : mode = .between := by
        by_contra hne
        exact lexFrom_ne_nil hne rest hafter
      subst hmode
      refine List.forall_mem_cons.mpr ⟨?_, ih hafter⟩
      by_contra hblank
      simp only [scan] at hscan
      rw [if_neg hblank] at hscan
      split at hscan
      · simp at hscan
      · split at hscan <;> simp at hscan
  · intro h
    have hblanks := lexFrom_blanks h []
    rwa [List.append_nil] at hblanks

variable (readFloat : List Char → Option UInt64)

def placeAll (phase : Phase) (stack : List Frame) : List Token → Option (Phase × List Frame)
  | [] => some (phase, stack)
  | token :: rest => (place readFloat phase stack token).bind fun next =>
      placeAll next.1 next.2 rest

theorem parseFrom_append (phase : Phase) (stack : List Frame) (done rest : List Token) :
    parseFrom readFloat phase stack (done ++ rest) =
      (placeAll readFloat phase stack done).bind fun next =>
        parseFrom readFloat next.1 next.2 rest := by
  induction done generalizing phase stack with
  | nil => rfl
  | cons token done ih =>
    rw [List.cons_append, parseFrom, placeAll, Option.bind_assoc]
    congr 1
    funext next
    exact ih next.1 next.2

variable {readFloat}

theorem parseFrom_nil_eq_some {phase : Phase} {stack : List Frame} {v : Json}
    (h : parseFrom readFloat phase stack [] = some v) : phase = .after v ∧ stack = [] := by
  unfold parseFrom at h
  split at h
  · exact ⟨congrArg _ (Option.some.inj h), rfl⟩
  · contradiction

/-- A word is a value without parts. -/
theorem place_word {phase phase' : Phase} {stack stack' : List Frame} {letters : List Char}
    (h : place readFloat phase stack (.word letters) = some (phase', stack')) :
    ∃ value, readWord readFloat letters = some value ∧ phase' = .after value := by
  have hstart : startValue readFloat stack (.word letters) = some (phase', stack') →
      ∃ value, readWord readFloat letters = some value ∧ phase' = .after value := by
    intro hstart
    obtain ⟨value, hvalue, heq⟩ := Option.map_eq_some_iff.mp hstart
    exact ⟨value, hvalue, (Prod.mk.inj heq).1.symm⟩
  cases phase with
  | value => exact hstart h
  | itemOrEnd =>
    simp only [place] at h
    exact hstart h
  | keyOrEnd | key =>
    have hnone : takeKey stack (.word letters) = none := by
      unfold takeKey
      split
      · contradiction
      · rfl
    simp [place, hnone] at h
  | colon | after =>
    cases stack with
    | nil => contradiction
    | cons frame rest => cases frame <;> contradiction

theorem readWord_ne_arr (letters : List Char) (items : List Json) :
    readWord readFloat letters ≠ some (.arr items) := by
  unfold readWord
  split
  · simp
  · split
    · simp
    · split <;> simp

/-- The text of an array ends outside of words and strings. -/
theorem ends_of_read {text : List Char} {items : List Json}
    (h : read readFloat text = some (.arr items)) : ∃ done,
      scanAll .between text = some (done, .between) ∧
      placeAll readFloat .value [] done = some (.after (.arr items), []) := by
  obtain ⟨tokens, htokens, hparse⟩ := Option.bind_eq_some_iff.mp h
  rw [← List.append_nil text, lexFrom_append] at htokens
  obtain ⟨⟨done, mode⟩, hscan, hend⟩ := Option.bind_eq_some_iff.mp htokens
  obtain ⟨last, hlast, rfl⟩ := Option.map_eq_some_iff.mp hend
  rw [parseFrom_append] at hparse
  obtain ⟨⟨phase, stack⟩, hplaced, hrest⟩ := Option.bind_eq_some_iff.mp hparse
  cases mode with
  | between =>
    obtain rfl := Option.some.inj hlast
    obtain ⟨rfl, rfl⟩ := parseFrom_nil_eq_some hrest
    exact ⟨done, hscan, hplaced⟩
  | word letters =>
    obtain rfl := Option.some.inj hlast
    obtain ⟨⟨phase', stack'⟩, hword, hdone⟩ := Option.bind_eq_some_iff.mp hrest
    obtain ⟨value, hvalue, rfl⟩ := place_word hword
    obtain ⟨heq, -⟩ := parseFrom_nil_eq_some hdone
    exact absurd (Phase.after.inj heq ▸ hvalue) (readWord_ne_arr _ items)
  | text | escape | hex | low | lowEscape => contradiction

/-- After the text of an array there may be blanks and nothing else. -/
theorem read_append {text : List Char} {items : List Json}
    (h : read readFloat text = some (.arr items)) (rest : List Char) :
    read readFloat (text ++ rest) =
      if rest.all isBlank then some (.arr items) else none := by
  obtain ⟨done, hscan, hplaced⟩ := ends_of_read h
  rw [read, lexFrom_append, hscan, Option.bind_some]
  split
  · rename_i hblank
    rw [(lexFrom_eq_nil_iff rest).mpr (List.all_eq_true.mp hblank), Option.map_some,
      Option.bind_some, parseFrom_append, hplaced]
    rfl
  · rename_i hblank
    cases hrest : lexFrom .between rest with
    | none => rfl
    | some after =>
      rw [Option.map_some, Option.bind_some, parseFrom_append, hplaced]
      cases after with
      | nil => exact absurd (List.all_eq_true.mpr ((lexFrom_eq_nil_iff rest).mp hrest)) hblank
      | cons token after => cases token <;> rfl

end Trailing

end SqlServerMcp.JsonTexts
