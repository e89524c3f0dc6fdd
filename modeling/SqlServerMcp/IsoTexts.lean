import SqlServerMcp.Calendar
import SqlServerMcp.Decimals

/-!
Texts of dates and times as ISO 8601 writes them, and what they denote. Every
part of a text but the year and the fraction of a second has a fixed width, so a
text denotes one value only; the printers below write a text of each value.
-/
namespace SqlServerMcp.IsoTexts

open Calendar Decimals Text

/-- A run of so many digits, and its number. -/
structure Digits (width : ℕ) (l : List Char) (n : ℕ) : Prop where
  length : l.length = width
  isDigit : ∀ c ∈ l, c.isDigit
  value : digitsValue l = n

def YearText (l : List Char) (year : ℤ) : Prop := 4 ≤ l.length ∧ IntegerText l year

/-- A date, for the number of its day. -/
def DateText (l : List Char) (n : ℤ) : Prop :=
  ∃ (date : CivilDate) (year month day : List Char),
    l = year ++ '-' :: (month ++ '-' :: day) ∧ YearText year date.year ∧
      Digits 2 month date.month ∧ Digits 2 day date.day ∧ date.dayNumber = n

/-- A fraction of a second after its point, in nanoseconds. No text is none. -/
def FractionText (l : List Char) (ns : ℕ) : Prop :=
  l = [] ∧ ns = 0 ∨
    ∃ digits, l = '.' :: digits ∧ digits ≠ [] ∧ digits.length ≤ 9 ∧
      (∀ c ∈ digits, c.isDigit) ∧ ns = digitsValue digits * 10 ^ (9 - digits.length)

/-- A time of day, for the nanoseconds since midnight. -/
def TimeText (l : List Char) (ns : ℤ) : Prop :=
  ∃ (hour minute second fraction : List Char) (h m s f : ℕ),
    l = hour ++ ':' :: (minute ++ ':' :: (second ++ fraction)) ∧
      Digits 2 hour h ∧ Digits 2 minute m ∧ Digits 2 second s ∧ FractionText fraction f ∧
      h < 24 ∧ m < 60 ∧ s < 60 ∧ ns = (((h * 60 + m) * 60 + s) * 10 ^ 9 + f : ℕ)

def DateTimeText (l : List Char) (n ns : ℤ) : Prop :=
  ∃ date time, l = date ++ 'T' :: time ∧ DateText date n ∧ TimeText time ns

/-- A distance from UTC, in minutes. -/
def OffsetText (l : List Char) (minutes : ℤ) : Prop :=
  ∃ (positive : Bool) (hour minute : List Char) (h m : ℕ),
    l = signChar positive :: (hour ++ ':' :: minute) ∧ Digits 2 hour h ∧ Digits 2 minute m ∧
      m < 60 ∧ minutes = signValue positive * (h * 60 + m)

/-- A local date and time with its distance from UTC, for the instant: the
nanoseconds since the midnight before day 0, in UTC. -/
def InstantText (l : List Char) (utc minutes : ℤ) : Prop :=
  ∃ (naive offset : List Char) (n ns : ℤ),
    l = naive ++ offset ∧ DateTimeText naive n ns ∧ OffsetText offset minutes ∧
      utc = n * (86400 * 10 ^ 9) + ns - minutes * (60 * 10 ^ 9)

section Unique

theorem Digits.append_inj {width n m : ℕ} {a b rest rest' : List Char} (h : Digits width a n)
    (h' : Digits width b m) (heq : a ++ rest = b ++ rest') : n = m ∧ rest = rest' := by
  obtain ⟨rfl, hrest⟩ := List.append_inj heq (h.length.trans h'.length.symm)
  exact ⟨h.value.symm.trans h'.value, hrest⟩

theorem Digits.unique {width n m : ℕ} {l : List Char} (h : Digits width l n)
    (h' : Digits width l m) : n = m :=
  h.value.symm.trans h'.value

theorem dateText_unique {l : List Char} {n n' : ℤ} (h : DateText l n) (h' : DateText l n') :
    n = n' := by
  obtain ⟨date, year, month, day, rfl, hyear, hmonth, hday, rfl⟩ := h
  obtain ⟨date', year', month', day', heq, hyear', hmonth', hday', rfl⟩ := h'
  have hlength :
      ('-' :: (month ++ '-' :: day)).length = ('-' :: (month' ++ '-' :: day')).length := by
    simp [hmonth.length, hday.length, hmonth'.length, hday'.length]
  obtain ⟨rfl, hrest⟩ := List.append_inj' heq hlength
  obtain ⟨hmonths, hrest⟩ := hmonth.append_inj hmonth' (List.cons.inj hrest).2
  obtain ⟨-, rfl⟩ := List.cons.inj hrest
  have hdates : date = date' :=
    CivilDate.ext (integerText_unique hyear.2 hyear'.2) hmonths (hday.unique hday')
  rw [hdates]

theorem fractionText_unique {l : List Char} {ns ns' : ℕ} (h : FractionText l ns)
    (h' : FractionText l ns') : ns = ns' := by
  rcases h with ⟨rfl, rfl⟩ | ⟨digits, rfl, -, -, -, rfl⟩
  · rcases h' with ⟨-, rfl⟩ | ⟨digits, hl, -⟩
    · rfl
    · contradiction
  · rcases h' with ⟨hl, -⟩ | ⟨digits', hl, -, -, -, rfl⟩
    · contradiction
    · rw [(List.cons.inj hl).2]

theorem timeText_unique {l : List Char} {ns ns' : ℤ} (h : TimeText l ns) (h' : TimeText l ns') :
    ns = ns' := by
  obtain ⟨hour, minute, second, fraction, h, m, s, f, rfl, hh, hm, hs, hf, -, -, -, rfl⟩ := h
  obtain ⟨_, _, _, _, h', m', s', f', heq, hh', hm', hs', hf', -, -, -, rfl⟩ := h'
  obtain ⟨rfl, hrest⟩ := hh.append_inj hh' heq
  obtain ⟨rfl, hrest⟩ := hm.append_inj hm' (List.cons.inj hrest).2
  obtain ⟨rfl, rfl⟩ := hs.append_inj hs' (List.cons.inj hrest).2
  rw [fractionText_unique hf hf']

/-- No date contains the letter that stands before the time. -/
theorem designator_notMem_dateText {l : List Char} {n : ℤ} (h : DateText l n) : 'T' ∉ l := by
  obtain ⟨date, year, month, day, rfl, ⟨-, hyear⟩, hmonth, hday, -⟩ := h
  have hdigits : ∀ digits : List Char, (∀ c ∈ digits, c.isDigit) → 'T' ∉ digits := by
    intro digits hall hmem
    have hletter := hall 'T' hmem
    contradiction
  have hyears : 'T' ∉ year := by
    obtain ⟨digits, -, hall, (⟨rfl, -⟩ | ⟨positive, rfl, -⟩)⟩ := hyear
    · exact hdigits _ hall
    · rw [List.mem_cons, not_or]
      refine ⟨?_, hdigits _ hall⟩
      cases positive <;> decide
  simp [hyears, hdigits _ hmonth.isDigit, hdigits _ hday.isDigit]

theorem dateTimeText_unique {l : List Char} {n n' ns ns' : ℤ} (h : DateTimeText l n ns)
    (h' : DateTimeText l n' ns') : n = n' ∧ ns = ns' := by
  obtain ⟨date, time, rfl, hdate, htime⟩ := h
  obtain ⟨date', time', heq, hdate', htime'⟩ := h'
  obtain ⟨rfl, rfl⟩ := append_sep_injective (designator_notMem_dateText hdate)
    (designator_notMem_dateText hdate') heq
  exact ⟨dateText_unique hdate hdate', timeText_unique htime htime'⟩

theorem OffsetText.length {l : List Char} {minutes : ℤ} (h : OffsetText l minutes) :
    l.length = 6 := by
  obtain ⟨positive, hour, minute, h, m, rfl, hh, hm, -, -⟩ := h
  simp [hh.length, hm.length]

theorem offsetText_unique {l : List Char} {minutes minutes' : ℤ} (h : OffsetText l minutes)
    (h' : OffsetText l minutes') : minutes = minutes' := by
  obtain ⟨positive, hour, minute, h, m, rfl, hh, hm, -, rfl⟩ := h
  obtain ⟨positive', hour', minute', h', m', heq, hh', hm', -, rfl⟩ := h'
  obtain ⟨hsign, hrest⟩ := List.cons.inj heq
  obtain ⟨rfl, hrest⟩ := hh.append_inj hh' hrest
  obtain ⟨-, rfl⟩ := List.cons.inj hrest
  have hpositive : positive = positive' := by
    cases positive <;> cases positive' <;> first | rfl | contradiction
  rw [hpositive, hm.unique hm']

theorem instantText_unique {l : List Char} {utc utc' minutes minutes' : ℤ}
    (h : InstantText l utc minutes) (h' : InstantText l utc' minutes') :
    utc = utc' ∧ minutes = minutes' := by
  obtain ⟨naive, offset, n, ns, rfl, hnaive, hoffset, rfl⟩ := h
  obtain ⟨naive', offset', n', ns', heq, hnaive', hoffset', rfl⟩ := h'
  obtain ⟨rfl, rfl⟩ := List.append_inj' heq (hoffset.length.trans hoffset'.length.symm)
  obtain ⟨rfl, rfl⟩ := dateTimeText_unique hnaive hnaive'
  obtain rfl := offsetText_unique hoffset hoffset'
  exact ⟨rfl, rfl⟩

end Unique

section Printers

def fixedDigits (width n : ℕ) : List Char := padLeft '0' width (toString n).toList

/-- Four digits, or a sign and at least four for a year that does not fit them. -/
def isoYear (year : ℤ) : List Char :=
  if 0 ≤ year ∧ year ≤ 9999 then fixedDigits 4 year.toNat
  else signChar (decide (0 ≤ year)) :: fixedDigits 4 year.natAbs

def isoDate (date : CivilDate) : List Char :=
  isoYear date.year ++ '-' :: (fixedDigits 2 date.month ++ '-' :: fixedDigits 2 date.day)

/-- As few of none, three, six or nine digits as the nanoseconds need. -/
def isoFraction (ns : ℕ) : List Char :=
  if ns = 0 then []
  else if ns % 10 ^ 6 = 0 then '.' :: fixedDigits 3 (ns / 10 ^ 6)
  else if ns % 10 ^ 3 = 0 then '.' :: fixedDigits 6 (ns / 10 ^ 3)
  else '.' :: fixedDigits 9 ns

def isoTime (secs frac : ℕ) : List Char :=
  fixedDigits 2 (secs / 3600) ++ ':' ::
    (fixedDigits 2 (secs / 60 % 60) ++ ':' :: (fixedDigits 2 (secs % 60) ++ isoFraction frac))

def isoDateTime (date : CivilDate) (secs frac : ℕ) : List Char :=
  isoDate date ++ 'T' :: isoTime secs frac

def isoOffset (minutes : ℤ) : List Char :=
  signChar (decide (0 ≤ minutes)) ::
    (fixedDigits 2 (minutes.natAbs / 60) ++ ':' :: fixedDigits 2 (minutes.natAbs % 60))

/-- The instant of a day and a time in UTC, as it is shown at an offset. -/
def isoInstant (n secs : ℤ) (frac : ℕ) (minutes : ℤ) : List Char :=
  let shown := n * 86400 + secs + minutes * 60
  isoDateTime (CivilDate.ofDayNumber (shown / 86400)) (shown % 86400).toNat frac ++
    isoOffset minutes

theorem digits_padLeft (width n : ℕ) :
    ∀ c ∈ padLeft '0' width (toString n).toList, c.isDigit :=
  fun _ hc => isDigit_of_mem_padLeft hc

theorem digits_fixedDigits {width n : ℕ} (hpos : 0 < width) (h : n < 10 ^ width) :
    Digits width (fixedDigits width n) n := by
  have hlength : (toString n).toList.length ≤ width := by
    rw [toString_nat_toList]
    exact (Nat.length_toDigits_le_iff (by omega) hpos).mpr h
  refine ⟨?_, digits_padLeft width n, digitsValue_padLeft width n⟩
  rw [fixedDigits, length_padLeft]
  omega

theorem yearText_isoYear (year : ℤ) : YearText (isoYear year) year := by
  have hlength : ∀ n, 4 ≤ (fixedDigits 4 n).length := by
    intro n
    rw [fixedDigits, length_padLeft]
    omega
  have hne : ∀ n, fixedDigits 4 n ≠ [] := by
    intro n
    rw [← List.length_pos_iff]
    have hn := hlength n
    omega
  unfold isoYear
  split
  · rename_i hrange
    refine ⟨hlength _, fixedDigits 4 year.toNat, hne _, digits_padLeft _ _, Or.inl ⟨rfl, ?_⟩⟩
    rw [fixedDigits, digitsValue_padLeft]
    omega
  · refine ⟨(hlength year.natAbs).trans (Nat.le_succ _), fixedDigits 4 year.natAbs, hne _,
      digits_padLeft _ _, Or.inr ⟨_, rfl, ?_⟩⟩
    rw [fixedDigits, digitsValue_padLeft]
    by_cases hpositive : 0 ≤ year
    · simp only [hpositive, decide_true, signValue]
      omega
    · simp only [hpositive, decide_false, signValue]
      omega

theorem dateText_isoDate (date : CivilDate) : DateText (isoDate date) date.dayNumber := by
  have hmonth := date.month_le
  have hday := date.day_le_31
  exact ⟨date, _, _, _, rfl, yearText_isoYear _, digits_fixedDigits (by omega) (by omega),
    digits_fixedDigits (by omega) (by omega), rfl⟩

theorem fractionText_fixedDigits {width n : ℕ} (hpos : 0 < width) (hle : width ≤ 9)
    (h : n < 10 ^ width) : FractionText ('.' :: fixedDigits width n) (n * 10 ^ (9 - width)) := by
  have hdigits := digits_fixedDigits hpos h
  refine Or.inr ⟨_, rfl, ?_, ?_, hdigits.isDigit, ?_⟩
  · rw [← List.length_pos_iff, hdigits.length]
    exact hpos
  · rw [hdigits.length]
    exact hle
  · rw [hdigits.length, hdigits.value]

theorem fractionText_isoFraction {ns : ℕ} (h : ns < 10 ^ 9) :
    FractionText (isoFraction ns) ns := by
  unfold isoFraction
  split
  · rename_i hzero
    exact Or.inl ⟨rfl, hzero⟩
  · split
    · rename_i hmillis
      have htext := @fractionText_fixedDigits 3 (ns / 10 ^ 6) (by omega) (by omega) (by omega)
      have hvalue : ns / 10 ^ 6 * 10 ^ (9 - 3) = ns := by omega
      rwa [hvalue] at htext
    · split
      · rename_i hmicros
        have htext := @fractionText_fixedDigits 6 (ns / 10 ^ 3) (by omega) (by omega) (by omega)
        have hvalue : ns / 10 ^ 3 * 10 ^ (9 - 6) = ns := by omega
        rwa [hvalue] at htext
      · have htext := @fractionText_fixedDigits 9 ns (by omega) (by omega) h
        rwa [Nat.sub_self, Nat.pow_zero, Nat.mul_one] at htext

theorem timeText_isoTime {secs frac : ℕ} (hsecs : secs < 86400) (hfrac : frac < 10 ^ 9) :
    TimeText (isoTime secs frac) (secs * 10 ^ 9 + frac) := by
  refine ⟨_, _, _, _, secs / 3600, secs / 60 % 60, secs % 60, frac, rfl,
    digits_fixedDigits (by omega) (by omega), digits_fixedDigits (by omega) (by omega),
    digits_fixedDigits (by omega) (by omega), fractionText_isoFraction hfrac, by omega, by omega,
    by omega, ?_⟩
  omega

theorem dateTimeText_isoDateTime (date : CivilDate) {secs frac : ℕ} (hsecs : secs < 86400)
    (hfrac : frac < 10 ^ 9) :
    DateTimeText (isoDateTime date secs frac) date.dayNumber (secs * 10 ^ 9 + frac) :=
  ⟨_, _, rfl, dateText_isoDate date, timeText_isoTime hsecs hfrac⟩

theorem offsetText_isoOffset {minutes : ℤ} (h : minutes.natAbs < 24 * 60) :
    OffsetText (isoOffset minutes) minutes := by
  refine ⟨_, _, _, minutes.natAbs / 60, minutes.natAbs % 60, rfl,
    digits_fixedDigits (by omega) (by omega), digits_fixedDigits (by omega) (by omega),
    by omega, ?_⟩
  by_cases hpositive : 0 ≤ minutes
  · simp only [hpositive, decide_true, signValue]
    omega
  · simp only [hpositive, decide_false, signValue]
    omega

/-- The text shown at an offset denotes the instant in UTC. -/
theorem instantText_isoInstant (n secs : ℤ) {frac : ℕ} {minutes : ℤ} (hfrac : frac < 10 ^ 9)
    (h : minutes.natAbs < 24 * 60) :
    InstantText (isoInstant n secs frac minutes) (n * (86400 * 10 ^ 9) + secs * 10 ^ 9 + frac)
      minutes := by
  generalize hshown : n * 86400 + secs + minutes * 60 = shown
  have hsecs : (shown % 86400).toNat < 86400 := by omega
  have hnaive := dateTimeText_isoDateTime (CivilDate.ofDayNumber (shown / 86400)) hsecs hfrac
  rw [CivilDate.dayNumber_ofDayNumber] at hnaive
  refine ⟨_, _, _, _, ?_, hnaive, offsetText_isoOffset h, by omega⟩
  rw [isoInstant, hshown]

end Printers

end SqlServerMcp.IsoTexts
