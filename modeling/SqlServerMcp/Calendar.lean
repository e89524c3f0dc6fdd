import Mathlib.Data.List.GetD
import Mathlib.Tactic.NormNum

/-!
The proleptic Gregorian calendar. A day is numbered from 1 for the first of
January of year 1; years and day numbers go on below. A date and its day number
determine each other: the days before a year are counted by its leap days, the
days before a month by the lengths of the months before it.
-/
namespace SqlServerMcp.Calendar

section Locate

/-- The segment that a position falls into, and the position within it. -/
def locate : List ℕ → ℕ → ℕ × ℕ
  | [], r => (0, r)
  | n :: rest, r =>
    if r < n then (0, r)
    else
      let (i, offset) := locate rest (r - n)
      (i + 1, offset)

theorem locate_spec (lengths : List ℕ) (r : ℕ) (h : r < lengths.sum) :
    (locate lengths r).2 < lengths.getD (locate lengths r).1 0 ∧
      (lengths.take (locate lengths r).1).sum + (locate lengths r).2 = r := by
  induction lengths generalizing r with
  | nil => simp at h
  | cons n rest ih =>
    rw [List.sum_cons] at h
    by_cases hfirst : r < n
    · simp [locate, hfirst]
    · obtain ⟨hlt, hsum⟩ := ih (r - n) (by omega)
      simp only [locate, hfirst, if_false, List.getD_cons_succ, List.take_succ_cons, List.sum_cons]
      omega

/-- A position is in one segment only. -/
theorem locate_of_lt (lengths : List ℕ) {i offset : ℕ} (h : offset < lengths.getD i 0) :
    locate lengths ((lengths.take i).sum + offset) = (i, offset) := by
  induction lengths generalizing i with
  | nil => simp at h
  | cons n rest ih =>
    cases i with
    | zero =>
      rw [List.getD_cons_zero] at h
      simp [locate, h]
    | succ i =>
      rw [List.getD_cons_succ] at h
      have hnot : ¬ n + (rest.take i).sum + offset < n := by omega
      have hrest : n + (rest.take i).sum + offset - n = (rest.take i).sum + offset := by omega
      rw [List.take_succ_cons, List.sum_cons, locate, if_neg hnot, hrest, ih h]

end Locate

section Years

def isLeap (year : ℤ) : Bool := year % 4 = 0 ∧ (year % 100 ≠ 0 ∨ year % 400 = 0)

def daysInYear (year : ℤ) : ℕ := if isLeap year then 366 else 365

def daysBeforeYear (year : ℤ) : ℤ :=
  365 * (year - 1) + (year - 1) / 4 - (year - 1) / 100 + (year - 1) / 400

theorem daysBeforeYear_succ (year : ℤ) :
    daysBeforeYear (year + 1) = daysBeforeYear year + daysInYear year := by
  unfold daysBeforeYear daysInYear isLeap
  split
  · rename_i hleap
    simp only [decide_eq_true_eq] at hleap
    omega
  · rename_i hleap
    simp only [decide_eq_true_eq] at hleap
    omega

theorem daysBeforeYear_mono {a b : ℤ} (h : a ≤ b) : daysBeforeYear a ≤ daysBeforeYear b := by
  unfold daysBeforeYear
  omega

/-- The year of a day and the days of that year before it. A century is cut off
after its third, and so is a year after its third, because the last of four is
a day longer. -/
def yearOf (n : ℤ) : ℤ × ℤ :=
  let quads := (n - 1) / 146097
  let inQuad := (n - 1) % 146097
  let century := min 3 (inQuad / 36524)
  let inCentury := inQuad - 36524 * century
  let four := inCentury / 1461
  let inFour := inCentury % 1461
  let last := min 3 (inFour / 365)
  (400 * quads + 100 * century + 4 * four + last + 1, inFour - 365 * last)

/-- Where a day of 400 years falls: which century, which four years of it, and
which year of those. -/
theorem cycle_cases {r : ℤ} (hr : 0 ≤ r) (hr' : r < 146097) :
    ∃ century four last offset : ℤ,
      century = min 3 (r / 36524) ∧ four = (r - 36524 * century) / 1461 ∧
      last = min 3 ((r - 36524 * century) % 1461 / 365) ∧
      offset = (r - 36524 * century) % 1461 - 365 * last ∧
      r = 36524 * century + 1461 * four + 365 * last + offset ∧
      0 ≤ century ∧ century ≤ 3 ∧ 0 ≤ four ∧ four ≤ 24 ∧ 0 ≤ last ∧ last ≤ 3 ∧ 0 ≤ offset ∧
      offset ≤ 365 ∧ (offset = 365 → last = 3 ∧ (four = 24 → century = 3)) := by
  refine ⟨_, _, _, _, rfl, rfl, rfl, rfl, ?_⟩
  omega

theorem yearOf_spec (n : ℤ) :
    daysBeforeYear (yearOf n).1 + (yearOf n).2 + 1 = n ∧ 0 ≤ (yearOf n).2 ∧
      (yearOf n).2 < daysInYear (yearOf n).1 := by
  obtain ⟨century, four, last, offset, hcentury, hfour, hlast, hoffset, hsum, hbounds⟩ :=
    cycle_cases (r := (n - 1) % 146097) (by omega) (by omega)
  have hyear : yearOf n =
      (400 * ((n - 1) / 146097) + 100 * century + 4 * four + last + 1, offset) := by
    simp only [yearOf, ← hcentury, ← hfour, ← hlast, ← hoffset]
  rw [hyear]
  generalize hquads : (n - 1) / 146097 = quads
  have hn : n - 1 = 146097 * quads + (n - 1) % 146097 := by omega
  have hquad : (400 * quads + 100 * century + 4 * four + last) / 4 =
      100 * quads + 25 * century + four := by omega
  have hhundred : (400 * quads + 100 * century + 4 * four + last) / 100 =
      4 * quads + century := by omega
  have hquads' : (400 * quads + 100 * century + 4 * four + last) / 400 = quads := by omega
  refine ⟨?_, by omega, ?_⟩
  · unfold daysBeforeYear
    simp only [add_sub_cancel_right, hquad, hhundred, hquads']
    omega
  · unfold daysInYear isLeap
    split
    · rw [Nat.cast_ofNat]
      omega
    · rename_i hleap
      simp only [decide_eq_true_eq] at hleap
      rw [Nat.cast_ofNat]
      omega

end Years

section Dates

def monthLengths (year : ℤ) : List ℕ :=
  [31, if isLeap year then 29 else 28, 31, 30, 31, 30, 31, 31, 30, 31, 30, 31]

def daysInMonth (year : ℤ) (month : ℕ) : ℕ := (monthLengths year).getD (month - 1) 0

theorem sum_monthLengths (year : ℤ) : (monthLengths year).sum = daysInYear year := by
  unfold monthLengths daysInYear
  split <;> rfl

/-- A date of the calendar: the month is a month and the day is a day of it. -/
@[ext] structure CivilDate where
  year : ℤ
  month : ℕ
  day : ℕ
  month_pos : 1 ≤ month
  day_pos : 1 ≤ day
  day_le : day ≤ daysInMonth year month
  deriving DecidableEq

theorem daysInMonth_le (year : ℤ) (month : ℕ) : daysInMonth year month ≤ 31 := by
  unfold daysInMonth
  have hall : ∀ n ∈ monthLengths year, n ≤ 31 := by
    unfold monthLengths
    split <;> simp
  by_cases hmonth : month - 1 < (monthLengths year).length
  · rw [List.getD_eq_getElem _ _ hmonth]
    exact hall _ (List.getElem_mem hmonth)
  · rw [List.getD_eq_default _ _ (by omega)]
    exact Nat.zero_le _

theorem daysInMonth_eq_zero (year : ℤ) {month : ℕ} (h : 12 < month) :
    daysInMonth year month = 0 := by
  have hlength : (monthLengths year).length ≤ month - 1 := by
    show 12 ≤ month - 1
    omega
  rw [daysInMonth, List.getD_eq_default _ _ hlength]

namespace CivilDate

variable (date : CivilDate)

theorem month_le : date.month ≤ 12 := by
  by_contra hmonth
  have hdays := daysInMonth_eq_zero date.year (show 12 < date.month by omega)
  have hpos := date.day_pos
  have hle := date.day_le
  omega

theorem day_le_31 : date.day ≤ 31 := date.day_le.trans (daysInMonth_le _ _)

/-- The days of the year before this one. -/
def daysBefore : ℕ :=
  ((monthLengths date.year).take (date.month - 1)).sum + (date.day - 1)

def dayNumber : ℤ := daysBeforeYear date.year + date.daysBefore + 1

theorem locate_daysBefore :
    locate (monthLengths date.year) date.daysBefore = (date.month - 1, date.day - 1) := by
  have hpos := date.day_pos
  have hle : date.day ≤ (monthLengths date.year).getD (date.month - 1) 0 := date.day_le
  exact locate_of_lt _ (by omega)

theorem daysBefore_lt : date.daysBefore < daysInYear date.year := by
  have hpos := date.day_pos
  have hle : date.day ≤ (monthLengths date.year).getD (date.month - 1) 0 := date.day_le
  have hlt : date.month - 1 < (monthLengths date.year).length := by
    have hmonth := date.month_le
    have hmonth' := date.month_pos
    show date.month - 1 < 12
    omega
  rw [List.getD_eq_getElem _ _ hlt] at hle
  have hsum := congrArg List.sum (List.take_append_drop (date.month - 1) (monthLengths date.year))
  rw [List.drop_eq_getElem_cons hlt, List.sum_append, List.sum_cons, sum_monthLengths] at hsum
  unfold daysBefore
  omega

/-- A date lies between the ends of its year. -/
theorem dayNumber_bounds :
    daysBeforeYear date.year < date.dayNumber ∧
      date.dayNumber ≤ daysBeforeYear (date.year + 1) := by
  have hlt := date.daysBefore_lt
  have hsucc := daysBeforeYear_succ date.year
  unfold dayNumber
  omega

variable {date}

theorem year_le_of_dayNumber_eq {other : CivilDate} (h : date.dayNumber = other.dayNumber) :
    date.year ≤ other.year := by
  by_contra hlt
  have hmono := daysBeforeYear_mono (show other.year + 1 ≤ date.year by omega)
  have hbounds := date.dayNumber_bounds
  have hbounds' := other.dayNumber_bounds
  omega

theorem dayNumber_injective : Function.Injective dayNumber := by
  intro a b h
  have hyear : a.year = b.year :=
    le_antisymm (year_le_of_dayNumber_eq h) (year_le_of_dayNumber_eq h.symm)
  have hbefore : a.daysBefore = b.daysBefore := by
    unfold dayNumber at h
    rw [hyear] at h
    omega
  have hlocate := a.locate_daysBefore
  rw [hyear, hbefore, b.locate_daysBefore] at hlocate
  obtain ⟨hmonth, hday⟩ := Prod.mk.inj hlocate
  have ha := a.month_pos
  have hb := b.month_pos
  have ha' := a.day_pos
  have hb' := b.day_pos
  exact CivilDate.ext hyear (by omega) (by omega)

/-- The years of a range of days. -/
theorem dayNumber_mem_iff {first last : ℤ} :
    (daysBeforeYear first < date.dayNumber ∧ date.dayNumber ≤ daysBeforeYear (last + 1)) ↔
      (first ≤ date.year ∧ date.year ≤ last) := by
  have hbounds := date.dayNumber_bounds
  constructor
  · intro h
    constructor
    · by_contra hlt
      have hmono := daysBeforeYear_mono (show date.year + 1 ≤ first by omega)
      omega
    · by_contra hlt
      have hmono := daysBeforeYear_mono (show last + 1 ≤ date.year by omega)
      omega
  · intro h
    have hmono := daysBeforeYear_mono h.1
    have hmono' := daysBeforeYear_mono (show date.year + 1 ≤ last + 1 by omega)
    omega

/-- The date of a day number. -/
def ofDayNumber (n : ℤ) : CivilDate where
  year := (yearOf n).1
  month := (locate (monthLengths (yearOf n).1) (yearOf n).2.toNat).1 + 1
  day := (locate (monthLengths (yearOf n).1) (yearOf n).2.toNat).2 + 1
  month_pos := by omega
  day_pos := by omega
  day_le := by
    obtain ⟨-, hlower, hupper⟩ := yearOf_spec n
    have hsum := sum_monthLengths (yearOf n).1
    exact (locate_spec (monthLengths (yearOf n).1) (yearOf n).2.toNat (by omega)).1

theorem dayNumber_ofDayNumber (n : ℤ) : (ofDayNumber n).dayNumber = n := by
  obtain ⟨hn, hlower, hupper⟩ := yearOf_spec n
  have hsum := sum_monthLengths (yearOf n).1
  have hlocate := (locate_spec (monthLengths (yearOf n).1) (yearOf n).2.toNat (by omega)).2
  simp only [dayNumber, daysBefore, ofDayNumber, Nat.add_sub_cancel]
  omega

theorem ofDayNumber_dayNumber (date : CivilDate) : ofDayNumber date.dayNumber = date :=
  dayNumber_injective (dayNumber_ofDayNumber _)

end CivilDate

end Dates

end SqlServerMcp.Calendar
