import LaGraph.Foundation.Text
import Mathlib.Data.Nat.Find
import Mathlib.Tactic.IntervalCases

namespace foundation.calendar

section Dates

def leap (year : Nat) : Nat :=
  if year % 4 = 0 ∧ (year % 100 ≠ 0 ∨ year % 400 = 0) then 1 else 0

/-- The days from the first day of year 1 to that of a year. -/
def days_before_year (year : Nat) : Nat :=
  (year - 1) * 365 + (year - 1) / 4 - (year - 1) / 100 + (year - 1) / 400

/-- The days from the first day of a year to that of a month, the thirteenth being the first
of the next year. -/
def days_before_month (year month : Nat) : Nat :=
  [0, 0, 31, 59, 90, 120, 151, 181, 212, 243, 273, 304, 334, 365].getD month 365 +
    if 2 < month then leap year else 0

def days_in_month (year month : Nat) : Nat :=
  days_before_month year (month + 1) - days_before_month year month

structure Date where
  year : Nat
  month : Nat
  day : Nat
  deriving DecidableEq, Repr

/-- A date of the calendar, in years of at most four digits. -/
structure Date.Valid (date : Date) : Prop where
  year_pos : 1 ≤ date.year
  year_le : date.year ≤ 9999
  month_pos : 1 ≤ date.month
  month_le : date.month ≤ 12
  day_pos : 1 ≤ date.day
  day_le : date.day ≤ days_in_month date.year date.month

/-- The number of a day, the first of year 1 being zero. -/
def Date.number (date : Date) : Nat :=
  days_before_year date.year + days_before_month date.year date.month + (date.day - 1)

def year_of (number : Nat) : Nat :=
  Nat.findGreatest (fun year => 1 ≤ year ∧ days_before_year year ≤ number) 9999

def month_of (year rest : Nat) : Nat :=
  Nat.findGreatest (fun month => 1 ≤ month ∧ days_before_month year month ≤ rest) 12

/-- The date of a day by its number. -/
def date_of (number : Nat) : Date :=
  let year := year_of number
  let rest := number - days_before_year year
  let month := month_of year rest
  ⟨year, month, rest - days_before_month year month + 1⟩

/-- The days of the years of at most four digits. -/
def LAST_DAY : Nat := days_before_year 10000

variable {year month number rest : Nat}

theorem div_succ (n k : Nat) :
    (n + 1) / k = n / k + if (n + 1) % k = 0 then 1 else 0 := by
  rw [Nat.succ_div]
  simp only [Nat.dvd_iff_mod_eq_zero]

theorem days_before_year_succ (h : 1 ≤ year) :
    days_before_year (year + 1) = days_before_year year + 365 + leap year := by
  obtain ⟨n, rfl⟩ := Nat.exists_eq_add_of_le' h
  have hfour := div_succ n 4
  have hcentury := div_succ n 100
  have hcycle := div_succ n 400
  have hle : n / 100 ≤ n / 4 := Nat.div_le_div_left (by decide) (by decide)
  have hcenturies : (n + 1) % 100 = 0 → (n + 1) % 4 = 0 := by omega
  have hcycles : (n + 1) % 400 = 0 → (n + 1) % 100 = 0 := by omega
  unfold days_before_year leap
  rw [Nat.add_sub_cancel, Nat.add_sub_cancel, hfour, hcentury, hcycle]
  generalize n / 4 = fours, n / 100 = centuries, n / 400 = cycles at *
  generalize (n + 1) % 4 = four, (n + 1) % 100 = century, (n + 1) % 400 = cycle at *
  split_ifs <;> omega

/-- The greatest mark that a count has reached. -/
theorem greatest_spec {mark : Nat → Nat} {bound count : Nat} (hbound : 1 ≤ bound)
    (hfirst : mark 1 ≤ count) (hlast : count < mark (bound + 1)) :
    1 ≤ Nat.findGreatest (fun k => 1 ≤ k ∧ mark k ≤ count) bound ∧
      Nat.findGreatest (fun k => 1 ≤ k ∧ mark k ≤ count) bound ≤ bound ∧
      mark (Nat.findGreatest (fun k => 1 ≤ k ∧ mark k ≤ count) bound) ≤ count ∧
      count < mark (Nat.findGreatest (fun k => 1 ≤ k ∧ mark k ≤ count) bound + 1) := by
  have hle := @Nat.findGreatest_le (fun k => 1 ≤ k ∧ mark k ≤ count) _ bound
  have hmost (k : Nat) (hk : k ≤ bound) (hmark : 1 ≤ k ∧ mark k ≤ count) :
      k ≤ Nat.findGreatest (fun k => 1 ≤ k ∧ mark k ≤ count) bound := Nat.le_findGreatest hk hmark
  obtain ⟨hpos, hmark⟩ := @Nat.findGreatest_spec _ (fun k => 1 ≤ k ∧ mark k ≤ count) _ _ hbound
    ⟨le_refl 1, hfirst⟩
  generalize Nat.findGreatest (fun k => 1 ≤ k ∧ mark k ≤ count) bound = last at *
  refine ⟨hpos, hle, hmark, ?_⟩
  by_contra hnot
  by_cases heq : last = bound
  · rw [heq] at hnot
    exact hnot hlast
  · have hnext := hmost (last + 1) (by omega) ⟨by omega, Nat.not_lt.mp hnot⟩
    omega

theorem year_of_spec (h : number < LAST_DAY) :
    1 ≤ year_of number ∧ year_of number ≤ 9999 ∧ days_before_year (year_of number) ≤ number ∧
      number < days_before_year (year_of number + 1) :=
  greatest_spec (by decide) (Nat.zero_le number) h

theorem month_of_spec (h : rest < 365 + leap year) :
    1 ≤ month_of year rest ∧ month_of year rest ≤ 12 ∧
      days_before_month year (month_of year rest) ≤ rest ∧
      rest < days_before_month year (month_of year rest + 1) :=
  greatest_spec (by decide) (Nat.zero_le rest) h

theorem leap_le : leap year ≤ 1 := by
  unfold leap
  split_ifs <;> omega

theorem days_in_month_le (h : month ≤ 12) : days_in_month year month ≤ 31 := by
  have hleap := @leap_le year
  unfold days_in_month days_before_month
  interval_cases month <;>
    simp only [List.getD_cons_zero, List.getD_cons_succ] <;> split_ifs <;> omega

/-- The calendar gives each day a date and takes the date back to its day. -/
theorem date_of_spec (h : number < LAST_DAY) :
    (date_of number).Valid ∧ (date_of number).number = number := by
  obtain ⟨hyear, hyear_le, hstart, hend⟩ := year_of_spec h
  rw [days_before_year_succ hyear] at hend
  obtain ⟨rest, hrest⟩ := Nat.exists_eq_add_of_le hstart
  have hsub : number - days_before_year (year_of number) = rest := by omega
  obtain ⟨hmonth, hmonth_le, hbefore, hafter⟩ := @month_of_spec (year_of number) rest (by omega)
  have hdate : date_of number = ⟨year_of number, month_of (year_of number) rest,
      rest - days_before_month (year_of number) (month_of (year_of number) rest) + 1⟩ := by
    rw [date_of, hsub]
  rw [hdate]
  refine ⟨⟨hyear, hyear_le, hmonth, hmonth_le, Nat.le_add_left 1 _, ?_⟩, ?_⟩
  · dsimp only
    rw [days_in_month]
    omega
  · rw [Date.number]
    dsimp only
    omega

end Dates

section Texts

/-- The last digits of a number. -/
def pad : (width n : Nat) → List Char
  | 0, _ => []
  | width + 1, n => pad width (n / 10) ++ [Nat.digitChar (n % 10)]

/-- The number that some digits write; `none` where a character is none. -/
def read (s : List Char) : Option Nat :=
  if s.all Char.isDigit then some (Nat.ofDigitChars 10 s 0) else none

theorem isDigit_pad {width n : Nat} {c : Char} (hc : c ∈ pad width n) : c.isDigit = true := by
  induction width generalizing n with
  | zero => cases hc
  | succ width ih =>
    obtain hc | hc := List.mem_append.mp hc
    · exact ih hc
    · rw [List.mem_singleton.mp hc, Nat.isDigit_digitChar]
      exact decide_eq_true (Nat.mod_lt n (by decide))

theorem ofDigitChars_pad {width n : Nat} : Nat.ofDigitChars 10 (pad width n) 0 = n % 10 ^ width := by
  induction width generalizing n with
  | zero => rw [pad, Nat.ofDigitChars_nil, pow_zero, Nat.mod_one]
  | succ width ih =>
    have hlast : n % 10 < 10 := Nat.mod_lt n (by decide)
    rw [pad, Nat.ofDigitChars_append, ih, Nat.ofDigitChars_cons_digitChar_of_lt_ten hlast,
      Nat.ofDigitChars_nil, pow_succ', Nat.mod_mul, Nat.add_comm]

theorem read_pad {width n : Nat} (h : n < 10 ^ width) : read (pad width n) = some n := by
  have hall : (pad width n).all Char.isDigit = true :=
    List.all_eq_true.mpr fun c hc => isDigit_pad hc
  rw [read, if_pos hall, ofDigitChars_pad, Nat.mod_eq_of_lt h]

/-- A moment is the microseconds since the first of year 1, in UTC. -/
def DAY : Nat := 86400000000

structure Clock where
  hour : Nat
  minute : Nat
  second : Nat
  microsecond : Nat
  deriving DecidableEq, Repr

def clock_of (rest : Nat) : Clock where
  hour := rest / 3600000000
  minute := rest / 60000000 % 60
  second := rest / 1000000 % 60
  microsecond := rest % 1000000

def Clock.rest (clock : Clock) : Nat :=
  ((clock.hour * 60 + clock.minute) * 60 + clock.second) * 1000000 + clock.microsecond

/-- `isoformat` of a moment in UTC. -/
def isoformat (moment : Nat) : List Char :=
  let date := date_of (moment / DAY)
  let clock := clock_of (moment % DAY)
  pad 4 date.year ++ '-' :: (pad 2 date.month ++ '-' :: (pad 2 date.day ++ 'T' ::
    (pad 2 clock.hour ++ ':' :: (pad 2 clock.minute ++ ':' :: (pad 2 clock.second ++
      ((if clock.microsecond = 0 then [] else '.' :: pad 6 clock.microsecond) ++
        "+00:00".toList))))))

/-- The microseconds behind the seconds. -/
def fraction : List Char → Option (Nat × List Char)
  | '.' :: s => (read (s.take 6)).map fun n => (n, s.drop 6)
  | s => some (0, s)

/-- The moment that such a text gives; `none` for any other text. -/
def parse : List Char → Option Nat
  | y₁ :: y₂ :: y₃ :: y₄ :: '-' :: m₁ :: m₂ :: '-' :: d₁ :: d₂ :: 'T' ::
      h₁ :: h₂ :: ':' :: n₁ :: n₂ :: ':' :: s₁ :: s₂ :: rest => do
    let year ← read [y₁, y₂, y₃, y₄]
    let month ← read [m₁, m₂]
    let day ← read [d₁, d₂]
    let hour ← read [h₁, h₂]
    let minute ← read [n₁, n₂]
    let second ← read [s₁, s₂]
    let (microsecond, zone) ← fraction rest
    let date : Date := ⟨year, month, day⟩
    let clock : Clock := ⟨hour, minute, second, microsecond⟩
    if zone = "+00:00".toList ∧ 1 ≤ year ∧ 1 ≤ month ∧ month ≤ 12 ∧ 1 ≤ day ∧
        day ≤ days_in_month year month ∧ hour < 24 ∧ minute < 60 ∧ second < 60 then
      some (date.number * DAY + clock.rest)
    else none
  | _ => none

theorem clock_of_spec {rest : Nat} (h : rest < DAY) :
    (clock_of rest).rest = rest ∧ (clock_of rest).hour < 24 ∧ (clock_of rest).minute < 60 ∧
      (clock_of rest).second < 60 ∧ (clock_of rest).microsecond < 1000000 := by
  unfold DAY at h
  unfold clock_of Clock.rest
  dsimp only
  omega

theorem exists_pad_two (n : Nat) : ∃ a b, pad 2 n = [a, b] :=
  ⟨_, _, rfl⟩

theorem fraction_pad {n : Nat} (h : n < 1000000) :
    fraction ((if n = 0 then [] else '.' :: pad 6 n) ++ "+00:00".toList) =
      some (n, "+00:00".toList) := by
  by_cases hzero : n = 0
  · rw [if_pos hzero, hzero]
    rfl
  · have hread : read (pad 6 n) = some n := read_pad h
    rw [if_neg hzero]
    change (read (pad 6 n)).map (fun n => (n, "+00:00".toList)) = some (n, "+00:00".toList)
    rw [hread]
    rfl

/-- Reading undoes writing, up to the last day of the calendar. -/
theorem parse_isoformat {moment : Nat} (h : moment < LAST_DAY * DAY) :
    parse (isoformat moment) = some moment := by
  obtain ⟨hvalid, hnumber⟩ := @date_of_spec (moment / DAY) (Nat.div_lt_of_lt_mul (by
    rwa [Nat.mul_comm] at h))
  obtain ⟨hrest, hhour, hminute, hsecond, hmicrosecond⟩ :=
    @clock_of_spec (moment % DAY) (Nat.mod_lt _ (by decide))
  have hmoment : moment / DAY * DAY + moment % DAY = moment := Nat.div_add_mod' moment DAY
  rw [isoformat]
  generalize date_of (moment / DAY) = date at *
  generalize clock_of (moment % DAY) = clock at *
  have hyear : read (pad 4 date.year) = some date.year :=
    read_pad (Nat.lt_succ_of_le hvalid.year_le)
  have hmonth : read (pad 2 date.month) = some date.month :=
    read_pad (Nat.lt_of_le_of_lt hvalid.month_le (by decide))
  have hday : read (pad 2 date.day) = some date.day :=
    read_pad (Nat.lt_of_le_of_lt hvalid.day_le
      (Nat.lt_of_le_of_lt (days_in_month_le hvalid.month_le) (by decide)))
  have hhours : read (pad 2 clock.hour) = some clock.hour := read_pad (Nat.lt_trans hhour (by decide))
  have hminutes : read (pad 2 clock.minute) = some clock.minute :=
    read_pad (Nat.lt_trans hminute (by decide))
  have hseconds : read (pad 2 clock.second) = some clock.second :=
    read_pad (Nat.lt_trans hsecond (by decide))
  have hfraction := fraction_pad hmicrosecond
  obtain ⟨y₁, y₂, y₃, y₄, hy⟩ : ∃ a b c d, pad 4 date.year = [a, b, c, d] := ⟨_, _, _, _, rfl⟩
  obtain ⟨m₁, m₂, hm⟩ := exists_pad_two date.month
  obtain ⟨d₁, d₂, hd⟩ := exists_pad_two date.day
  obtain ⟨h₁, h₂, hh⟩ := exists_pad_two clock.hour
  obtain ⟨n₁, n₂, hn⟩ := exists_pad_two clock.minute
  obtain ⟨s₁, s₂, hs⟩ := exists_pad_two clock.second
  rw [hy] at hyear
  rw [hm] at hmonth
  rw [hd] at hday
  rw [hh] at hhours
  rw [hn] at hminutes
  rw [hs] at hseconds
  have hchecks : True ∧ 1 ≤ date.year ∧ 1 ≤ date.month ∧
      date.month ≤ 12 ∧ 1 ≤ date.day ∧ date.day ≤ days_in_month date.year date.month ∧
      clock.hour < 24 ∧ clock.minute < 60 ∧ clock.second < 60 :=
    ⟨trivial, hvalid.year_pos, hvalid.month_pos, hvalid.month_le, hvalid.day_pos, hvalid.day_le, hhour,
      hminute, hsecond⟩
  rw [hy, hm, hd, hh, hn, hs]
  simp only [List.cons_append, List.nil_append, parse, hyear, hmonth, hday, hhours, hminutes,
    hseconds, hfraction, Option.bind_eq_bind, Option.bind_some]
  rw [if_pos hchecks]
  change some (date.number * DAY + clock.rest) = some moment
  rw [hnumber, hrest, hmoment]

end Texts

end foundation.calendar
