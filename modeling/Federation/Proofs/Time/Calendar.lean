import Mathlib.Algebra.GroupWithZero.Nat
import Federation.Time.Timestamp

/-!
# The calendar, day by day

A `Date` is a day that the calendar has.  Its number counts the days of the years, of the months and
of the month before it, from the first day of 1970 on; the next day has the next number, across the
ends of months, of years and of leap years.

* `Timestamp.Date.number_next`       the next day has the next number;
* `Timestamp.Date.exists_number`     every number from the year 0 on is that of a day;
* `Timestamp.Date.number_injective`  and of one only;
* `Timestamp.dayNumber_eq`           a timestamp has the number of its date.
-/

namespace Federation.Timestamp

theorem monthLength_pos (year month : Nat) : 28 ≤ monthLength year month := by
  unfold monthLength
  split
  · split <;> omega
  · omega
  · omega
  · omega
  · omega
  · omega

theorem monthLength_le (year month : Nat) : monthLength year month ≤ 31 := by
  unfold monthLength
  split
  · split <;> omega
  · omega
  · omega
  · omega
  · omega
  · omega

structure Date where
  year : Nat
  month : Nat
  day : Nat
  one_le_month : 1 ≤ month
  month_le : month ≤ 12
  one_le_day : 1 ≤ day
  day_le : day ≤ monthLength year month

def yearLength (year : Nat) : Nat := if isLeap year then 366 else 365

/-- the days of all years before `year` -/
def yearsBefore (year : Nat) : Nat := ((List.range year).map yearLength).sum

def monthsBefore (year month : Nat) : Nat :=
  ((List.range' 1 (month - 1)).map (monthLength year)).sum

namespace Date

theorem ext_iff' {d e : Date} :
    d = e ↔ d.year = e.year ∧ d.month = e.month ∧ d.day = e.day := by
  constructor
  · rintro rfl
    exact ⟨rfl, rfl, rfl⟩
  · obtain ⟨_, _, _, _, _, _, _⟩ := d
    obtain ⟨_, _, _, _, _, _, _⟩ := e
    rintro ⟨hy, hm, hd⟩
    cases hy
    cases hm
    cases hd
    rfl

def firstOf (year month : Nat) (h : 1 ≤ month) (h' : month ≤ 12) : Date :=
  ⟨year, month, 1, h, h', Nat.le_refl 1,
    Nat.le_trans (by decide) (monthLength_pos year month)⟩

def next (d : Date) : Date :=
  if h : d.day < monthLength d.year d.month then
    ⟨d.year, d.month, d.day + 1, d.one_le_month, d.month_le, by omega, h⟩
  else if h : d.month < 12 then firstOf d.year (d.month + 1) (by omega) h
  else firstOf (d.year + 1) 1 (by decide) (by decide)

/-- the number of a day, counted from the first day of 1970 -/
def number (d : Date) : Int :=
  (yearsBefore d.year + monthsBefore d.year d.month + (d.day - 1) : Nat) - (yearsBefore 1970 : Int)

def origin : Date := firstOf 0 1 (by decide) (by decide)

/-! ## one day after another -/

theorem yearsBefore_succ (year : Nat) :
    yearsBefore (year + 1) = yearsBefore year + yearLength year := by
  simp [yearsBefore, List.range_succ]

theorem monthsBefore_one (year : Nat) : monthsBefore year 1 = 0 := rfl

theorem monthsBefore_succ (year : Nat) {month : Nat} (h : 1 ≤ month) :
    monthsBefore year (month + 1) = monthsBefore year month + monthLength year month := by
  obtain ⟨m, rfl⟩ : ∃ m, month = m + 1 := ⟨month - 1, by omega⟩
  have hone : 1 + m = m + 1 := Nat.add_comm 1 m
  simp [monthsBefore, List.range'_concat, hone]

theorem monthsBefore_last (year : Nat) :
    monthsBefore year 12 + monthLength year 12 = yearLength year := by
  simp only [monthsBefore, yearLength, List.range', List.map_cons, List.map_nil, List.sum_cons,
    List.sum_nil, monthLength]
  cases isLeap year with
  | true => rfl
  | false => rfl

variable {d e : Date}

theorem next_of_lt (h : d.day < monthLength d.year d.month) :
    d.next.year = d.year ∧ d.next.month = d.month ∧ d.next.day = d.day + 1 := by
  rw [next, dif_pos h]
  exact ⟨rfl, rfl, rfl⟩

theorem next_of_last (h : d.day = monthLength d.year d.month) (hm : d.month < 12) :
    d.next.year = d.year ∧ d.next.month = d.month + 1 ∧ d.next.day = 1 := by
  rw [next, dif_neg (by omega), dif_pos hm]
  exact ⟨rfl, rfl, rfl⟩

theorem next_of_year (h : d.day = monthLength d.year d.month) (hm : d.month = 12) :
    d.next.year = d.year + 1 ∧ d.next.month = 1 ∧ d.next.day = 1 := by
  rw [next, dif_neg (by omega), dif_neg (by omega)]
  exact ⟨rfl, rfl, rfl⟩

theorem number_next (d : Date) : d.next.number = d.number + 1 := by
  have hone := d.one_le_day
  have hmonth := d.one_le_month
  rw [number, number]
  by_cases h : d.day < monthLength d.year d.month
  · obtain ⟨hy, hm, hd⟩ := next_of_lt h
    rw [hy, hm, hd]
    omega
  have hlast : d.day = monthLength d.year d.month := Nat.le_antisymm d.day_le (by omega)
  by_cases h' : d.month < 12
  · obtain ⟨hy, hm, hd⟩ := next_of_last hlast h'
    rw [hy, hm, hd, monthsBefore_succ _ hmonth]
    omega
  · have hdec : d.month = 12 := Nat.le_antisymm d.month_le (by omega)
    obtain ⟨hy, hm, hd⟩ := next_of_year hlast hdec
    rw [hy, hm, hd, yearsBefore_succ, monthsBefore_one, ← monthsBefore_last, hlast, hdec]
    have := monthLength_pos d.year 12
    omega

theorem next_day_eq_one_iff (d : Date) :
    d.next.day = 1 ↔ d.day = monthLength d.year d.month := by
  have hone := d.one_le_day
  have hle := d.day_le
  constructor
  · intro h
    rcases Nat.lt_or_ge d.day (monthLength d.year d.month) with hlt | hge
    · have hday := (next_of_lt hlt).2.2
      omega
    · omega
  · intro h
    by_cases hm : d.month < 12
    · exact (next_of_last h hm).2.2
    · exact (next_of_year h (Nat.le_antisymm d.month_le (by omega))).2.2

theorem exists_previous (h : d ≠ origin) : ∃ e : Date, e.next = d := by
  obtain ⟨year, month, day, hm, hm', hd, hd'⟩ := d
  by_cases h1 : day = 1
  · subst h1
    by_cases h2 : month = 1
    · subst h2
      cases year with
      | zero => exact absurd rfl h
      | succ year =>
        refine ⟨⟨year, 12, 31, by decide, by decide, by decide, Nat.le_refl 31⟩, ?_⟩
        rw [ext_iff']
        exact next_of_year rfl rfl
    · have hpos := monthLength_pos year (month - 1)
      refine ⟨⟨year, month - 1, monthLength year (month - 1), by omega, by omega, by omega,
        Nat.le_refl _⟩, ?_⟩
      have hnext := next_of_last (d := ⟨year, month - 1, monthLength year (month - 1), by omega,
        by omega, by omega, Nat.le_refl _⟩) rfl (show month - 1 < 12 by omega)
      rw [ext_iff']
      refine ⟨hnext.1, hnext.2.1.trans ?_, hnext.2.2⟩
      show month - 1 + 1 = month
      omega
  · refine ⟨⟨year, month, day - 1, hm, hm', by omega, by omega⟩, ?_⟩
    have hnext := next_of_lt (d := ⟨year, month, day - 1, hm, hm', by omega, by omega⟩)
      (show day - 1 < monthLength year month by omega)
    rw [ext_iff']
    refine ⟨hnext.1, hnext.2.1, hnext.2.2.trans ?_⟩
    show day - 1 + 1 = day
    omega

/-- the day that comes `n` days after the first -/
def nth : Nat → Date
  | 0 => origin
  | n + 1 => (nth n).next

theorem number_nth (n : Nat) : (nth n).number = n - (yearsBefore 1970 : Int) := by
  induction n with
  | zero => rfl
  | succ n ih =>
    rw [nth, number_next, ih]
    omega

theorem exists_nth (d : Date) : ∃ n, nth n = d := by
  have hall : ∀ (k : Nat) (d : Date), d.number = k - (yearsBefore 1970 : Int) → ∃ n, nth n = d := by
    intro k
    induction k with
    | zero =>
      intro d hd
      by_cases h : d = origin
      · exact ⟨0, h.symm⟩
      · obtain ⟨e, rfl⟩ := exists_previous h
        rw [number_next, number] at hd
        omega
    | succ k ih =>
      intro d hd
      by_cases h : d = origin
      · exact ⟨0, h.symm⟩
      · obtain ⟨e, rfl⟩ := exists_previous h
        obtain ⟨n, rfl⟩ := ih e (by rw [number_next] at hd; omega)
        exact ⟨n + 1, rfl⟩
  exact hall _ d rfl

theorem number_injective (h : d.number = e.number) : d = e := by
  obtain ⟨m, rfl⟩ := exists_nth d
  obtain ⟨n, rfl⟩ := exists_nth e
  rw [number_nth, number_nth] at h
  obtain rfl : m = n := by omega
  rfl

/-- every number from the year 0 on is that of a day -/
theorem exists_number {n : Int} (h : -(yearsBefore 1970 : Int) ≤ n) : ∃ d : Date, d.number = n := by
  refine ⟨nth (n + yearsBefore 1970).toNat, ?_⟩
  rw [number_nth]
  omega

end Date

/-! ## the number of a timestamp -/

/-- one for the multiples of `k` -/
def oneIn (k n : Nat) : Nat := if n % k = 0 then 1 else 0

theorem multiples_succ (n : Nat) {k : Nat} (hk : 0 < k) :
    (n + 1 + (k - 1)) / k = (n + (k - 1)) / k + oneIn k n := by
  have hstep : n + 1 + (k - 1) = n + k := by omega
  have hsplit : n + (k - 1) = k * (n / k) + (n % k + (k - 1)) := by
    rw [← Nat.add_assoc, Nat.div_add_mod]
  have hlt := Nat.mod_lt n hk
  rw [hstep, hsplit, Nat.add_div_right n hk, Nat.mul_add_div hk, oneIn]
  by_cases h : n % k = 0
  · have hlast : (n % k + (k - 1)) / k = 0 := Nat.div_eq_of_lt (by omega)
    rw [hlast, if_pos h]
  · have hlast : (n % k + (k - 1)) / k = 1 := by
      rw [Nat.div_eq_iff hk]
      omega
    rw [hlast, if_neg h]

theorem yearLength_eq (year : Nat) :
    yearLength year + oneIn 100 year = 365 + oneIn 4 year + oneIn 400 year := by
  rw [yearLength]
  simp only [isLeap, oneIn, Bool.and_eq_true, Bool.or_eq_true, decide_eq_true_eq]
  split <;> split <;> split <;> split <;> omega

theorem daysBeforeYear_eq (year : Nat) : daysBeforeYear year = yearsBefore year := by
  induction year with
  | zero => rfl
  | succ year ih =>
    have h4 : (year + 1 + 3) / 4 = (year + 3) / 4 + oneIn 4 year :=
      multiples_succ year (Nat.succ_pos _)
    have h100 : (year + 1 + 99) / 100 = (year + 99) / 100 + oneIn 100 year :=
      multiples_succ year (Nat.succ_pos _)
    have h400 : (year + 1 + 399) / 400 = (year + 399) / 400 + oneIn 400 year :=
      multiples_succ year (Nat.succ_pos _)
    have hyear := yearLength_eq year
    have hle : (year + 99) / 100 ≤ 365 * year := by omega
    rw [Date.yearsBefore_succ, ← ih, daysBeforeYear, daysBeforeYear, h4, h100, h400]
    omega

theorem daysBeforeMonth_eq (year month : Nat) :
    daysBeforeMonth year month = monthsBefore year month := by
  induction month with
  | zero => rfl
  | succ month ih =>
    cases month with
    | zero => rfl
    | succ month =>
      rw [daysBeforeMonth, ih, Date.monthsBefore_succ year (Nat.le_add_left 1 month)]
      exact fun h => absurd h (Nat.succ_ne_zero month)

theorem epochDay_eq : epochDay = yearsBefore 1970 := by
  rw [← daysBeforeYear_eq]
  rfl

/-- a timestamp has the number of its date -/
theorem dayNumber_eq (t : Timestamp) (d : Date) (hy : t.year = d.year) (hm : t.month = d.month)
    (hd : t.day = d.day) : t.dayNumber = d.number := by
  rw [dayNumber, daysBeforeYear_eq, daysBeforeMonth_eq, epochDay_eq, hy, hm, hd, Date.number]

end Federation.Timestamp
