import Mathlib.Data.List.Lex
import Mathlib.Tactic.Ring
import Mathlib.Tactic.SplitIfs

/-!
# Dates and times

UTC times of years 0 to 9999 without leap seconds, to the nanosecond. The fields, the most
significant first, are ordered as the instants they name (`instant_lt_of_key`), and the same time
some days earlier is found on the calendar (`subDays`).
-/

namespace OrionMesh

/-! ## Dates -/

def isLeapYear (year : ℕ) : Bool := year % 4 = 0 && (year % 100 ≠ 0 || year % 400 = 0)

def daysInMonth (year month : ℕ) : ℕ :=
  if month = 2 then (if isLeapYear year then 29 else 28)
  else if month = 4 ∨ month = 6 ∨ month = 9 ∨ month = 11 then 30
  else 31

/-- The days of a year before a month, the months counted from 1. -/
def daysBeforeMonth (year : ℕ) : ℕ → ℕ
  | 0 => 0
  | month + 1 => daysBeforeMonth year month + if month = 0 then 0 else daysInMonth year month

def daysInYear (year : ℕ) : ℕ := daysBeforeMonth year 13

def daysBeforeYear : ℕ → ℕ
  | 0 => 0
  | year + 1 => daysBeforeYear year + daysInYear year

structure DateTime where
  year : ℕ
  month : ℕ
  day : ℕ
  hour : ℕ
  minute : ℕ
  second : ℕ
  nanos : ℕ
  year_lt : year < 10000
  month_mem : 1 ≤ month ∧ month ≤ 12
  day_mem : 1 ≤ day ∧ day ≤ daysInMonth year month
  hour_lt : hour < 24
  minute_lt : minute < 60
  second_lt : second < 60
  nanos_lt : nanos < 10 ^ 9
  deriving DecidableEq

namespace DateTime

/-- The days since the first one of the year 0. -/
def dayNumber (t : DateTime) : ℕ :=
  daysBeforeYear t.year + (daysBeforeMonth t.year t.month + (t.day - 1))

/-- The nanoseconds since the start of the year 0. -/
def instant (t : DateTime) : ℕ :=
  (((t.dayNumber * 24 + t.hour) * 60 + t.minute) * 60 + t.second) * 10 ^ 9 + t.nanos

def nanosPerDay : ℕ := 24 * 60 * 60 * 10 ^ 9

instance : LT DateTime := ⟨fun s t => s.instant < t.instant⟩

theorem lt_iff {s t : DateTime} : s < t ↔ s.instant < t.instant := Iff.rfl

instance : DecidableLT DateTime := fun s t => inferInstanceAs (Decidable (s.instant < t.instant))

end DateTime

/-! ## The order of the fields -/

theorem daysBeforeYear_mono {a b : ℕ} (h : a ≤ b) : daysBeforeYear a ≤ daysBeforeYear b := by
  induction h with
  | refl => exact le_rfl
  | step _ ih =>
    rw [daysBeforeYear]
    omega

theorem daysBeforeMonth_mono {year a b : ℕ} (h : a ≤ b) :
    daysBeforeMonth year a ≤ daysBeforeMonth year b := by
  induction h with
  | refl => exact le_rfl
  | step _ ih =>
    rw [daysBeforeMonth]
    omega

theorem daysBeforeMonth_succ {year month : ℕ} (h : 1 ≤ month) :
    daysBeforeMonth year (month + 1) = daysBeforeMonth year month + daysInMonth year month := by
  rw [daysBeforeMonth, if_neg (by omega)]

/-- A more significant field decides, whatever the others. -/
theorem mul_add_lt {B n m x y : ℕ} (hx : x < B) (h : n < m ∨ n = m ∧ x < y) :
    n * B + x < m * B + y := by
  rcases h with h | ⟨rfl, h⟩
  · calc n * B + x < n * B + B := by omega
      _ = (n + 1) * B := by ring
      _ ≤ m * B := Nat.mul_le_mul_right B h
      _ ≤ m * B + y := Nat.le_add_right _ _
  · omega

theorem mul_add_lex {B n m x y : ℕ} {P : Prop} (hx : x < B)
    (h : n < m ∨ n = m ∧ (x < y ∨ x = y ∧ P)) :
    n * B + x < m * B + y ∨ n * B + x = m * B + y ∧ P := by
  rcases h with h | ⟨hn, h | ⟨hxy, hP⟩⟩
  · exact .inl (mul_add_lt hx (.inl h))
  · exact .inl (mul_add_lt hx (.inr ⟨hn, h⟩))
  · exact .inr ⟨by rw [hn, hxy], hP⟩

namespace DateTime

/-- The fields, the most significant first. -/
def key (t : DateTime) : List ℕ :=
  [t.year, t.month, t.day, t.hour, t.minute, t.second, t.nanos]

variable {s t : DateTime}

theorem key_injective : Function.Injective key := by
  intro s t h
  cases s
  cases t
  simp only [key, List.cons.injEq, and_true] at h
  simpa using h

theorem dayOfYear_lt (t : DateTime) :
    daysBeforeMonth t.year t.month + (t.day - 1) < daysInYear t.year := by
  have hmonth : daysBeforeMonth t.year (t.month + 1) ≤ daysInYear t.year :=
    daysBeforeMonth_mono (by have := t.month_mem; omega)
  rw [daysBeforeMonth_succ t.month_mem.1] at hmonth
  have hday := t.day_mem
  omega

theorem dayNumber_lt (h : s.year < t.year ∨ s.year = t.year ∧ (s.month < t.month ∨
    s.month = t.month ∧ s.day < t.day)) : s.dayNumber < t.dayNumber := by
  have hs := s.day_mem
  unfold dayNumber
  rcases h with h | ⟨hyear, h | ⟨hmonth, h⟩⟩
  · have hmono := daysBeforeYear_mono (Nat.succ_le_of_lt h)
    have hlt := s.dayOfYear_lt
    rw [Nat.succ_eq_add_one, daysBeforeYear] at hmono
    omega
  · have hmono := @daysBeforeMonth_mono s.year _ _ (Nat.succ_le_of_lt h)
    rw [Nat.succ_eq_add_one, daysBeforeMonth_succ s.month_mem.1] at hmono
    rw [← hyear]
    omega
  · rw [← hyear, ← hmonth]
    omega

theorem dayNumber_congr (hyear : s.year = t.year) (hmonth : s.month = t.month)
    (hday : s.day = t.day) : s.dayNumber = t.dayNumber := by
  rw [dayNumber, dayNumber, hyear, hmonth, hday]

/-- Later fields are a later instant. -/
theorem instant_lt_of_key (h : s.key < t.key) : s.instant < t.instant := by
  simp only [key, List.cons_lt_cons_iff, List.not_lt_nil, and_false, or_false] at h
  refine mul_add_lt s.nanos_lt (mul_add_lex s.second_lt (mul_add_lex s.minute_lt
    (mul_add_lex s.hour_lt ?_)))
  rcases h with h | ⟨hyear, h | ⟨hmonth, h | ⟨hday, h⟩⟩⟩
  · exact .inl (dayNumber_lt (.inl h))
  · exact .inl (dayNumber_lt (.inr ⟨hyear, .inl h⟩))
  · exact .inl (dayNumber_lt (.inr ⟨hyear, .inr ⟨hmonth, h⟩⟩))
  · exact .inr ⟨dayNumber_congr hyear hmonth hday, h⟩

/-! ## Days earlier -/

theorem daysInMonth_pos (year month : ℕ) : 1 ≤ daysInMonth year month := by
  unfold daysInMonth
  split_ifs <;> omega

/-- The same time of the day before; there is none before the year 0. -/
def prevDay (t : DateTime) : Option DateTime :=
  if hday : 2 ≤ t.day then
    some { t with
      day := t.day - 1
      day_mem := by
        have := t.day_mem
        omega }
  else if hmonth : 2 ≤ t.month then
    some { t with
      month := t.month - 1
      day := daysInMonth t.year (t.month - 1)
      month_mem := by
        have := t.month_mem
        omega
      day_mem := ⟨daysInMonth_pos _ _, le_rfl⟩ }
  else if hyear : 1 ≤ t.year then
    some { t with
      year := t.year - 1
      month := 12
      day := 31
      year_lt := by
        have := t.year_lt
        omega
      month_mem := by decide
      day_mem := ⟨by decide, le_rfl⟩ }
  else none

/-- The same time some days before. -/
def subDays (t : DateTime) : ℕ → Option DateTime
  | 0 => some t
  | days + 1 => t.prevDay.bind fun u => u.subDays days

theorem dayNumber_prevDay (h : t.prevDay = some s) : s.dayNumber + 1 = t.dayNumber := by
  have hday := t.day_mem
  have hmonth := t.month_mem
  unfold prevDay at h
  split_ifs at h with hd hm hy <;> cases h <;> unfold dayNumber <;> dsimp only
  · omega
  · have hstep := @daysBeforeMonth_succ t.year (t.month - 1) (by omega)
    have hpos := daysInMonth_pos t.year (t.month - 1)
    rw [Nat.sub_add_cancel hmonth.1] at hstep
    omega
  · have hone : t.month = 1 := by omega
    have hstep : daysBeforeYear t.year = daysBeforeYear (t.year - 1) + daysInYear (t.year - 1) := by
      conv_lhs => rw [← Nat.sub_add_cancel hy, daysBeforeYear]
    have hlast : daysInYear (t.year - 1) = daysBeforeMonth (t.year - 1) 12 + 31 :=
      daysBeforeMonth_succ (by decide)
    have hfirst : daysBeforeMonth t.year 1 = 0 := rfl
    rw [hone, hfirst]
    omega

theorem prevDay_time (h : t.prevDay = some s) : s.hour = t.hour ∧ s.minute = t.minute ∧
    s.second = t.second ∧ s.nanos = t.nanos := by
  unfold prevDay at h
  split_ifs at h <;> cases h <;> exact ⟨rfl, rfl, rfl, rfl⟩

theorem instant_prevDay (h : t.prevDay = some s) : s.instant + nanosPerDay = t.instant := by
  have hday := dayNumber_prevDay h
  obtain ⟨hhour, hminute, hsecond, hnanos⟩ := prevDay_time h
  rw [instant, instant, ← hday, hhour, hminute, hsecond, hnanos, nanosPerDay]
  omega

theorem prevDay_eq_none (h : t.prevDay = none) : t.dayNumber = 0 := by
  have hday := t.day_mem
  have hmonth := t.month_mem
  unfold prevDay at h
  split_ifs at h with hd hm hy
  have hone : t.month = 1 := by omega
  have hzero : t.year = 0 := by omega
  rw [dayNumber, hone, hzero]
  change 0 + (0 + (t.day - 1)) = 0
  omega

theorem instant_subDays : ∀ {days : ℕ} {s t : DateTime}, t.subDays days = some s →
    s.instant + days * nanosPerDay = t.instant
  | 0, s, t, h => by
    cases h
    omega
  | days + 1, s, t, h => by
    obtain ⟨u, hu, hs⟩ := Option.bind_eq_some_iff.1 h
    have hlast := instant_subDays hs
    have hfirst := instant_prevDay hu
    rw [Nat.succ_mul]
    omega

theorem instant_lt_of_dayNumber (t : DateTime) :
    t.instant < (t.dayNumber + 1) * nanosPerDay := by
  have hhour := t.hour_lt
  have hminute := t.minute_lt
  have hsecond := t.second_lt
  have hnanos := t.nanos_lt
  unfold instant nanosPerDay
  omega

/-- There is no time in the years 0 to 9999 that many days before. -/
theorem instant_lt_of_subDays : ∀ {days : ℕ} {t : DateTime}, t.subDays days = none →
    t.instant < days * nanosPerDay
  | 0, t, h => by cases h
  | days + 1, t, h => by
    have hnone := Option.bind_eq_none_iff.1 h
    rcases hp : t.prevDay with _ | u
    · have hzero := prevDay_eq_none hp
      have hlt := t.instant_lt_of_dayNumber
      rw [hzero] at hlt
      rw [Nat.succ_mul]
      omega
    · have hlt := instant_lt_of_subDays (hnone u hp)
      have hfirst := instant_prevDay hp
      rw [Nat.succ_mul]
      omega

end DateTime

end OrionMesh
