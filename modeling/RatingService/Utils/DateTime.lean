import Mathlib.Data.Int.Basic
import Mathlib.Tactic.Ring

/-!
# Dates

`utils/date_time.h`. A `chrono_t` is the number of nanoseconds since the
beginning of 1970, as `std::chrono::system_clock` has it; `std::chrono::floor`
rounds down, also before that.
-/

namespace RatingService

namespace DateTime

def seconds (n : ℤ) : ℤ := n * 10 ^ 9
def minutes (n : ℤ) : ℤ := seconds (60 * n)
def days (n : ℤ) : ℤ := seconds (24 * 3600 * n)
def weeks (n : ℤ) : ℤ := days (7 * n)

/-- `currentWeekStart`, at the reading `now`: weeks as `chrono` counts them
begin on Thursdays. -/
def currentWeekStart (now : ℤ) : ℤ :=
  weeks ((now - days 4) / weeks 1) + days 4

/-- `currentSecondIndex`, at the reading `now`. -/
def currentSecondIndex (now : ℤ) : ℕ :=
  (now / seconds 1 - now / minutes 1 * 60).toNat

/-- The weekday of a day since the beginning of 1970, which was a Thursday;
0 is Monday. -/
def weekday (day : ℤ) : ℤ := (day + 3) % 7

/-- Midnight, UTC, at the beginning of a Monday. -/
def MondayMidnight (t : ℤ) : Prop :=
  ∃ day, t = days day ∧ weekday day = 0

theorem currentWeekStart_monday (now : ℤ) :
    MondayMidnight (currentWeekStart now) := by
  refine ⟨7 * ((now - days 4) / weeks 1) + 4, ?_, ?_⟩
  · rw [currentWeekStart, weeks, days, days, days, seconds, seconds, seconds]
    ring
  · rw [weekday]
    omega

theorem currentWeekStart_le (now : ℤ) : currentWeekStart now ≤ now := by
  simp only [currentWeekStart, weeks, days, seconds]
  omega

theorem currentWeekStart_mono {now now' : ℤ} (h : now ≤ now') :
    currentWeekStart now ≤ currentWeekStart now' := by
  simp only [currentWeekStart, weeks, days, seconds]
  omega

/-- The beginning of 1970 is no Monday. -/
theorem MondayMidnight.ne_zero {t : ℤ} (h : MondayMidnight t) : t ≠ 0 := by
  obtain ⟨day, rfl, hday⟩ := h
  simp only [weekday, days, seconds] at hday ⊢
  omega

theorem MondayMidnight.le_currentWeekStart {t now : ℤ} (h : MondayMidnight t)
    (hle : t ≤ now) : t ≤ currentWeekStart now := by
  obtain ⟨day, rfl, hday⟩ := h
  simp only [weekday, currentWeekStart, weeks, days, seconds] at hday hle ⊢
  omega

theorem currentSecondIndex_lt (now : ℤ) : currentSecondIndex now < 60 := by
  simp only [currentSecondIndex, minutes, seconds]
  omega

end DateTime

end RatingService
