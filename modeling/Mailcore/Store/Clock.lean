import Mailcore.Text.FixedWidth
import Mathlib.Data.String.Basic

/-!
# Instants and their stored text

The `chrono` crate writes and reads every instant the program stores.  It is a
parameter here: the two functions the code calls, the range of instants they
agree on, and their documented laws.  The columns are text, so the store
compares what `write` produced and the planners compare what `read` returns.
-/

namespace Mailcore
namespace Store

/-- Instants in nanoseconds since the start of 1970 in UTC. -/
abbrev Instant := Int

def nanosPerSecond : Int := 1000000000

/-- The whole second an instant lies in. -/
def wholeSecond (time : Instant) : Int := time / nanosPerSecond

/-- A span of seconds. -/
def seconds (count : Int) : Int := count * nanosPerSecond

/-- The `chrono` functions the store relies on. -/
structure Chrono where
  /-- The instants of the years 0000 to 9999, which RFC 3339 can write. -/
  era : Instant → Prop
  /-- `to_rfc3339_opts(SecondsFormat::Secs, true)` of a UTC instant. -/
  write : Instant → String
  /-- `parse_from_rfc3339`, converted to UTC. -/
  read : String → Option Instant
  /-- `format("%a, %d %b %Y %H:%M:%S %z")` of a UTC instant. -/
  mailDate : Instant → String
  /-- `format("%a, %d %b %Y %H:%M UTC")` of a UTC instant. -/
  readerDate : Instant → String
  /-- Within the era the text order is the order of whole seconds. -/
  write_le_write : ∀ {first second}, era first → era second →
    (write first ≤ write second ↔ wholeSecond first ≤ wholeSecond second)
  /-- Within the era a written instant reads back to its whole second. -/
  read_write : ∀ {time}, era time →
    read (write time) = some (seconds (wholeSecond time))

theorem wholeSecond_mono {first second : Instant} (le : first ≤ second) :
    wholeSecond first ≤ wholeSecond second :=
  Int.ediv_le_ediv (by decide) le

@[simp] theorem wholeSecond_seconds (whole : Int) :
    wholeSecond (seconds whole) = whole :=
  Int.mul_ediv_cancel whole (by decide)

/-- A whole second has passed when the instant has reached it. -/
theorem seconds_le_iff {whole : Int} {time : Instant} :
    seconds whole ≤ time ↔ whole ≤ wholeSecond time := by
  unfold seconds wholeSecond
  rw [Int.le_ediv_iff_mul_le (by decide)]

namespace Chrono

variable (chrono : Chrono)

/-- The clock of the machine: an instant `write` is lawful on. -/
abbrev Clock := { time : Instant // chrono.era time }

/-- Let the clock advance to a later instant; it never goes back. -/
def advance (clock later : chrono.Clock) : chrono.Clock :=
  if clock.val ≤ later.val then later else clock

/-- `store::now`: the current instant as the columns store it. -/
def now (clock : chrono.Clock) : String := chrono.write clock

variable {chrono}

theorem le_advance (clock later : chrono.Clock) :
    clock.val ≤ (chrono.advance clock later).val := by
  unfold advance
  split
  · assumption
  · exact le_refl _

/-- What the clock wrote earlier never exceeds what it writes later. -/
theorem now_le_now {earlier later : chrono.Clock}
    (le : earlier.val ≤ later.val) :
    chrono.now earlier ≤ chrono.now later :=
  (chrono.write_le_write earlier.property later.property).mpr
    (wholeSecond_mono le)

end Chrono

/-! ## A concrete clock

January and February of 1970 suffice to run the program on concrete input. -/

namespace Winter

def secondsPerDay : Nat := 86400

/-- The days of January and February 1970. -/
def days : Nat := 59

/-- The seconds since the start of 1970, within the two months. -/
def secondOf (time : Instant) : Nat := (wholeSecond time).toNat

def monthOf (day : Nat) : Nat := if day < 31 then 1 else 2

def dayOfMonth (day : Nat) : Nat := if day < 31 then day + 1 else day - 30

/-- The digits of an instant, month first, each pair before its separator. -/
def stamp (second : Nat) : List Char :=
  let day := second / secondsPerDay
  digits (monthOf day) '-' (digits (dayOfMonth day) 'T'
    (digits (second / 3600 % 24) ':' (digits (second / 60 % 60) ':'
      (digits (second % 60) 'Z' []))))
where
  digits (value : Nat) (separator : Char) (rest : List Char) : List Char :=
    Text.digits 2 value ++ separator :: rest

/-- The text of an instant in January or February 1970. -/
def write (time : Instant) : String :=
  String.ofList (['1', '9', '7', '0', '-'] ++ stamp (secondOf time))

/-- The first of January 1970 was a Thursday. -/
def weekday (day : Nat) : String :=
  match day % 7 with
  | 0 => "Thu"
  | 1 => "Fri"
  | 2 => "Sat"
  | 3 => "Sun"
  | 4 => "Mon"
  | 5 => "Tue"
  | _ => "Wed"

/-- The date an instant of the two months has in a message. -/
def writtenDate (time : Instant) : String :=
  let day := secondOf time / secondsPerDay
  weekday day ++ ", " ++ String.ofList (Text.digits 2 (dayOfMonth day)) ++
    (if monthOf day = 1 then " Jan" else " Feb") ++ " 1970 " ++
    String.ofList (Text.digits 2 (secondOf time / 3600 % 24)) ++ ":" ++
    String.ofList (Text.digits 2 (secondOf time / 60 % 60))

def mailDate (time : Instant) : String :=
  writtenDate time ++ ":" ++
    String.ofList (Text.digits 2 (secondOf time % 60)) ++ " +0000"

/-- Read back the text of an instant in January or February 1970. -/
def read (text : String) : Option Instant :=
  match text.toList with
  | ['1', '9', '7', '0', '-', m₁, m₂, '-', d₁, d₂, 'T', h₁, h₂, ':', n₁, n₂,
      ':', s₁, s₂, 'Z'] => do
      let month ← Text.readDigits [m₁, m₂]
      let day ← Text.readDigits [d₁, d₂]
      let hour ← Text.readDigits [h₁, h₂]
      let minute ← Text.readDigits [n₁, n₂]
      let second ← Text.readDigits [s₁, s₂]
      if (month = 1 ∧ 1 ≤ day ∧ day ≤ 31 ∨ month = 2 ∧ 1 ≤ day ∧ day ≤ 28) ∧
          hour < 24 ∧ minute < 60 ∧ second < 60 then
        some (seconds ((((month - 1) * 31 + (day - 1)) * secondsPerDay +
          hour * 3600 + minute * 60 + second : Nat) : Int))
      else none
  | _ => none

/-- The instants of January and February 1970. -/
def era (time : Instant) : Prop :=
  0 ≤ time ∧ secondOf time < days * secondsPerDay

/-- Within the era nothing is lost in the number of seconds. -/
theorem secondOf_eq {time : Instant} (inEra : era time) :
    ((secondOf time : Nat) : Int) = wholeSecond time :=
  Int.toNat_of_nonneg (wholeSecond_mono inEra.1)

theorem stampDigits_lt_of_lt
    {first second : Nat}
    (less : first < second)
    (bound : second < 100)
    (separator : Char)
    (firstRest secondRest : List Char) :
    stamp.digits first separator firstRest <
      stamp.digits second separator secondRest := by
  unfold stamp.digits
  exact Text.append_lt_append (Text.digits_lt_digits less (by simpa using bound))
    (by simp) _ _

theorem stampDigits_lt_of_rest_lt
    {firstRest secondRest : List Char}
    (less : firstRest < secondRest)
    (value : Nat)
    (separator : Char) :
    stamp.digits value separator firstRest <
      stamp.digits value separator secondRest := by
  unfold stamp.digits
  apply List.append_left_lt
  exact List.cons_lt_cons_iff.mpr (Or.inr ⟨rfl, less⟩)

/-- Later seconds have later stamps: the first pair that differs is larger. -/
theorem stamp_lt_stamp
    {first second : Nat}
    (less : first < second)
    (bound : second < days * secondsPerDay) :
    stamp first < stamp second := by
  unfold days secondsPerDay at bound
  unfold stamp monthOf dayOfMonth secondsPerDay
  have dayLe : first / 86400 ≤ second / 86400 := by omega
  dsimp only
  by_cases month : first / 86400 < 31 ∧ 31 ≤ second / 86400
  · apply stampDigits_lt_of_lt <;> grind
  have sameMonth : (if first / 86400 < 31 then 1 else 2) =
      if second / 86400 < 31 then 1 else 2 := by grind
  rw [sameMonth]
  apply stampDigits_lt_of_rest_lt
  by_cases day : first / 86400 < second / 86400
  · apply stampDigits_lt_of_lt <;> grind
  have sameDay : first / 86400 = second / 86400 := by omega
  rw [sameDay]
  apply stampDigits_lt_of_rest_lt
  by_cases hour : first / 3600 % 24 < second / 3600 % 24
  · apply stampDigits_lt_of_lt <;> omega
  have sameHour : first / 3600 % 24 = second / 3600 % 24 := by omega
  rw [sameHour]
  apply stampDigits_lt_of_rest_lt
  by_cases minute : first / 60 % 60 < second / 60 % 60
  · apply stampDigits_lt_of_lt <;> omega
  have sameMinute : first / 60 % 60 = second / 60 % 60 := by omega
  rw [sameMinute]
  apply stampDigits_lt_of_rest_lt
  apply stampDigits_lt_of_lt <;> omega

theorem toList_write (time : Instant) :
    (write time).toList =
      ['1', '9', '7', '0', '-'] ++ stamp (secondOf time) :=
  String.toList_ofList

theorem write_lt_write
    {first second : Instant}
    (less : wholeSecond first < wholeSecond second)
    (firstEra : era first)
    (secondEra : era second) :
    write first < write second := by
  rw [← secondOf_eq firstEra, ← secondOf_eq secondEra] at less
  have secondLess : secondOf first < secondOf second := Int.ofNat_lt.mp less
  rw [String.lt_iff_toList_lt, toList_write, toList_write]
  apply List.append_left_lt
  exact stamp_lt_stamp secondLess secondEra.2

theorem write_le_write
    {first second : Instant}
    (firstEra : era first)
    (secondEra : era second) :
    write first ≤ write second ↔
      wholeSecond first ≤ wholeSecond second := by
  constructor
  · intro le
    by_contra later
    exact absurd (write_lt_write (not_le.mp later) secondEra firstEra)
      (not_lt.mpr le)
  · intro le
    rcases lt_or_eq_of_le le with less | same
    · exact le_of_lt (write_lt_write less firstEra secondEra)
    · apply le_of_eq
      unfold write secondOf
      rw [same]

theorem readDigits_pair (value : Nat) (bound : value < 100) :
    Text.readDigits
      [Nat.digitChar (value / 10 % 10), Nat.digitChar (value % 10)] =
      some value := by
  have readBack : Text.readDigits (Text.digits 2 value) = some value :=
    Text.readDigits_digits (by simpa using bound)
  exact readBack

theorem stamp_eq_digits (second : Nat) :
    stamp second =
      [Nat.digitChar (monthOf (second / secondsPerDay) / 10 % 10),
        Nat.digitChar (monthOf (second / secondsPerDay) % 10), '-',
        Nat.digitChar (dayOfMonth (second / secondsPerDay) / 10 % 10),
        Nat.digitChar (dayOfMonth (second / secondsPerDay) % 10), 'T',
        Nat.digitChar (second / 3600 % 24 / 10 % 10),
        Nat.digitChar (second / 3600 % 24 % 10), ':',
        Nat.digitChar (second / 60 % 60 / 10 % 10),
        Nat.digitChar (second / 60 % 60 % 10), ':',
        Nat.digitChar (second % 60 / 10 % 10),
        Nat.digitChar (second % 60 % 10), 'Z'] := rfl

/-- The fields of a stamp name the second it was made from. -/
theorem second_eq_of_fields
    {second : Nat}
    (bound : second < days * secondsPerDay) :
    ((monthOf (second / secondsPerDay) - 1) * 31 +
        (dayOfMonth (second / secondsPerDay) - 1)) * secondsPerDay +
      second / 3600 % 24 * 3600 + second / 60 % 60 * 60 + second % 60 =
        second := by
  unfold days secondsPerDay at bound
  unfold monthOf dayOfMonth secondsPerDay
  split <;> omega

theorem fields_valid
    {second : Nat}
    (bound : second < days * secondsPerDay) :
    let month := monthOf (second / secondsPerDay)
    let day := dayOfMonth (second / secondsPerDay)
    month = 1 ∧ 1 ≤ day ∧ day ≤ 31 ∨ month = 2 ∧ 1 ≤ day ∧ day ≤ 28 := by
  unfold days secondsPerDay at bound
  unfold monthOf dayOfMonth secondsPerDay
  split <;> omega

theorem read_write
    {time : Instant}
    (inEra : era time) :
    read (write time) = some (seconds (wholeSecond time)) := by
  have bound := inEra.2
  have valid := fields_valid bound
  dsimp only at valid
  have monthBound : monthOf (secondOf time / secondsPerDay) < 100 := by omega
  have dayBound : dayOfMonth (secondOf time / secondsPerDay) < 100 := by omega
  rw [read, toList_write, stamp_eq_digits]
  simp only [List.cons_append, List.nil_append]
  rw [readDigits_pair _ monthBound, readDigits_pair _ dayBound,
    readDigits_pair (secondOf time / 3600 % 24) (by omega),
    readDigits_pair (secondOf time / 60 % 60) (by omega),
    readDigits_pair (secondOf time % 60) (by omega)]
  simp only [Option.bind_eq_bind, Option.bind_some]
  rw [if_pos ⟨valid, by omega, by omega, by omega⟩,
    second_eq_of_fields bound, secondOf_eq inEra]

end Winter

/-- The clock of January and February 1970. -/
def winter : Chrono where
  era := Winter.era
  write := Winter.write
  read := Winter.read
  mailDate := Winter.mailDate
  readerDate time := Winter.writtenDate time ++ " UTC"
  write_le_write := Winter.write_le_write
  read_write := Winter.read_write

/-- The clock at a second of January or February 1970. -/
def winterAt
    (second : Nat)
    (bound : second < Winter.days * Winter.secondsPerDay := by decide) :
    winter.Clock :=
  ⟨seconds second, by
    refine ⟨Int.mul_nonneg (Int.natCast_nonneg _) (by decide), ?_⟩
    unfold Winter.secondOf
    rw [wholeSecond_seconds]
    exact bound⟩

theorem start_inWinter : 0 < Winter.days * Winter.secondsPerDay := by decide

theorem soon_inWinter : 10 < Winter.days * Winter.secondsPerDay := by decide

example : winter.write (seconds 3661) = "1970-01-01T01:01:01Z" := by decide

example : winter.mailDate (seconds 90061) =
    "Fri, 02 Jan 1970 01:01:01 +0000" := by decide

end Store
end Mailcore
