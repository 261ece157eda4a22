import Mailcore.Outbox.Queue

/-!
# Send times compared as text

A scheduled send is stored as the text of its instant, and `promote_due`
compares that text with the text of the clock.  The two orders agree as long as
the instant lies in a year of four digits: a date that its offset carries over
the end of 9999 is written with a sign, which sorts before every digit.
-/

namespace Mailcore
namespace Store
namespace Chrono

/-- How the crate writes the years of the era and those after it. -/
structure Signed (chrono : Chrono) : Prop where
  /-- A year of the era is written with four digits. -/
  digit : ∀ {time}, chrono.era time →
    ∃ first rest, (chrono.write time).toList = first :: rest ∧ '0' ≤ first
  /-- A later year is written with a sign. -/
  plus : ∀ {earlier time}, chrono.era earlier → earlier ≤ time →
    ¬chrono.era time → ∃ rest, (chrono.write time).toList = '+' :: rest
  /-- The years of the era begin with whole seconds. -/
  whole : ∀ {time}, chrono.era time → chrono.era (seconds (wholeSecond time))

variable {chrono : Chrono} {earlier time : Instant}

/-- An instant after the era is written before every instant of it. -/
theorem Signed.write_lt_write (signed : chrono.Signed)
    (inEra : chrono.era earlier) (later : earlier ≤ time)
    (beyond : ¬chrono.era time) (now : chrono.Clock) :
    chrono.write time < chrono.now now := by
  obtain ⟨rest, sign⟩ := signed.plus inEra later beyond
  obtain ⟨first, others, text, digit⟩ := signed.digit now.property
  unfold Chrono.now
  rw [String.lt_iff_toList_lt, sign, text]
  have below : '+' < '0' := by decide
  exact List.cons_lt_cons_iff.mpr (.inl (lt_of_lt_of_le below digit))

end Chrono
end Store

namespace Outbox

open Store Relational

variable {chrono : Chrono} {raw stored : String} {time : Instant}

/-- The stored text stands for the instant, to the second. -/
structure SendTimeTells (chrono : Chrono) (stored : String) (time : Instant) :
    Prop where
  /-- It compares with what the clock writes as the instants do. -/
  notAfter : ∀ now : chrono.Clock, stored ≤ chrono.now now ↔
    wholeSecond time ≤ wholeSecond now.val
  notBefore : ∀ now : chrono.Clock, chrono.now now ≤ stored ↔
    wholeSecond now.val ≤ wholeSecond time
  /-- A row that is scheduled for it is promoted when its second has come, and
  waits until then. -/
  promotes : ∀ (now : chrono.Clock) (table : SendQueue) (row : SendRow),
    table.find? row.id = some row → row.status = .scheduled →
    row.hasBytes → row.sendAt = some stored →
    ∃ after, (Queue.promoteDue chrono now row.accountId table).find? row.id =
        some after ∧
      (after.status = .queued ↔ seconds (wholeSecond time) ≤ now.val)

/-- `promote_due` goes by the order of the texts. -/
theorem find?_promoteDue {now : chrono.Clock} {table : SendQueue}
    {row : SendRow} (found : table.find? row.id = some row)
    (waits : row.status = .scheduled) (bytes : row.hasBytes)
    (scheduled : row.sendAt = some stored) :
    ∃ after, (Queue.promoteDue chrono now row.accountId table).find? row.id =
        some after ∧ (after.status = .queued ↔ stored ≤ chrono.now now) := by
  have due : Queue.promotable row.accountId (chrono.now now) row ↔
      stored ≤ chrono.now now := by
    simp [Queue.promotable, waits, bytes, scheduled]
  unfold Queue.promoteDue
  by_cases come : Queue.promotable row.accountId (chrono.now now) row
  · refine ⟨_, Table.find?_update_matched _ found come, ?_⟩
    simp [Queue.promoted, due.mp come]
  · refine ⟨row, ?_, ?_⟩
    · rw [Table.find?_update, found, Option.map_some, if_neg come]
    · rw [waits, ← due]
      simp [come]

/-- What is accepted lies after the clock. -/
theorem accepted_of_normalize {clock : chrono.Clock}
    (accepted : Queue.normalizeFutureSendAt chrono clock raw = .ok stored)
    (read : chrono.read (trim raw) = some time) :
    stored = chrono.write time ∧
      clock.val + seconds Queue.scheduleLeadSecs < time := by
  unfold Queue.normalizeFutureSendAt at accepted
  rw [read] at accepted
  dsimp only at accepted
  split at accepted
  · cases accepted
  · next late => exact ⟨(Except.ok.inj accepted).symm, Int.not_le.mp late⟩

/-- A text below every text of the clock passes for a time that has come. -/
theorem era_of_notAfter {clock : chrono.Clock} (signed : chrono.Signed)
    (late : clock.val < time)
    (waits : ¬chrono.write time ≤ chrono.now clock) : chrono.era time := by
  by_contra beyond
  exact waits (le_of_lt (signed.write_lt_write clock.property
    (Int.le_of_lt late) beyond clock))

/-- Within the era the stored text stands for the instant. -/
theorem sendTimeTells_of_era (inEra : chrono.era time) :
    SendTimeTells chrono (chrono.write time) time where
  notAfter now := chrono.write_le_write inEra now.property
  notBefore now := chrono.write_le_write now.property inEra
  promotes now table row found waits bytes scheduled := by
    obtain ⟨after, reached, status⟩ :=
      @find?_promoteDue _ _ now _ _ found waits bytes scheduled
    refine ⟨after, reached, status.trans ?_⟩
    exact (chrono.write_le_write inEra now.property).trans seconds_le_iff.symm

namespace Sample

/-- The last second of 9999, an offset of almost a day behind UTC. -/
def lastSecond : String := "9999-12-31T23:59:59-23:59"

/-- It is 23:58:59 of the first day of the year 10000 in UTC. -/
def tenThousand : Instant := seconds 253402387139

instance (time : Instant) : Decidable (Winter.era time) :=
  inferInstanceAs (Decidable (_ ∧ _))

theorem winter_write_ne (time : Instant) : Winter.write time ≠ lastSecond := by
  intro same
  have texts := congrArg String.toList same
  rw [Winter.toList_write] at texts
  have first := congrArg List.head? texts
  rw [List.cons_append, List.head?_cons] at first
  exact absurd first (by decide)

/-- A clock that also reads and writes that second. -/
def wide : Chrono where
  era := Winter.era
  write time :=
    if Winter.era time then Winter.write time else "+10000-01-01T23:58:59Z"
  read text := if text = lastSecond then some tenThousand else Winter.read text
  mailDate := Winter.mailDate
  readerDate := winter.readerDate
  write_le_write firstEra secondEra := by
    rw [if_pos firstEra, if_pos secondEra]
    exact Winter.write_le_write firstEra secondEra
  read_write inEra := by
    rw [if_pos inEra, if_neg (winter_write_ne _)]
    exact Winter.read_write inEra

instance (time : Instant) : Decidable (wide.era time) :=
  inferInstanceAs (Decidable (Winter.era time))

theorem wide_write_of_era {time : Instant} (inEra : wide.era time) :
    wide.write time = Winter.write time := if_pos inEra

theorem wide_write_of_not_era {time : Instant} (beyond : ¬wide.era time) :
    wide.write time = "+10000-01-01T23:58:59Z" := if_neg beyond

theorem wide_signed : wide.Signed where
  digit := by
    intro time inEra
    rw [wide_write_of_era inEra, Winter.toList_write]
    exact ⟨'1', _, rfl, by decide⟩
  plus := by
    intro _ time _ _ beyond
    rw [wide_write_of_not_era beyond]
    exact ⟨"10000-01-01T23:58:59Z".toList, by decide⟩
  whole := by
    intro time inEra
    refine ⟨?_, ?_⟩
    · exact Int.mul_nonneg (wholeSecond_mono inEra.1) (by decide)
    · unfold Winter.secondOf
      rw [wholeSecond_seconds]
      exact inEra.2

def wideAt : wide.Clock := ⟨seconds 0, by decide⟩

end Sample

end Outbox
end Mailcore
