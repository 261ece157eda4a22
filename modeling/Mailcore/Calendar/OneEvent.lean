import Mailcore.Calendar.Reading

/-!
# One event on a card

Texts that agree in the calendar's method, its time zones and the own properties of
the first event, whatever else they hold, show the same card.  The code keeps to this
where the first event has a property of its own and no event is nested in it.
-/

namespace Mailcore
namespace Calendar

open Html (trim)
open Content (ContentLine)

/-- What a card may depend on. -/
structure Key where
  method : Option (List Char)
  zones : List Body
  own : List ContentLine

/-- The calendar agrees with the key, with `e` for its first event. -/
structure Agrees (key : Key) (root e : Body) : Prop where
  method : root.method = key.method
  zones : root.zones = key.zones
  first : root.firstEvent = some e
  own : e.own = key.own

/-- The text is a calendar of the key within the limits; unless `nestable` is set, no
event is nested in its first one. -/
def Shows (key : Key) (nestable : Bool) (icsData : List Char) : Prop :=
  ∃ root e, IsCalendar icsData root ∧ Within icsData root ∧ Agrees key root e ∧
    (nestable = false → "VEVENT".toList ∉ e.names)

/-- The texts of the key show one event only. -/
def OneEvent (chrono : Chrono) (key : Key) (nestable : Bool) : Prop :=
  ∀ left right, Shows key nestable left → Shows key nestable right →
    parseIcs chrono left = parseIcs chrono right

variable {chrono : Chrono}

/-! ## One event -/

theorem card_congr {p q : Progress chrono} (method : p.calendarMethod = q.calendarMethod)
    (zones : p.zones = q.zones) (event : p.event = q.event) : p.card = q.card := by
  rw [Progress.card, Progress.card, method, zones, event]

theorem calendarMethod_progress {root : Body} (single : "VCALENDAR".toList ∉ root.names) :
    (root.progress chrono).calendarMethod = root.method :=
  calendarMethod_run root single none _

theorem zones_progress (root : Body) :
    (root.progress chrono).zones = root.zones.foldl (readZone chrono) [] :=
  (zones_run root _ none (.start chrono) rfl).2

theorem event_progress {root e : Body} (first : root.firstEvent = some e)
    (plain : "VEVENT".toList ∉ e.names) (nonempty : e.own ≠ []) :
    (root.progress chrono).event = e.own.foldl Event.read (.empty chrono) := by
  obtain ⟨around, q, same, read⟩ := run_firstEvent root first
    (by decide : some "VCALENDAR".toList ≠ some "VEVENT".toList) none (.start chrono)
  have own := readsOwn_run e plain around q same.done_
  have seen : (e.run (some "VEVENT".toList) around q).eventSeen = true := by
    rw [own.seen, List.isEmpty_eq_false_iff.mpr nonempty, Bool.not_false, Bool.or_true]
  exact (read seen).event.trans (own.event.trans (by rw [same.event]; rfl))

theorem oneEvent_of_plain (key : Key) (nonempty : key.own ≠ []) : OneEvent chrono key false := by
  rintro left right ⟨root, e, calendar, within_, agrees, plain⟩
    ⟨root', e', calendar', within', agrees', plain'⟩
  rw [parseIcs, parseIcs, parse_calendar calendar within_, parse_calendar calendar' within']
  refine congrArg _ (card_congr ?_ ?_ ?_)
  · rw [calendarMethod_progress calendar.single, calendarMethod_progress calendar'.single,
      agrees.method, agrees'.method]
  · rw [zones_progress, zones_progress, agrees.zones, agrees'.zones]
  · rw [event_progress agrees.first (plain rfl) (by rw [agrees.own]; exact nonempty),
      event_progress agrees'.first (plain' rfl) (by rw [agrees'.own]; exact nonempty),
      agrees.own, agrees'.own]

/-! ## Another event -/

namespace Body

def append : Body → Body → Body
  | done, back => back
  | line own_ rest, back => line own_ (rest.append back)
  | component comp inner rest, back => component comp inner (rest.append back)

/-- With something put at the end of the first event. -/
def intoFirst : Body → Body → Body
  | done, _ => done
  | line own_ rest, extra => line own_ (rest.intoFirst extra)
  | component comp inner rest, extra =>
      if comp = "VEVENT".toList then component comp (inner.append extra) rest
      else if inner.firstEvent.isSome then component comp (inner.intoFirst extra) rest
      else component comp inner (rest.intoFirst extra)

variable (b extra : Body)

theorem run_append (top parent : Option (List Char)) (p : Progress chrono) :
    (b.append extra).run top parent p = extra.run top parent (b.run top parent p) := by
  induction b generalizing p with
  | done => rfl
  | line own_ rest inductionHypothesis => exact inductionHypothesis _
  | component comp inner rest _ restHypothesis => exact restHypothesis _

theorem own_append : (b.append extra).own = b.own ++ extra.own := by
  induction b with
  | done => rfl
  | line own_ rest inductionHypothesis => exact congrArg (own_ :: ·) inductionHypothesis
  | component comp inner rest _ restHypothesis => exact restHypothesis

theorem methodFrom_append (before : Option (List Char)) :
    (b.append extra).methodFrom before = extra.methodFrom (b.methodFrom before) := by
  induction b generalizing before with
  | done => rfl
  | line own_ rest inductionHypothesis => exact inductionHypothesis _
  | component comp inner rest _ restHypothesis => exact restHypothesis _

theorem zones_append : (b.append extra).zones = b.zones ++ extra.zones := by
  induction b with
  | done => rfl
  | line own_ rest inductionHypothesis => exact inductionHypothesis
  | component comp inner rest _ restHypothesis =>
      rw [append, zones, zones, restHypothesis, List.append_assoc]

theorem firstEvent_append : (b.append extra).firstEvent = b.firstEvent.or extra.firstEvent := by
  induction b with
  | done => rfl
  | line own_ rest inductionHypothesis => exact inductionHypothesis
  | component comp inner rest _ restHypothesis =>
      rw [append, firstEvent, firstEvent, restHypothesis, ← Option.or_assoc]
      split_ifs <;> rfl

theorem methodFrom_intoFirst (before : Option (List Char)) :
    (b.intoFirst extra).methodFrom before = b.methodFrom before := by
  induction b generalizing before with
  | done => rfl
  | line own_ rest inductionHypothesis => exact inductionHypothesis _
  | component comp inner rest _ restHypothesis =>
      rw [intoFirst]
      split_ifs
      · rfl
      · rfl
      · exact restHypothesis before

theorem firstEvent_intoFirst :
    (b.intoFirst extra).firstEvent = b.firstEvent.map fun e => e.append extra := by
  induction b with
  | done => rfl
  | line own_ rest inductionHypothesis => exact inductionHypothesis
  | component comp inner rest innerHypothesis restHypothesis =>
      rw [intoFirst, firstEvent]
      split_ifs with event within_
      · rw [firstEvent, if_pos event]
        rfl
      · obtain ⟨e, first⟩ := Option.isSome_iff_exists.mp within_
        rw [firstEvent, if_neg event, innerHypothesis, first]
        rfl
      · rw [Option.not_isSome_iff_eq_none] at within_
        rw [firstEvent, if_neg event, restHypothesis, within_]
        rfl

/-- The time zones stay as they are where the first event is in none of them. -/
theorem zones_intoFirst (noZones : extra.zones = [])
    (outside : ∀ zone ∈ b.zones, "VEVENT".toList ∉ zone.names) :
    (b.intoFirst extra).zones = b.zones := by
  induction b with
  | done => rfl
  | line own_ rest inductionHypothesis => exact inductionHypothesis outside
  | component comp inner rest innerHypothesis restHypothesis =>
      rw [zones] at outside
      have behind := fun zone member => outside zone (List.mem_append_right _ member)
      rw [intoFirst]
      split_ifs with event within_
      · rw [zones, zones, zones_append, noZones, List.append_nil, event]
        rfl
      · obtain ⟨e, first⟩ := Option.isSome_iff_exists.mp within_
        by_cases isZone : comp = "VTIMEZONE".toList
        · -- The first event would be in a time zone.
          rw [if_pos isZone] at outside
          exact absurd (mem_names_of_firstEvent first)
            (outside inner (List.mem_append_left _ (List.mem_singleton_self inner)))
        · rw [if_neg isZone] at outside
          rw [zones, zones, if_neg isZone, if_neg isZone, innerHypothesis fun zone member =>
            outside zone (List.mem_append_left _ member)]
      · rw [zones, zones, restHypothesis behind]

end Body

/-- A day that is read as one. -/
def dtstart : ContentLine :=
  ⟨"DTSTART".toList, [], "20240101".toList⟩

def summaryLine (summary : List Char) : ContentLine :=
  ⟨"SUMMARY".toList, [], summary⟩

/-- An event of one day with a summary. -/
def otherEvent (summary : List Char) : Body :=
  .component "VEVENT".toList (.line dtstart (.line (summaryLine summary) .done)) .done

theorem run_otherEvent (summary : List Char) (top parent : Option (List Char))
    (p : Progress chrono) (open_ : p.eventDone = false) :
    ((otherEvent summary).run top parent p).eventSeen = true ∧
      ((otherEvent summary).run top parent p).event =
        (p.event.read dtstart).read (summaryLine summary) := by
  have opened := sameEvent_open p "VEVENT".toList
  have stillOpen := opened.done_.trans open_
  rw [otherEvent, Body.run, Body.run, Body.run, Body.run, property_event _ top dtstart stillOpen,
    property_event _ top (summaryLine summary), Body.run, close_event, opened.event, if_pos rfl]
  · exact ⟨rfl, rfl⟩
  · exact stillOpen

/-- A card with another summary is another card. -/
theorem card_otherEvent (reads : (chrono.parseDate "20240101".toList).isSome)
    (event : Event chrono) (summary : List Char) {p : Progress chrono}
    (read : p.event = (event.read dtstart).read (summaryLine summary)) :
    ∃ parsed, p.card = some parsed ∧
      parsed.event.summary =
        ((some (trim (Content.unescapeText summary))).filter (· ≠ [])).getD "(Event)".toList := by
  obtain ⟨day, isDay⟩ := Option.isSome_iff_exists.mp reads
  have parsedDay : readTime dtstart = some (⟨.date day, none⟩ : RawTime chrono) := by
    have plain : (ParsedTime.parse dtstart.value (dtstart.param "VALUE") :
        Option (ParsedTime chrono)) = (chrono.parseDate "20240101".toList).map .date := rfl
    rw [readTime, plain, isDay]
    rfl
  have start : p.event.dtstart = some ⟨.date day, none⟩ := by
    rw [read]
    exact parsedDay
  have title : p.event.summary = some (Content.unescapeText summary) := by
    rw [read]
    rfl
  rw [Progress.card, start, title]
  exact ⟨_, rfl, rfl⟩

/-- There is a text of the calendar within the limits. -/
def HasText (root : Body) : Prop :=
  ∃ icsData, IsCalendar icsData root ∧ Within icsData root

/-- The key leaves room for another event: some calendar of the key has no other event
yet, and one more fits into a text within the limits, behind the others and in the first
one. -/
structure Room (chrono : Chrono) (key : Key) : Prop where
  reads : (chrono.parseDate "20240101".toList).isSome
  fits : ∃ root e, Agrees key root e ∧ "VEVENT".toList ∉ e.names ∧
    root.names.count "VEVENT".toList = 1 ∧
    (∀ zone ∈ root.zones, "VEVENT".toList ∉ zone.names) ∧
    ∀ summary ∈ [['A'], ['B']], HasText (root.append (otherEvent summary)) ∧
      HasText (root.intoFirst (otherEvent summary))

theorem agrees_append {key : Key} {root e : Body} (agrees : Agrees key root e)
    (summary : List Char) : Agrees key (root.append (otherEvent summary)) e where
  method := (Body.methodFrom_append root _ none).trans agrees.method
  zones := (Body.zones_append root _).trans ((List.append_nil _).trans agrees.zones)
  first := by rw [Body.firstEvent_append, agrees.first]; rfl
  own := agrees.own

theorem agrees_intoFirst {key : Key} {root e : Body} (agrees : Agrees key root e)
    (outside : ∀ zone ∈ root.zones, "VEVENT".toList ∉ zone.names) (summary : List Char) :
    Agrees key (root.intoFirst (otherEvent summary)) (e.append (otherEvent summary)) where
  method := (Body.methodFrom_intoFirst root _ none).trans agrees.method
  zones := (Body.zones_intoFirst root _ rfl outside).trans agrees.zones
  first := by rw [Body.firstEvent_intoFirst, agrees.first]; rfl
  own := (Body.own_append e _).trans ((List.append_nil _).trans agrees.own)

/-- Two texts that show two other events show two cards. -/
theorem not_oneEvent {key : Key} {nestable : Bool}
    (reads : (chrono.parseDate "20240101".toList).isSome) (event : Event chrono)
    (shows : ∀ summary ∈ [['A'], ['B']], ∃ icsData root, Shows key nestable icsData ∧
      IsCalendar icsData root ∧ Within icsData root ∧
      (root.progress chrono).event = (event.read dtstart).read (summaryLine summary)) :
    ¬OneEvent chrono key nestable := by
  have card : ∀ summary ∈ [['A'], ['B']], ∃ icsData, Shows key nestable icsData ∧
      ∃ card, parseIcs chrono icsData = some card ∧ card.summary = summary := by
    intro summary member
    obtain ⟨icsData, root, shown, calendar, within_, read⟩ := shows summary member
    obtain ⟨parsed, isCard, title⟩ := card_otherEvent reads event summary read
    refine ⟨icsData, shown, parsed.event, ?_, title.trans ?_⟩
    · rw [parseIcs, parse_calendar calendar within_, isCard]
      rfl
    · rcases List.mem_pair.mp member with rfl | rfl <;> rfl
  intro one
  obtain ⟨left, showsLeft, a, isA, titleA⟩ := card ['A'] (by simp)
  obtain ⟨right, showsRight, b, isB, titleB⟩ := card ['B'] (by simp)
  have same := one left right showsLeft showsRight
  rw [isA, isB, Option.some.injEq] at same
  rw [same, titleB] at titleA
  exact absurd titleA (by decide)

/-- Without own properties the first event is passed over. -/
theorem own_ne_nil_of_oneEvent {key : Key} {nestable : Bool} (room : Room chrono key)
    (one : OneEvent chrono key nestable) : key.own ≠ [] := by
  intro empty
  obtain ⟨root, e, agrees, plain, single, -, fits⟩ := room.fits
  refine not_oneEvent room.reads (.empty chrono) (fun summary member => ?_) one
  obtain ⟨⟨icsData, calendar, within_⟩, -⟩ := fits summary member
  refine ⟨icsData, _, ⟨_, e, calendar, within_, agrees_append agrees summary, fun _ => plain⟩,
    calendar, within_, ?_⟩
  have before := sameEvent_of_empty root agrees.first plain (agrees.own.trans empty) single
    (by decide : some "VCALENDAR".toList ≠ some "VEVENT".toList) none (.start chrono) rfl rfl
  rw [Body.progress, Body.run_append, (run_otherEvent summary _ none _ before.done_).2,
    before.event]
  rfl

/-- An event nested in the first one is read as if it were the first. -/
theorem nestable_of_oneEvent {key : Key} {nestable : Bool} (room : Room chrono key)
    (one : OneEvent chrono key nestable) : nestable = false := by
  cases nestable with
  | false => rfl
  | true =>
      obtain ⟨root, e, agrees, plain, -, outside, fits⟩ := room.fits
      refine absurd one (not_oneEvent room.reads (e.own.foldl Event.read (.empty chrono))
        fun summary member => ?_)
      obtain ⟨-, icsData, calendar, within_⟩ := fits summary member
      have here := agrees_intoFirst agrees outside summary
      refine ⟨icsData, _, ⟨_, _, calendar, within_, here, fun no => nomatch no⟩, calendar,
        within_, ?_⟩
      obtain ⟨around, q, same, read⟩ := run_firstEvent _ here.first
        (by decide : some "VCALENDAR".toList ≠ some "VEVENT".toList) none (.start chrono)
      have own := readsOwn_run e plain around q same.done_
      rw [Body.run_append] at read
      obtain ⟨seen, event⟩ := run_otherEvent summary (some "VEVENT".toList) around _ own.done_
      refine (read seen).event.trans (event.trans ?_)
      rw [own.event, same.event]
      rfl

/-- Where the first event has a property of its own and none is nested in it, a card
shows this event only.  Elsewhere another event can be shown, wherever the limits leave
room for one. -/
theorem oneEvent_iff (chrono : Chrono) (key : Key) (nestable : Bool) :
    (key.own ≠ [] ∧ nestable = false → OneEvent chrono key nestable) ∧
      (Room chrono key → OneEvent chrono key nestable → key.own ≠ [] ∧ nestable = false) := by
  constructor
  · rintro ⟨nonempty, rfl⟩
    exact oneEvent_of_plain key nonempty
  · exact fun room one => ⟨own_ne_nil_of_oneEvent room one, nestable_of_oneEvent room one⟩

namespace Sample

/-- A number of decimal digits. -/
def digits (text : List Char) : Option Nat :=
  if text.all Char.isDigit then Text.readNumeral 10 text else none

/-- Year, month and day. -/
def readDay (text : List Char) : Option (Nat × Nat × Nat) := do
  if text.length ≠ 8 then none
  else
    let year ← digits (text.take 4)
    let month ← digits ((text.drop 4).take 2)
    let day ← digits (text.drop 6)
    if 1 ≤ month ∧ month ≤ 12 ∧ 1 ≤ day ∧ day ≤ 31 then some (year, month, day) else none

/-- The day of the week, from Monday on. -/
def dayOfWeek : Nat × Nat × Nat → Nat
  | (year, month, day) =>
      let year := if month < 3 then year - 1 else year
      let offset := [0, 3, 2, 5, 0, 3, 5, 1, 4, 6, 2, 4][month - 1]?.getD 0
      (year + year / 4 - year / 100 + year / 400 + offset + day + 6) % 7

/-- Days in the order of the calendar. -/
def dayNumber : Nat × Nat × Nat → Nat
  | (year, month, day) => (year * 100 + month) * 100 + day

/-- Days without times. -/
def days : Chrono where
  NaiveDate := Nat × Nat × Nat
  NaiveDateTime := Nat × Nat × Nat
  parseDate := readDay
  parseDateTime _ := none
  checkedSubOffset _ _ := none
  addDate _ _ := none
  addDateTime _ _ := none
  toLocal := id
  dateOf := id
  hourMinute _ := "00:00".toList
  predOpt _ := none
  same left right := left = right
  after left right := dayNumber right < dayNumber left
  year day := day.1
  month0 day := day.2.1 - 1
  day day := day.2.2
  weekday := dayOfWeek

/-- A text of lines. -/
def text (lines : List String) : List Char :=
  lines.flatMap fun line => line.toList ++ ['\n']

def property (name value : String) : ContentLine :=
  ⟨name.toList, [], value.toList⟩

/-- An event with the properties, and what is nested in it. -/
def event (own : List ContentLine) (nested : Body) : Body → Body :=
  .component "VEVENT".toList (own.foldr .line nested)

def plan : List ContentLine :=
  [property "SUMMARY" "Plan", property "DTSTART" "20240101"]

def planKey : Key :=
  ⟨some "REQUEST".toList, [], plan⟩

def planned : List Char :=
  text ["BEGIN:VCALENDAR", "METHOD:REQUEST", "BEGIN:VEVENT", "SUMMARY:Plan", "DTSTART:20240101",
    "END:VEVENT", "END:VCALENDAR"]

def plannedBody : Body :=
  .line (property "METHOD" "REQUEST") (event plan .done .done)

/-- With an alarm in the event and another event behind it. -/
def alarmed : List Char :=
  text ["BEGIN:VCALENDAR", "METHOD:REQUEST", "BEGIN:VEVENT", "SUMMARY:Plan", "DTSTART:20240101",
    "BEGIN:VALARM", "SUMMARY:Ring", "END:VALARM", "END:VEVENT", "BEGIN:VEVENT", "SUMMARY:Other",
    "END:VEVENT", "END:VCALENDAR"]

def alarmedBody : Body :=
  .line (property "METHOD" "REQUEST")
    (event plan (.component "VALARM".toList (.line (property "SUMMARY" "Ring") .done) .done)
      (event [property "SUMMARY" "Other"] .done .done))

theorem shows_planned : Shows planKey false planned :=
  ⟨plannedBody, plan.foldr .line .done, ⟨by decide +kernel, by decide +kernel⟩,
    by decide +kernel, ⟨by decide +kernel, rfl, rfl, rfl⟩, fun _ => by decide +kernel⟩

theorem shows_alarmed : Shows planKey false alarmed :=
  ⟨alarmedBody, _, ⟨by decide +kernel, by decide +kernel⟩,
    by decide +kernel, ⟨by decide +kernel, rfl, rfl, rfl⟩, fun _ => by decide +kernel⟩

theorem sameCard_alarmed : parseIcs days planned = parseIcs days alarmed :=
  (oneEvent_iff days planKey false).1 ⟨by decide, rfl⟩ planned alarmed shows_planned
    shows_alarmed

/-- The first event has nothing but an alarm. -/
def blankKey : Key :=
  ⟨some "REQUEST".toList, [], []⟩

def alarm : Body :=
  .component "VALARM".toList (.line (property "SUMMARY" "Ring") .done) .done

def blank : List Char :=
  text ["BEGIN:VCALENDAR", "METHOD:REQUEST", "BEGIN:VEVENT", "BEGIN:VALARM", "SUMMARY:Ring",
    "END:VALARM", "END:VEVENT", "END:VCALENDAR"]

def blankBehind : List Char :=
  text ["BEGIN:VCALENDAR", "METHOD:REQUEST", "BEGIN:VEVENT", "BEGIN:VALARM", "SUMMARY:Ring",
    "END:VALARM", "END:VEVENT", "BEGIN:VEVENT", "SUMMARY:Plan", "DTSTART:20240101", "END:VEVENT",
    "END:VCALENDAR"]

/-- An event stands in the event. -/
def nestedPlan : List Char :=
  text ["BEGIN:VCALENDAR", "METHOD:REQUEST", "BEGIN:VEVENT", "SUMMARY:Plan", "DTSTART:20240101",
    "BEGIN:VEVENT", "SUMMARY:Other", "END:VEVENT", "END:VEVENT", "END:VCALENDAR"]

theorem shows_blank : Shows blankKey false blank :=
  ⟨.line (property "METHOD" "REQUEST") (event [] alarm .done), alarm,
    ⟨by decide +kernel, by decide +kernel⟩, by decide +kernel,
    ⟨by decide +kernel, rfl, rfl, rfl⟩, fun _ => by decide +kernel⟩

theorem shows_blankBehind : Shows blankKey false blankBehind :=
  ⟨.line (property "METHOD" "REQUEST") (event [] alarm (event plan .done .done)), alarm,
    ⟨by decide +kernel, by decide +kernel⟩, by decide +kernel,
    ⟨by decide +kernel, rfl, rfl, rfl⟩, fun _ => by decide +kernel⟩

theorem shows_nestedPlan : Shows planKey true nestedPlan :=
  ⟨.line (property "METHOD" "REQUEST")
      (event plan (event [property "SUMMARY" "Other"] .done .done) .done), _,
    ⟨by decide +kernel, by decide +kernel⟩, by decide +kernel,
    ⟨by decide +kernel, rfl, rfl, rfl⟩, fun no => nomatch no⟩

theorem shows_planned_nestable : Shows planKey true planned := by
  obtain ⟨root, e, calendar, within_, agrees, -⟩ := shows_planned
  exact ⟨root, e, calendar, within_, agrees, fun no => nomatch no⟩

/-- Behind a first event without properties another event is shown, and an event in the
event is shown in its place. -/
theorem not_oneEvent_blank :
    (Shows blankKey false blank ∧ Shows blankKey false blankBehind ∧
        parseIcs days blank ≠ parseIcs days blankBehind) ∧
      Shows planKey true planned ∧ Shows planKey true nestedPlan ∧
        parseIcs days planned ≠ parseIcs days nestedPlan :=
  ⟨⟨shows_blank, shows_blankBehind, by decide +kernel⟩, shows_planned_nestable, shows_nestedPlan,
    by decide +kernel⟩

end Sample

end Calendar
end Mailcore
