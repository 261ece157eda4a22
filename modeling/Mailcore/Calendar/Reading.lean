import Mailcore.Calendar.Components

/-!
# What is read of a calendar

A card is made of the calendar's method, the time zones and the event.  Each of them
is read of one part of the tree: the calendar's own `METHOD`, the outermost
`VTIMEZONE`s in their order, and the own properties of the first `VEVENT`.
-/

namespace Mailcore
namespace Calendar

open Html (trim)
open Content (ContentLine)

variable {chrono : Chrono}

namespace Body

/-- The own properties. -/
def own : Body → List ContentLine
  | done => []
  | line own_ rest => own_ :: rest.own
  | component _ _ rest => rest.own

/-- The last `METHOD` of the own properties, or one that was read before them. -/
def methodFrom : Body → Option (List Char) → Option (List Char)
  | done, before => before
  | line own_ rest, before =>
      rest.methodFrom (if own_.name = "METHOD".toList then some (trim own_.value) else before)
  | component _ _ rest, before => rest.methodFrom before

def method (b : Body) : Option (List Char) :=
  b.methodFrom none

/-- The bodies of the outermost `VTIMEZONE`s. -/
def zones : Body → List Body
  | done => []
  | line _ rest => rest.zones
  | component comp inner rest =>
      (if comp = "VTIMEZONE".toList then [inner] else inner.zones) ++ rest.zones

/-- The body of the first `VEVENT`. -/
def firstEvent : Body → Option Body
  | done => none
  | line _ rest => rest.firstEvent
  | component comp inner rest =>
      if comp = "VEVENT".toList then some inner else inner.firstEvent.or rest.firstEvent

end Body

/-! ## The method -/

@[simp] theorem calendarMethod_open (p : Progress chrono) (comp : List Char) :
    (p.open_ comp).calendarMethod = p.calendarMethod := by
  rw [Progress.open_]
  split_ifs <;> rfl

@[simp] theorem calendarMethod_close (p : Progress chrono) (comp : List Char) :
    (p.close comp).calendarMethod = p.calendarMethod := by
  unfold Progress.close
  split_ifs
  · split
    · split <;> rfl
    · rfl
  · rfl
  · rfl

theorem calendarMethod_property (p : Progress chrono) (top parent : Option (List Char))
    (cl : ContentLine) :
    (p.property top parent cl).calendarMethod =
      if top = some "VCALENDAR".toList ∧ cl.name = "METHOD".toList then some (trim cl.value)
      else p.calendarMethod := by
  unfold Progress.property
  split_ifs <;> rfl

/-- Below another component no method of the calendar is read. -/
theorem calendarMethod_below (b : Body) {comp : List Char} (other : comp ≠ "VCALENDAR".toList)
    (inside : "VCALENDAR".toList ∉ b.names) (parent : Option (List Char)) (p : Progress chrono) :
    (b.run (some comp) parent p).calendarMethod = p.calendarMethod := by
  induction b generalizing comp parent p with
  | done => rfl
  | line own rest inductionHypothesis =>
      rw [Body.run, inductionHypothesis other inside, calendarMethod_property, if_neg]
      rintro ⟨same, -⟩
      exact other (Option.some.inj same)
  | component inner_ inner rest innerHypothesis restHypothesis =>
      rw [Body.names, List.mem_cons, List.mem_append, not_or, not_or] at inside
      rw [Body.run, restHypothesis other inside.2.2, calendarMethod_close,
        innerHypothesis (Ne.symm inside.1) inside.2.1, calendarMethod_open]

/-- Of a calendar its own `METHOD` is read. -/
theorem calendarMethod_run (b : Body) (inside : "VCALENDAR".toList ∉ b.names)
    (parent : Option (List Char)) (p : Progress chrono) :
    (b.run (some "VCALENDAR".toList) parent p).calendarMethod =
      b.methodFrom p.calendarMethod := by
  induction b generalizing p with
  | done => rfl
  | line own rest inductionHypothesis =>
      rw [Body.run, inductionHypothesis inside, calendarMethod_property, Body.methodFrom]
      simp only [true_and]
  | component comp inner rest _ restHypothesis =>
      rw [Body.names, List.mem_cons, List.mem_append, not_or, not_or] at inside
      rw [Body.run, restHypothesis inside.2.2, calendarMethod_close,
        calendarMethod_below inner (Ne.symm inside.1) inside.2.1, calendarMethod_open,
        Body.methodFrom]

/-! ## The time zones -/

/-- What a property is to the zone that is being read. -/
def zoneProperty (top parent : Option (List Char)) (cl : ContentLine)
    (zone : Option ZoneBuilder) : Option ZoneBuilder :=
  if top = some "VTIMEZONE".toList ∧ cl.name = "TZID".toList then
    zone.map fun z => { z with tzid := some (trim cl.value) }
  else if (top = some "STANDARD".toList ∨ top = some "DAYLIGHT".toList) ∧
      cl.name = "TZOFFSETTO".toList ∧ parent = some "VTIMEZONE".toList then
    zone.map fun z => { z with offsets := z.offsets ++ [parseUtcOffset cl.value] }
  else zone

/-- A zone that is read to its end. -/
def withZoneRead (zone : Option ZoneBuilder) (zones : Zones) : Zones :=
  match zone with
  | some z =>
      match z.tzid, z.fixedOffset with
      | some id, some off => (id, off) :: zones
      | _, _ => zones
  | none => zones

theorem zone_property (p : Progress chrono) (top parent : Option (List Char)) (cl : ContentLine) :
    (p.property top parent cl).zone = zoneProperty top parent cl p.zone := by
  unfold Progress.property zoneProperty
  by_cases calendar : top = some "VCALENDAR".toList ∧ cl.name = "METHOD".toList
  · have notZone : ¬(top = some "VTIMEZONE".toList ∧ cl.name = "TZID".toList) := by
      rw [calendar.1]
      exact fun zone => absurd zone.1 (by decide)
    have notPart : ¬((top = some "STANDARD".toList ∨ top = some "DAYLIGHT".toList) ∧
        cl.name = "TZOFFSETTO".toList ∧ parent = some "VTIMEZONE".toList) := by
      rw [calendar.1]
      exact fun part => absurd part.1 (by decide)
    rw [if_pos calendar, if_neg notZone, if_neg notPart]
  · rw [if_neg calendar]
    split_ifs <;> rfl

theorem zones_property (p : Progress chrono) (top parent : Option (List Char)) (cl : ContentLine) :
    (p.property top parent cl).zones = p.zones := by
  unfold Progress.property
  split_ifs <;> rfl

theorem zone_close (p : Progress chrono) (comp : List Char) :
    (p.close comp).zone = if comp = "VTIMEZONE".toList then none else p.zone := by
  unfold Progress.close
  split_ifs
  · cases zone : p.zone with
    | none => exact zone
    | some z =>
        dsimp only
        split <;> rfl
  · rfl
  · rfl

theorem zones_close (p : Progress chrono) (comp : List Char) :
    (p.close comp).zones =
      if comp = "VTIMEZONE".toList then withZoneRead p.zone p.zones else p.zones := by
  unfold Progress.close
  split_ifs
  · cases p.zone with
    | none => rfl
    | some z =>
        dsimp only [withZoneRead]
        cases z.tzid <;> cases z.fixedOffset <;> rfl
  · rfl
  · rfl

theorem zone_open (p : Progress chrono) (comp : List Char) :
    (p.open_ comp).zone = if comp = "VTIMEZONE".toList then some .empty else p.zone := by
  unfold Progress.open_
  split_ifs <;> rfl

theorem zones_open (p : Progress chrono) (comp : List Char) :
    (p.open_ comp).zones = p.zones := by
  unfold Progress.open_
  split_ifs <;> rfl

/-- Where no zone is being read, a property begins none. -/
theorem zoneProperty_none (top parent : Option (List Char)) (cl : ContentLine) :
    zoneProperty top parent cl none = none := by
  unfold zoneProperty
  split_ifs <;> rfl

/-- In a `VTIMEZONE` it is no matter what stands around. -/
theorem zoneProperty_around (parent parent' : Option (List Char)) (cl : ContentLine)
    (zone : Option ZoneBuilder) :
    zoneProperty (some "VTIMEZONE".toList) parent cl zone =
      zoneProperty (some "VTIMEZONE".toList) parent' cl zone := by
  unfold zoneProperty
  have notPart : ∀ around : Option (List Char),
      ¬((some "VTIMEZONE".toList = some "STANDARD".toList ∨
        some "VTIMEZONE".toList = some "DAYLIGHT".toList) ∧
          cl.name = "TZOFFSETTO".toList ∧ around = some "VTIMEZONE".toList) :=
    fun _ part => absurd part.1 (by decide)
  rw [if_neg (notPart parent), if_neg (notPart parent')]

/-- The zone that is being read, and the zones that are. -/
structure SameZones (p q : Progress chrono) : Prop where
  zone : p.zone = q.zone
  zones : p.zones = q.zones

section Zones

variable {p q : Progress chrono}

theorem SameZones.open_ (same : SameZones p q) (comp : List Char) :
    SameZones (p.open_ comp) (q.open_ comp) where
  zone := by rw [zone_open, zone_open, same.zone]
  zones := by rw [zones_open, zones_open, same.zones]

theorem SameZones.close (same : SameZones p q) (comp : List Char) :
    SameZones (p.close comp) (q.close comp) where
  zone := by rw [zone_close, zone_close, same.zone]
  zones := by rw [zones_close, zones_close, same.zone, same.zones]

theorem SameZones.property (same : SameZones p q) (top parent : Option (List Char))
    (cl : ContentLine) : SameZones (p.property top parent cl) (q.property top parent cl) where
  zone := by rw [zone_property, zone_property, same.zone]
  zones := by rw [zones_property, zones_property, same.zones]

theorem SameZones.run (b : Body) (same : SameZones p q) (top parent : Option (List Char)) :
    SameZones (b.run top parent p) (b.run top parent q) := by
  induction b generalizing p q top parent with
  | done => exact same
  | line own rest inductionHypothesis =>
      exact inductionHypothesis (same.property top parent own) top parent
  | component comp inner rest innerHypothesis restHypothesis =>
      exact restHypothesis ((innerHypothesis (same.open_ comp) _ _).close comp) top parent

/-- What is read of a `VTIMEZONE` is the same wherever it stands. -/
theorem SameZones.run_around (b : Body) (same : SameZones p q)
    (parent parent' : Option (List Char)) :
    SameZones (b.run (some "VTIMEZONE".toList) parent p)
      (b.run (some "VTIMEZONE".toList) parent' q) := by
  induction b generalizing p q with
  | done => exact same
  | line own rest inductionHypothesis =>
      refine inductionHypothesis ⟨?_, ?_⟩
      · rw [zone_property, zone_property, same.zone, zoneProperty_around parent parent']
      · rw [zones_property, zones_property, same.zones]
  | component comp inner rest _ restHypothesis =>
      exact restHypothesis (((same.open_ comp).run inner _ _).close comp)

end Zones

/-- What is read of a `VTIMEZONE`, by its body. -/
def readZone (chrono : Chrono) (zones : Zones) (inner : Body) : Zones :=
  ((inner.run (some "VTIMEZONE".toList) none
    { Progress.start chrono with zone := some .empty, zones }).close "VTIMEZONE".toList).zones

/-- The zones are read from the outermost `VTIMEZONE`s, one after the other. -/
theorem zones_run (b : Body) (top parent : Option (List Char)) (p : Progress chrono)
    (none_ : p.zone = none) :
    (b.run top parent p).zone = none ∧
      (b.run top parent p).zones = b.zones.foldl (readZone chrono) p.zones := by
  induction b generalizing top parent p with
  | done => exact ⟨none_, rfl⟩
  | line own rest inductionHypothesis =>
      rw [Body.run, Body.zones, ← zones_property p top parent own]
      exact inductionHypothesis top parent _ (by rw [zone_property, none_, zoneProperty_none])
  | component comp inner rest innerHypothesis restHypothesis =>
      rw [Body.run, Body.zones, List.foldl_append]
      by_cases isZone : comp = "VTIMEZONE".toList
      · subst isZone
        have read : ((inner.run (some "VTIMEZONE".toList) top
            (p.open_ "VTIMEZONE".toList)).close "VTIMEZONE".toList).zones =
              readZone chrono p.zones inner := by
          refine (SameZones.close (SameZones.run_around inner ⟨?_, ?_⟩ top none) _).zones
          · rw [zone_open, if_pos rfl]
          · rw [zones_open]
        rw [if_pos rfl, List.foldl_cons, List.foldl_nil, ← read]
        exact restHypothesis top parent _ (by rw [zone_close, if_pos rfl])
      · obtain ⟨noneInner, zonesInner⟩ := innerHypothesis (some comp) top (p.open_ comp)
          (by rw [zone_open, if_neg isZone, none_])
        rw [zones_open] at zonesInner
        have closed : ((inner.run (some comp) top (p.open_ comp)).close comp).zones =
            inner.zones.foldl (readZone chrono) p.zones := by
          rw [zones_close, if_neg isZone, zonesInner]
        rw [if_neg isZone, ← closed]
        exact restHypothesis top parent _ (by rw [zone_close, if_neg isZone, noneInner])

end Calendar
end Mailcore

/-!
## The first event

The own properties of the first `VEVENT` are read, unless there are none: then the
event is taken for one that has not begun yet.  Behind an event that was read
nothing is read into it.
-/

namespace Mailcore
namespace Calendar

open Content (ContentLine)

variable {chrono : Chrono}

/-- The event and how far its reading is. -/
structure SameEvent (p q : Progress chrono) : Prop where
  seen : p.eventSeen = q.eventSeen
  done_ : p.eventDone = q.eventDone
  event : p.event = q.event

namespace SameEvent

variable {p q r : Progress chrono}

theorem refl_ (p : Progress chrono) : SameEvent p p :=
  ⟨rfl, rfl, rfl⟩

theorem trans_ (first : SameEvent p q) (second : SameEvent q r) : SameEvent p r :=
  ⟨first.seen.trans second.seen, first.done_.trans second.done_, first.event.trans second.event⟩

end SameEvent

/-! ## Single steps -/

section Steps

variable (p : Progress chrono) (top parent : Option (List Char)) (comp : List Char)
  (cl : ContentLine)

theorem sameEvent_open : SameEvent (p.open_ comp) p := by
  unfold Progress.open_
  split_ifs <;> exact ⟨rfl, rfl, rfl⟩

theorem sameEvent_close {comp : List Char} (other : comp ≠ "VEVENT".toList) :
    SameEvent (p.close comp) p := by
  unfold Progress.close
  rw [if_neg fun ends : comp = "VEVENT".toList ∧ p.eventSeen => other ends.1]
  split_ifs
  · split
    · split <;> exact ⟨rfl, rfl, rfl⟩
    · exact .refl_ p
  · exact .refl_ p

theorem close_event :
    p.close "VEVENT".toList = if p.eventSeen then { p with eventDone := true } else p := by
  unfold Progress.close
  rw [if_neg (by decide)]
  simp only [true_and]

theorem sameEvent_property {top : Option (List Char)}
    (other : top ≠ some "VEVENT".toList ∨ p.eventDone = true) :
    SameEvent (p.property top parent cl) p := by
  have notRead : ¬(top = some "VEVENT".toList ∧ p.eventDone = false) := by
    rintro ⟨inEvent, open_⟩
    rcases other with out | done_
    · exact out inEvent
    · rw [open_] at done_
      cases done_
  unfold Progress.property
  rw [if_neg notRead]
  split_ifs <;> exact ⟨rfl, rfl, rfl⟩

theorem property_event (open_ : p.eventDone = false) :
    p.property (some "VEVENT".toList) parent cl =
      { p with eventSeen := true, event := p.event.read cl } := by
  have notCalendar : ¬(some "VEVENT".toList = some "VCALENDAR".toList ∧
      cl.name = "METHOD".toList) := fun calendar => absurd calendar.1 (by decide)
  have notZone : ¬(some "VEVENT".toList = some "VTIMEZONE".toList ∧
      cl.name = "TZID".toList) := fun zone => absurd zone.1 (by decide)
  have notPart : ¬((some "VEVENT".toList = some "STANDARD".toList ∨
      some "VEVENT".toList = some "DAYLIGHT".toList) ∧
        cl.name = "TZOFFSETTO".toList ∧ parent = some "VTIMEZONE".toList) :=
    fun part => absurd part.1 (by decide)
  unfold Progress.property
  rw [if_neg notCalendar, if_neg notZone, if_neg notPart, if_pos ⟨rfl, open_⟩]

end Steps

/-! ## Bodies -/

/-- Behind a complete event nothing is read into it. -/
theorem sameEvent_of_done (b : Body) (top parent : Option (List Char)) (p : Progress chrono)
    (done_ : p.eventDone = true) : SameEvent (b.run top parent p) p := by
  induction b generalizing top parent p with
  | done => exact .refl_ p
  | line own rest inductionHypothesis =>
      have same := sameEvent_property p parent own (.inr done_ : top ≠ _ ∨ _)
      exact (inductionHypothesis top parent _ (same.done_.trans done_)).trans_ same
  | component comp inner rest innerHypothesis restHypothesis =>
      have opened := sameEvent_open p comp
      have read := (innerHypothesis (some comp) top _ (opened.done_.trans done_)).trans_ opened
      have closed : SameEvent ((inner.run (some comp) top (p.open_ comp)).close comp) p := by
        by_cases event : comp = "VEVENT".toList
        · subst event
          rw [close_event]
          split_ifs
          · exact ⟨read.seen, done_.symm, read.event⟩
          · exact read
        · exact (sameEvent_close _ event).trans_ read
      exact (restHypothesis top parent _ (closed.done_.trans done_)).trans_ closed

/-- Outside the events nothing is read into one. -/
theorem sameEvent_of_notMem (b : Body) (none_ : "VEVENT".toList ∉ b.names)
    {top : Option (List Char)} (other : top ≠ some "VEVENT".toList)
    (parent : Option (List Char)) (p : Progress chrono) :
    SameEvent (b.run top parent p) p := by
  induction b generalizing top parent p with
  | done => exact .refl_ p
  | line own rest inductionHypothesis =>
      exact (inductionHypothesis none_ other parent _).trans_
        (sameEvent_property p parent own (.inl other))
  | component comp inner rest innerHypothesis restHypothesis =>
      rw [Body.names, List.mem_cons, List.mem_append, not_or, not_or] at none_
      have differs : comp ≠ "VEVENT".toList := Ne.symm none_.1
      have read := (innerHypothesis none_.2.1 (fun same => differs (Option.some.inj same)) top
        (p.open_ comp)).trans_ (sameEvent_open p comp)
      exact (restHypothesis none_.2.2 other parent _).trans_
        ((sameEvent_close _ differs).trans_ read)

/-- The own properties of an event are read one after the other. -/
structure ReadsOwn (own : List ContentLine) (p q : Progress chrono) : Prop where
  seen : q.eventSeen = (p.eventSeen || !own.isEmpty)
  done_ : q.eventDone = false
  event : q.event = own.foldl Event.read p.event

theorem readsOwn_run (b : Body) (none_ : "VEVENT".toList ∉ b.names) (parent : Option (List Char))
    (p : Progress chrono) (open_ : p.eventDone = false) :
    ReadsOwn b.own p (b.run (some "VEVENT".toList) parent p) := by
  induction b generalizing p with
  | done => exact ⟨(Bool.or_false _).symm, open_, rfl⟩
  | line own rest inductionHypothesis =>
      rw [Body.run, property_event p parent own open_]
      have read := inductionHypothesis none_
        { p with eventSeen := true, event := p.event.read own } open_
      refine ⟨read.seen.trans ?_, read.done_, read.event⟩
      rw [Body.own, List.isEmpty_cons, Bool.not_false, Bool.or_true]
      exact Bool.true_or _
  | component comp inner rest _ restHypothesis =>
      rw [Body.names, List.mem_cons, List.mem_append, not_or, not_or] at none_
      have differs : comp ≠ "VEVENT".toList := Ne.symm none_.1
      have same := (sameEvent_close _ differs).trans_ ((sameEvent_of_notMem inner none_.2.1
        (fun same => differs (Option.some.inj same)) (some "VEVENT".toList)
          (p.open_ comp)).trans_ (sameEvent_open p comp))
      have read := restHypothesis none_.2.2 _ (same.done_.trans open_)
      exact ⟨by rw [← same.seen]; exact read.seen, read.done_, by
        rw [← same.event]; exact read.event⟩

theorem firstEvent_eq_none {b : Body} (none_ : b.firstEvent = none) :
    "VEVENT".toList ∉ b.names := by
  induction b with
  | done => exact List.not_mem_nil
  | line own rest inductionHypothesis => exact inductionHypothesis none_
  | component comp inner rest innerHypothesis restHypothesis =>
      rw [Body.firstEvent] at none_
      split_ifs at none_ with event
      obtain ⟨noneInner, noneRest⟩ := Option.or_eq_none_iff.mp none_
      rw [Body.names, List.mem_cons, List.mem_append, not_or, not_or]
      exact ⟨Ne.symm event, innerHypothesis noneInner, restHypothesis noneRest⟩

theorem mem_names_of_firstEvent {b e : Body} (first : b.firstEvent = some e) :
    "VEVENT".toList ∈ b.names := by
  induction b with
  | done => cases first
  | line own_ rest inductionHypothesis => exact inductionHypothesis first
  | component comp inner rest innerHypothesis restHypothesis =>
      rw [Body.firstEvent] at first
      rw [Body.names, List.mem_cons, List.mem_append]
      split_ifs at first with event
      · exact .inl event.symm
      · rcases Option.or_eq_some_iff.mp first with within_ | ⟨-, behind⟩
        · exact .inr (.inl (innerHypothesis within_))
        · exact .inr (.inr (restHypothesis behind))

/-- The first event is read, and if it has something to read, then it alone. -/
theorem run_firstEvent (b : Body) {e : Body} (first : b.firstEvent = some e)
    {top : Option (List Char)} (other : top ≠ some "VEVENT".toList)
    (parent : Option (List Char)) (p : Progress chrono) :
    ∃ around q, SameEvent q p ∧
      ((e.run (some "VEVENT".toList) around q).eventSeen = true →
        SameEvent (b.run top parent p)
          { e.run (some "VEVENT".toList) around q with eventDone := true }) := by
  induction b generalizing top parent p with
  | done => cases first
  | line own rest inductionHypothesis =>
      obtain ⟨around, q, same, read⟩ :=
        inductionHypothesis first other parent (p.property top parent own)
      exact ⟨around, q, same.trans_ (sameEvent_property p parent own (.inl other)), read⟩
  | component comp inner rest innerHypothesis restHypothesis =>
      rw [Body.firstEvent] at first
      split_ifs at first with event
      · obtain rfl := Option.some.inj first
        subst event
        refine ⟨top, p.open_ "VEVENT".toList, sameEvent_open p _, fun seen => ?_⟩
        rw [Body.run, close_event, if_pos seen]
        exact sameEvent_of_done rest top parent _ rfl
      · have below : some comp ≠ some "VEVENT".toList := fun same => event (Option.some.inj same)
        have opened := sameEvent_open p comp
        rcases Option.or_eq_some_iff.mp first with within_ | ⟨without, behind⟩
        · obtain ⟨around, q, same, read⟩ := innerHypothesis within_ below top (p.open_ comp)
          refine ⟨around, q, same.trans_ opened, fun seen => ?_⟩
          have closed := (sameEvent_close (inner.run (some comp) top (p.open_ comp)) event).trans_
            (read seen)
          exact (sameEvent_of_done rest top parent _ closed.done_).trans_ closed
        · have read := sameEvent_of_notMem inner (firstEvent_eq_none without) below top
            (p.open_ comp)
          have closed := (sameEvent_close _ event).trans_ (read.trans_ opened)
          obtain ⟨around, q, same, read⟩ := restHypothesis behind other parent _
          exact ⟨around, q, same.trans_ closed, read⟩

/-- A first event without own properties, which is the only one, is passed over. -/
theorem sameEvent_of_empty (b : Body) {e : Body} (first : b.firstEvent = some e)
    (plain : "VEVENT".toList ∉ e.names) (empty : e.own = [])
    (single : b.names.count "VEVENT".toList = 1) {top : Option (List Char)}
    (other : top ≠ some "VEVENT".toList) (parent : Option (List Char)) (p : Progress chrono)
    (unseen : p.eventSeen = false) (open_ : p.eventDone = false) :
    SameEvent (b.run top parent p) p := by
  induction b generalizing top parent p with
  | done => exact .refl_ p
  | line own rest inductionHypothesis =>
      have same := sameEvent_property p parent own (.inl other)
      exact (inductionHypothesis first single other parent _ (same.seen.trans unseen)
        (same.done_.trans open_)).trans_ same
  | component comp inner rest innerHypothesis restHypothesis =>
      have opened := sameEvent_open p comp
      rw [Body.firstEvent] at first
      rw [Body.names, List.count_cons, List.count_append] at single
      split_ifs at first with event
      · obtain rfl := Option.some.inj first
        subst event
        have behind : "VEVENT".toList ∉ rest.names := by
          rw [← List.count_eq_zero]
          simp only [beq_self_eq_true, if_true] at single
          omega
        have own := readsOwn_run inner plain top _ (opened.done_.trans open_)
        rw [empty] at own
        have notSeen : (inner.run (some "VEVENT".toList) top
            (p.open_ "VEVENT".toList)).eventSeen = false :=
          own.seen.trans (by rw [opened.seen, unseen]; rfl)
        rw [Body.run, close_event, notSeen, if_neg Bool.false_ne_true]
        refine (sameEvent_of_notMem rest behind other parent _).trans_ ⟨?_, ?_, ?_⟩
        · exact notSeen.trans unseen.symm
        · exact own.done_.trans open_.symm
        · exact own.event.trans opened.event
      · have below : some comp ≠ some "VEVENT".toList := fun same => event (Option.some.inj same)
        have differs : (comp == "VEVENT".toList) = false := beq_eq_false_iff_ne.mpr event
        rw [differs, if_neg Bool.false_ne_true, Nat.add_zero] at single
        rcases Option.or_eq_some_iff.mp first with within_ | ⟨without, behind⟩
        · have inside := List.count_pos_iff.mpr (mem_names_of_firstEvent within_)
          have nothing : "VEVENT".toList ∉ rest.names := by
            rw [← List.count_eq_zero]
            omega
          have read := (innerHypothesis within_ (by omega) below top _
            (opened.seen.trans unseen) (opened.done_.trans open_)).trans_ opened
          exact (sameEvent_of_notMem rest nothing other parent _).trans_
            ((sameEvent_close _ event).trans_ read)
        · have nothing := firstEvent_eq_none without
          have read := (sameEvent_close _ event).trans_
            ((sameEvent_of_notMem inner nothing below top (p.open_ comp)).trans_ opened)
          rw [List.count_eq_zero.mpr nothing, Nat.zero_add] at single
          exact (restHypothesis behind single other parent _ (read.seen.trans unseen)
            (read.done_.trans open_)).trans_ read

end Calendar
end Mailcore
