import Mailcore.Background.Marks

/-!
# What reports and marks come to

A check reads the mark, carries its report and saves the mark at the tops it
read.  As long as nobody moves the mark in between, the mark only rises, the
committed reports are disjoint, and each misses nothing above its mark.
-/

namespace Mailcore
namespace Background

open Concurrent
open Text (InI64)

section Held

variable {inbox : Inbox} {ι : Type}

/-- A check that is committed reported the message. -/
def Desk.Reports (desk : Desk) (uid : Nat) : Prop :=
  desk.job = .check ∧ desk.committed = true ∧
    ∃ uids, desk.reported = some uids ∧ uid ∈ uids

/-- What one process has read is still true, or was when it read it. -/
structure Desk.Holds (world : World inbox ι) (who : ι) (desk : Desk) :
    Prop where
  inRange : ∀ uid, desk.top = some uid → InI64 inbox.validity ∧ InI64 uid
  asked : desk.job = .check → world.asked who = desk.raw
  unread : desk.job = .check → desk.raw = none → desk.reported = none
  underTop : desk.job = .check → Below (desk.mark inbox) desk.top
  underSeen : desk.job = .check → Below (desk.mark inbox) world.seenMark
  window : desk.job = .check → ∀ uids, desk.reported = some uids →
    ∀ uid ∈ uids, (∀ mark, desk.mark inbox = some mark → mark < (uid : Int)) ∧
      Below (some uid) desk.top
  complete : desk.job = .check → ∀ uids, desk.reported = some uids →
    ∀ mark, desk.mark inbox = some mark →
      ∀ uid ∈ world.listed who, mark < (uid : Int) → uid ∈ uids
  saved : desk.committed = true →
    desk.top.isSome ∧ Below desk.top world.seenMark ∧
      (desk.job = .check → desk.Looked inbox)

/-- Every process's reading holds, and no two committed reports share a
message. -/
structure Held (world : World inbox ι) (seen : ι → Desk) : Prop where
  desks : ∀ who, (seen who).Holds world who
  once : ∀ uid first second, (seen first).Reports uid →
    (seen second).Reports uid → first = second

/-- Another process's turn: the mark has not gone down. -/
structure World.Advances (who : ι) (before after : World inbox ι) : Prop where
  asked : ∀ other, other ≠ who → after.asked other = before.asked other
  listed : ∀ other, other ≠ who → after.listed other = before.listed other
  seenMark : Below before.seenMark after.seenMark

theorem Desk.Holds.advance {before after : World inbox ι} {who other : ι}
    {desk : Desk} (holds : desk.Holds before other)
    (advances : World.Advances who before after) (another : other ≠ who) :
    desk.Holds after other where
  inRange := holds.inRange
  asked checks := (advances.asked other another).trans (holds.asked checks)
  unread := holds.unread
  underTop := holds.underTop
  underSeen checks := (holds.underSeen checks).trans advances.seenMark
  window := holds.window
  complete := by
    rw [advances.listed other another]
    exact holds.complete
  saved committed :=
    ⟨(holds.saved committed).1,
      (holds.saved committed).2.1.trans advances.seenMark,
      (holds.saved committed).2.2⟩

/-- Nobody moves the mark between a check's reading and saving it, the app does
not save a top below the mark, no reading of the inbox fails, and no mail above
the tops is listed. -/
def Unmoved : Condition (signature inbox) (markMonitor inbox) ι
    (World inbox ι) Bool :=
  fun world seen who call refused =>
    let desk : Desk := seen who
    match call with
    | .inboxTops => True
    | .getSetting key =>
        key = inbox.key → desk.job = .check → desk.raw = none →
          refused = false ∧ Below world.seenMark desk.top
    | .setSetting key _ =>
        key = inbox.key → refused = false →
          if desk.job = .check then
            desk.raw = some (world.settings inbox.key)
          else
            Below world.seenMark desk.top
    | .unreadAbove top _ =>
        top.key = inbox.key → desk.job = .check → refused = false ∧
          ∀ uid ∈ world.unread, Below (some (uid : Int)) desk.top

instance (world : World inbox ι) (seen : ι → (markMonitor inbox).State)
    (who : ι) (call : Call) (refused : Bool) :
    Decidable (Unmoved world seen who call refused) := by
  unfold Unmoved
  cases call <;> infer_instance

/-- The mail above a mark is the listed unread mail with a higher UID. -/
theorem mem_unreadAbove {cache : Cache} {top : SeenMark} {mark : Int}
    {uid : Nat} :
    uid ∈ (cache.unreadAbove top mark).map NewMail.uid ↔
      uid ∈ (cache.unread top.folderId).map MailRow.uid ∧
        mark < (uid : Int) := by
  constructor
  · intro member
    obtain ⟨new, inside, rfl⟩ := List.mem_map.mp member
    obtain ⟨mail, listed, built⟩ := List.mem_filterMap.mp inside
    rw [List.mem_mergeSort, List.mem_filter, decide_eq_true_eq] at listed
    obtain ⟨email, _, rest⟩ := Option.bind_eq_some_iff.mp built
    obtain ⟨folder, _, same⟩ := Option.bind_eq_some_iff.mp rest
    have sameUid := congrArg NewMail.uid (Option.some.inj same)
    exact ⟨List.mem_map.mpr ⟨mail, listed.1, sameUid⟩, by
      rw [← sameUid]
      exact listed.2⟩
  · rintro ⟨member, above⟩
    obtain ⟨mail, listed, rfl⟩ := List.mem_map.mp member
    have stored := (List.mem_filter.mp (List.mem_filter.mp listed).1).1
    obtain ⟨hasEmail, hasFolder⟩ := cache.owned mail stored
    obtain ⟨email, email_eq⟩ := Option.isSome_iff_exists.mp hasEmail
    obtain ⟨folder, inside, sameFolder⟩ := List.mem_map.mp hasFolder
    have found : (cache.folders.find? fun folder =>
        folder.id = mail.folderId).isSome :=
      List.find?_isSome.mpr ⟨folder, inside, decide_eq_true sameFolder⟩
    obtain ⟨first, first_eq⟩ := Option.isSome_iff_exists.mp found
    rw [Cache.unreadAbove, List.map_filterMap, List.mem_filterMap]
    refine ⟨mail, ?_, ?_⟩
    · rw [List.mem_mergeSort, List.mem_filter, decide_eq_true_eq]
      exact ⟨listed, above⟩
    · rw [email_eq, first_eq]
      rfl

/-- What was written at a UID is the mark there. -/
theorem markOf_inbox {uid : Int} (validity : InI64 inbox.validity)
    (inRange : InI64 uid) :
    markOf inbox.validity (inbox.mark uid).value = some uid :=
  markOf_value validity inRange

namespace Desk.Holds

variable {world after : World inbox ι} {who : ι} {desk : Desk}

/-- Only what was recorded for this process, and the mark, matter to it. -/
theorem of_same (holds : desk.Holds world who)
    (asked : after.asked who = world.asked who)
    (listed : after.listed who = world.listed who)
    (seenMark : after.seenMark = world.seenMark) : desk.Holds after who where
  inRange := holds.inRange
  asked checks := asked.trans (holds.asked checks)
  unread := holds.unread
  underTop := holds.underTop
  underSeen := seenMark ▸ holds.underSeen
  window := holds.window
  complete := listed ▸ holds.complete
  saved := seenMark ▸ holds.saved

/-- A process that commits no report only has to know its top. -/
theorem of_other_job (holds : desk.Holds world who) {next : Desk}
    (job : next.job ≠ .check) (top : next.top = desk.top)
    (committed : next.committed = desk.committed)
    (seenMark : after.seenMark = world.seenMark) : next.Holds after who where
  inRange := top ▸ holds.inRange
  asked checks := absurd checks job
  unread checks := absurd checks job
  underTop checks := absurd checks job
  underSeen checks := absurd checks job
  window checks := absurd checks job
  complete checks := absurd checks job
  saved saved := by
    obtain ⟨known, below, _⟩ := holds.saved (committed ▸ saved)
    rw [top, seenMark]
    exact ⟨known, below, fun checks => absurd checks job⟩

/-- The tops are read first. -/
theorem inboxTops (holds : desk.Holds world who) (first : desk.top = none)
    (tops : Tops inbox) : (desk.next inbox .inboxTops tops).Holds world who where
  inRange := by
    intro uid known
    obtain ⟨top, found, rfl⟩ := Option.map_eq_some_iff.mp known
    have own := List.find?_some found
    rw [decide_eq_true_eq] at own
    obtain ⟨same, validity, inRange⟩ :=
      tops.own top (List.mem_of_find?_eq_some found) own
    rw [same] at validity
    exact ⟨validity, inRange⟩
  asked := holds.asked
  unread := holds.unread
  underTop checks := by
    have below := holds.underTop checks
    rw [first] at below
    change Below (desk.mark inbox) _
    cases mark : desk.mark inbox with
    | none => trivial
    | some mark =>
        rw [mark] at below
        exact below.elim
  underSeen := holds.underSeen
  window checks uids reported uid member := by
    have below := (holds.window checks uids reported uid member).2
    rw [first] at below
    exact below.elim
  complete := holds.complete
  saved saved := by
    have known := (holds.saved saved).1
    rw [first] at known
    cases known

/-- The mark is read, without failing and not above the tops. -/
theorem getSetting (holds : desk.Holds world who) {raw : Option String}
    (checks : desk.job = .check) (unread : desk.raw = none)
    (read : raw = world.settings inbox.key)
    (under : Below world.seenMark desk.top)
    (asked : after.asked who = some raw)
    (seenMark : after.seenMark = world.seenMark) :
    Desk.Holds after who { desk with raw := some raw } where
  inRange := holds.inRange
  asked _ := asked
  unread _ never := nomatch never
  underTop _ := by
    change Below (raw.bind _) _
    rw [read]
    exact under
  underSeen _ := by
    change Below (raw.bind _) _
    rw [read, seenMark]
    exact Below.refl _
  window _ uids reported := by
    rw [show desk.reported = none from holds.unread checks unread] at reported
    cases reported
  complete _ uids reported := by
    rw [show desk.reported = none from holds.unread checks unread] at reported
    cases reported
  saved saved := by
    have looked := (holds.saved saved).2.2 checks
    rw [Desk.Looked, unread] at looked
    cases looked.1

/-- The mail above the mark is looked up: all of it, and none above the tops. -/
theorem unreadAbove (holds : desk.Holds world who) {top : SeenMark}
    {mark : Int} (own : top.key = inbox.key) (looks : desk.mark inbox = some mark)
    (unsaved : desk.committed = false)
    (within : ∀ uid ∈ world.unread, Below (some (uid : Int)) desk.top)
    (asked : after.asked who = world.asked who)
    (listed : after.listed who = world.unread)
    (seenMark : after.seenMark = world.seenMark) :
    Desk.Holds after who
      { desk with
        reported := some ((world.cache.unreadAbove top mark).map NewMail.uid) } where
  inRange := holds.inRange
  asked checks := asked.trans (holds.asked checks)
  unread _ never := by
    change desk.raw = none at never
    rw [Desk.mark, never] at looks
    cases looks
  underTop := holds.underTop
  underSeen := seenMark ▸ holds.underSeen
  window _ uids reported uid member := by
    cases reported
    obtain ⟨inside, above⟩ := mem_unreadAbove.mp member
    rw [folderId_of_key own] at inside
    refine ⟨?_, within uid inside⟩
    intro other same
    cases looks.symm.trans same
    exact above
  complete _ uids reported other same uid member above := by
    cases reported
    cases looks.symm.trans same
    rw [listed] at member
    refine mem_unreadAbove.mpr ⟨?_, above⟩
    rw [folderId_of_key own]
    exact member
  saved saved := by
    change desk.committed = true at saved
    rw [unsaved] at saved
    cases saved

/-- The mark is saved at the top. -/
theorem setSetting (holds : desk.Holds world who) {uid : Int}
    (known : desk.top = some uid)
    (looked : desk.job = .check → desk.Looked inbox)
    (asked : after.asked who = world.asked who)
    (listed : after.listed who = world.listed who)
    (seenMark : after.seenMark = some uid) :
    Desk.Holds after who { desk with committed := true } where
  inRange := holds.inRange
  asked checks := asked.trans (holds.asked checks)
  unread := holds.unread
  underTop := holds.underTop
  underSeen checks := by
    rw [seenMark, ← known]
    exact holds.underTop checks
  window := holds.window
  complete := listed ▸ holds.complete
  saved _ := by
    refine ⟨known ▸ rfl, ?_, looked⟩
    change Below desk.top _
    rw [known, seenMark]
    exact Below.refl _

end Desk.Holds

variable [DecidableEq ι]

/-- The mark after it has been saved at a top. -/
theorem seenMark_setSetting {world : World inbox ι} {who : ι} {uid : Int}
    (validity : InI64 inbox.validity) (inRange : InI64 uid) :
    (respond who (.setSetting inbox.key (inbox.mark uid).value) false
      world).2.seenMark = some uid := by
  change ((Function.update world.settings inbox.key _) inbox.key).bind _ = _
  rw [Function.update_self]
  exact markOf_inbox validity inRange

/-- Saving anything else leaves the mark. -/
theorem seenMark_setSetting_of_ne {world : World inbox ι} {who : ι}
    {key value : String} (other : key ≠ inbox.key) (refused : Bool) :
    (respond who (.setSetting key value) refused world).2.seenMark =
      world.seenMark := by
  cases refused with
  | true => rfl
  | false =>
      change ((Function.update world.settings key _) inbox.key).bind _ = _
      rw [Function.update_of_ne (Ne.symm other)]
      rfl

/-- A turn records things for the process whose turn it is. -/
theorem respond_recorded (who : ι) (call : Call) (refused : Bool)
    (world : World inbox ι) {other : ι} (another : other ≠ who) :
    (respond who call refused world).2.asked other = world.asked other ∧
      (respond who call refused world).2.listed other =
        world.listed other := by
  cases call with
  | inboxTops => exact ⟨rfl, rfl⟩
  | getSetting key =>
      simp only [respond]
      split
      · exact ⟨Function.update_of_ne another _ _,
          Function.update_of_ne another _ _⟩
      · exact ⟨rfl, rfl⟩
  | setSetting key value => cases refused <;> exact ⟨rfl, rfl⟩
  | unreadAbove top mark =>
      simp only [respond]
      split
      · exact ⟨rfl, Function.update_of_ne another _ _⟩
      · exact ⟨rfl, rfl⟩

/-- Reading leaves the mark. -/
theorem seenMark_getSetting (who : ι) (key : String) (refused : Bool)
    (world : World inbox ι) :
    (respond who (.getSetting key) refused world).2.seenMark =
      world.seenMark := by
  simp only [respond]
  split <;> rfl

theorem seenMark_unreadAbove (who : ι) (top : SeenMark) (mark : Int)
    (refused : Bool) (world : World inbox ι) :
    (respond who (.unreadAbove top mark) refused world).2.seenMark =
      world.seenMark := by
  simp only [respond]
  split <;> rfl

variable {world : World inbox ι} {seen : ι → Desk} {who : ι} {call : Call}
  {refused : Bool}

omit [DecidableEq ι] in
/-- What a save under the condition moves past. -/
theorem below_saved (held : Held world seen) {key value : String} {uid : Int}
    (own : key = inbox.key) (saves : refused = false)
    (unmoved : Unmoved world seen who (.setSetting key value) refused)
    (known : (seen who).top = some uid) :
    Below world.seenMark (some uid) := by
  have condition := unmoved own saves
  rw [← known]
  split at condition
  · next checks =>
    have same : world.seenMark = (seen who).mark inbox := by
      rw [Desk.mark, condition]
      rfl
    rw [same]
    exact (held.desks who).underTop checks
  · exact condition

/-- The mark does not go down. -/
theorem Held.advances (held : Held world seen)
    (allowed : (seen who).Allows inbox call)
    (unmoved : Unmoved world seen who call refused) :
    World.Advances who world (respond who call refused world).2 where
  asked other another := (respond_recorded who call refused world another).1
  listed other another := (respond_recorded who call refused world another).2
  seenMark := by
    cases call with
    | inboxTops => exact Below.refl _
    | getSetting key =>
        rw [seenMark_getSetting]
        exact Below.refl _
    | unreadAbove top mark =>
        rw [seenMark_unreadAbove]
        exact Below.refl _
    | setSetting key value =>
        by_cases own : key = inbox.key
        · cases saves : refused with
          | true => exact Below.refl _
          | false =>
              obtain ⟨_, ⟨uid, known, rfl⟩, _⟩ := allowed own
              have inRange := (held.desks who).inRange uid known
              rw [own, seenMark_setSetting inRange.1 inRange.2]
              exact below_saved held own saves unmoved known
        · rw [seenMark_setSetting_of_ne own]
          exact Below.refl _

/-- What the process has read holds after its turn. -/
theorem Held.own (held : Held world seen)
    (allowed : (seen who).Allows inbox call)
    (unmoved : Unmoved world seen who call refused) :
    ((seen who).next inbox call (respond who call refused world).1).Holds
      (respond who call refused world).2 who := by
  have holds := held.desks who
  cases call with
  | inboxTops => exact holds.inboxTops allowed _
  | getSetting key =>
      by_cases own : key = inbox.key
      · by_cases checks : (seen who).job = .check
        · cases known : (seen who).raw with
          | none =>
              have unasked : world.asked who = none :=
                (holds.asked checks).trans known
              obtain ⟨rfl, under⟩ := unmoved own checks known
              rw [Desk.next_getSetting_own own known]
              refine holds.getSetting checks known (own ▸ rfl) under ?_
                (seenMark_getSetting _ _ _ _)
              simp only [respond]
              rw [if_pos ⟨own, unasked⟩, own]
              exact Function.update_self _ _ _
          | some raw =>
              have isAsked : ¬ (key = inbox.key ∧ world.asked who = none) := by
                rw [holds.asked checks, known]
                exact fun both => nomatch both.2
              rw [Desk.next_getSetting_of_isSome (known ▸ rfl)]
              simp only [respond]
              rw [if_neg isAsked]
              exact holds
        · apply holds.of_other_job
          · rw [Desk.next_job]
            exact checks
          · simp only [Desk.next]
            split <;> rfl
          · simp only [Desk.next]
            split <;> rfl
          · exact seenMark_getSetting _ _ _ _
      · rw [Desk.next_getSetting_of_ne own]
        simp only [respond]
        rw [if_neg fun both => own both.1]
        exact holds
  | setSetting key value =>
      by_cases own : key = inbox.key
      · have next : ∀ saved : Bool,
            (seen who).next inbox (.setSetting key value) saved =
              { seen who with committed := (seen who).committed || saved } :=
          fun saved => if_pos own
        cases refused with
        | true =>
            rw [next]
            change Desk.Holds world who
              { seen who with committed := (seen who).committed || false }
            rw [Bool.or_false]
            exact holds
        | false =>
            obtain ⟨_, ⟨uid, known, rfl⟩, looked⟩ := allowed own
            have inRange := holds.inRange uid known
            rw [next]
            change Desk.Holds _ who
              { seen who with committed := (seen who).committed || true }
            rw [Bool.or_true]
            refine holds.setSetting known looked rfl rfl ?_
            rw [own]
            exact seenMark_setSetting inRange.1 inRange.2
      · rw [Desk.next_setSetting_of_ne own]
        refine holds.of_same ?_ ?_ (seenMark_setSetting_of_ne own refused)
        · cases refused <;> rfl
        · cases refused <;> rfl
  | unreadAbove top mark =>
      by_cases own : top.key = inbox.key
      · by_cases checks : (seen who).job = .check
        · obtain ⟨looks, unsaved⟩ := allowed own checks
          obtain ⟨rfl, within⟩ := unmoved own checks
          rw [Desk.next_unreadAbove_own own]
          apply holds.unreadAbove own looks unsaved within
          · simp only [respond]
            rw [if_pos own]
          · simp only [respond]
            rw [if_pos own]
            exact Function.update_self _ _ _
          · exact seenMark_unreadAbove _ _ _ _ _
        · apply holds.of_other_job
          · rw [Desk.next_job]
            exact checks
          · simp only [Desk.next]
            split <;> rfl
          · simp only [Desk.next]
            split <;> rfl
          · exact seenMark_unreadAbove _ _ _ _ _
      · rw [Desk.next_unreadAbove_of_ne own]
        simp only [respond]
        rw [if_neg own]
        exact holds

/-- A commit reports no message that another committed report has. -/
theorem Held.news (held : Held world seen)
    (allowed : (seen who).Allows inbox call)
    (unmoved : Unmoved world seen who call refused) {uid : Nat}
    (reports : ((seen who).next inbox call
      (respond who call refused world).1).Reports uid) {other : ι}
    (also : (seen other).Reports uid) : other = who := by
  suffices already : (seen who).Reports uid ∨ other = who by
    rcases already with already | same
    · exact held.once uid other who also already
    · exact same
  cases call with
  | inboxTops => exact .inl reports
  | getSetting key =>
      left
      simp only [Desk.next] at reports
      split at reports
      · exact reports
      · exact reports
  | setSetting key value =>
      by_cases own : key = inbox.key
      · simp only [Desk.next, if_pos own] at reports
        obtain ⟨checks, committed, uids, reported, member⟩ := reports
        cases refused with
        | true =>
            rw [show (respond who (.setSetting key value) true world).1 = false
              from rfl, Bool.or_false] at committed
            exact .inl ⟨checks, committed, uids, reported, member⟩
        | false =>
            obtain ⟨otherChecks, otherSaved, others, otherReported, inside⟩ :=
              also
            have raw := unmoved own rfl
            rw [if_pos checks] at raw
            have below := ((held.desks other).window otherChecks others
              otherReported uid inside).2.trans
                ((held.desks other).saved otherSaved).2.1
            have above := ((held.desks who).window checks uids reported uid
              member).1
            have same : (seen who).mark inbox = world.seenMark := by
              rw [Desk.mark, raw]
              rfl
            rw [same] at above
            cases mark : world.seenMark with
            | none =>
                rw [mark] at below
                exact below.elim
            | some mark_eq =>
                rw [mark] at below
                exact absurd (above _ mark) (Int.not_lt.mpr below)
      · rw [Desk.next_setSetting_of_ne own] at reports
        exact .inl reports
  | unreadAbove top mark =>
      left
      by_cases own : top.key = inbox.key
      · rw [Desk.next_unreadAbove_own own] at reports
        obtain ⟨checks, committed, _⟩ := reports
        have unsaved := (allowed own checks).2
        change (seen who).committed = true at committed
        rw [unsaved] at committed
        cases committed
      · rw [Desk.next_unreadAbove_of_ne own] at reports
        exact reports

/-- One turn under the condition keeps everything that was read true. -/
theorem Held.turn (held : Held world seen)
    (allowed : (seen who).Allows inbox call)
    (unmoved : Unmoved world seen who call refused) :
    Held (respond who call refused world).2
      (Function.update seen who ((seen who).next inbox call
        (respond who call refused world).1)) where
  desks other := by
    by_cases same : other = who
    · subst same
      rw [Function.update_self]
      exact held.own allowed unmoved
    · rw [Function.update_of_ne same]
      exact (held.desks other).advance (held.advances allowed unmoved) same
  once uid first second := by
    intro firstReports secondReports
    by_cases firstOwn : first = who
    · by_cases secondOwn : second = who
      · exact firstOwn.trans secondOwn.symm
      · subst firstOwn
        rw [Function.update_self] at firstReports
        rw [Function.update_of_ne secondOwn] at secondReports
        exact (held.news allowed unmoved firstReports secondReports).symm
    · rw [Function.update_of_ne firstOwn] at firstReports
      by_cases secondOwn : second = who
      · subst secondOwn
        rw [Function.update_self] at secondReports
        exact held.news allowed unmoved secondReports firstReports
      · rw [Function.update_of_ne secondOwn] at secondReports
        exact held.once uid first second firstReports secondReports

omit [DecidableEq ι] in
/-- Syncs, the user and other settings leave the mark and what was read. -/
theorem seenMark_disturb (change : Change) (world : World inbox ι) :
    (disturb change world).seenMark = world.seenMark ∧
      (disturb change world).asked = world.asked ∧
        (disturb change world).listed = world.listed := by
  cases change with
  | cache cache =>
      simp only [disturb]
      split <;> exact ⟨rfl, rfl, rfl⟩
  | setting key value =>
      simp only [disturb]
      split
      · exact ⟨rfl, rfl, rfl⟩
      · next other =>
        refine ⟨?_, rfl, rfl⟩
        change ((Function.update world.settings key _) inbox.key).bind _ = _
        rw [Function.update_of_ne (Ne.symm other)]
        rfl

omit [DecidableEq ι] in
theorem Held.disturb (held : Held world seen) (change : Change) :
    Held (Background.disturb change world) seen where
  desks who := by
    obtain ⟨seenMark, asked, listed⟩ := seenMark_disturb change world
    exact (held.desks who).of_same (congrFun asked who)
      (congrFun listed who) seenMark
  once := held.once

end Held

section Runs

variable {inbox : Inbox} {ι : Type} [DecidableEq ι]

abbrev MarkConfig (inbox : Inbox) (ι : Type) :=
  Config (signature inbox) (markMonitor inbox) ι (World inbox ι)

/-- Every process is about to begin. -/
def start (jobs : ι → Job) (world : World inbox ι) : MarkConfig inbox ι where
  shared := world
  thread who := (jobs who).program inbox
  seen who := Desk.fresh (jobs who)

/-- The mark only rises; a message is in at most one committed report; and a
committed report has every message above the mark that was still unread when
the check looked. -/
structure MarksHold (config : MarkConfig inbox ι)
    (events : List (Event ι Bool Change)) : Prop where
  rises : ∀ first second, events = first ++ second →
    Below (config.run (system inbox ι) first).shared.seenMark
      (config.run (system inbox ι) events).shared.seenMark
  once : ∀ uid first second,
    Desk.Reports ((config.run (system inbox ι) events).seen first) uid →
      Desk.Reports ((config.run (system inbox ι) events).seen second) uid →
        first = second
  complete : ∀ who,
    ((config.run (system inbox ι) events).seen who : Desk).job = .check →
      ((config.run (system inbox ι) events).seen who : Desk).committed = true →
        ∀ mark, (config.run (system inbox ι) events).shared.askedMark who =
            some mark →
          ∀ uid ∈ (config.run (system inbox ι) events).shared.listed who,
            mark < (uid : Int) → Desk.Reports
              ((config.run (system inbox ι) events).seen who) uid

omit [DecidableEq ι] in
theorem start_obedient (jobs : ι → Job) (world : World inbox ι) :
    (start jobs world).Obedient := fun who => (jobs who).obeys

omit [DecidableEq ι] in
/-- Nothing has been read yet. -/
theorem held_start (jobs : ι → Job) {world : World inbox ι}
    (fresh : ∀ who, world.asked who = none) :
    Held world (start jobs world).seen where
  desks who :=
    { inRange := nofun
      asked := fun _ => fresh who
      unread := fun _ _ => rfl
      underTop := fun _ => trivial
      underSeen := fun _ => trivial
      window := nofun
      complete := nofun
      saved := nofun }
  once _ _ _ reports := nomatch reports.2.1

/-- What was read is true throughout a run under the condition. -/
theorem held_run {config : MarkConfig inbox ι} (obedient : config.Obedient)
    (held : Held config.shared config.seen)
    (events : List (Event ι Bool Change))
    (meets : Config.RunMeets (system inbox ι) Unmoved config events) :
    Held (config.run (system inbox ι) events).shared
      (config.run (system inbox ι) events).seen :=
  Config.run_invariant Held
    (fun _ _ _ _ _ held allowed unmoved => held.turn allowed unmoved)
    (fun _ _ change held => held.disturb change)
    obedient held events meets

/-- The mark rises throughout a run under the condition. -/
theorem below_run {config : MarkConfig inbox ι} (obedient : config.Obedient)
    (held : Held config.shared config.seen)
    (events : List (Event ι Bool Change))
    (meets : Config.RunMeets (system inbox ι) Unmoved config events) :
    Below config.shared.seenMark
      (config.run (system inbox ι) events).shared.seenMark := by
  refine (Config.run_invariant
    (fun world seen => Held world seen ∧
      Below config.shared.seenMark world.seenMark)
    ?_ ?_ obedient ⟨held, Below.refl _⟩ events meets).2
  · intro world seen who call refused both allowed unmoved
    exact ⟨both.1.turn allowed unmoved,
      both.2.trans (both.1.advances allowed unmoved).seenMark⟩
  · intro world seen change both
    refine ⟨both.1.disturb change, ?_⟩
    change Below _ (disturb change world).seenMark
    rw [(seenMark_disturb change world).1]
    exact both.2

/-- Marks and reports hold in every run where no check's mark is moved under
it. -/
theorem marks_hold_of_unmoved (jobs : ι → Job) (world : World inbox ι)
    (fresh : ∀ who, world.asked who = none)
    (events : List (Event ι Bool Change))
    (meets : Config.RunMeets (system inbox ι) Unmoved (start jobs world)
      events) : MarksHold (start jobs world) events where
  rises := by
    rintro first second rfl
    obtain ⟨meetsFirst, meetsSecond⟩ := Config.runMeets_append.mp meets
    rw [Config.run_append]
    have obedient := start_obedient jobs world
    exact below_run (obedient.run first)
      (held_run obedient (held_start jobs fresh) first meetsFirst)
      second meetsSecond
  once := (held_run (start_obedient jobs world) (held_start jobs fresh)
    events meets).once
  complete := by
    have held := held_run (start_obedient jobs world) (held_start jobs fresh)
      events meets
    intro who checks committed mark asked uid listed above
    have holds := held.desks who
    rw [World.askedMark, holds.asked checks] at asked
    have looked := (holds.saved committed).2.2 checks
    have present : (((start jobs world).run (system inbox ι) events).seen who
        : Desk).reported.isSome :=
      looked.2 (Option.isSome_iff_exists.mpr ⟨mark, asked⟩)
    obtain ⟨uids, reported⟩ := Option.isSome_iff_exists.mp present
    exact ⟨checks, committed, uids, reported,
      holds.complete checks uids reported mark asked uid listed above⟩

end Runs

namespace Sample

def inbox : Inbox where
  accountId := 1
  folderId := 1
  validity := 7

/-- An unread mail of the inbox. -/
def unreadMail (uid : Nat) : MailRow where
  id := uid
  accountId := 1
  folderId := 1
  uid := uid
  isRead := false
  fromAddr := none
  subject := none
  date := none
  snippet := none

/-- The inbox with its first mail, and possibly a second. -/
def cached (second : Bool) : Cache where
  folders := [⟨1, 1, "INBOX", true, some 7⟩]
  mails := if second then [unreadMail 10, unreadMail 11] else [unreadMail 10]
  pending := []
  emails _ := some "me@example.com"
  oneFolder := by decide
  narrow := by cases second <;> decide
  valid := by decide
  owned := by cases second <;> decide

/-- The mark stands at 5, and one mail is above it. -/
def marked (ι : Type) : World inbox ι where
  cache := cached false
  keeps := by decide
  settings key := if key = inbox.key then some "7:5" else none
  asked _ := none
  listed _ := []

/-- A check runs by itself: its line, its mark. -/
def checkAlone : List (Event Unit Bool Change) :=
  List.replicate 7 (.turn () false)

/-- A mail above the mark is reported, and the mark follows. -/
theorem alone_marks_hold :
    MarksHold (start (fun _ => .check) (marked Unit)) checkAlone :=
  marks_hold_of_unmoved _ _ (fun _ => rfl) _ (by decide +kernel)

/-- What the service and the app do. -/
def jobs : Bool → Job
  | false => .check
  | true => .openApp

/-- The service has collected when a second mail arrives, the user sees it in
the app, and the service commits. -/
def seenBetween : List (Event Bool Bool Change) :=
  List.replicate 3 (.turn false false) ++ [.disturb (.cache (cached true))] ++
    List.replicate 3 (.turn true false)

/-- The commit takes the mark back from 11 to 10. -/
theorem commit_takes_mark_back :
    ¬ MarksHold (start jobs (marked Bool))
      (seenBetween ++ List.replicate 2 (.turn false false)) := by
  intro hold
  have rises := hold.rises seenBetween _ rfl
  revert rises
  decide +kernel

end Sample

end Background
end Mailcore
