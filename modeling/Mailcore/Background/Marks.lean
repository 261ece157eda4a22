import Mailcore.Background.Seen
import Mailcore.Background.Tag

/-!
# Marks that hold

What each process has read of the inbox it reports on, and when its commit
leaves the marks of the others standing.
-/

namespace Mailcore
namespace Background

open Concurrent
open Text (InI64)

/-! ## Keys -/

/-- A folder's key names its account and the folder. -/
theorem SeenMark.key_inj {first second : SeenMark} :
    first.key = second.key ↔
      first.accountId = second.accountId ∧
        first.folderId = second.folderId := by
  constructor
  · intro same
    have chars := congrArg String.toList same
    have separator : "_".toList = ['_'] := rfl
    simp only [SeenMark.key, String.toList_append, List.append_assoc,
      separator, List.cons_append, List.nil_append] at chars
    have accounts := (List.append_cancel_left_eq _ _ _).mp chars
    obtain ⟨account, folder⟩ :=
      split_inj (Text.notMem_repr rfl (by decide) _)
        (Text.notMem_repr rfl (by decide) _) accounts
    exact ⟨Int.repr_inj.mp (String.toList_inj.mp account),
      Int.repr_inj.mp (String.toList_inj.mp folder)⟩
  · rintro ⟨account, folder⟩
    rw [SeenMark.key, SeenMark.key, account, folder]

/-- A shown line is kept under another key than any mark. -/
theorem SeenMark.shownKey_ne_key (first second : SeenMark) :
    first.shownKey ≠ second.key := by
  intro same
  have chars := congrArg (fun text => text.toList[4]?) same
  simp [SeenMark.shownKey, SeenMark.key, String.toList_append] at chars

theorem Inbox.mark_key (inbox : Inbox) (uid : Int) :
    (inbox.mark uid).key = inbox.key := rfl

/-- Only the inbox's own marks have its key. -/
theorem folderId_of_key {inbox : Inbox} {top : SeenMark}
    (own : top.key = inbox.key) : top.folderId = inbox.folderId :=
  (SeenMark.key_inj.mp own).2

/-! ## Marks in order -/

/-- A mark that is not above another; a missing one is below every mark. -/
def Below : Option Int → Option Int → Prop
  | none, _ => True
  | some first, some second => first ≤ second
  | some _, none => False

instance : (first second : Option Int) → Decidable (Below first second)
  | none, _ => isTrue trivial
  | some first, some second => inferInstanceAs (Decidable (first ≤ second))
  | some _, none => isFalse id

theorem Below.refl : (mark : Option Int) → Below mark mark
  | none => trivial
  | some mark => Int.le_refl mark

theorem Below.trans {first second third : Option Int}
    (lower : Below first second) (upper : Below second third) :
    Below first third := by
  cases first with
  | none => trivial
  | some first =>
      cases second with
      | none => exact lower.elim
      | some second =>
          cases third with
          | none => exact upper.elim
          | some third => exact Int.le_trans lower upper

/-! ## Desks -/

/-- What a process has read of the inbox. -/
structure Desk where
  job : Job
  /-- The inbox's top. -/
  top : Option Int
  /-- The raw mark, as it was read first. -/
  raw : Option (Option String)
  /-- The UIDs reported as new. -/
  reported : Option (List Nat)
  /-- The report's mark is saved. -/
  committed : Bool

namespace Desk

/-- A process that has read nothing yet. -/
def fresh (job : Job) : Desk := ⟨job, none, none, none, false⟩

/-- The mark a check looked above. -/
def mark (inbox : Inbox) (desk : Desk) : Option Int :=
  desk.raw.bind fun raw => raw.bind (markOf inbox.validity)

/-- The inbox's mark is saved at the top that was read, by a check only once
it has looked for new mail. -/
def MaySave (inbox : Inbox) (desk : Desk) (value : String) : Prop :=
  desk.job ≠ .list ∧
    (∃ uid, desk.top = some uid ∧ value = (inbox.mark uid).value) ∧
      (desk.job = .check → desk.raw.isSome ∧
        ((desk.mark inbox).isSome → desk.reported.isSome))

/-- The calls of a process in its order: the tops, the mark, the mail above it
and the mark again. -/
def Allows (inbox : Inbox) (desk : Desk) : Call → Prop
  | .inboxTops => desk.top = none
  | .getSetting key =>
      key = inbox.key → desk.job = .check → desk.top.isSome
  | .setSetting key value => key = inbox.key → desk.MaySave inbox value
  | .unreadAbove top mark =>
      top.key = inbox.key → desk.job = .check →
        desk.mark inbox = some mark ∧ desk.committed = false

/-- What a reply tells a process. -/
def next (inbox : Inbox) (desk : Desk) :
    (call : Call) → call.Value inbox → Desk
  | .inboxTops, tops =>
      { desk with
        top := (tops.marks.find? fun top =>
          top.folderId = inbox.folderId).map SeenMark.uid }
  | .getSetting key, raw =>
      if key = inbox.key then { desk with raw := desk.raw.or (some raw) }
      else desk
  | .setSetting key _, saved =>
      if key = inbox.key then
        { desk with committed := desk.committed || saved }
      else desk
  | .unreadAbove top _, mails =>
      if top.key = inbox.key then
        { desk with reported := some (mails.map NewMail.uid) }
      else desk

end Desk

/-- The monitor of the processes that read or move the inbox's mark. -/
@[reducible] def markMonitor (inbox : Inbox) : Monitor (signature inbox) where
  State := Desk
  allows := Desk.Allows inbox
  next := Desk.next inbox

/-! ## Every process keeps to its order -/

section Obedience

variable {inbox : Inbox} {desk : Desk}

theorem obeys_ask {α : Type} (call : Call)
    (continuation : call.Value inbox → MarkProgram inbox α)
    (post : α → Desk → Prop) :
    (ask call >>= continuation).Obeys (markMonitor inbox) desk post ↔
      desk.Allows inbox call ∧ ∀ reply, (continuation reply).Obeys
        (markMonitor inbox) (desk.next inbox call reply) post := Iff.rfl

/-- Reading another key teaches nothing about the inbox. -/
theorem Desk.next_getSetting_of_ne {key : String} (other : key ≠ inbox.key)
    (raw : Option String) : desk.next inbox (.getSetting key) raw = desk :=
  if_neg other

theorem Desk.next_setSetting_of_ne {key value : String}
    (other : key ≠ inbox.key) (saved : Bool) :
    desk.next inbox (.setSetting key value) saved = desk := if_neg other

/-- The mark is remembered as it was read first. -/
theorem Desk.next_getSetting_of_isSome {key : String}
    (known : desk.raw.isSome) (raw : Option String) :
    desk.next inbox (.getSetting key) raw = desk := by
  change (if key = inbox.key then _ else desk) = desk
  split
  · obtain ⟨first, first_eq⟩ := Option.isSome_iff_exists.mp known
    cases desk
    simp only at first_eq
    rw [first_eq, Option.some_or]
  · rfl

/-- A check has read the mark and looked for mail above it. -/
def Desk.Looked (inbox : Inbox) (desk : Desk) : Prop :=
  desk.raw.isSome ∧ ((desk.mark inbox).isSome → desk.reported.isSome)

/-- The tops are all of other folders, or the inbox's own with its UID. -/
def Desk.Knows (inbox : Inbox) (desk : Desk) (tops : List SeenMark) : Prop :=
  ∀ top ∈ tops, top.key = inbox.key →
    top = inbox.mark top.uid ∧ desk.top = some top.uid

theorem Desk.Knows.tail {top : SeenMark} {rest : List SeenMark}
    (knows : desk.Knows inbox (top :: rest)) : desk.Knows inbox rest :=
  fun other member => knows other (List.mem_cons_of_mem _ member)

/-- The tops just read are known. -/
theorem Desk.knows_next (desk : Desk) (tops : Tops inbox) :
    (desk.next inbox .inboxTops tops).Knows inbox tops.marks := by
  intro top member own
  have sameFolder := folderId_of_key own
  refine ⟨(tops.own top member sameFolder).1, ?_⟩
  have found : tops.marks.find? (fun top => top.folderId = inbox.folderId) =
      some top := by
    cases search : tops.marks.find? (fun top => top.folderId = inbox.folderId)
      with
    | none =>
        have absent := List.find?_eq_none.mp search top member
        simp [sameFolder] at absent
    | some first =>
        have firstOwn := List.find?_some search
        rw [decide_eq_true_eq] at firstOwn
        have firstMember := List.mem_of_find?_eq_some search
        rw [List.inj_on_of_nodup_map tops.distinct firstMember member
          (firstOwn.trans sameFolder.symm)]
  change (tops.marks.find? _).map SeenMark.uid = some top.uid
  rw [found, Option.map_some]

theorem obeys_storedMark {α : Type} (key : String) (validity : Int)
    (continuation : Option Int → MarkProgram inbox α)
    (post : α → Desk → Prop) :
    (storedMark key validity >>= continuation).Obeys (markMonitor inbox)
        desk post ↔
      desk.Allows inbox (.getSetting key) ∧ ∀ raw : Option String,
        (continuation (raw.bind (markOf validity))).Obeys (markMonitor inbox)
          (desk.next inbox (.getSetting key) raw) post := Iff.rfl

/-- The first reading of the mark. -/
theorem Desk.next_getSetting_own {key : String} (own : key = inbox.key)
    (unread : desk.raw = none) (raw : Option String) :
    desk.next inbox (.getSetting key) raw = { desk with raw := some raw } := by
  change (if key = inbox.key then _ else desk) = _
  rw [if_pos own, unread, Option.none_or]

/-- Looking for mail in another folder teaches nothing about the inbox. -/
theorem Desk.next_unreadAbove_of_ne {top : SeenMark} {mark : Int}
    (other : top.key ≠ inbox.key) (mails : List NewMail) :
    desk.next inbox (.unreadAbove top mark) mails = desk := if_neg other

theorem Desk.next_unreadAbove_own {top : SeenMark} {mark : Int}
    (own : top.key = inbox.key) (mails : List NewMail) :
    desk.next inbox (.unreadAbove top mark) mails =
      { desk with reported := some (mails.map NewMail.uid) } := if_pos own

/-- What collecting leaves: a check that met its own inbox has looked for mail
in it, and nothing else was learned. -/
structure Desk.Collected (inbox : Inbox) (tops : List SeenMark)
    (before after : Desk) : Prop where
  job : after.job = before.job
  top : after.top = before.top
  other : (∀ top ∈ tops, top.key ≠ inbox.key) → after = before
  own : (∃ top ∈ tops, top.key = inbox.key) → after.Looked inbox

/-- No folder is collected twice. -/
theorem key_notMem_tail {top : SeenMark} {rest : List SeenMark}
    (distinct : ((top :: rest).map SeenMark.folderId).Nodup)
    (own : top.key = inbox.key) : ∀ other ∈ rest, other.key ≠ inbox.key := by
  intro other member same
  rw [List.map_cons, List.nodup_cons] at distinct
  apply distinct.1
  rw [folderId_of_key own, ← folderId_of_key same]
  exact List.mem_map_of_mem member

theorem Desk.Collected.skip {top : SeenMark} {rest : List SeenMark}
    {after : Desk} (other : top.key ≠ inbox.key)
    (collected : Desk.Collected inbox rest desk after) :
    Desk.Collected inbox (top :: rest) desk after where
  job := collected.job
  top := collected.top
  other absent := collected.other fun top member =>
    absent top (List.mem_cons_of_mem _ member)
  own := by
    rintro ⟨first, member, own⟩
    apply collected.own
    rcases List.mem_cons.mp member with rfl | member
    · exact absurd own other
    · exact ⟨first, member, own⟩

theorem Desk.Collected.take {top : SeenMark} {rest : List SeenMark}
    {looked after : Desk}
    (collected : Desk.Collected inbox rest looked after)
    (own : top.key = inbox.key)
    (job : looked.job = desk.job) (sameTop : looked.top = desk.top)
    (hasLooked : looked.Looked inbox)
    (last : ∀ other ∈ rest, other.key ≠ inbox.key) :
    Desk.Collected inbox (top :: rest) desk after where
  job := collected.job.trans job
  top := collected.top.trans sameTop
  other absent := absurd own (absent top List.mem_cons_self)
  own _ := by
    rw [collected.other last]
    exact hasLooked

/-- A check looks above the mark of the inbox, once. -/
theorem collectEach_obeys (tops : List SeenMark)
    (distinct : (tops.map SeenMark.folderId).Nodup)
    (knows : desk.Knows inbox tops)
    (unread : (∃ top ∈ tops, top.key = inbox.key) → desk.raw = none)
    (unsaved : desk.committed = false) :
    (collectEach tops).Obeys (markMonitor inbox) desk fun _ after =>
      Desk.Collected inbox tops desk after := by
  induction tops generalizing desk with
  | nil =>
      exact ⟨rfl, rfl, fun _ => rfl, fun ⟨_, member, _⟩ => nomatch member⟩
  | cons top rest inductionHypothesis =>
      have distinctRest := (List.nodup_cons.mp (List.map_cons ▸ distinct)).2
      rw [collectEach, obeys_storedMark]
      by_cases own : top.key = inbox.key
      · obtain ⟨same, known⟩ := knows top List.mem_cons_self own
        have last := key_notMem_tail distinct own
        have goesOn : ∀ later : Desk, later.committed = false →
            (collectEach rest).Obeys (markMonitor inbox) later fun _ after =>
              Desk.Collected inbox rest later after := fun later unsaved =>
          inductionHypothesis distinctRest
            (fun other member again => absurd again (last other member))
            (fun ⟨other, member, again⟩ => absurd again (last other member))
            unsaved
        refine ⟨fun _ _ => known ▸ rfl, ?_⟩
        intro raw
        rw [Desk.next_getSetting_own own (unread ⟨top, List.mem_cons_self, own⟩)]
        have validity : top.uidValidity = inbox.validity :=
          congrArg SeenMark.uidValidity same
        rw [validity]
        cases read : raw.bind (markOf inbox.validity) with
        | none =>
            apply (goesOn { desk with raw := some raw } unsaved).mono
            intro mails after collected
            refine collected.take own rfl rfl ⟨rfl, ?_⟩ last
            intro present
            change (raw.bind (markOf inbox.validity)).isSome at present
            rw [read] at present
            cases present
        | some mark =>
            rw [obeys_ask]
            refine ⟨fun _ _ => ⟨read, unsaved⟩, ?_⟩
            intro mails
            rw [Desk.next_unreadAbove_own own, Program.obeys_bind]
            apply (goesOn _ (by exact unsaved)).mono
            intro later after collected
            exact collected.take own rfl rfl ⟨rfl, fun _ => rfl⟩ last
      · refine ⟨fun same => absurd same own, ?_⟩
        intro raw
        rw [Desk.next_getSetting_of_ne own]
        have unreadRest : (∃ other ∈ rest, other.key = inbox.key) →
            desk.raw = none :=
          fun ⟨other, member, same⟩ =>
            unread ⟨other, List.mem_cons_of_mem _ member, same⟩
        have goesOn := inductionHypothesis distinctRest knows.tail unreadRest
          unsaved
        cases raw.bind (markOf top.uidValidity) with
        | none => exact goesOn.mono fun _ _ collected => collected.skip own
        | some mark =>
            rw [obeys_ask]
            refine ⟨fun same => absurd same own, ?_⟩
            intro mails
            rw [Desk.next_unreadAbove_of_ne own, Program.obeys_bind]
            exact goesOn.mono fun _ _ collected => collected.skip own

theorem Desk.next_job (desk : Desk) (call : Call) (reply : call.Value inbox) :
    (desk.next inbox call reply).job = desk.job := by
  cases call <;> simp only [Desk.next]
  all_goals split <;> rfl

theorem pendingEach_obeys (tops : List SeenMark)
    (reads : desk.job = .list) :
    (pendingEach tops).Obeys (markMonitor inbox) desk fun _ _ => True := by
  have never : ∀ {claim : Prop} {desk : Desk}, desk.job = .list →
      desk.job = .check → claim := by
    intro claim desk reads checks
    rw [reads] at checks
    cases checks
  induction tops generalizing desk with
  | nil => trivial
  | cons top rest inductionHypothesis =>
      -- the mail above one folder's line, from whatever desk it is reached
      have look : ∀ {later : Desk} (mark : Int), later.job = .list →
          (do
            let mails : List NewMail ← ask (.unreadAbove top mark)
            let others ← pendingEach rest
            pure (mails ++ others)).Obeys (markMonitor inbox) later
            fun _ _ => True := by
        intro later mark reads
        rw [obeys_ask]
        refine ⟨fun _ => never reads, ?_⟩
        intro mails
        rw [Program.obeys_bind]
        exact (inductionHypothesis ((Desk.next_job _ _ _).trans reads)).mono
          fun _ _ _ => trivial
      rw [pendingEach, obeys_storedMark]
      refine ⟨fun _ => never reads, ?_⟩
      intro shown
      have first : (desk.next inbox (.getSetting top.shownKey) shown).job =
          .list := (Desk.next_job _ _ _).trans reads
      cases shown.bind (markOf top.uidValidity) with
      | some mark => exact look mark first
      | none =>
          rw [obeys_storedMark]
          refine ⟨fun _ => never first, ?_⟩
          intro raw
          have second : ((desk.next inbox (.getSetting top.shownKey) shown).next inbox
              (.getSetting top.key) raw).job = .list := (Desk.next_job _ _ _).trans first
          cases raw.bind (markOf top.uidValidity) with
          | none => exact inductionHypothesis second
          | some mark => exact look mark second

/-- Opening the app saves the tops that were read. -/
theorem markEach_obeys (tops : List SeenMark)
    (opens : desk.job = .openApp) (knows : desk.Knows inbox tops) :
    (markEach tops).Obeys (markMonitor inbox) desk fun _ _ => True := by
  induction tops generalizing desk with
  | nil => trivial
  | cons top rest inductionHypothesis =>
      rw [markEach, obeys_ask]
      constructor
      · intro own
        obtain ⟨same, known⟩ := knows top List.mem_cons_self own
        refine ⟨by simp [opens], ⟨top.uid, known, congrArg _ same⟩, ?_⟩
        intro checks
        rw [opens] at checks
        cases checks
      · intro saved
        rw [obeys_ask]
        refine ⟨fun same => absurd same (SeenMark.shownKey_ne_key _ _), ?_⟩
        intro savedLine
        rw [Desk.next_setSetting_of_ne (SeenMark.shownKey_ne_key _ _)]
        apply inductionHypothesis ((Desk.next_job _ _ _).trans opens)
        intro other member own
        obtain ⟨same, known⟩ := knows.tail other member own
        refine ⟨same, ?_⟩
        change (if top.key = inbox.key then
          { desk with committed := desk.committed || saved } else desk).top = _
        split
        · exact known
        · exact known

/-- A line is drawn without touching the inbox's mark. -/
theorem drawLine_obeys (mark : SeenMark)
    (known : mark.key = inbox.key → desk.top.isSome ∧ desk.raw.isSome) :
    (drawLine mark).Obeys (markMonitor inbox) desk fun _ after =>
      after = desk := by
  rw [drawLine, obeys_storedMark]
  refine ⟨fun same => absurd same (SeenMark.shownKey_ne_key _ _), ?_⟩
  intro shown
  rw [Desk.next_getSetting_of_ne (SeenMark.shownKey_ne_key _ _)]
  cases shown.bind (markOf mark.uidValidity) with
  | some line => rfl
  | none =>
      rw [obeys_storedMark]
      refine ⟨fun own _ => (known own).1, ?_⟩
      intro raw
      have unchanged : desk.next inbox (.getSetting mark.key) raw = desk := by
        by_cases own : mark.key = inbox.key
        · exact Desk.next_getSetting_of_isSome (known own).2 raw
        · exact Desk.next_getSetting_of_ne own raw
      rw [unchanged, obeys_ask]
      refine ⟨fun same => absurd same (SeenMark.shownKey_ne_key _ _), ?_⟩
      intro saved
      exact Desk.next_setSetting_of_ne (SeenMark.shownKey_ne_key _ _) saved

/-- A check saves the tops it has looked under. -/
theorem commitSeen_obeys (marks : List SeenMark)
    (checks : desk.job = .check) (knows : desk.Knows inbox marks)
    (looked : (∃ mark ∈ marks, mark.key = inbox.key) → desk.Looked inbox) :
    (commitSeen marks).Obeys (markMonitor inbox) desk fun _ _ => True := by
  induction marks generalizing desk with
  | nil => trivial
  | cons mark rest inductionHypothesis =>
      have lookedOwn : mark.key = inbox.key → desk.Looked inbox :=
        fun own => looked ⟨mark, List.mem_cons_self, own⟩
      rw [commitSeen, Program.obeys_bind]
      apply Program.Obeys.mono (drawLine_obeys mark fun own =>
        ⟨(knows mark List.mem_cons_self own).2 ▸ rfl, (lookedOwn own).1⟩)
      rintro _ _ rfl
      rw [obeys_ask]
      constructor
      · intro own
        obtain ⟨same, known⟩ := knows mark List.mem_cons_self own
        exact ⟨by simp [checks], ⟨mark.uid, known, congrArg _ same⟩,
          fun _ => lookedOwn own⟩
      · intro saved
        have looksRest : (∃ other ∈ rest, other.key = inbox.key) →
            Desk.Looked inbox _ :=
          fun ⟨other, member, own⟩ =>
            looked ⟨other, List.mem_cons_of_mem _ member, own⟩
        by_cases own : mark.key = inbox.key
        · rw [show Desk.next inbox _ (.setSetting mark.key mark.value) saved =
            _ from if_pos own]
          exact inductionHypothesis checks knows.tail looksRest
        · rw [Desk.next_setSetting_of_ne own]
          exact inductionHypothesis checks knows.tail looksRest

/-- Every process keeps to its order. -/
theorem Job.obeys (job : Job) :
    (job.program inbox).Obeys (markMonitor inbox) (.fresh job)
      fun _ _ => True := by
  cases job with
  | check =>
      change ((ask .inboxTops >>= _) >>= _).Obeys _ _ _
      rw [Program.obeys_bind, obeys_ask]
      refine ⟨rfl, ?_⟩
      intro tops
      rw [Program.obeys_bind]
      apply (collectEach_obeys tops.marks tops.distinct
        (Desk.knows_next _ tops) (fun _ => rfl) rfl).mono
      intro new after collected
      apply commitSeen_obeys tops.marks collected.job
      · intro top member own
        obtain ⟨same, known⟩ := Desk.knows_next _ tops top member own
        exact ⟨same, collected.top.trans known⟩
      · exact collected.own
  | openApp =>
      change (ask .inboxTops >>= _).Obeys _ _ _
      rw [obeys_ask]
      exact ⟨rfl, fun tops =>
        markEach_obeys tops.marks rfl (Desk.knows_next _ tops)⟩
  | list =>
      change ((ask .inboxTops >>= _) >>= _).Obeys _ _ _
      rw [Program.obeys_bind, obeys_ask]
      refine ⟨rfl, ?_⟩
      intro tops
      exact (pendingEach_obeys tops.marks rfl).mono fun _ _ _ => trivial

end Obedience

end Background
end Mailcore
