import Mailcore.Concurrent.Outcomes
import Mailcore.Imap.Honest
import Mailcore.Imap.Sync

/-!
# A session in a mailbox that stands still

What the verbs of a session come to when nobody else works on the mailbox it
has selected.  Calls may fail and the server may refuse a command, but it sends
what it is asked for.
-/

namespace Mailcore
namespace Imap

open Store Concurrent Concurrent.Fallible

/-- The answers a run gets. -/
structure Environment where
  calm : Answer → Prop
  /-- Nothing fails. -/
  sure : Prop
  faithful : ∀ answer, calm answer → answer.items = none
  untroubled : sure → ∀ answer, calm answer →
    answer.refused = none ∧ answer.wire = .answered

namespace Environment

/-- Anything can fail. -/
def any : Environment where
  calm answer := answer.items = none
  sure := False
  faithful _ sends := sends
  untroubled := nofun

/-- Nothing fails. -/
def plain : Environment where
  calm answer := answer.items = none ∧ answer.refused = none ∧
    answer.wire = .answered
  sure := True
  faithful _ kind := kind.1
  untroubled _ _ kind := kind.2

theorem any_of_plain (answer : Answer) (kind : plain.calm answer) :
    any.calm answer := kind.1

theorem plain_plain : plain.calm Answer.plain := ⟨rfl, rfl, rfl⟩

end Environment

section Commands

variable {chrono : Chrono} {ι : Type} [DecidableEq ι] {who : ι}
  {place : Place} {mailbox : Mailbox} {world : World chrono ι}

/-- The session works in the mailbox of a place. -/
structure At (who : ι) (place : Place) (mailbox : Mailbox)
    (world : World chrono ι) : Prop where
  server : world.server place = some mailbox
  selected : (world.session who).selected = some ⟨place, mailbox.uidValidity⟩
  usable : (world.session who).broken = false

omit [DecidableEq ι] in
theorem At.current (works : At who place mailbox world) :
    current chrono who world =
      some (⟨place, mailbox.uidValidity⟩, mailbox) := by
  unfold Imap.current
  simp [works.selected, works.server]

omit [DecidableEq ι] in
/-- Whether a session works in a mailbox is read off servers and sessions. -/
theorem At.congr {after : World chrono ι} (works : At who place mailbox world)
    (server : after.server = world.server)
    (session : after.session = world.session) :
    At who place mailbox after := by
  obtain ⟨there, selected, usable⟩ := works
  rw [← server] at there
  rw [← session] at selected usable
  exact ⟨there, selected, usable⟩

/-- A refused command does nothing. -/
theorem command_refused {α : Type} (usable : (world.session who).broken = false)
    (text : String) (act : Except StoreError (α × World chrono ι)) :
    command chrono who world (.refused text) act =
      (.error (.network text), world) := by
  unfold command
  rw [usable]
  rfl

/-- What becomes of a command that only reads. -/
structure Asked {α : Type} (who : ι) (world : World chrono ι) (wire : Wire)
    (reply : α) (outcome : Except StoreError α × World chrono ι) : Prop where
  succeeds : ∀ value, outcome.1 = .ok value → value = reply ∧ outcome.2 = world
  fails : outcome.1.isOk = false →
    outcome.2 = world ∨ (outcome.2.session who).broken = true
  answered : wire = .answered → outcome.1 = .ok reply

/-- A reading command on the selected mailbox. -/
theorem At.asked {α : Type} (works : At who place mailbox world) (wire : Wire)
    (reply : α) {act : Selected → Mailbox →
      Except StoreError (α × World chrono ι)}
    (acts : act ⟨place, mailbox.uidValidity⟩ mailbox = .ok (reply, world)) :
    Asked who world wire reply (inMailbox chrono who world wire act) := by
  unfold inMailbox command
  rw [works.usable, works.current]
  simp only [Bool.false_eq_true, if_false, acts]
  cases wire with
  | answered =>
      refine ⟨?_, nofun, fun _ => rfl⟩
      rintro value ⟨⟩
      exact ⟨rfl, rfl⟩
  | refused text => exact ⟨nofun, fun _ => .inl rfl, nofun⟩
  | lost text acted =>
      refine ⟨nofun, fun _ => .inr ?_, nofun⟩
      simp

end Commands

section Verbs

variable {chrono : Chrono} {ι : Type} [DecidableEq ι] {who : ι}
  {env : Environment} {place : Place} {mailbox : Mailbox}
  {world : World chrono ι}

/-- A statement, which does the same whatever the answer. -/
theorem statement_yields {call : Call}
    {result : Except StoreError (call.Value chrono)}
    {after : World chrono ι}
    (statement : call.isStatement = true)
    (carried : ∀ answer, carryOut chrono who call answer world =
      (result, after))
    (succeeds : env.sure → result.isOk) :
    Yields (respond chrono who) env.calm env.sure (perform chrono call) world
      fun value reached => result = .ok value ∧ reached = after := by
  refine yields_perform (fun answer kind value same => ?_)
    fun certain answer kind => ?_
  · rw [respond_statement chrono who statement] at same ⊢
    cases refused : answer.refused with
    | some text =>
        rw [refused] at same
        cases same
    | none =>
        rw [refused] at same
        simp only [carried] at same ⊢
        exact ⟨same, trivial⟩
  · rw [respond_statement chrono who statement,
      (env.untroubled certain answer kind).1]
    simp only [carried]
    exact succeeds certain

/-- The process looks at its own session. -/
theorem session_yields (world : World chrono ι) :
    Yields (respond chrono who) env.calm env.sure (perform chrono .session)
      world fun session after => session = world.session who ∧
        after = world := by
  refine yields_perform (fun answer kind value same => ?_) fun _ _ _ => rfl
  cases same
  exact ⟨rfl, rfl⟩

/-- A search finds what the mailbox has. -/
theorem uidSearch_yields (works : At who place mailbox world)
    (key : SearchKey) :
    Yields (respond chrono who) env.calm env.sure (uidSearch chrono key) world
      fun found after => after = world ∧
        ∃ hits, found = searchReply mailbox hits key := by
  have asked : ∀ answer : Answer, Asked who world answer.wire
      (searchReply mailbox answer.hits key)
      (respond chrono who (.search key) answer world) :=
    fun answer => works.asked answer.wire _ rfl
  refine yields_perform (fun answer kind value same => ?_)
    fun certain answer kind => ?_
  · obtain ⟨found, unchanged⟩ := (asked answer).succeeds value same
    exact ⟨unchanged, answer.hits, found⟩
  · rw [(asked answer).answered (env.untroubled certain answer kind).2]
    rfl

/-- Whole messages are sent as they were asked for. -/
theorem uidFetchMessages_yields (works : At who place mailbox world)
    (uids : List Nat) :
    Yields (respond chrono who) env.calm env.sure
      (uidFetchMessages chrono uids) world fun items after => after = world ∧
        items = collectFetched (fullItems mailbox uids) := by
  unfold uidFetchMessages
  split
  · next nothing =>
    refine yields_pure ⟨rfl, ?_⟩
    simp [nothing, fullItems, Mailbox.named, collectFetched]
  have asked : ∀ answer : Answer, env.calm answer →
      Asked who world answer.wire (fullItems mailbox uids)
        (respond chrono who (.fetchMessages uids) answer world) := by
    intro answer kind
    refine works.asked answer.wire _ ?_
    rw [env.faithful answer kind]
    rfl
  have fetches : Yields (respond chrono who) env.calm env.sure
      (perform chrono (.fetchMessages uids)) world fun items after =>
        after = world ∧ items = fullItems mailbox uids := by
    refine yields_perform (fun answer kind value same => ?_)
      fun certain answer kind => ?_
    · exact ((asked answer kind).succeeds value same).symm
    · rw [(asked answer kind).answered (env.untroubled certain answer kind).2]
      rfl
  refine fetches.bind ?_
  rintro items after ⟨rfl, rfl⟩
  exact yields_pure ⟨rfl, rfl⟩

theorem useExtensions_yields (condstore qresync : Bool) :
    Yields (respond chrono who) env.calm env.sure
      (perform chrono (.useExtensions condstore qresync)) world
      fun _ after => after.server = world.server ∧ after.db = world.db ∧
        after.session who = { world.session who with
          condstore := condstore, qresync := qresync } := by
  refine yields_perform (fun answer kind value same => ?_) fun _ _ _ => rfl
  exact ⟨rfl, rfl, Function.update_self ..⟩

/-- What a FETCH of flags leaves and brings: all of them, or those changed
since. -/
structure FlagsSent (env : Environment) (who : ι) (place : Place)
    (mailbox : Mailbox) (uids : List Nat) (modseq : Nat)
    (world after : World chrono ι) (items : List (Nat × List Flag)) :
    Prop where
  works : At who place mailbox after
  db : after.db = world.db
  condstore : (after.session who).condstore = true →
    (world.session who).condstore = true
  unmoved : env.sure → after = world
  sent : ∃ since, items = flagsReply mailbox uids since ∧
    (since = none ∨ since = some modseq ∧ 0 < modseq ∧
      (world.session who).condstore = true) ∧
    (env.sure → (world.session who).condstore = true → 0 < modseq →
      since = some modseq)

theorem uidFetchFlags_yields (works : At who place mailbox world)
    (uids : List Nat) (modseq : Nat) :
    Yields (respond chrono who) env.calm env.sure
      (uidFetchFlagsChangedSince chrono uids modseq) world
      fun items after =>
        FlagsSent env who place mailbox uids modseq world after items := by
  have asked : ∀ {world : World chrono ι}, At who place mailbox world →
      ∀ since answer, Asked who world answer.wire
        (flagsReply mailbox uids since)
        (respond chrono who (.fetchFlags uids since) answer world) :=
    fun works since answer => works.asked answer.wire _ rfl
  have all : ∀ {world : World chrono ι}, At who place mailbox world →
      Yields (respond chrono who) env.calm env.sure
        (perform chrono (.fetchFlags uids none)) world fun items after =>
          after = world ∧ items = flagsReply mailbox uids none := by
    intro world works
    refine yields_perform (fun answer kind value same => ?_)
      fun certain answer kind => ?_
    · exact ((asked works none answer).succeeds value same).symm
    · rw [(asked works none answer).answered
        (env.untroubled certain answer kind).2]
      rfl
  unfold uidFetchFlagsChangedSince
  split
  · next nothing =>
    have none_ : ∀ since, flagsReply mailbox uids since = [] := by
      simp [nothing, flagsReply, Mailbox.named]
    refine yields_pure ⟨works, rfl, id, fun _ => rfl, ?_⟩
    by_cases extended : 0 < modseq ∧ (world.session who).condstore = true
    · exact ⟨some modseq, (none_ _).symm, .inr ⟨rfl, extended⟩,
        fun _ _ _ => rfl⟩
    · exact ⟨none, (none_ _).symm, .inl rfl,
        fun _ condstore positive => absurd ⟨positive, condstore⟩ extended⟩
  refine (session_yields world).bind ?_
  rintro session after ⟨rfl, rfl⟩
  split
  · next extended =>
    refine yields_attempt_bind (leads_perform fun answer kind => ?_)
    have outcome := asked works (some modseq) answer
    generalize respond chrono who (.fetchFlags uids (some modseq)) answer
      after = reply at outcome ⊢
    obtain ⟨error | items, reached⟩ := reply
    · dsimp only
      have unsure : ¬env.sure := by
        intro certain
        cases outcome.answered (env.untroubled certain answer kind).2
      refine (session_yields reached).bind ?_
      rintro session later ⟨rfl, rfl⟩
      split
      · exact yields_throw unsure
      · next alive =>
        obtain rfl : later = after :=
          (outcome.fails rfl).resolve_right alive
        refine (useExtensions_yields _ _).bind fun _ plainer moved => ?_
        obtain ⟨server, db, session⟩ := moved
        have stillWorks : At who place mailbox plainer :=
          ⟨server ▸ works.server, session ▸ works.selected,
            session ▸ works.usable⟩
        refine (all stillWorks).mono ?_
        rintro _ _ ⟨rfl, rfl⟩
        refine ⟨stillWorks, db, ?_, fun certain => absurd certain unsure, none,
          rfl, .inl rfl, fun certain => absurd certain unsure⟩
        rw [session]
        nofun
    · obtain ⟨rfl, rfl⟩ := outcome.succeeds items rfl
      exact yields_pure ⟨works, rfl, id, fun _ => rfl, some modseq, rfl,
        .inr ⟨rfl, extended.2, extended.1⟩, fun _ _ _ => rfl⟩
  · next plain =>
    refine (all works).mono ?_
    rintro _ _ ⟨rfl, rfl⟩
    exact ⟨works, rfl, id, fun _ => rfl, none, rfl, .inl rfl,
      fun _ condstore positive => absurd ⟨condstore, positive⟩ plain⟩

/-- What a SELECT of a mailbox leaves and reports. -/
structure Opens (env : Environment) (who : ι) (place : Place)
    (mailbox : Mailbox) (mode : SelectMode) (world after : World chrono ι)
    (reply : SelectResult) : Prop where
  works : At who place mailbox after
  db : after.db = world.db
  /-- The extensions stay on, or were turned off. -/
  condstore : (after.session who).condstore = true →
    (world.session who).condstore = true
  reported : reply = selectReply mailbox mode ∨
    reply = selectReply mailbox .plain
  surely : env.sure → reply = selectReply mailbox mode ∧
    (after.session who).condstore = (world.session who).condstore

/-- What becomes of one SELECT command. -/
structure Chosen (who : ι) (place : Place) (mailbox : Mailbox)
    (mode : SelectMode) (world : World chrono ι) (wire : Wire)
    (outcome : Except StoreError SelectResult × World chrono ι) : Prop where
  succeeds : ∀ reply, outcome.1 = .ok reply →
    reply = selectReply mailbox mode ∧ At who place mailbox outcome.2 ∧
      outcome.2.db = world.db ∧
      (outcome.2.session who).condstore = (world.session who).condstore
  fails : outcome.1.isOk = false →
    outcome.2 = world ∨ (outcome.2.session who).broken = true
  answered : wire = .answered → outcome.1.isOk

theorem respond_select (there : world.server place = some mailbox)
    (usable : (world.session who).broken = false) (mode : SelectMode)
    (answer : Answer) :
    Chosen who place mailbox mode world answer.wire
      (respond chrono who (.select place mode) answer world) := by
  change Chosen who place mailbox mode world answer.wire
    (command chrono who world answer.wire _)
  unfold command
  rw [usable, there]
  simp only [Bool.false_eq_true, if_false]
  cases answer.wire with
  | answered =>
      refine ⟨?_, nofun, fun _ => rfl⟩
      rintro reply ⟨⟩
      refine ⟨rfl, ⟨there, ?_, ?_⟩, rfl, ?_⟩
      all_goals simp [usable]
  | refused text => exact ⟨nofun, fun _ => .inl rfl, nofun⟩
  | lost text acted =>
      refine ⟨nofun, fun _ => .inr ?_, nofun⟩
      simp

/-- The SELECT reports the mailbox, in the form asked for or in the plain
one. -/
theorem select_yields (there : world.server place = some mailbox)
    (usable : (world.session who).broken = false)
    (qresync : Option (Nat × Nat)) :
    Yields (respond chrono who) env.calm env.sure
      (select chrono place qresync) world fun reply after =>
        Opens env who place mailbox (selectMode (world.session who) qresync)
          world after reply := by
  unfold select
  refine (session_yields world).bind ?_
  rintro session after ⟨rfl, rfl⟩
  dsimp only
  generalize selectMode (after.session who) qresync = mode
  refine yields_attempt_bind (leads_perform fun answer kind => ?_)
  have outcome := respond_select there usable mode answer
  generalize respond chrono who (.select place mode) answer after = reply
    at outcome ⊢
  obtain ⟨error | reply, reached⟩ := reply
  · dsimp only
    have unsure : ¬env.sure := by
      intro certain
      cases outcome.answered (env.untroubled certain answer kind).2
    refine (session_yields reached).bind ?_
    rintro session later ⟨rfl, rfl⟩
    split
    · next fallsBack =>
      obtain rfl : later = after :=
        (outcome.fails rfl).resolve_right fallsBack.2
      refine (useExtensions_yields _ _).bind fun _ plainer moved => ?_
      obtain ⟨server, db, session⟩ := moved
      have stillThere : plainer.server place = some mailbox := server ▸ there
      have stillUsable : (plainer.session who).broken = false :=
        session ▸ usable
      refine yields_perform (fun again kind value same => ?_)
        fun certain => absurd certain unsure
      obtain ⟨reported, works, dbLater, condstore⟩ :=
        (respond_select stillThere stillUsable .plain again).succeeds value same
      refine ⟨works, dbLater.trans db, ?_, .inr reported,
        fun certain => absurd certain unsure⟩
      rw [condstore, session]
      nofun
    · exact yields_throw unsure
  · obtain ⟨reported, works, db, condstore⟩ := outcome.succeeds reply rfl
    exact yields_pure ⟨works, db, fun on => condstore ▸ on, .inl reported,
      fun _ => ⟨reported, condstore⟩⟩

end Verbs

end Imap
end Mailcore
