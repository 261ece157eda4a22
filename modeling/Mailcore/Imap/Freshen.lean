import Mailcore.Imap.Effect
import Mailcore.Imap.Newest

/-!
# Refreshing flags

What a flag refresh leaves in the cache: of the rows it was told about, those
without a local change carry the server's flags, and every other row is as it
was.
-/

namespace Mailcore
namespace Imap

open Store Concurrent Concurrent.Fallible

/-- The flags of a message as the cache shows them: a draft counts as read, and
so does everything in the Trash. -/
def shown (isTrash : Bool) (flags : List Flag) : Bool × Bool × Bool :=
  let (read, starred, draft) := flagState flags
  (read || isTrash || draft, starred, draft)

/-- The row shows the flags of the message. -/
def Carries (isTrash : Bool) (mail : Mail) (row : Message) : Prop :=
  (row.isRead, row.isStarred, row.isDraft) = shown isTrash mail.flags

instance (isTrash : Bool) (mail : Mail) (row : Message) :
    Decidable (Carries isTrash mail row) :=
  inferInstanceAs (Decidable (_ = _))

/-- The row with other flags. -/
def withFlags (row : Message) (flags : Bool × Bool × Bool) : Message :=
  { row with isRead := flags.1, isStarred := flags.2.1, isDraft := flags.2.2 }

/-- The row with the server's flags, unless a local change waits. -/
def freshen (mailbox : Mailbox) (isTrash : Bool) (row : Message) : Message :=
  if row.flagsDirty then row
  else (mailbox.mail? row.uid).elim row fun mail =>
    withFlags row (shown isTrash mail.flags)

section Rows

variable {mailbox : Mailbox} {isTrash : Bool}

@[simp] theorem uid_freshen (row : Message) :
    (freshen mailbox isTrash row).uid = row.uid := by
  unfold freshen
  split
  · rfl
  · cases mailbox.mail? row.uid <;> rfl

@[simp] theorem flagsDirty_freshen (row : Message) :
    (freshen mailbox isTrash row).flagsDirty = row.flagsDirty := by
  unfold freshen
  split
  · rfl
  · cases mailbox.mail? row.uid <;> rfl

theorem freshen_freshen (row : Message) :
    freshen mailbox isTrash (freshen mailbox isTrash row) =
      freshen mailbox isTrash row := by
  by_cases dirty : row.flagsDirty
  · simp [freshen, dirty]
  · cases there : mailbox.mail? row.uid with
    | none => simp [freshen, dirty, there]
    | some mail => simp [freshen, dirty, there, withFlags]

/-- A clean row of a message carries its flags once refreshed. -/
theorem carries_freshen {row : Message} {mail : Mail}
    (member : mail ∈ mailbox.mails) (same : mail.uid = row.uid)
    (clean : row.flagsDirty = false) :
    Carries isTrash mail (freshen mailbox isTrash row) := by
  have found := Mailbox.mail?_of_mem member
  rw [same] at found
  simp [Carries, freshen, clean, found, withFlags]

/-- A row that carries the flags already stays. -/
theorem freshen_of_carries {row : Message} {mail : Mail}
    (member : mail ∈ mailbox.mails) (same : mail.uid = row.uid)
    (carries : Carries isTrash mail row) :
    freshen mailbox isTrash row = row := by
  have found := Mailbox.mail?_of_mem member
  rw [same] at found
  unfold freshen
  rw [found, Option.elim_some, ← carries]
  split <;> rfl

end Rows

/-- What a refresh leaves of a folder's rows. -/
structure Refreshed (mailbox : Mailbox) (isTrash : Bool) (folderId : Nat)
    (told : Nat → Prop) (before after : Db) : Prop where
  folders : after.folders = before.folders
  fresh : ∀ uid, told uid → after.message? folderId uid =
    (before.message? folderId uid).map (freshen mailbox isTrash)
  others : ∀ uid, ¬told uid →
    after.message? folderId uid = before.message? folderId uid

namespace Refreshed

variable {mailbox : Mailbox} {isTrash : Bool} {folderId : Nat}

theorem refl (mailbox : Mailbox) (isTrash : Bool) (folderId : Nat) (db : Db) :
    Refreshed mailbox isTrash folderId (fun _ => False) db db :=
  ⟨rfl, nofun, fun _ _ => rfl⟩

theorem trans {earlier later : Nat → Prop} {first second third : Db}
    (before : Refreshed mailbox isTrash folderId earlier first second)
    (after : Refreshed mailbox isTrash folderId later second third) :
    Refreshed mailbox isTrash folderId (fun uid => earlier uid ∨ later uid)
      first third where
  folders := after.folders.trans before.folders
  fresh uid told := by
    by_cases now : later uid
    · rw [after.fresh uid now]
      by_cases already : earlier uid
      · rw [before.fresh uid already, Option.map_map]
        congr 1
        exact funext freshen_freshen
      · rw [before.others uid already]
    · rw [after.others uid now, before.fresh uid (told.resolve_right now)]
  others uid untold := by
    rw [after.others uid fun now => untold (.inr now),
      before.others uid fun already => untold (.inl already)]

theorem congr {told same : Nat → Prop} {before after : Db}
    (refreshed : Refreshed mailbox isTrash folderId told before after)
    (iff : ∀ uid, told uid ↔ same uid) :
    Refreshed mailbox isTrash folderId same before after := by
  rwa [show same = told from funext fun uid => propext (iff uid).symm]

/-- Writing the flags of one message of the mailbox. -/
theorem setFlagsByUid {mail : Mail} (member : mail ∈ mailbox.mails)
    (db : Db) :
    Refreshed mailbox isTrash folderId (fun uid => uid = mail.uid) db
      (Messages.setFlagsByUid folderId mail.uid (shown isTrash mail.flags).1
        (shown isTrash mail.flags).2.1 (shown isTrash mail.flags).2.2 db) where
  folders := rfl
  fresh := by
    rintro _ rfl
    unfold Messages.setFlagsByUid
    rw [Db.message?_updateMessages]
    cases found : db.message? folderId mail.uid with
    | none => rfl
    | some row =>
        obtain ⟨_, sameFolder, sameUid⟩ := Db.mem_of_message? found
        have there := Mailbox.mail?_of_mem member
        by_cases dirty : row.flagsDirty
        · simp [freshen, dirty]
        · simp [freshen, dirty, sameFolder, there, sameUid, withFlags]
  others uid other := by
    unfold Messages.setFlagsByUid
    rw [Db.message?_updateMessages]
    cases found : db.message? folderId uid with
    | none => rfl
    | some row =>
        obtain ⟨_, _, sameUid⟩ := Db.mem_of_message? found
        have differs : row.uid ≠ mail.uid := sameUid ▸ other
        simp [differs]

end Refreshed

section Refresh

variable {chrono : Chrono} {ι : Type} [DecidableEq ι] {who : ι}
  {env : Environment} {place : Place} {mailbox : Mailbox}
  {world : World chrono ι}

/-- The server has told these flags of its messages. -/
def ToldBy (mailbox : Mailbox) (items : List (Nat × List Flag)) : Prop :=
  ∀ item ∈ items, ∃ mail ∈ mailbox.mails, (mail.uid, mail.flags) = item

theorem toldBy_flagsReply (mailbox : Mailbox) (uids : List Nat)
    (since : Option Nat) : ToldBy mailbox (flagsReply mailbox uids since) := by
  intro item member
  obtain ⟨mail, sent, rfl⟩ := List.mem_map.mp member
  exact ⟨mail, List.mem_of_mem_filter (List.mem_of_mem_filter sent), rfl⟩

/-- The cache has changed, the server and the session have not. -/
structure Local (world after : World chrono ι) : Prop where
  server : after.server = world.server
  session : after.session = world.session

omit [DecidableEq ι] in
theorem Local.trans {first second third : World chrono ι}
    (earlier : Local first second) (later : Local second third) :
    Local first third :=
  ⟨later.server.trans earlier.server, later.session.trans earlier.session⟩

theorem applyFlags_yields (folderId : Nat) (isTrash : Bool)
    {items : List (Nat × List Flag)} (told : ToldBy mailbox items) :
    Yields (respond chrono who) env.calm env.sure
      (applyFlags chrono folderId isTrash items) world fun _ after =>
        Local world after ∧ Refreshed mailbox isTrash folderId
          (fun uid => uid ∈ items.map Prod.fst) world.db after.db := by
  induction items generalizing world with
  | nil =>
      refine yields_pure ⟨⟨rfl, rfl⟩, ?_⟩
      exact (Refreshed.refl _ _ _ _).congr fun uid => by simp
  | cons item rest inductionHypothesis =>
      obtain ⟨mail, member, rfl⟩ := told _ List.mem_cons_self
      refine (statement_yields rfl (fun _ => rfl) fun _ => rfl).bind ?_
      rintro _ _ ⟨_, rfl⟩
      refine (inductionHypothesis fun other later =>
        told other (List.mem_cons_of_mem _ later)).mono ?_
      rintro _ after ⟨stays, later⟩
      refine ⟨⟨stays.server, stays.session⟩, ?_⟩
      refine ((Refreshed.setFlagsByUid member world.db).trans later).congr
        fun uid => ?_
      simp

/-- Whom a refresh of UIDs is told about. -/
structure Told (env : Environment) (who : ι) (mailbox : Mailbox)
    (uids : List Nat) (since : Nat) (world : World chrono ι)
    (told : Nat → Prop) : Prop where
  asked : ∀ uid, told uid → uid ∈ uids
  /-- What has changed since is told, and everything without CONDSTORE. -/
  changed : ∀ mail ∈ mailbox.mails, mail.uid ∈ uids →
    (world.session who).condstore = false ∨ since = 0 ∨ since < mail.modseq →
      told mail.uid
  /-- Of the rest nothing is told when CONDSTORE is on and nothing fails. -/
  surely : env.sure → (world.session who).condstore = true → 0 < since →
    ∀ mail ∈ mailbox.mails, told mail.uid → since < mail.modseq

/-- What a refresh leaves. -/
structure Refreshes (env : Environment) (who : ι) (place : Place)
    (mailbox : Mailbox) (isTrash : Bool) (folderId since : Nat)
    (uids : List Nat) (world after : World chrono ι) : Prop where
  works : At who place mailbox after
  condstore : (after.session who).condstore = true →
    (world.session who).condstore = true
  unmoved : env.sure → after.session = world.session
  told : ∃ told, Told env who mailbox uids since world told ∧
    Refreshed mailbox isTrash folderId told world.db after.db

omit [DecidableEq ι] in
/-- Those a FETCH of flags is told about. -/
theorem FlagsSent.told {uids : List Nat} {since : Nat}
    {after : World chrono ι} {items : List (Nat × List Flag)}
    (sent : FlagsSent env who place mailbox uids since world after items) :
    ToldBy mailbox items ∧ Told env who mailbox uids since world
      fun uid => uid ∈ items.map Prod.fst := by
  obtain ⟨asked, rfl, form, surely⟩ := sent.sent
  have mem : ∀ mail ∈ mailbox.mails,
      mail.uid ∈ (flagsReply mailbox uids asked).map Prod.fst ↔
        mail.uid ∈ uids ∧ asked.all fun modseq => modseq < mail.modseq := by
    intro mail member
    simp only [flagsReply, List.map_map, List.mem_map, List.mem_filter,
      Mailbox.named, decide_eq_true_eq, Function.comp_apply]
    constructor
    · rintro ⟨other, ⟨⟨otherMember, named⟩, newer⟩, same⟩
      cases Mailbox.eq_of_uid_eq otherMember member same
      exact ⟨named, newer⟩
    · rintro ⟨named, newer⟩
      exact ⟨mail, ⟨⟨member, named⟩, newer⟩, rfl⟩
  refine ⟨toldBy_flagsReply _ _ _, ?_, ?_, ?_⟩
  · intro uid told
    obtain ⟨item, member, rfl⟩ := List.mem_map.mp told
    obtain ⟨mail, mailMember, rfl⟩ := toldBy_flagsReply _ _ _ item member
    exact ((mem mail mailMember).mp told).1
  · intro mail member named newer
    refine (mem mail member).mpr ⟨named, ?_⟩
    rcases form with rfl | ⟨rfl, positive, condstore⟩
    · rfl
    · rcases newer with off | zero | newer
      · rw [condstore] at off
        cases off
      · omega
      · simpa using newer
  · intro certain condstore positive mail member told
    have newer := ((mem mail member).mp told).2
    rw [surely certain condstore positive] at newer
    simpa using newer

theorem refreshEach_yields (folderId : Nat) (isTrash : Bool) (since : Nat)
    {pieces : List (List Nat)} (works : At who place mailbox world) :
    Yields (respond chrono who) env.calm env.sure
      (refreshEach chrono folderId isTrash since pieces) world
      fun _ after => Refreshes env who place mailbox isTrash folderId since
        pieces.flatten world after := by
  induction pieces generalizing world with
  | nil =>
      exact yields_pure ⟨works, id, fun _ => rfl, fun _ => False,
        ⟨nofun, nofun, fun _ _ _ _ _ => nofun⟩, Refreshed.refl _ _ _ _⟩
  | cons piece rest inductionHypothesis =>
      refine (uidFetchFlags_yields works piece since).bind
        fun items fetched sent => ?_
      obtain ⟨told, first⟩ := sent.told
      refine (applyFlags_yields folderId isTrash told).bind ?_
      rintro _ applied ⟨stays, refreshed⟩
      have stillWorks := sent.works.congr stays.server stays.session
      refine (inductionHypothesis stillWorks).mono fun _ after later => ?_
      obtain ⟨others, second, further⟩ := later.told
      rw [sent.db] at refreshed
      have condstore : (applied.session who).condstore = true →
          (world.session who).condstore = true := by
        rw [stays.session]
        exact sent.condstore
      refine ⟨later.works, fun on => condstore (later.condstore on), ?_, _, ?_,
        refreshed.trans further⟩
      · intro certain
        rw [later.unmoved certain, stays.session, sent.unmoved certain]
      refine ⟨?_, ?_, ?_⟩
      · rintro uid (now | next)
        · exact List.mem_append_left _ (first.asked uid now)
        · exact List.mem_append_right _ (second.asked uid next)
      · intro mail member asked newer
        rcases List.mem_append.mp asked with now | next
        · exact .inl (first.changed mail member now newer)
        · refine .inr (second.changed mail member next (newer.imp_left ?_))
          intro off
          rw [← Bool.not_eq_true] at off ⊢
          exact fun on => off (condstore on)
      · rintro certain on positive mail member (now | next)
        · exact first.surely certain on positive mail member now
        · refine second.surely certain ?_ positive mail member next
          rwa [stays.session, sent.unmoved certain]

/-- What the flag refresh of a window sync leaves. -/
structure WindowRefreshed (env : Environment) (who : ι) (place : Place)
    (mailbox : Mailbox) (folderId : Nat) (window : Option Nat)
    (opened : Opened) (world after : World chrono ι) : Prop where
  works : At who place mailbox after
  told : ∃ told, Refreshed mailbox (opened.folder.role = .trash) folderId told
      world.db after.db ∧
    (∀ mail ∈ mailbox.mails, mail.uid ∈ opened.localUids →
      mail.uid ∈ mailbox.newest window →
      (world.session who).condstore = false ∨
        opened.folder.highestModseq = 0 ∨
        opened.folder.highestModseq < mail.modseq → told mail.uid) ∧
    (env.sure → (world.session who).condstore = true →
      0 < opened.folder.highestModseq → ∀ mail ∈ mailbox.mails,
      mail.uid ∈ mailbox.newest window → told mail.uid →
      opened.folder.highestModseq < mail.modseq)

theorem refreshFlags_yields {folderId : Nat} {window : Option Nat}
    {opened : Opened} {found : List Nat × Nat}
    (works : At who place mailbox world)
    (unchanged : opened.validityChanged = false)
    (all : Found mailbox (mailbox.searchFloor window) found) :
    Yields (respond chrono who) env.calm env.sure
      (refreshFlags chrono folderId opened found.1
        (relevantUids window found.1)) world fun _ after =>
          WindowRefreshed env who place mailbox folderId window opened world
            after := by
  have windowed : ∀ uid ∈ mailbox.newest window, uid ∈ found.1 ∧
      inWindow (relevantUids window found.1) uid := by
    intro uid member
    have there : uid ∈ found.1 :=
      all.uids.mem_iff.mpr (Mailbox.newest_subset window member)
    exact ⟨there, (inWindow_iff all there).mpr member⟩
  unfold refreshFlags
  refine (session_yields world).bind ?_
  rintro session here ⟨rfl, same⟩
  rw [same, unchanged]
  refine (refreshEach_yields folderId _ _ works).bind
    fun _ within first => ?_
  obtain ⟨told, whom, refreshed⟩ := first.told
  rw [Data.flatten_chunks] at whom
  have changed : ∀ mail ∈ mailbox.mails, mail.uid ∈ opened.localUids →
      mail.uid ∈ mailbox.newest window →
      (world.session who).condstore = false ∨
        opened.folder.highestModseq = 0 ∨
        opened.folder.highestModseq < mail.modseq → told mail.uid := by
    intro mail member cached inside newer
    obtain ⟨there, within⟩ := windowed mail.uid inside
    refine whom.changed mail member
      (List.mem_filter.mpr ⟨there, by simp [cached, within]⟩) ?_
    refine newer.imp_right fun newer => ?_
    split
    · exact newer
    · exact .inl rfl
  have surely : env.sure → (world.session who).condstore = true →
      0 < opened.folder.highestModseq → ∀ mail ∈ mailbox.mails,
      told mail.uid → opened.folder.highestModseq < mail.modseq := by
    intro certain on positive mail member now
    have newer := whom.surely certain on
    simp only [on, Bool.not_false, Bool.and_self, if_true] at newer
    exact newer positive mail member now
  refine (session_yields within).bind ?_
  rintro session here ⟨rfl, same⟩
  rw [same]
  split
  · refine (refreshEach_yields folderId _ _ first.works).mono
      fun _ after second => ?_
    obtain ⟨others, rest, further⟩ := second.told
    rw [Data.flatten_chunks] at rest
    refine ⟨second.works, _, refreshed.trans further, ?_, ?_⟩
    · intro mail member cached inside newer
      exact .inl (changed mail member cached inside newer)
    · rintro certain on positive mail member inside (now | next)
      · exact surely certain on positive mail member now
      · have older := (List.mem_filter.mp (rest.asked _ next)).2
        simp [(windowed mail.uid inside).2] at older
  · exact yields_pure ⟨first.works, told, refreshed, changed,
      fun certain on positive mail member _ now =>
        surely certain on positive mail member now⟩

end Refresh

end Imap
end Mailcore
