import Mailcore.Imap.Trimmed

/-!
# What a window sync leaves

A window sync of a mailbox that stands still leaves exactly the window and what
was cached of the mailbox, and the server's flags in the window, unless it
trusts a sign of the cache that does not hold: the fast path trusts the number
of cached rows, and the refresh of flags trusts the stored mod-sequence.
-/

namespace Mailcore
namespace Imap

open Store Relational Concurrent Concurrent.Fallible

/-- What a window sync of a folder should leave, where the server has named
these ranges as vanished. -/
structure WindowSynced (mailbox : Mailbox) (folder : Folder)
    (window : Option Nat) (vanished : List (Nat × Nat)) (before after : Db) :
    Prop where
  /-- From the search's lower bound on: the window, and what was cached of the
  mailbox. -/
  recent : ∀ uid, mailbox.searchFloor window ≤ uid →
    ((after.message? folder.id uid).isSome ↔ uid ∈ mailbox.newest window ∨
      (before.message? folder.id uid).isSome ∧ uid ∈ mailbox.uids)
  /-- Below it only rows named as vanished are removed. -/
  older : ∀ uid, uid < mailbox.searchFloor window →
    (before.message? folder.id uid).isSome →
    (after.message? folder.id uid).isSome ∨ inRanges vanished uid
  /-- Clean rows of the window carry the server's flags. -/
  flags : ∀ mail ∈ mailbox.mails, mail.uid ∈ mailbox.newest window →
    ∀ row, after.message? folder.id mail.uid = some row →
      row.flagsDirty = false → Carries (folder.role = .trash) mail row

/-- A folder that is cached under the UIDVALIDITY of its mailbox, beside a
session that can select it. -/
structure Openable {chrono : Chrono} {ι : Type} (who : ι) (folder : Folder)
    (mailbox : Mailbox) (world : World chrono ι) : Prop where
  cached : world.db.folders.find? folder.id = some folder
  server : world.server folder.place = some mailbox
  usable : (world.session who).broken = false
  validity : ∀ stored, folder.uidValidity = some stored →
    stored = mailbox.uidValidity
  numbered : mailbox.Numbered

/-- The messages of its mailbox all parse. -/
structure Syncable (crates : Crates) {chrono : Chrono} {ι : Type} (who : ι)
    (folder : Folder) (mailbox : Mailbox) (world : World chrono ι) : Prop
    extends Openable who folder mailbox world where
  readable : ∀ mail ∈ mailbox.mails, (crates.readMail mail.raw).isSome

/-- How the sync selects the folder. -/
def openMode {chrono : Chrono} {ι : Type} (who : ι) (folder : Folder)
    (world : World chrono ι) : SelectMode :=
  selectMode (world.session who)
    (folder.uidValidity.map fun validity => (validity, folder.highestModseq))

/-- The cache holds the window: it is cached, nothing cached from its bound on
is gone, and its clean rows carry the server's flags. -/
structure HoldsWindow (mailbox : Mailbox) (folder : Folder)
    (window : Option Nat) (db : Db) : Prop where
  cached : ∀ uid ∈ mailbox.newest window, (db.message? folder.id uid).isSome
  there : ∀ uid, mailbox.searchFloor window ≤ uid →
    (db.message? folder.id uid).isSome → uid ∈ mailbox.uids
  flags : ∀ mail ∈ mailbox.mails, mail.uid ∈ mailbox.newest window →
    ∀ row, db.message? folder.id mail.uid = some row →
      row.flagsDirty = false → Carries (folder.role = .trash) mail row

/-- A clean row of the window whose flags differ has changed since the stored
mod-sequence. -/
def ChangedSince (mailbox : Mailbox) (folder : Folder) (window : Option Nat)
    (db : Db) : Prop :=
  ∀ mail ∈ mailbox.mails, mail.uid ∈ mailbox.newest window →
    ∀ row, db.message? folder.id mail.uid = some row →
      row.flagsDirty = false → Carries (folder.role = .trash) mail row ∨
        folder.highestModseq < mail.modseq

/-- The signs a window sync goes by are true of the cache. -/
structure SignsHold {chrono : Chrono} {ι : Type} (who : ι) (folder : Folder)
    (mailbox : Mailbox) (window : Option Nat) (world : World chrono ι) :
    Prop where
  /-- A folder that looks unchanged holds its window. -/
  unchanged : folderUnchanged folder (selectReply mailbox .plain)
      (Messages.listUids folder.id world.db).length window →
    HoldsWindow mailbox folder window world.db
  /-- With CONDSTORE, what differs has changed since. -/
  since : (world.session who).condstore = true → 0 < folder.highestModseq →
    ChangedSince mailbox folder window world.db

section Sync

variable {chrono : Chrono} {crates : Crates} {ι : Type} [DecidableEq ι]
  {who : ι} {env : Environment} {folder : Folder} {place : Place}
  {mailbox : Mailbox} {world : World chrono ι} {window : Option Nat}

omit [DecidableEq ι] in
theorem Openable.get (able : Openable who folder mailbox world) :
    Folders.get folder.id world.db = .ok folder := by
  unfold Folders.get
  rw [able.cached]

omit [DecidableEq ι] in
theorem Openable.account (able : Openable who folder mailbox world) :
    folder.accountId ∈ world.db.accounts :=
  world.db.folderOwned folder (Table.mem_of_find? able.cached).1

omit [DecidableEq ι] in
theorem Openable.same (able : Openable who folder mailbox world)
    (mode : SelectMode) :
    validityDiffers folder (selectReply mailbox mode) = false := by
  unfold validityDiffers selectReply
  rw [Option.any_some, Option.any_eq_false]
  intro stored known
  simp [able.validity stored known]

/-! ## Opening the folder -/

/-- What the sync knows once it has opened the folder. -/
structure WindowOpened (env : Environment) (who : ι) (folder : Folder)
    (mailbox : Mailbox) (mode : SelectMode) (world after : World chrono ι)
    (opened : Opened) : Prop where
  read : opened.folder = folder
  unchanged : opened.validityChanged = false
  reported : opened.reply = selectReply mailbox mode ∨
    opened.reply = selectReply mailbox .plain
  cached : opened.localUids = Messages.listUids folder.id after.db
  works : At who folder.place mailbox after
  condstore : (after.session who).condstore = true →
    (world.session who).condstore = true
  trimmed : Trimmed folder.id (fun uid =>
    inRanges opened.reply.vanished uid ∧ uid ∉ mailbox.uids) world.db after.db
  untouched : opened.reply.vanished = [] → after.db = world.db
  surely : env.sure → opened.reply = selectReply mailbox mode ∧
    (after.session who).condstore = (world.session who).condstore

theorem folderGet_yields
    (able : Openable who folder mailbox world) :
    Yields (respond chrono who) env.calm env.sure
      (perform chrono (.folderGet folder.id)) world fun found after =>
        found = folder ∧ after = world := by
  refine (statement_yields rfl (fun _ => rfl) fun _ => ?_).mono ?_
  · rw [able.get]
    rfl
  · rintro found _ ⟨same, rfl⟩
    exact ⟨Except.ok.inj (same.symm.trans able.get), rfl⟩

theorem accountGet_yields
    (able : Openable who folder mailbox world) :
    Yields (respond chrono who) env.calm env.sure
      (perform chrono (.accountGet folder.accountId)) world
      fun _ after => after = world := by
  refine (statement_yields rfl (fun _ => rfl) fun _ => ?_).mono ?_
  · rw [if_pos able.account]
    rfl
  · exact fun _ _ both => both.2

/-- What follows the SELECT. -/
theorem listWindow_yields {reached : World chrono ι} {reply : SelectResult}
    {mode : SelectMode} {under : Environment}
    (able : Openable who folder mailbox world)
    (opens : Opens under who folder.place mailbox mode world reached reply) :
    Yields (respond chrono who) env.calm env.sure (do
      let oldUids ← (if validityDiffers folder reply then
        perform chrono (.listUids folder.id) else pure [])
      let expunged ← (if reply.vanished = [] then pure 0
        else dropVanished chrono folder.id reply.vanished)
      let cached ← perform chrono (.listUids folder.id)
      return {
        folder := folder
        reply := reply
        validityChanged := validityDiffers folder reply
        oldUids := oldUids
        localUids := cached.filter fun uid =>
          !validityDiffers folder reply || uid ∉ oldUids
        expunged := expunged }) reached fun opened after =>
      WindowOpened under who folder mailbox mode world after opened ∧
        opened.reply = reply := by
  have same : validityDiffers folder reply = false := by
    rcases opens.reported with rfl | rfl <;> exact able.same _
  rw [same, if_neg Bool.false_ne_true]
  have drops : Yields (respond chrono who) env.calm env.sure
      (if reply.vanished = [] then pure 0
        else dropVanished chrono folder.id reply.vanished) reached
      fun _ after => Local reached after ∧ Trimmed folder.id (fun uid =>
        inRanges reply.vanished uid ∧ uid ∉ mailbox.uids) reached.db
          after.db ∧ (reply.vanished = [] → after.db = reached.db) := by
    split
    · next nothing =>
      refine yields_pure ⟨⟨rfl, rfl⟩, ?_, fun _ => rfl⟩
      exact (Trimmed.nothing _ _).congr fun uid _ => by
        simp [nothing, inRanges]
    · next named =>
      exact (dropVanished_yields opens.works _).mono fun _ _ both =>
        ⟨both.1, both.2, fun nothing => absurd nothing named⟩
  have lists : Yields (respond chrono who) env.calm env.sure
      (pure [] : ImapProgram chrono (List Nat)) reached fun old after =>
        old = [] ∧ after = reached := yields_pure ⟨rfl, rfl⟩
  refine lists.bind ?_
  rintro _ _ ⟨rfl, rfl⟩
  refine drops.bind ?_
  rintro expunged later ⟨stays, trimmed, untouched⟩
  refine (listUids_yields later folder.id).bind ?_
  rintro cached _ ⟨rfl, rfl⟩
  refine yields_pure ⟨?_, rfl⟩
  refine ⟨rfl, rfl, opens.reported, by simp,
    opens.works.congr stays.server stays.session, ?_, opens.db ▸ trimmed,
    fun nothing => (untouched nothing).trans opens.db, ?_⟩
  · rw [stays.session]
    exact opens.condstore
  · rw [stays.session]
    exact opens.surely

theorem openWindow_yields
    (able : Openable who folder mailbox world) :
    Yields (respond chrono who) env.calm env.sure
      (openWindow chrono folder.id) world fun opened after =>
        WindowOpened env who folder mailbox (openMode who folder world) world
          after opened := by
  rw [openWindow_eq]
  refine (folderGet_yields able).bind ?_
  rintro found reached ⟨same, here⟩
  rw [same, here]
  refine (accountGet_yields able).bind ?_
  rintro _ reached here
  rw [here]
  refine (select_yields able.server able.usable _).bind
    fun reply reached opens => ?_
  exact (listWindow_yields able opens).mono fun _ _ both => both.1

/-! ## Clearing the window -/

omit [DecidableEq ι] in
theorem mem_flatMap_named {pieces : List (List Nat)} {mail : Mail} :
    mail ∈ pieces.flatMap mailbox.named ↔
      mail ∈ mailbox.mails ∧ mail.uid ∈ pieces.flatten := by
  simp only [List.mem_flatMap, Mailbox.named, List.mem_filter,
    decide_eq_true_eq, List.mem_flatten]
  constructor
  · rintro ⟨piece, member, there, inside⟩
    exact ⟨there, piece, member, inside⟩
  · rintro ⟨there, piece, member, inside⟩
    exact ⟨piece, member, there, inside⟩

/-- What the full sync leaves of the rows it found when it opened the folder,
before it sweeps the Trash. -/
structure Cleared (env : Environment) (mailbox : Mailbox) (folder : Folder)
    (window : Option Nat) (condstore : Bool) (before after : Db) : Prop where
  folders : after.folders = before.folders
  recent : ∀ uid, mailbox.searchFloor window ≤ uid →
    ((after.message? folder.id uid).isSome ↔ uid ∈ mailbox.newest window ∨
      (before.message? folder.id uid).isSome ∧ uid ∈ mailbox.uids)
  older : ∀ uid, uid < mailbox.searchFloor window →
    ((after.message? folder.id uid).isSome ↔
      (before.message? folder.id uid).isSome)
  /-- What was cached of the window is refreshed, except for what has not
  changed since the stored mod-sequence. -/
  kept : ∀ mail ∈ mailbox.mails, mail.uid ∈ mailbox.newest window →
    ∀ row, before.message? folder.id mail.uid = some row →
      after.message? folder.id mail.uid =
          some (freshen mailbox (folder.role = .trash) row) ∨
        after.message? folder.id mail.uid = some row ∧
          condstore = true ∧ 0 < folder.highestModseq ∧
          mail.modseq ≤ folder.highestModseq
  /-- That is as it was, when nothing fails. -/
  stale : env.sure → condstore = true → 0 < folder.highestModseq →
    ∀ mail ∈ mailbox.mails, mail.uid ∈ mailbox.newest window →
    mail.modseq ≤ folder.highestModseq →
    ∀ row, before.message? folder.id mail.uid = some row →
      after.message? folder.id mail.uid = some row
  stored : ∀ mail ∈ mailbox.mails, mail.uid ∈ mailbox.newest window →
    before.message? folder.id mail.uid = none →
    ∃ row, after.message? folder.id mail.uid = some row ∧
      row.flagsDirty = false ∧ Carries (folder.role = .trash) mail row

omit [DecidableEq ι] in
/-- Refreshing, fetching and expunging together. -/
theorem cleared_of_parts {opened : Opened} {found : List Nat × Nat}
    {mode : SelectMode} {start refreshed stocked after : World chrono ι}
    {pieces : List (List Nat)}
    (opens : WindowOpened env who folder mailbox mode start world opened)
    (all : Found mailbox (mailbox.searchFloor window) found)
    (refreshes : WindowRefreshed env who folder.place mailbox folder.id window
      opened world refreshed)
    (asked : ∀ uid, uid ∈ pieces.flatten ↔ uid ∈ missingUids opened found.1
      (relevantUids window found.1))
    (stocks : Stocked crates (folder.role = .trash) folder.id
      (pieces.flatMap mailbox.named) refreshed.db stocked.db)
    (trims : Trimmed folder.id (fun uid => uid ∈ opened.localUids ∧
      found.2 ≤ uid ∧ uid ∉ found.1) stocked.db after.db) :
    Cleared env mailbox folder window (world.session who).condstore world.db
      after.db := by
  obtain ⟨told, fresh, changed, surely⟩ := refreshes.told
  rw [opens.read] at fresh changed surely
  have listed : ∀ uid, uid ∈ opened.localUids ↔
      (world.db.message? folder.id uid).isSome := by
    intro uid
    rw [opens.cached, mem_listUids]
  have foundIff : ∀ uid, uid ∈ found.1 ↔
      uid ∈ mailbox.uids ∧ mailbox.searchFloor window ≤ uid := by
    intro uid
    rw [all.uids.mem_iff, Mailbox.mem_above]
  have missing : ∀ uid, uid ∈ pieces.flatten ↔
      uid ∈ mailbox.newest window ∧ world.db.message? folder.id uid = none := by
    intro uid
    rw [asked]
    unfold missingUids
    rw [(List.mergeSort_perm _ _).mem_iff, List.mem_filter, Bool.and_eq_true,
      decide_eq_true_eq, listed, Option.not_isSome_iff_eq_none]
    constructor
    · rintro ⟨there, absent, inside⟩
      exact ⟨(inWindow_iff all there).mp inside, absent⟩
    · rintro ⟨inside, absent⟩
      have there : uid ∈ found.1 :=
        all.uids.mem_iff.mpr (Mailbox.newest_subset window inside)
      exact ⟨there, absent, (inWindow_iff all there).mpr inside⟩
  -- the rows, one step at a time
  have first : ∀ uid, (refreshed.db.message? folder.id uid).isSome ↔
      (world.db.message? folder.id uid).isSome := by
    intro uid
    by_cases now : told uid
    · rw [fresh.fresh uid now, Option.isSome_map]
    · rw [fresh.others uid now]
  have storedIff : ∀ uid, (stocked.db.message? folder.id uid).isSome ↔
      uid ∈ mailbox.newest window ∨
        (world.db.message? folder.id uid).isSome := by
    intro uid
    by_cases fetched : uid ∈ mailbox.newest window ∧
        world.db.message? folder.id uid = none
    · obtain ⟨mail, member, rfl⟩ :=
        Mailbox.mem_uids.mp (Mailbox.mem_uids_of_mem_newest fetched.1)
      obtain ⟨row, here, _⟩ := stocks.own mail
        (mem_flatMap_named.mpr ⟨member, (missing _).mpr fetched⟩)
      simp [here, fetched.1]
    · rw [stocks.others uid, first]
      · refine ⟨.inr, fun either => either.elim (fun inside => ?_) id⟩
        by_contra absent
        exact fetched ⟨inside, Option.not_isSome_iff_eq_none.mp absent⟩
      · rintro mail member rfl
        exact fetched ((missing _).mp (mem_flatMap_named.mp member).2)
  have afterIff : ∀ uid, (after.db.message? folder.id uid).isSome ↔
      (uid ∈ mailbox.newest window ∨
        (world.db.message? folder.id uid).isSome) ∧
      ¬((world.db.message? folder.id uid).isSome ∧
        mailbox.searchFloor window ≤ uid ∧ uid ∉ found.1) := by
    intro uid
    rw [← storedIff]
    by_cases gone : uid ∈ opened.localUids ∧ found.2 ≤ uid ∧ uid ∉ found.1
    · rw [trims.removed uid gone]
      rw [listed, all.reached] at gone
      simp [gone]
    · rw [trims.others uid gone]
      rw [listed, all.reached] at gone
      simp [gone]
  have inWindowKept : ∀ mail ∈ mailbox.mails,
      mail.uid ∈ mailbox.newest window → ∀ row,
      world.db.message? folder.id mail.uid = some row →
      after.db.message? folder.id mail.uid =
        refreshed.db.message? folder.id mail.uid := by
    intro mail member inside row here
    rw [trims.others, stocks.others]
    · rintro other otherMember same
      have fetched := (missing _).mp (mem_flatMap_named.mp otherMember).2
      rw [same, here] at fetched
      cases fetched.2
    · rintro ⟨_, _, absent⟩
      exact absent (all.uids.mem_iff.mpr (Mailbox.newest_subset window inside))
  constructor
  · exact trims.folders.trans (stocks.folders.trans fresh.folders)
  · intro uid above
    rw [afterIff, foundIff]
    constructor
    · rintro ⟨either, kept⟩
      refine either.imp_right fun cached => ⟨cached, ?_⟩
      by_contra absent
      exact kept ⟨cached, above, fun there => absent there.1⟩
    · rintro (inside | ⟨cached, there⟩)
      · exact ⟨.inl inside, fun gone =>
          gone.2.2 ⟨Mailbox.mem_uids_of_mem_newest inside, above⟩⟩
      · exact ⟨.inr cached, fun gone => gone.2.2 ⟨there, above⟩⟩
  · intro uid below
    rw [afterIff]
    have outside : uid ∉ mailbox.newest window := fun inside =>
      Nat.not_le_of_lt below (Mailbox.searchFloor_le_of_mem_newest inside)
    constructor
    · rintro ⟨either, _⟩
      exact either.resolve_left outside
    · intro cached
      exact ⟨.inr cached, fun gone => Nat.not_le_of_lt below gone.2.1⟩
  · intro mail member inside row here
    rw [inWindowKept mail member inside row here]
    by_cases now : told mail.uid
    · rw [fresh.fresh _ now, here]
      exact .inl rfl
    · rw [fresh.others _ now, here]
      refine .inr ⟨rfl, ?_⟩
      have untold := fun newer => now (changed mail member
        ((listed _).mpr (by rw [here]; rfl)) inside newer)
      refine ⟨?_, ?_, ?_⟩
      · by_contra off
        exact untold (.inl (Bool.eq_false_iff.mpr off))
      · by_contra zero
        exact untold (.inr (.inl (by omega)))
      · by_contra newer
        exact untold (.inr (.inr (by omega)))
  · intro certain on positive mail member inside old row here
    rw [inWindowKept mail member inside row here, fresh.others, here]
    intro now
    have newer := surely certain on positive mail member inside now
    omega
  · intro mail member inside absent
    obtain ⟨row, here, _, flags⟩ := stocks.own mail
      (mem_flatMap_named.mpr ⟨member, (missing _).mpr ⟨inside, absent⟩⟩)
    refine ⟨row, ?_, flags ?_⟩
    · rw [trims.others, here]
      rintro ⟨cached, _⟩
      rw [listed, absent] at cached
      cases cached
    · intro old was
      have none_ := (first mail.uid).mp (by rw [was]; rfl)
      rw [absent] at none_
      cases none_

/-! ## Closing the window -/

omit [DecidableEq ι] in
theorem setSyncState_ok {db : Db} {stored : Folder}
    (known : db.folders.find? folder.id = some stored)
    (uidValidity uidNext total modseq : Nat) :
    (Folders.setSyncState folder.id uidValidity uidNext total modseq
      db).1.isOk := by
  unfold Folders.setSyncState Folders.get
  rw [known]
  rfl

/-- The state is recorded beside the messages. -/
theorem recordState_yields (report : SyncReport)
    (uidValidity uidNext total modseq : Nat)
    (known : (world.db.folders.find? folder.id).isSome) :
    Yields (respond chrono who) env.calm env.sure (do
      perform chrono
        (.setSyncState folder.id uidValidity uidNext total modseq)
      return report) world fun _ after => ∀ uid,
        after.db.message? folder.id uid =
          world.db.message? folder.id uid := by
  obtain ⟨stored, found⟩ := Option.isSome_iff_exists.mp known
  refine (statement_yields rfl (fun _ => rfl) fun _ =>
    setSyncState_ok found uidValidity uidNext total modseq).bind ?_
  rintro _ _ ⟨_, rfl⟩
  exact yields_pure fun _ => rfl

/-- The end of a window sync sweeps the Trash and records the state. -/
theorem closeWindow_yields (report : SyncReport)
    (uidValidity uidNext total modseq : Nat)
    (known : (world.db.folders.find? folder.id).isSome) :
    Yields (respond chrono who) env.calm env.sure (do
      if decide (folder.role = .trash) then sweepTrashSeen chrono folder.id
      perform chrono
        (.setSyncState folder.id uidValidity uidNext total modseq)
      return report) world fun _ after => ∀ uid,
        SweptRow (world.db.message? folder.id uid)
          (after.db.message? folder.id uid) ∧
        (folder.role ≠ .trash → after.db.message? folder.id uid =
          world.db.message? folder.id uid) := by
  split
  · next trash =>
    have sweeps : Yields (respond chrono who) env.calm env.sure
        (sweepTrashSeen chrono folder.id) world fun _ after =>
          Swept folder.id world.db after.db :=
      (((sweepTrashSeen_leads folder.id world).strict
        fun _ _ => trivial).yields fun _ _ done _ => done.1 ▸ rfl).mono
          fun _ _ done => done.2
    refine sweeps.bind fun _ reached swept => ?_
    refine (recordState_yields report _ _ _ _ (swept.folders ▸ known)).mono
      fun _ after same uid => ⟨?_, fun other => absurd ?_ other⟩
    · rw [same uid]
      exact swept.rows uid
    · simpa using trash
  · exact (recordState_yields report _ _ _ _ known).mono
      fun _ after same uid => ⟨.inl (same uid), fun _ => same uid⟩

/-- The database refuses the statement. -/
def refusing : Answer := ⟨some "", .answered, [], none, []⟩

/-- With its listing refused the Trash is not swept. -/
theorem closeWindow_reaches (report : SyncReport)
    (uidValidity uidNext total modseq : Nat)
    (known : (world.db.folders.find? folder.id).isSome) :
    Reaches (respond chrono who) Environment.any.calm (do
      if decide (folder.role = .trash) then sweepTrashSeen chrono folder.id
      perform chrono
        (.setSyncState folder.id uidValidity uidNext total modseq)
      return report) world fun result after => result.isOk ∧ ∀ uid,
        after.db.message? folder.id uid =
          world.db.message? folder.id uid := by
  have plainly : Yields (respond chrono who) Environment.plain.calm True (do
      perform chrono
        (.setSyncState folder.id uidValidity uidNext total modseq)
      return report) world fun _ after => ∀ uid,
        after.db.message? folder.id uid = world.db.message? folder.id uid :=
    recordState_yields report _ _ _ _ known
  have records : Reaches (respond chrono who) Environment.any.calm (do
      perform chrono
        (.setSyncState folder.id uidValidity uidNext total modseq)
      return report) world fun result after => result.isOk ∧ ∀ uid,
        after.db.message? folder.id uid =
          world.db.message? folder.id uid := by
    refine (plainly.reaches Environment.plain_plain
      Environment.any_of_plain).mono ?_
    rintro _ after ⟨value, rfl, same⟩
    exact ⟨rfl, same⟩
  split
  · have refused : Reaches (respond chrono who) Environment.any.calm
        (sweepTrashSeen chrono folder.id) world fun result after =>
          result = .ok () ∧ after = world :=
      ⟨fun _ => refusing, fun _ => rfl, rfl, rfl⟩
    refine refused.bind ?_ ?_
    · rintro _ _ ⟨_, rfl⟩
      exact records
    · rintro _ _ ⟨⟨⟩, _⟩
  · exact records

/-! ## The whole sync -/

omit [DecidableEq ι] in
/-- The reply announces the mailbox's UIDNEXT. -/
theorem WindowOpened.uidNext {mode : SelectMode} {start : World chrono ι}
    {opened : Opened}
    (opens : WindowOpened env who folder mailbox mode start world opened) :
    opened.reply.uidNext = mailbox.uidNext := by
  rcases opens.reported with reported | reported <;> rw [reported] <;> rfl

omit [DecidableEq ι] in
theorem mem_chunks_missing {opened : Opened} {found : List Nat × Nat}
    (uid : Nat) :
    uid ∈ (Data.chunks fetchChunk (missingUids opened found.1
        (relevantUids window found.1))).flatten ↔
      uid ∈ missingUids opened found.1 (relevantUids window found.1) := by
  rw [Data.flatten_chunks]

omit [DecidableEq ι] in
/-- After the flag refresh the folder is still there to store messages in. -/
theorem Syncable.sound {mode : SelectMode} {start refreshed : World chrono ι}
    {opened : Opened} (able : Syncable crates who folder mailbox start)
    (opens : WindowOpened env who folder mailbox mode start world opened)
    (refreshes : WindowRefreshed env who folder.place mailbox folder.id window
      opened world refreshed) (pieces : List (List Nat)) :
    (∃ row ∈ refreshed.db.folders.rows, row.id = folder.id) ∧
      ∀ mail ∈ pieces.flatMap mailbox.named,
        (crates.readMail mail.raw).isSome := by
  obtain ⟨_, fresh, _⟩ := refreshes.told
  refine ⟨⟨folder, ?_, rfl⟩, fun mail member =>
    able.readable mail (mem_flatMap_named.mp member).1⟩
  rw [fresh.folders, opens.trimmed.folders]
  exact (Table.mem_of_find? able.cached).1

/-- The full sync clears the window and closes it. -/
theorem syncWindow_yields {opened : Opened} {mode : SelectMode}
    {start : World chrono ι}
    (able : Syncable crates who folder mailbox start)
    (opens : WindowOpened env who folder mailbox mode start world opened) :
    Yields (respond chrono who) env.calm env.sure
      (syncWindow chrono crates folder.id window opened) world fun _ after =>
        ∃ cleared : World chrono ι, Cleared env mailbox folder window
            (world.session who).condstore world.db cleared.db ∧
          ∀ uid, SweptRow (cleared.db.message? folder.id uid)
              (after.db.message? folder.id uid) ∧
            (folder.role ≠ .trash → after.db.message? folder.id uid =
              cleared.db.message? folder.id uid) := by
  have known : (world.db.folders.find? folder.id).isSome := by
    rw [opens.trimmed.folders, able.cached]
    rfl
  have uidNext := opens.uidNext
  obtain ⟨read, reply, changed, oldUids, localUids, expunged⟩ := opened
  obtain rfl : read = folder := opens.read
  obtain rfl : changed = false := opens.unchanged
  unfold syncWindow
  dsimp only at uidNext ⊢
  rw [uidNext]
  simp only [Bool.false_eq_true, if_false]
  refine (searchRecentUids_yields opens.works able.numbered window).bind ?_
  rintro found _ ⟨rfl, all⟩
  refine (refreshFlags_yields opens.works opens.unchanged all).bind
    fun _ refreshed refreshes => ?_
  refine (fetchEach_yields _ refreshes.works able.numbered
    fun _ => able.sound opens refreshes _).bind ?_
  rintro fetched stocked ⟨_, stays, stocks⟩
  refine (expungeEach_yields found.2 found.1 localUids).bind ?_
  rintro removed cleared ⟨_, trims⟩
  have clears := cleared_of_parts opens all refreshes mem_chunks_missing stocks
    trims
  refine (closeWindow_yields _ _ _ _ _ ?_).mono fun _ after closes =>
    ⟨cleared, clears, closes⟩
  rw [clears.folders]
  exact known

/-- The full sync succeeds when nothing fails but the listing of the Trash,
which is then not swept. -/
theorem syncWindow_reaches {opened : Opened} {mode : SelectMode}
    {start : World chrono ι}
    (able : Syncable crates who folder mailbox start)
    (opens : WindowOpened .plain who folder mailbox mode start world opened) :
    Reaches (respond chrono who) Environment.any.calm
      (syncWindow chrono crates folder.id window opened) world
      fun result after => result.isOk ∧ ∃ cleared : World chrono ι,
        Cleared .plain mailbox folder window
            (world.session who).condstore world.db cleared.db ∧
          ∀ uid, after.db.message? folder.id uid =
            cleared.db.message? folder.id uid := by
  have known : (world.db.folders.find? folder.id).isSome := by
    rw [opens.trimmed.folders, able.cached]
    rfl
  have uidNext := opens.uidNext
  obtain ⟨read, reply, changed, oldUids, localUids, expunged⟩ := opened
  obtain rfl : read = folder := opens.read
  obtain rfl : changed = false := opens.unchanged
  unfold syncWindow
  dsimp only at uidNext ⊢
  rw [uidNext]
  simp only [Bool.false_eq_true, if_false]
  refine Yields.reaches_bind
    (searchRecentUids_yields opens.works able.numbered window)
    Environment.plain_plain Environment.any_of_plain ?_
  rintro found _ ⟨rfl, all⟩
  refine Yields.reaches_bind
    (refreshFlags_yields opens.works opens.unchanged all)
    Environment.plain_plain Environment.any_of_plain
    fun _ refreshed refreshes => ?_
  refine Yields.reaches_bind
    (fetchEach_yields _ refreshes.works able.numbered
      fun _ => able.sound opens refreshes _)
    Environment.plain_plain Environment.any_of_plain ?_
  rintro fetched stocked ⟨_, stays, stocks⟩
  refine Yields.reaches_bind (expungeEach_yields found.2 found.1 localUids)
    Environment.plain_plain Environment.any_of_plain ?_
  rintro removed cleared ⟨_, trims⟩
  have clears := cleared_of_parts opens all refreshes mem_chunks_missing stocks
    trims
  refine (closeWindow_reaches _ _ _ _ _ ?_).mono fun _ after closes =>
    ⟨closes.1, cleared, clears, closes.2⟩
  rw [clears.folders]
  exact known

/-- The fast path closes the window at once. -/
theorem skipWindow_eq {opened : Opened} (read : opened.folder = folder) :
    skipWindow chrono folder.id opened = (do
      if decide (folder.role = .trash) then sweepTrashSeen chrono folder.id
      perform chrono (.setSyncState folder.id
        (opened.reply.uidValidity.getD (folder.uidValidity.getD 0))
        (opened.reply.uidNext.getD (folder.uidNext.getD 0))
        opened.reply.exists_
        (opened.reply.highestModseq.getD folder.highestModseq))
      return ⟨0, 0⟩) := by
  obtain ⟨_, reply, changed, oldUids, localUids, expunged⟩ := opened
  subst read
  unfold skipWindow
  simp only [decide_eq_true_eq]

omit [DecidableEq ι] in
theorem freshen_of_dirty {isTrash : Bool} {row : Message}
    (dirty : row.flagsDirty = true) : freshen mailbox isTrash row = row := by
  unfold freshen
  rw [if_pos dirty]

omit [DecidableEq ι] in
/-- A row that carries its flags, or waits to be pushed, is not swept. -/
theorem SweptRow.carries {mail : Mail} {old row : Message}
    {before after : Option Message} {isTrash : Bool}
    (swept : SweptRow before after) (trash : isTrash = false → after = before)
    (was : before = some old)
    (either : old.flagsDirty = true ∨ Carries isTrash mail old)
    (now : after = some row) (clean : row.flagsDirty = false) :
    Carries isTrash mail row := by
  have same : after = before := by
    rcases swept with same | ⟨other, _, here, unread, wasClean, _⟩
    · exact same
    cases was.symm.trans here
    rcases either with dirty | carries
    · rw [wasClean] at dirty
      cases dirty
    · cases isTrash with
      | false => exact trash rfl
      | true =>
          have read : old.isRead = (shown true mail.flags).1 :=
            congrArg Prod.fst carries
          simp [unread, shown] at read
  rw [same, was] at now
  cases now
  refine either.resolve_left fun dirty => ?_
  rw [clean] at dirty
  cases dirty

omit [DecidableEq ι] in
/-- Where the signs hold, the full sync leaves what it should. -/
theorem Cleared.windowSynced {opened : Opened} {mode : SelectMode}
    {start cleared after : World chrono ι}
    (opens : WindowOpened env who folder mailbox mode start world opened)
    (signs : SignsHold who folder mailbox window start)
    (clears : Cleared env mailbox folder window
      (world.session who).condstore world.db cleared.db)
    (closes : ∀ uid, SweptRow (cleared.db.message? folder.id uid)
        (after.db.message? folder.id uid) ∧
      (folder.role ≠ .trash → after.db.message? folder.id uid =
        cleared.db.message? folder.id uid)) :
    WindowSynced mailbox folder window (selectReply mailbox mode).vanished
      start.db after.db where
  recent uid above := by
    rw [(closes uid).1.isSome_iff, clears.recent uid above]
    refine or_congr_right (and_congr_left fun there => ?_)
    rw [opens.trimmed.others uid fun gone => gone.2 there]
  older uid below cached := by
    rw [(closes uid).1.isSome_iff, clears.older uid below]
    by_cases gone : inRanges opened.reply.vanished uid ∧ uid ∉ mailbox.uids
    · refine .inr ?_
      rcases opens.reported with reported | reported
      · rw [← reported]
        exact gone.1
      · rw [reported] at gone
        simp [selectReply, inRanges] at gone
    · rw [opens.trimmed.others uid gone]
      exact .inl cached
  flags mail member inside row here clean := by
    have stays : start.db.message? folder.id mail.uid =
        world.db.message? folder.id mail.uid :=
      (opens.trimmed.others mail.uid fun gone =>
        gone.2 (Mailbox.mem_uids_of_mem member)).symm
    -- the row before the Trash is swept carries the flags or is dirty
    have before : ∃ old, cleared.db.message? folder.id mail.uid = some old ∧
        (old.flagsDirty = true ∨ Carries (folder.role = .trash) mail old) := by
      cases was : world.db.message? folder.id mail.uid with
      | none =>
          obtain ⟨old, now, _, carries⟩ := clears.stored mail member inside was
          exact ⟨old, now, .inr carries⟩
      | some old =>
          obtain ⟨_, _, sameUid⟩ := Db.mem_of_message? was
          cases dirty : old.flagsDirty with
          | true =>
              refine ⟨old, ?_, .inl dirty⟩
              rcases clears.kept mail member inside old was with now | now
              · rw [now, freshen_of_dirty dirty]
              · exact now.1
          | false =>
              rcases clears.kept mail member inside old was with now | now
              · exact ⟨_, now, .inr (carries_freshen member sameUid.symm dirty)⟩
              · obtain ⟨now, on, positive, unmoved⟩ := now
                refine ⟨old, now, .inr ?_⟩
                refine (signs.since (opens.condstore on) positive mail member
                  inside old (stays.trans was) dirty).resolve_right ?_
                omega
    obtain ⟨old, was, either⟩ := before
    exact (closes mail.uid).1.carries
      (fun other => (closes mail.uid).2 (of_decide_eq_false other)) was either
      here clean

/-! ## When the signs hold -/

omit [DecidableEq ι] in
/-- What holds the window already is left as it should be. -/
theorem HoldsWindow.windowSynced {vanished : List (Nat × Nat)}
    {before after : Db} (holds : HoldsWindow mailbox folder window before)
    (closes : ∀ uid, SweptRow (before.message? folder.id uid)
        (after.message? folder.id uid) ∧
      (folder.role ≠ .trash → after.message? folder.id uid =
        before.message? folder.id uid)) :
    WindowSynced mailbox folder window vanished before after where
  recent uid above := by
    rw [(closes uid).1.isSome_iff]
    constructor
    · exact fun cached => .inr ⟨cached, holds.there uid above cached⟩
    · exact fun either => either.elim (holds.cached uid) And.left
  older uid _ cached := .inl ((closes uid).1.isSome_iff.mpr cached)
  flags mail member inside row here clean := by
    have was := (closes mail.uid).1.isSome_iff.mp (by rw [here]; rfl)
    obtain ⟨old, was⟩ := Option.isSome_iff_exists.mp was
    refine (closes mail.uid).1.carries
      (fun other => (closes mail.uid).2 (of_decide_eq_false other)) was ?_ here
      clean
    cases dirty : old.flagsDirty with
    | true => exact .inl rfl
    | false => exact .inr (holds.flags mail member inside old was dirty)

omit [DecidableEq ι] in
/-- The sync takes its fast path when nothing is named as vanished and the
folder looks unchanged. -/
theorem WindowOpened.unchanged_iff {opened : Opened} {mode : SelectMode}
    {start : World chrono ι}
    (opens : WindowOpened env who folder mailbox mode start world opened) :
    opened.unchanged window ↔ opened.reply.vanished = [] ∧
      folderUnchanged folder (selectReply mailbox .plain)
        (Messages.listUids folder.id start.db).length window := by
  have form : ∀ count, folderUnchanged folder opened.reply count window =
      folderUnchanged folder (selectReply mailbox .plain) count window := by
    intro count
    rcases opens.reported with reported | reported
    all_goals rw [reported]
    rfl
  unfold Opened.unchanged
  rw [opens.unchanged, opens.read, form, opens.cached, Bool.not_false,
    Bool.true_and, Bool.and_eq_true, List.isEmpty_iff]
  refine and_congr_right fun nothing => ?_
  rw [opens.untouched nothing]

theorem syncFolderWindow_yields
    (able : Syncable crates who folder mailbox world)
    (signs : SignsHold who folder mailbox window world) :
    Yields (respond chrono who) env.calm env.sure
      (syncFolderWindow chrono crates folder.id window) world fun _ after =>
        WindowSynced mailbox folder window
          (selectReply mailbox (openMode who folder world)).vanished world.db
          after.db := by
  unfold syncFolderWindow
  refine (openWindow_yields able.toOpenable).bind fun opened reached opens => ?_
  split
  · next unchanged =>
    obtain ⟨nothing, unchanged⟩ := opens.unchanged_iff.mp unchanged
    have same := opens.untouched nothing
    rw [skipWindow_eq opens.read]
    refine (closeWindow_yields _ _ _ _ _ ?_).mono fun _ after closes => ?_
    · rw [same, able.cached]
      rfl
    · rw [same] at closes
      exact (signs.unchanged unchanged).windowSynced closes
  · refine (syncWindow_yields able opens).mono ?_
    rintro _ after ⟨cleared, clears, closes⟩
    exact clears.windowSynced opens signs closes

/-! ## When they do not -/

/-- The server refuses the command. -/
def declining : Answer := ⟨none, .refused "", [], none, []⟩

/-- With the extended SELECT refused the folder is selected plainly. -/
theorem select_reaches (there : world.server place = some mailbox)
    (usable : (world.session who).broken = false)
    (qresync : Option (Nat × Nat)) :
    Reaches (respond chrono who) Environment.any.calm
      (select chrono place qresync) world fun result _ =>
        ∃ reply, result = .ok reply ∧ reply.vanished = [] := by
  unfold select
  refine Yields.reaches_bind (session_yields world)
    Environment.plain_plain Environment.any_of_plain ?_
  rintro session _ ⟨rfl, here⟩
  rw [here]
  dsimp only
  generalize selectMode (world.session who) qresync = mode
  have first : Reaches (respond chrono who) Environment.any.calm
      (Fallible.attempt (perform chrono (.select place mode))) world
      fun result after =>
        (∃ reply, result = .ok (.ok reply) ∧ reply.vanished = []) ∨
        ∃ error, result = .ok (.error error) ∧ after = world ∧
          mode ≠ .plain := by
    by_cases nothing : (selectReply mailbox mode).vanished = []
    · have chosen := respond_select there usable mode Answer.plain
      refine Reaches.attempt (reaches_perform Answer.plain rfl (.inl ?_))
      have succeeds := chosen.answered rfl
      cases outcome : (respond chrono who (.select place mode) .plain
        world).1 with
      | error error =>
          rw [outcome] at succeeds
          cases succeeds
      | ok reply =>
          refine ⟨reply, rfl, ?_⟩
          rw [(chosen.succeeds reply outcome).1]
          exact nothing
    · have refused : respond chrono who (.select place mode) declining world =
          (.error (.network ""), world) := by
        simp only [respond, Call.isStatement, carryOut, Bool.false_eq_true,
          if_false]
        exact command_refused usable "" _
      refine Reaches.attempt (reaches_perform declining rfl (.inr ?_))
      rw [refused]
      refine ⟨_, rfl, rfl, ?_⟩
      rintro rfl
      exact nothing rfl
  refine first.bind ?_ ?_
  · rintro outcome reached (⟨reply, same, nothing⟩ | ⟨error, same, here, mode⟩)
    · cases same
      exact reaches_pure Answer.plain rfl ⟨reply, rfl, nothing⟩
    · cases same
      rw [here]
      dsimp only
      refine Yields.reaches_bind (session_yields world)
        Environment.plain_plain Environment.any_of_plain ?_
      rintro session _ ⟨rfl, here⟩
      rw [here, if_pos ⟨mode, by simp [usable]⟩]
      refine Yields.reaches_bind (useExtensions_yields false false)
        Environment.plain_plain Environment.any_of_plain ?_
      rintro _ plainer ⟨server, _, session⟩
      have chosen := @respond_select _ _ _ who _ _ _ (server ▸ there)
        (session ▸ usable) .plain Answer.plain
      refine reaches_perform Answer.plain rfl ?_
      have succeeds := chosen.answered rfl
      cases outcome : (respond chrono who (.select place .plain) .plain
        plainer).1 with
      | error error =>
          rw [outcome] at succeeds
          cases succeeds
      | ok reply =>
          refine ⟨reply, rfl, ?_⟩
          rw [(chosen.succeeds reply outcome).1]
          rfl
  · rintro error reached (⟨_, ⟨⟩, _⟩ | ⟨_, ⟨⟩, _⟩)

/-- The folder can be opened with nothing named as vanished. -/
theorem openWindow_reaches
    (able : Openable who folder mailbox world) :
    Reaches (respond chrono who) Environment.any.calm
      (openWindow chrono folder.id) world fun result after =>
        ∃ opened, result = .ok opened ∧ opened.reply.vanished = [] ∧
          WindowOpened .any who folder mailbox (openMode who folder world) world
            after opened := by
  rw [openWindow_eq]
  refine Yields.reaches_bind (folderGet_yields able)
    Environment.plain_plain Environment.any_of_plain ?_
  rintro found reached ⟨same, here⟩
  rw [same, here]
  refine Yields.reaches_bind (accountGet_yields able)
    Environment.plain_plain Environment.any_of_plain ?_
  rintro _ reached here
  rw [here]
  have selects : Yields (respond chrono who) Environment.any.calm False _ world
      _ := select_yields able.server able.usable
    (folder.uidValidity.map fun validity => (validity, folder.highestModseq))
  refine (selects.and_reaches (select_reaches able.server able.usable _)).bind
    ?_ ?_
  · rintro reply reached ⟨⟨holds, _⟩, _, ⟨⟩, nothing⟩
    have opens := holds reply rfl
    have lists : Yields (respond chrono who) Environment.plain.calm True _
        reached _ := listWindow_yields able opens
    refine (lists.reaches Environment.plain_plain
      Environment.any_of_plain).mono ?_
    rintro _ after ⟨opened, rfl, whole, same⟩
    exact ⟨opened, rfl, same ▸ nothing, whole⟩
  · rintro error reached ⟨_, _, ⟨⟩, _⟩

/-- A folder that looks unchanged can be left exactly as it is. -/
theorem skips_reaches (able : Syncable crates who folder mailbox world)
    (unchanged : folderUnchanged folder (selectReply mailbox .plain)
      (Messages.listUids folder.id world.db).length window) :
    Reaches (respond chrono who) Environment.any.calm
      (syncFolderWindow chrono crates folder.id window) world
      fun result after => result.isOk ∧ ∀ uid,
        after.db.message? folder.id uid = world.db.message? folder.id uid := by
  unfold syncFolderWindow
  refine (openWindow_reaches able.toOpenable).bind ?_ ?_
  · rintro _ reached ⟨opened, ⟨⟩, nothing, opens⟩
    have same := opens.untouched nothing
    rw [if_pos (opens.unchanged_iff.mpr ⟨nothing, unchanged⟩),
      skipWindow_eq opens.read]
    refine (closeWindow_reaches _ _ _ _ _ ?_).mono fun _ after closes => ?_
    · rw [same, able.cached]
      rfl
    · rwa [same] at closes
  · rintro error reached ⟨_, ⟨⟩, _⟩

/-- With CONDSTORE a row that has not changed since can be left as it is. -/
theorem stale_reaches (able : Syncable crates who folder mailbox world)
    (changed : ¬folderUnchanged folder (selectReply mailbox .plain)
      (Messages.listUids folder.id world.db).length window)
    (on : (world.session who).condstore = true)
    (positive : 0 < folder.highestModseq) {mail : Mail}
    (member : mail ∈ mailbox.mails)
    (inside : mail.uid ∈ mailbox.newest window)
    (unmoved : mail.modseq ≤ folder.highestModseq) {row : Message}
    (cached : world.db.message? folder.id mail.uid = some row) :
    Reaches (respond chrono who) Environment.any.calm
      (syncFolderWindow chrono crates folder.id window) world
      fun result after => result.isOk ∧
        after.db.message? folder.id mail.uid = some row := by
  unfold syncFolderWindow
  refine Yields.reaches_bind (openWindow_yields able.toOpenable)
    Environment.plain_plain Environment.any_of_plain
    fun opened reached opens => ?_
  rw [if_neg fun unchanged => changed (opens.unchanged_iff.mp unchanged).2]
  refine (syncWindow_reaches able opens).mono ?_
  rintro result after ⟨succeeds, cleared, clears, same⟩
  refine ⟨succeeds, (same _).trans ?_⟩
  refine clears.stale trivial ?_ positive mail member inside unmoved row ?_
  · rwa [(opens.surely trivial).2]
  · rw [opens.trimmed.others _ fun gone =>
      gone.2 (Mailbox.mem_uids_of_mem member)]
    exact cached

/-! ## The window sync, exactly -/

variable (crates) in
/-- Every successful run of the window sync leaves what it should: whatever
fails or is refused on the way, the server sends what it is asked for. -/
def SyncsWindow (who : ι) (folder : Folder) (mailbox : Mailbox)
    (window : Option Nat) (world : World chrono ι) : Prop :=
  ∀ answers : Nat → Answer, (∀ index, (answers index).items = none) →
    (alone (respond chrono who)
      (syncFolderWindow chrono crates folder.id window) answers world).1.isOk →
    WindowSynced mailbox folder window
      (selectReply mailbox (openMode who folder world)).vanished world.db
      (alone (respond chrono who)
        (syncFolderWindow chrono crates folder.id window) answers
        world).2.2.db

/-- A window sync leaves what it should exactly when the signs it goes by are
true of the cache. -/
theorem syncsWindow_iff (able : Syncable crates who folder mailbox world)
    (window : Option Nat) :
    SyncsWindow crates who folder mailbox window world ↔
      SignsHold who folder mailbox window world := by
  constructor
  · intro syncs
    have holds : folderUnchanged folder (selectReply mailbox .plain)
        (Messages.listUids folder.id world.db).length window →
        HoldsWindow mailbox folder window world.db := by
      intro unchanged
      obtain ⟨answers, faithful, succeeds, same⟩ := skips_reaches able unchanged
      have synced := syncs answers faithful succeeds
      refine ⟨fun uid inside => ?_, fun uid above cached => ?_, ?_⟩
      · rw [← same]
        exact (synced.recent uid
          (Mailbox.searchFloor_le_of_mem_newest inside)).mpr (.inl inside)
      · rw [← same] at cached
        rcases (synced.recent uid above).mp cached with inside | ⟨_, there⟩
        · exact Mailbox.mem_uids_of_mem_newest inside
        · exact there
      · intro mail member inside row here
        exact synced.flags mail member inside row ((same _).trans here)
    refine ⟨holds, fun on positive mail member inside row here clean => ?_⟩
    by_cases unchanged : folderUnchanged folder (selectReply mailbox .plain)
        (Messages.listUids folder.id world.db).length window
    · exact .inl ((holds unchanged).flags mail member inside row here clean)
    · refine or_iff_not_imp_right.mpr fun unmoved => ?_
      obtain ⟨answers, faithful, succeeds, same⟩ := stale_reaches able unchanged
        on positive member inside (Nat.le_of_not_lt unmoved) here
      exact (syncs answers faithful succeeds).flags mail member inside row same
        clean
  · intro signs answers faithful succeeds
    have yields : Yields (respond chrono who) Environment.any.calm False _ world
        _ := syncFolderWindow_yields able signs
    cases outcome : (alone (respond chrono who)
      (syncFolderWindow chrono crates folder.id window) answers world).1 with
    | error error =>
        rw [outcome] at succeeds
        cases succeeds
    | ok report => exact (yields answers faithful).1 report outcome

end Sync

namespace Sample

/-- Three messages. -/
def three : Mailbox where
  uidValidity := 1
  uidNext := some 4
  highestModseq := some 5
  vanished := []
  mails := [⟨1, [], 1, [65]⟩, ⟨2, [], 2, [66]⟩, ⟨3, [], 3, [67]⟩]
  ascending := by decide
  announced := by
    rintro mail member next ⟨⟩
    revert mail
    decide
  recorded := by
    rintro mail member highest ⟨⟩
    revert mail
    decide

/-- The message as it is cached. -/
def stored (uid : Nat) : NewMessage := ⟨1, uid, blank, false, false, false⟩

/-- The cache with one message more. -/
def store (db : Db) (uid : Nat) : Db :=
  match Messages.upsert (stored uid) db with
  | .ok (_, later) => later
  | .error _ => db

/-- A quick sync has cached message 3, and a server search message 1. -/
def topped : Db :=
  (Folders.setSyncState 1 1 4 3 5 ([3, 1].foldl store (emptyFolder 1))).2

def inbox : Folder := ⟨1, 1, "INBOX", "/", .inbox, some 1, some 4, some 3, 5, true⟩

/-- A session beside a cache and the three messages. -/
def beside (db : Db) : World Store.winter Unit where
  clock := Store.winterAt 0 Store.start_inWinter
  db := db
  server place := if place = ⟨1, "INBOX"⟩ then some three else none
  session _ := ⟨true, true, false, false, none, false⟩
  reported _ _ := 1
  origin _ := 1
  history := []

/-- Two cached messages pass for the two newest: the sync leaves out
message 2. -/
theorem topped_folder_skips_window :
    ¬SyncsWindow parser () inbox three (some 2) (beside topped) := by
  intro syncs
  have synced := syncs (fun _ => .plain) (fun _ => rfl) (by decide +kernel)
  have cached := (synced.recent 2 (by decide +kernel)).mpr
    (.inl (by decide +kernel))
  revert cached
  decide +kernel

/-- The folder before its first sync. -/
def unsynced : Folder := ⟨1, 1, "INBOX", "/", .inbox, some 1, none, none, 0, true⟩

/-- A first sync caches the window. -/
theorem first_sync_fills_window :
    SyncsWindow parser () unsynced three (some 2) (beside (emptyFolder 1)) :=
  (syncsWindow_iff ⟨⟨rfl, rfl, rfl, fun _ same => (Option.some.inj same).symm,
    by decide⟩, by decide⟩ (some 2)).mpr ⟨nofun, nofun⟩

end Sample

end Imap
end Mailcore
