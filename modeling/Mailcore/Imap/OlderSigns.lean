import Mailcore.Imap.Older

/-!
# What loading older mail leaves to later syncs

Call after call the missing messages get fewer, and UIDNEXT and the
mod-sequence stay where a window sync put them.  The message count does not: it
is one of the signs the fast path of a window sync goes by.
-/

namespace Mailcore
namespace Imap

open Store Relational Concurrent Concurrent.Fallible

/-! ## Call after call -/

section Progress

variable {crates : Crates} {mailbox : Mailbox} {folderId batch : Nat}
  {before after : Db}

/-- What is cached after a load. -/
theorem Loaded.isSome
    (loaded : Loaded crates mailbox folderId batch before after) (uid : Nat) :
    (after.message? folderId uid).isSome ↔
      (before.message? folderId uid).isSome ∨
        uid ∈ older mailbox folderId batch before := by
  by_cases fetched : uid ∈ older mailbox folderId batch before
  · obtain ⟨mail, member, rfl⟩ :=
      Mailbox.mem_uids.mp (mem_absent.mp (older_subset fetched)).1
    obtain ⟨row, here, _⟩ := loaded.cached mail member fetched
    simp [here, fetched]
  · simp [loaded.others uid fetched, fetched]

theorem Loaded.maxUid {highest : Nat}
    (loaded : Loaded crates mailbox folderId batch before after)
    (known : Messages.maxUid folderId before = some highest) :
    Messages.maxUid folderId after = some highest := by
  obtain ⟨top, above⟩ := maxUid_eq_some.mp known
  refine maxUid_eq_some.mpr ⟨(loaded.isSome _).mpr (.inl top),
    fun uid cached => ?_⟩
  rcases (loaded.isSome uid).mp cached with old | fetched
  · exact above uid old
  · obtain ⟨_, _, bound, same, below⟩ := mem_absent.mp (older_subset fetched)
    rw [known] at same
    exact Option.some.inj same ▸ below

/-- The newest of the missing are missing no more. -/
theorem Loaded.absent {highest : Nat}
    (loaded : Loaded crates mailbox folderId batch before after)
    (known : Messages.maxUid folderId before = some highest) :
    absent mailbox folderId after = (absent mailbox folderId before).take
      ((absent mailbox folderId before).length - batch) := by
  rw [← filter_not_mem_drop absent_ascending]
  unfold Imap.absent
  rw [List.filter_filter, loaded.maxUid known, known]
  refine List.filter_congr fun uid _ => ?_
  have cached := loaded.isSome uid
  unfold older Imap.absent at cached
  rw [known] at cached
  rw [Bool.eq_iff_iff]
  simp only [Bool.and_eq_true, decide_eq_true_eq, Option.isNone_iff_eq_none,
    ← Option.not_isSome_iff_eq_none, cached]
  tauto

/-- The rows of a folder are as many as their UIDs. -/
theorem listUids_nodup (folderId : Nat) (db : Db) :
    (Messages.listUids folderId db).Nodup := by
  unfold Messages.listUids Table.select
  refine List.Nodup.map_on (fun first firstIn second secondIn same => ?_)
    ((db.messages.ascending.filter _).imp fun below same => ?_)
  · have own := List.mem_filter.mp firstIn
    have other := List.mem_filter.mp secondIn
    rw [decide_eq_true_eq] at own other
    exact db.oneUid first own.1 second other.1 (own.2.trans other.2.symm) same
  · exact absurd (same ▸ below) (Nat.lt_irrefl _)

theorem older_nodup : (older mailbox folderId batch before).Nodup :=
  (absent_ascending.imp Nat.ne_of_lt).sublist (List.drop_sublist _ _)

theorem Loaded.count
    (loaded : Loaded crates mailbox folderId batch before after) :
    (Messages.listUids folderId after).length =
      (Messages.listUids folderId before).length +
        (older mailbox folderId batch before).length := by
  rw [← List.length_append]
  refine ((List.perm_ext_iff_of_nodup (listUids_nodup _ _) ?_).mpr
    fun uid => ?_).length_eq
  · refine List.nodup_append.mpr ⟨listUids_nodup _ _, older_nodup,
      fun uid cached other fetched same => ?_⟩
    have missing := (mem_absent.mp (older_subset fetched)).2.1
    rw [mem_listUids, same, missing] at cached
    cases cached
  · rw [List.mem_append, mem_listUids, mem_listUids, loaded.isSome]

end Progress

variable {chrono : Chrono} {crates : Crates} {ι : Type} [DecidableEq ι]
  {who : ι} {folder : Folder} {mailbox : Mailbox} {world : World chrono ι}
  {batch : Nat}

variable (crates) in
/-- Loads one after the other, as long as they succeed. -/
def loadOlder (who : ι) (folderId batch : Nat) :
    List (Nat → Answer) → World chrono ι → Option (World chrono ι)
  | [], world => some world
  | answers :: calls, world =>
      match alone (respond chrono who)
        (syncOlder chrono crates folderId batch) answers world with
      | (.ok _, _, after) => loadOlder who folderId batch calls after
      | (.error _, _, _) => none

/-- One load that succeeds. -/
theorem loaded_of_ok (able : Openable who folder mailbox world)
    {highest : Nat}
    (known : Messages.maxUid folder.id world.db = some highest)
    {answers : Nat → Answer} (faithful : ∀ index, (answers index).items = none)
    (succeeds : (alone (respond chrono who)
      (syncOlder chrono crates folder.id batch) answers world).1.isOk) :
    Loaded crates mailbox folder.id batch world.db
        (alone (respond chrono who)
          (syncOlder chrono crates folder.id batch) answers world).2.2.db ∧
      Openable who (noted folder mailbox) mailbox
        (alone (respond chrono who)
          (syncOlder chrono crates folder.id batch) answers world).2.2 := by
  have yields : Yields (respond chrono who) Environment.any.calm False
      (syncOlder chrono crates folder.id batch) world _ :=
    syncOlder_yields able known nofun
  cases outcome : (alone (respond chrono who)
    (syncOlder chrono crates folder.id batch) answers world).1 with
  | error error =>
      rw [outcome] at succeeds
      cases succeeds
  | ok report => exact (yields answers faithful).1 report outcome

/-- Every call takes a batch off what is missing. -/
theorem absent_of_loadOlder {calls : List (Nat → Answer)}
    {after : World chrono ι} (able : Openable who folder mailbox world)
    {highest : Nat}
    (known : Messages.maxUid folder.id world.db = some highest)
    (faithful : ∀ answers ∈ calls, ∀ index, (answers index).items = none)
    (loads : loadOlder crates who folder.id batch calls world = some after) :
    absent mailbox folder.id after.db = (absent mailbox folder.id world.db).take
      ((absent mailbox folder.id world.db).length - calls.length * batch) := by
  induction calls generalizing folder world with
  | nil =>
      cases loads
      simp
  | cons answers calls inductionHypothesis =>
      unfold loadOlder at loads
      split at loads
      · next report rest reached outcome =>
        have succeeds : (alone (respond chrono who)
            (syncOlder chrono crates folder.id batch) answers world).1.isOk := by
          rw [outcome]
          rfl
        have first := loaded_of_ok able known
          (faithful answers List.mem_cons_self) succeeds
        rw [outcome] at first
        obtain ⟨loaded, later⟩ := first
        refine (inductionHypothesis later (loaded.maxUid known)
          (fun other member => faithful other (List.mem_cons_of_mem _ member))
          loads).trans ?_
        change (absent mailbox folder.id reached.db).take
          ((absent mailbox folder.id reached.db).length - _) = _
        rw [loaded.absent known, List.take_take, List.length_take,
          List.length_cons, Nat.succ_mul]
        congr 1
        omega
      · cases loads

/-! ## The signs of a window sync -/

/-- What a mailbox may have become: its counters do not fall, and every change
is above one of them. -/
structure Mailbox.Later (before after : Mailbox) : Prop where
  validity : after.uidValidity = before.uidValidity
  uidNext : ∀ later, after.uidNext = some later →
    ∃ earlier, before.uidNext = some earlier ∧ earlier ≤ later
  modseq : ∀ later, after.highestModseq = some later →
    ∃ earlier, before.highestModseq = some earlier ∧ earlier ≤ later
  mails : ∀ mail ∈ after.mails, mail ∈ before.mails ∨
    (mail.uid ∉ before.uids ∧
      ∀ next, before.uidNext = some next → next ≤ mail.uid) ∨
    ∀ highest, before.highestModseq = some highest → highest < mail.modseq

theorem Mailbox.Later.refl (mailbox : Mailbox) : mailbox.Later mailbox :=
  ⟨rfl, fun next same => ⟨next, same, Nat.le_refl _⟩,
    fun highest same => ⟨highest, same, Nat.le_refl _⟩, fun _ => .inl⟩

/-- The state a window sync recorded is not ahead of the server. -/
structure Recorded (folder : Folder) (mailbox : Mailbox) : Prop where
  uidNext : ∀ stored next, folder.uidNext = some stored →
    mailbox.uidNext = some next → stored ≤ next
  modseq : ∀ highest, mailbox.highestModseq = some highest →
    folder.highestModseq ≤ highest

/-- A window sync takes the folder for unchanged. -/
def Passes (folder : Folder) (mailbox : Mailbox) (window : Option Nat)
    (db : Db) : Prop :=
  folderUnchanged folder (selectReply mailbox .plain)
    (Messages.listUids folder.id db).length window

instance (window : Option Nat) (db : Db) :
    Decidable (Passes folder mailbox window db) :=
  inferInstanceAs (Decidable (_ = _))

/-- The row agrees with the server; in the Trash a sync itself sets the read
flag. -/
def Agrees (folder : Folder) (mail : Mail) (row : Message) : Prop :=
  Carries (folder.role = .trash) mail row ∨ Carries false mail row

/-- Leaving the folder as it is leaves out nothing of the window. -/
structure Shows (folder : Folder) (mailbox : Mailbox) (window : Option Nat)
    (db : Db) : Prop where
  cached : ∀ uid ∈ mailbox.newest window, (db.message? folder.id uid).isSome
  there : ∀ uid, mailbox.searchFloor window ≤ uid →
    (db.message? folder.id uid).isSome → uid ∈ mailbox.uids
  flags : ∀ mail ∈ mailbox.mails, mail.uid ∈ mailbox.newest window →
    ∀ row, db.message? folder.id mail.uid = some row →
      row.flagsDirty = false → Agrees folder mail row

/-- Asking for what has changed since the stored mod-sequence leaves out
nothing of the window. -/
def ShowsSince (folder : Folder) (mailbox : Mailbox) (window : Option Nat)
    (db : Db) : Prop :=
  ∀ mail ∈ mailbox.mails, mail.uid ∈ mailbox.newest window →
    ∀ row, db.message? folder.id mail.uid = some row →
      row.flagsDirty = false →
        Agrees folder mail row ∨ folder.highestModseq < mail.modseq

variable (crates) in
/-- Loading older mail, as it should be. -/
structure LoadsOlder (who : ι) (folder : Folder) (mailbox : Mailbox)
    (batch : Nat) (world : World chrono ι) : Prop where
  /-- A call caches the newest missing messages and removes nothing. -/
  loads : ∀ answers : Nat → Answer, (∀ index, (answers index).items = none) →
    ∀ after, loadOlder crates who folder.id batch [answers] world = some after →
      Loaded crates mailbox folder.id batch world.db after.db
  /-- Enough calls leave nothing missing. -/
  reaches : ∀ calls : List (Nat → Answer),
    (∀ answers ∈ calls, ∀ index, (answers index).items = none) →
    (absent mailbox folder.id world.db).length ≤ calls.length * batch →
    ∀ after, loadOlder crates who folder.id batch calls world = some after →
      absent mailbox folder.id after.db = []
  /-- No call moves a stored UIDNEXT or the mod-sequence. -/
  unmoved : ∀ calls : List (Nat → Answer),
    (∀ answers ∈ calls, ∀ index, (answers index).items = none) →
    ∀ after, loadOlder crates who folder.id batch calls world = some after →
      ∃ row, after.db.folders.find? folder.id = some row ∧
        row.highestModseq = folder.highestModseq ∧
        ∀ next, folder.uidNext = some next → row.uidNext = some next
  /-- A later window sync that takes the folder for unchanged would have done
  so without the call, or leaves nothing out. -/
  unchanged : ∀ answers : Nat → Answer,
    (∀ index, (answers index).items = none) →
    ∀ after, loadOlder crates who folder.id batch [answers] world = some after →
      ∀ row, after.db.folders.find? folder.id = some row →
      ∀ later, mailbox.Later later → ∀ window, Passes row later window after.db →
        Passes folder later window world.db ∨ Shows row later window after.db
  /-- One that asks for what has changed leaves out no more than without. -/
  since : ∀ answers : Nat → Answer, (∀ index, (answers index).items = none) →
    ∀ after, loadOlder crates who folder.id batch [answers] world = some after →
      ∀ row, after.db.folders.find? folder.id = some row →
      ∀ later, mailbox.Later later → later.highestModseq.isSome →
      ∀ window, ShowsSince folder later window world.db →
        ShowsSince row later window after.db

/-- What would be shown once the missing messages are cached. -/
structure WouldShow (folder : Folder) (mailbox : Mailbox) (batch : Nat)
    (window : Option Nat) (db : Db) : Prop where
  cached : ∀ uid ∈ mailbox.newest window,
    (db.message? folder.id uid).isSome ∨ uid ∈ older mailbox folder.id batch db
  there : ∀ uid, mailbox.searchFloor window ≤ uid →
    (db.message? folder.id uid).isSome → uid ∈ mailbox.uids
  flags : ∀ mail ∈ mailbox.mails, mail.uid ∈ mailbox.newest window →
    ∀ row, db.message? folder.id mail.uid = some row →
      row.flagsDirty = false → Agrees folder mail row

/-- Where UIDNEXT and the mod-sequence are the stored ones, every window that
would have enough cached rows is taken for unchanged before, or would be
shown. -/
def CountTells (folder : Folder) (mailbox : Mailbox) (batch : Nat) (db : Db) :
    Prop :=
  0 < folder.highestModseq →
  mailbox.highestModseq = some folder.highestModseq →
  mailbox.uidNext.isSome →
  (∀ next, folder.uidNext = some next → mailbox.uidNext = some next) →
  ∀ window : Option Nat,
    window.elim mailbox.mails.length (fun n => min n mailbox.mails.length) ≤
      (Messages.listUids folder.id db).length +
        (older mailbox folder.id batch db).length →
    Passes folder mailbox window db ∨ WouldShow folder mailbox batch window db

section Signs

variable {window : Option Nat} {before after : Db} {later : Mailbox}

omit [DecidableEq ι] in
/-- What a folder must look like to be taken for unchanged after a load. -/
theorem passes_noted_iff :
    Passes (noted folder mailbox) later window after ↔
      window.elim later.mails.length (fun n => min n later.mails.length) ≤
          (Messages.listUids folder.id after).length ∧
        0 < folder.highestModseq ∧
        later.highestModseq = some folder.highestModseq ∧
        later.uidNext = some ((folder.uidNext.or mailbox.uidNext).getD 0) ∧
        later.uidValidity = mailbox.uidValidity ∧
        mailbox.mails.length = later.mails.length := by
  unfold Passes folderUnchanged noted selectReply
  simp only [Bool.and_eq_true, decide_eq_true_eq, Option.isSome_some,
    Option.any_some, Option.any_eq_true, and_assoc, true_and]
  constructor
  · rintro ⟨enough, positive, ⟨_, same, rfl⟩, next, validity, total⟩
    exact ⟨enough, positive, same, next, Option.some.inj validity, total⟩
  · rintro ⟨enough, positive, same, next, validity, total⟩
    exact ⟨enough, positive, ⟨_, same, rfl⟩, next, validity ▸ rfl, total⟩

/-- A later mailbox with the stored counters and the count of a load is the
mailbox of the load. -/
theorem Mailbox.Later.same (comes : mailbox.Later later)
    (recorded : Recorded folder mailbox)
    (passes : Passes (noted folder mailbox) later window after) :
    later = { mailbox with vanished := later.vanished } := by
  obtain ⟨_, positive, highest, next, validity, total⟩ :=
    passes_noted_iff.mp passes
  obtain ⟨earlierModseq, knownModseq, modseqBelow⟩ := comes.modseq _ highest
  obtain ⟨earlierNext, knownNext, nextBelow⟩ := comes.uidNext _ next
  have sameModseq : mailbox.highestModseq = later.highestModseq := by
    rw [knownModseq, highest]
    exact congrArg some (Nat.le_antisymm modseqBelow
      (recorded.modseq _ knownModseq))
  have sameNext : mailbox.uidNext = later.uidNext := by
    rw [next]
    rw [knownNext] at nextBelow ⊢
    cases stored : folder.uidNext with
    | none => simp
    | some value =>
        rw [stored] at nextBelow
        simp only [Option.some_or, Option.getD_some] at nextBelow ⊢
        exact congrArg some (Nat.le_antisymm nextBelow
          (recorded.uidNext _ _ stored knownNext))
  have within : later.mails ⊆ mailbox.mails := by
    intro mail member
    rcases comes.mails mail member with here | ⟨_, fresh⟩ | changed
    · exact here
    · have below := later.announced mail member _ next
      rw [← sameNext] at next
      exact absurd (fresh _ next) (Nat.not_le.mpr below)
    · have below := later.recorded mail member _ highest
      rw [← sameModseq] at highest
      exact absurd (changed _ highest) (Nat.not_lt.mpr below)
  have nodup : ∀ box : Mailbox, box.mails.Nodup := fun box =>
    box.ascending.imp fun {first second} below same =>
      absurd (same ▸ below) (Nat.lt_irrefl _)
  have sameMails : later.mails = mailbox.mails := by
    have perm : later.mails.Perm mailbox.mails :=
      (List.subperm_of_subset (nodup later) within).perm_of_length_le
        (Nat.le_of_eq total)
    refine perm.eq_of_pairwise (fun first second _ _ below above => ?_)
      later.ascending mailbox.ascending
    exact absurd (Nat.lt_trans below above) (Nat.lt_irrefl _)
  clear comes recorded passes
  obtain ⟨_, _, _, _, _, _, _, _⟩ := mailbox
  obtain ⟨_, _, _, _, _, _, _, _⟩ := later
  dsimp only at validity sameMails sameNext sameModseq
  subst validity sameMails sameNext sameModseq
  rfl

/-- What is shown after a load. -/
theorem Loaded.shows_iff
    (loaded : Loaded crates mailbox folder.id batch before after) :
    Shows (noted folder mailbox) mailbox window after ↔
      WouldShow folder mailbox batch window before := by
  have fresh : ∀ mail ∈ mailbox.mails,
      mail.uid ∈ older mailbox folder.id batch before → ∀ row,
      after.message? folder.id mail.uid = some row → Agrees folder mail row := by
    intro mail member fetched row here
    obtain ⟨stored, found, _, _, carries⟩ := loaded.cached mail member fetched
    cases found.symm.trans here
    exact .inr carries
  constructor
  · intro shows
    refine ⟨fun uid inside => (loaded.isSome uid).mp (shows.cached uid inside),
      fun uid above cached =>
        shows.there uid above ((loaded.isSome uid).mpr (.inl cached)),
      fun mail member inside row here clean => ?_⟩
    refine shows.flags mail member inside row ?_ clean
    refine (loaded.others _ fun fetched => ?_).trans here
    have missing := (mem_absent.mp (older_subset fetched)).2.1
    rw [here] at missing
    cases missing
  · intro would
    refine ⟨fun uid inside => (loaded.isSome uid).mpr (would.cached uid inside),
      fun uid above cached => ?_, fun mail member inside row here clean => ?_⟩
    · rcases (loaded.isSome uid).mp cached with old | fetched
      · exact would.there uid above old
      · exact (mem_absent.mp (older_subset fetched)).1
    · by_cases fetched : mail.uid ∈ older mailbox folder.id batch before
      · exact fresh mail member fetched row here
      · exact would.flags mail member inside row
          ((loaded.others _ fetched).symm.trans here) clean

/-- The loaded rows carry the server's flags or have changed since. -/
theorem Loaded.showsSince
    (loaded : Loaded crates mailbox folder.id batch before after)
    (recorded : Recorded folder mailbox) (comes : mailbox.Later later)
    (keeps : later.highestModseq.isSome)
    (shows : ShowsSince folder later window before) :
    ShowsSince (noted folder mailbox) later window after := by
  intro mail member inside row here clean
  by_cases fetched : mail.uid ∈ older mailbox folder.id batch before
  · have old := (mem_absent.mp (older_subset fetched)).1
    rcases comes.mails mail member with same | ⟨fresh, _⟩ | changed
    · obtain ⟨stored, found, _, _, carries⟩ := loaded.cached mail same fetched
      cases found.symm.trans here
      exact .inl (.inr carries)
    · exact absurd old fresh
    · obtain ⟨highest, announced⟩ := Option.isSome_iff_exists.mp keeps
      obtain ⟨earlier, known, _⟩ := comes.modseq _ announced
      exact .inr (Nat.lt_of_le_of_lt (recorded.modseq _ known)
        (changed _ known))
  · exact shows mail member inside row
      ((loaded.others _ fetched).symm.trans here) clean

end Signs

/-! ## Loading older mail, exactly -/

/-- Loads leave the stored marks. -/
theorem marks_of_loadOlder {calls : List (Nat → Answer)}
    {after : World chrono ι} (able : Openable who folder mailbox world)
    {highest : Nat}
    (known : Messages.maxUid folder.id world.db = some highest)
    (faithful : ∀ answers ∈ calls, ∀ index, (answers index).items = none)
    (loads : loadOlder crates who folder.id batch calls world = some after) :
    ∃ row, after.db.folders.find? folder.id = some row ∧
      row.highestModseq = folder.highestModseq ∧
      ∀ next, folder.uidNext = some next → row.uidNext = some next := by
  induction calls generalizing folder world with
  | nil =>
      cases loads
      exact ⟨folder, able.cached, rfl, fun _ same => same⟩
  | cons answers calls inductionHypothesis =>
      unfold loadOlder at loads
      split at loads
      · next report rest reached outcome =>
        have succeeds : (alone (respond chrono who)
            (syncOlder chrono crates folder.id batch) answers world).1.isOk := by
          rw [outcome]
          rfl
        have first := loaded_of_ok able known
          (faithful answers List.mem_cons_self) succeeds
        rw [outcome] at first
        obtain ⟨loaded, later⟩ := first
        obtain ⟨row, found, modseq, next⟩ := inductionHypothesis later
          (loaded.maxUid known)
          (fun other member => faithful other (List.mem_cons_of_mem _ member))
          loads
        refine ⟨row, found, modseq, fun stored same => next stored ?_⟩
        unfold noted
        simp [same]
      · cases loads

/-- One call, as a run of calls. -/
theorem loaded_of_loadOlder {answers : Nat → Answer}
    {after : World chrono ι} (able : Openable who folder mailbox world)
    {highest : Nat}
    (known : Messages.maxUid folder.id world.db = some highest)
    (faithful : ∀ index, (answers index).items = none)
    (loads : loadOlder crates who folder.id batch [answers] world =
      some after) :
    Loaded crates mailbox folder.id batch world.db after.db ∧
      Openable who (noted folder mailbox) mailbox after := by
  unfold loadOlder at loads
  split at loads
  · next report rest reached outcome =>
    have succeeds : (alone (respond chrono who)
        (syncOlder chrono crates folder.id batch) answers world).1.isOk := by
      rw [outcome]
      rfl
    have whole := loaded_of_ok able known faithful succeeds
    rw [outcome] at whole
    cases loads
    exact whole
  · cases loads

/-- Some call succeeds when the messages it fetches parse. -/
theorem exists_loadOlder (able : Openable who folder mailbox world)
    {highest : Nat}
    (known : Messages.maxUid folder.id world.db = some highest)
    (readable : ∀ mail ∈ mailbox.mails,
      mail.uid ∈ older mailbox folder.id batch world.db →
        (crates.readMail mail.raw).isSome) :
    ∃ answers : Nat → Answer, (∀ index, (answers index).items = none) ∧
      ∃ after, loadOlder crates who folder.id batch [answers] world =
          some after ∧
        Loaded crates mailbox folder.id batch world.db after.db ∧
          Openable who (noted folder mailbox) mailbox after := by
  have certainly : Yields (respond chrono who) Environment.plain.calm True
      (syncOlder chrono crates folder.id batch) world _ :=
    syncOlder_yields able known fun _ => readable
  obtain ⟨answers, faithful, report, outcome, loaded, later⟩ :=
    certainly.reaches Environment.plain_plain Environment.any_of_plain
  refine ⟨answers, faithful, _, ?_, loaded, later⟩
  unfold loadOlder
  split
  · next found =>
    rw [found]
    rfl
  · next found =>
    rw [found] at outcome
    cases outcome

/-- Loading older mail is as it should be exactly when the count it records
tells the truth about the windows. -/
theorem loadsOlder_iff (able : Openable who folder mailbox world)
    (recorded : Recorded folder mailbox) {highest : Nat}
    (known : Messages.maxUid folder.id world.db = some highest)
    (readable : ∀ mail ∈ mailbox.mails,
      mail.uid ∈ older mailbox folder.id batch world.db →
        (crates.readMail mail.raw).isSome) :
    LoadsOlder crates who folder mailbox batch world ↔
      CountTells folder mailbox batch world.db := by
  constructor
  · intro right positive modseq announced next window enough
    obtain ⟨answers, faithful, after, loads, loaded, later⟩ :=
      exists_loadOlder able known readable
    have passes : Passes (noted folder mailbox) mailbox window after.db := by
      obtain ⟨top, same⟩ := Option.isSome_iff_exists.mp announced
      refine passes_noted_iff.mpr ⟨loaded.count ▸ enough, positive, modseq, ?_,
        rfl, rfl⟩
      cases stored : folder.uidNext with
      | none => simp [same]
      | some value => simp [next value stored]
    exact (right.unchanged answers faithful _ loads _ later.cached mailbox
      (.refl _) window passes).imp_right loaded.shows_iff.mp
  · intro tells
    refine ⟨fun answers faithful after loads =>
        (loaded_of_loadOlder able known faithful loads).1,
      fun calls faithful many after loads => ?_,
      fun calls faithful after loads =>
        marks_of_loadOlder able known faithful loads,
      fun answers faithful after loads row found later comes window passes => ?_,
      fun answers faithful after loads row found later comes keeps window
        shows => ?_⟩
    · rw [absent_of_loadOlder able known faithful loads,
        Nat.sub_eq_zero_of_le many, List.take_zero]
    · obtain ⟨loaded, opens⟩ := loaded_of_loadOlder able known faithful loads
      cases found.symm.trans opens.cached
      have same := comes.same recorded passes
      obtain ⟨enough, positive, modseq, next, -, -⟩ :=
        passes_noted_iff.mp passes
      generalize later.vanished = vanished at same
      subst same
      refine (tells positive modseq (Option.isSome_of_mem next) ?_ window ?_).imp
        id fun would => ?_
      · intro stored same
        rw [same, Option.some_or, Option.getD_some] at next
        exact next
      · rw [← loaded.count]
        exact enough
      · have shows := loaded.shows_iff.mpr would
        exact ⟨shows.cached, shows.there, shows.flags⟩
    · obtain ⟨loaded, opens⟩ := loaded_of_loadOlder able known faithful loads
      cases found.symm.trans opens.cached
      exact loaded.showsSince recorded comes keeps shows

namespace Sample

/-- The three messages without the second: an expunge that leaves the
mod-sequence as it was. -/
def thinned : Mailbox := three.keep fun mail => mail.uid ≠ 2

/-- All three, cached by a window sync. -/
def full : Db := (Folders.setSyncState 1 1 4 3 5
  ([1, 2, 3].foldl store (emptyFolder 1))).2

def besideThinned : World Store.winter Unit :=
  { beside full with
    server := fun place =>
      if place = ⟨1, "INBOX"⟩ then some thinned else none }

/-- Nothing older is missing, and the expunged message stays: the recorded
count hides it from every later window sync. -/
theorem load_hides_expunge :
    ¬LoadsOlder parser () inbox thinned 2 besideThinned := by
  intro right
  have able : Openable () inbox thinned besideThinned :=
    ⟨by decide +kernel, rfl, rfl, fun _ same => (Option.some.inj same).symm,
      by decide⟩
  obtain ⟨answers, faithful, after, loads, loaded, later⟩ :=
    @exists_loadOlder _ parser _ _ _ _ _ _ 2 able 3 (by decide +kernel)
      (by decide +kernel)
  have passes : Passes (noted inbox thinned) thinned none after.db := by
    refine passes_noted_iff.mpr ⟨?_, by decide, rfl, rfl, rfl, rfl⟩
    rw [loaded.count]
    decide +kernel
  rcases right.unchanged answers faithful after loads _ later.cached thinned
    (.refl _) none passes with before | shows
  · revert before
    decide +kernel
  · have gone : 2 ∈ thinned.uids := shows.there 2 (by decide)
      ((loaded.isSome 2).mpr (.inl (by decide +kernel)))
    revert gone
    decide

/-- A folder that was never synced loads its older mail. -/
theorem unsynced_folder_loads_older :
    LoadsOlder parser () unsynced three 1
      (beside ([3].foldl store (emptyFolder 1))) :=
  (@loadsOlder_iff _ _ _ _ _ _ _ _ _ ⟨by decide +kernel, rfl, rfl,
      fun _ same => (Option.some.inj same).symm, by decide⟩
    ⟨fun _ _ same _ => (by cases same), fun _ _ => Nat.zero_le _⟩ 3
    (by decide +kernel) (by decide +kernel)).mpr
      fun positive => absurd positive (by decide)

end Sample

end Imap
end Mailcore
