import Mailcore.Imap.Batch
import Mailcore.Imap.Freshen

/-!
# Fetching what is missing

What the fetch of a list of UIDs leaves in the cache: the messages the mailbox
has of them, each with its letter and, unless a local change waited, with its
flags.
-/

namespace Mailcore
namespace Imap

open Store Concurrent Concurrent.Fallible

/-- The row holds the headers and the body of the message. -/
def Describes (crates : Crates) (mail : Mail) (row : Message) : Prop :=
  ∃ parsed, crates.readMail mail.raw = some parsed ∧
    row.letter = parsed.letter

/-- No local change waits under the UID. -/
def CleanAt (folderId uid : Nat) (db : Db) : Prop :=
  ∀ row, db.message? folderId uid = some row → row.flagsDirty = false

/-- What storing these messages leaves of a folder's rows. -/
structure Stocked (crates : Crates) (isTrash : Bool) (folderId : Nat)
    (mails : List Mail) (before after : Db) : Prop where
  folders : after.folders = before.folders
  others : ∀ uid, (∀ mail ∈ mails, mail.uid ≠ uid) →
    after.message? folderId uid = before.message? folderId uid
  own : ∀ mail ∈ mails, ∃ row, after.message? folderId mail.uid = some row ∧
    Describes crates mail row ∧ (CleanAt folderId mail.uid before →
      row.flagsDirty = false ∧ Carries isTrash mail row)

namespace Stocked

variable {crates : Crates} {isTrash : Bool} {folderId : Nat}
  {mailbox : Mailbox}

theorem nil (crates : Crates) (isTrash : Bool) (folderId : Nat) (db : Db) :
    Stocked crates isTrash folderId [] db db :=
  ⟨rfl, fun _ _ => rfl, nofun⟩

/-- What was clean stays clean. -/
theorem cleanAt {mails : List Mail} {before after : Db}
    (stocked : Stocked crates isTrash folderId mails before after) {uid : Nat}
    (clean : CleanAt folderId uid before) : CleanAt folderId uid after := by
  intro row found
  by_cases stored : ∃ mail ∈ mails, mail.uid = uid
  · obtain ⟨mail, member, rfl⟩ := stored
    obtain ⟨own, here, _, unchanged⟩ := stocked.own mail member
    cases found.symm.trans here
    exact (unchanged clean).1
  · rw [stocked.others uid fun mail member same =>
      stored ⟨mail, member, same⟩] at found
    exact clean row found

/-- Some messages, then others of the same mailbox. -/
theorem append {first second : List Mail} {before middle after : Db}
    (firstIn : ∀ mail ∈ first, mail ∈ mailbox.mails)
    (secondIn : ∀ mail ∈ second, mail ∈ mailbox.mails)
    (earlier : Stocked crates isTrash folderId first before middle)
    (later : Stocked crates isTrash folderId second middle after) :
    Stocked crates isTrash folderId (first ++ second) before after where
  folders := later.folders.trans earlier.folders
  others uid absent := by
    rw [later.others uid fun mail member =>
        absent mail (List.mem_append_right _ member),
      earlier.others uid fun mail member =>
        absent mail (List.mem_append_left _ member)]
  own mail member := by
    -- what is stored again is the same message
    have again : mail ∈ second ∨
        mail ∈ first ∧ ∀ other ∈ second, other.uid ≠ mail.uid := by
      by_cases twice : ∃ other ∈ second, other.uid = mail.uid
      · obtain ⟨other, otherMember, same⟩ := twice
        refine .inl ?_
        have inBox : mail ∈ mailbox.mails :=
          (List.mem_append.mp member).elim (firstIn mail) (secondIn mail)
        rwa [Mailbox.eq_of_uid_eq (secondIn other otherMember) inBox same]
          at otherMember
      · refine (List.mem_append.mp member).symm.imp_right fun inFirst =>
          ⟨inFirst, fun other otherMember same =>
            twice ⟨other, otherMember, same⟩⟩
    rcases again with inSecond | ⟨inFirst, once⟩
    · obtain ⟨row, found, letter, flags⟩ := later.own mail inSecond
      exact ⟨row, found, letter, fun clean => flags (earlier.cleanAt clean)⟩
    · obtain ⟨row, found, letter, flags⟩ := earlier.own mail inFirst
      exact ⟨row, (later.others _ once).trans found, letter, flags⟩

end Stocked

section Fetch

variable {chrono : Chrono} {crates : Crates} {ι : Type} [DecidableEq ι]
  {who : ι} {env : Environment} {place : Place} {mailbox : Mailbox}
  {world : World chrono ι} {folderId : Nat}

omit [DecidableEq ι] in
/-- A message is stored, or the database refuses it. -/
theorem storeFetched_ok {new : NewMessage} {id : Nat}
    (stored : (storeFetched chrono who new world).1 = .ok id) :
    Local world (storeFetched chrono who new world).2 ∧
      Messages.upsert new world.db =
        .ok (id, (storeFetched chrono who new world).2.db) := by
  unfold storeFetched at stored ⊢
  cases outcome : Messages.upsert new world.db with
  | error error =>
      rw [outcome] at stored
      cases stored
  | ok value =>
      rw [outcome] at stored
      cases stored
      exact ⟨⟨rfl, rfl⟩, rfl⟩

/-- What storing one fetched message leaves. -/
theorem storeOne_yields (isTrash : Bool) (mail : Mail)
    (sound : env.sure →
      (∃ folder ∈ world.db.folders.rows, folder.id = folderId) ∧
        (crates.readMail mail.raw).isSome) :
    Yields (respond chrono who) env.calm env.sure
      (storeOne chrono crates folderId isTrash
        (mail.uid, mail.flags, mail.raw)) world fun _ after =>
          Local world after ∧
            Stocked crates isTrash folderId [mail] world.db after.db := by
  unfold storeOne parseToNew
  cases read : crates.readMail mail.raw with
  | none =>
      simp only [read, Option.map_none]
      refine yields_throw fun certain => ?_
      have readable := (sound certain).2
      rw [read] at readable
      cases readable
  | some parsed =>
      simp only [read, Option.map_some]
      generalize fresh : (if isTrash then _ else _ : NewMessage) = new
      have made : new.folderId = folderId ∧ new.uid = mail.uid ∧
          new.letter = parsed.letter ∧
          (new.isRead, new.isStarred, new.isDraft) =
            shown isTrash mail.flags := by
        rw [← fresh]
        cases isTrash <;> simp [shown, flagState]
      obtain ⟨sameFolder, sameUid, letter, flags⟩ := made
      have storable : env.sure →
          (storeFetched chrono who new world).1.isOk := by
        intro certain
        obtain ⟨id, db, stored, _⟩ := Messages.upsert_ok
          (sameFolder ▸ (sound certain).1 :
            ∃ folder ∈ world.db.folders.rows, folder.id = new.folderId)
        simp only [storeFetched, stored]
        rfl
      have stores : Yields (respond chrono who) env.calm env.sure
          (perform chrono (.upsert new)) world fun id reached =>
            (storeFetched chrono who new world).1 = .ok id ∧
              reached = (storeFetched chrono who new world).2 :=
        statement_yields rfl (fun _ => rfl) storable
      refine stores.bind ?_
      rintro id _ ⟨stored, rfl⟩
      obtain ⟨stays, upserted⟩ := storeFetched_ok stored
      have whole := Messages.upserted_of_ok upserted
      refine (((storeAttachmentMeta_leads id parsed.files _).strict
        fun _ _ => trivial).yields fun _ _ done _ => done.1 ▸ rfl).mono ?_
      rintro _ after ⟨_, beside⟩
      refine ⟨stays.trans ⟨beside.server, beside.session⟩,
        beside.folders.trans whole.folders, ?_, ?_⟩
      · intro uid absent
        rw [beside.message?]
        refine whole.others folderId uid fun same => ?_
        exact absent mail (List.mem_singleton_self _)
          (sameUid.symm.trans same.2.symm)
      · intro other member
        rw [List.mem_singleton] at member
        subst member
        obtain ⟨row, found, _, rowLetter, rowDraft⟩ := whole.own
        rw [sameFolder, sameUid] at found
        refine ⟨row, (beside.message? _ _).trans found,
          ⟨parsed, read, rowLetter.trans letter⟩, fun clean => ?_⟩
        obtain ⟨again, foundAgain, unchanged, rowRead, rowStarred⟩ :=
          Messages.flags_of_upsert upserted
            (by rw [sameFolder, sameUid]; exact clean)
        rw [sameFolder, sameUid] at foundAgain
        cases found.symm.trans foundAgain
        refine ⟨unchanged, ?_⟩
        unfold Carries
        rw [rowRead, rowStarred, rowDraft]
        exact flags

/-- A message as it is fetched. -/
def fetched (mail : Mail) : Nat × List Flag × Raw :=
  (mail.uid, mail.flags, mail.raw)

omit [DecidableEq ι] in
theorem collectFetched_fullItems (numbered : mailbox.Numbered)
    (uids : List Nat) :
    collectFetched (fullItems mailbox uids) =
      (mailbox.named uids).map fetched := by
  unfold collectFetched fullItems
  rw [List.filterMap_map, ← List.filterMap_eq_map]
  refine List.filterMap_congr fun mail member => ?_
  have positive := numbered mail.uid
    (Mailbox.mem_uids_of_mem (List.mem_of_mem_filter member))
  simp [positive, fetched]

theorem storeEach_yields (isTrash : Bool) {mails : List Mail}
    (inBox : ∀ mail ∈ mails, mail ∈ mailbox.mails)
    (sound : env.sure →
      (∃ folder ∈ world.db.folders.rows, folder.id = folderId) ∧
        ∀ mail ∈ mails, (crates.readMail mail.raw).isSome) :
    Yields (respond chrono who) env.calm env.sure
      (storeEach chrono crates folderId isTrash (mails.map fetched)) world
      fun count after => count = mails.length ∧ Local world after ∧
        Stocked crates isTrash folderId mails world.db after.db := by
  induction mails generalizing world with
  | nil => exact yields_pure ⟨rfl, ⟨rfl, rfl⟩, .nil _ _ _ _⟩
  | cons mail mails inductionHypothesis =>
      refine (storeOne_yields isTrash mail fun certain =>
        ⟨(sound certain).1, (sound certain).2 mail List.mem_cons_self⟩).bind ?_
      rintro _ reached ⟨stays, first⟩
      refine (inductionHypothesis (fun other member =>
        inBox other (List.mem_cons_of_mem _ member)) fun certain => ?_).bind ?_
      · rw [first.folders]
        exact ⟨(sound certain).1, fun other member =>
          (sound certain).2 other (List.mem_cons_of_mem _ member)⟩
      rintro count after ⟨rfl, later, rest⟩
      refine yields_pure ⟨Nat.add_comm 1 _, stays.trans later, ?_⟩
      exact first.append (by simpa using inBox mail List.mem_cons_self)
        (fun other member => inBox other (List.mem_cons_of_mem _ member)) rest

/-- The messages the mailbox has of the UIDs asked for are stored. -/
theorem fetchEach_yields (isTrash : Bool) {pieces : List (List Nat)}
    (works : At who place mailbox world) (numbered : mailbox.Numbered)
    (sound : env.sure →
      (∃ folder ∈ world.db.folders.rows, folder.id = folderId) ∧
        ∀ mail ∈ pieces.flatMap mailbox.named,
          (crates.readMail mail.raw).isSome) :
    Yields (respond chrono who) env.calm env.sure
      (fetchEach chrono crates folderId isTrash pieces) world
      fun count after =>
        count = (pieces.map fun piece => (mailbox.named piece).length).sum ∧
          Local world after ∧ Stocked crates isTrash folderId
            (pieces.flatMap mailbox.named) world.db after.db := by
  have named : ∀ uids, ∀ mail ∈ mailbox.named uids, mail ∈ mailbox.mails :=
    fun _ _ member => List.mem_of_mem_filter member
  induction pieces generalizing world with
  | nil => exact yields_pure ⟨rfl, ⟨rfl, rfl⟩, .nil _ _ _ _⟩
  | cons piece rest inductionHypothesis =>
      rw [List.flatMap_cons] at sound ⊢
      refine (uidFetchMessages_yields works piece).bind ?_
      rintro items _ ⟨rfl, rfl⟩
      rw [collectFetched_fullItems numbered]
      refine (storeEach_yields isTrash (named piece) fun certain =>
        ⟨(sound certain).1, fun mail member =>
          (sound certain).2 mail (List.mem_append_left _ member)⟩).bind ?_
      rintro count reached ⟨rfl, stays, first⟩
      refine (inductionHypothesis (works.congr stays.server stays.session)
        fun certain => ?_).bind ?_
      · rw [first.folders]
        exact ⟨(sound certain).1, fun mail member =>
          (sound certain).2 mail (List.mem_append_right _ member)⟩
      rintro count after ⟨rfl, later, others⟩
      refine yields_pure ⟨by simp, stays.trans later, ?_⟩
      refine first.append (named piece) (fun mail member => ?_) others
      obtain ⟨uids, _, inside⟩ := List.mem_flatMap.mp member
      exact named uids mail inside

end Fetch

end Imap
end Mailcore
