import Mailcore.Imap.WindowSynced

/-!
# Loading older mail

What one "load older" leaves in the cache: the newest of the messages below the
newest cached one that were missing.  Call after call nothing stays missing.
-/

namespace Mailcore
namespace Imap

open Store Relational Concurrent Concurrent.Fallible

/-! ## What is missing -/

/-- The UIDs of the mailbox that are not cached, up to the highest cached
one. -/
def absent (mailbox : Mailbox) (folderId : Nat) (db : Db) : List Nat :=
  mailbox.uids.filter fun uid => (db.message? folderId uid).isNone &&
    (Messages.maxUid folderId db).any fun highest => uid ≤ highest

/-- The newest `batch` of them. -/
def older (mailbox : Mailbox) (folderId batch : Nat) (db : Db) : List Nat :=
  (absent mailbox folderId db).drop
    ((absent mailbox folderId db).length - batch)

section Lists

variable {mailbox : Mailbox} {folderId batch : Nat} {db : Db}

theorem mem_absent {uid : Nat} :
    uid ∈ absent mailbox folderId db ↔ uid ∈ mailbox.uids ∧
      db.message? folderId uid = none ∧
      ∃ highest, Messages.maxUid folderId db = some highest ∧
        uid ≤ highest := by
  unfold absent
  rw [List.mem_filter, Bool.and_eq_true, Option.isNone_iff_eq_none,
    Option.any_eq_true]
  simp only [decide_eq_true_eq]

theorem absent_ascending :
    (absent mailbox folderId db).Pairwise (· < ·) :=
  mailbox.uids_ascending.filter _

theorem older_subset : older mailbox folderId batch db ⊆
    absent mailbox folderId db := List.drop_subset _ _

theorem maxUid_eq_some {highest : Nat} :
    Messages.maxUid folderId db = some highest ↔
      (db.message? folderId highest).isSome ∧
        ∀ uid, (db.message? folderId uid).isSome → uid ≤ highest := by
  unfold Messages.maxUid
  rw [List.max?_eq_some_iff, mem_listUids]
  simp only [mem_listUids]

/-- The last elements of an ascending list, taken away. -/
theorem filter_not_mem_drop {values : List Nat}
    (ascending : values.Pairwise (· < ·)) (count : Nat) :
    (values.filter fun value => value ∉ values.drop count) =
      values.take count := by
  have apart : ∀ value ∈ values.take count, value ∉ values.drop count := by
    have nodup : (values.take count ++ values.drop count).Nodup := by
      rw [List.take_append_drop]
      exact ascending.imp Nat.ne_of_lt
    intro value early late
    exact (List.nodup_append.mp nodup).2.2 value early value late rfl
  have parts : (values.filter fun value => value ∉ values.drop count) =
      ((values.take count).filter fun value => value ∉ values.drop count) ++
        (values.drop count).filter fun value => value ∉ values.drop count := by
    rw [← List.filter_append, List.take_append_drop]
  rw [parts, List.filter_eq_self.mpr fun value early => by simp [apart value early],
    List.filter_eq_nil_iff.mpr fun value late => by simpa using late,
    List.append_nil]

/-- The UIDs a load asks for, as the code picks them. -/
theorem mem_picked {highest : Nat} {hits : List Nat}
    (numbered : mailbox.Numbered)
    (known : Messages.maxUid folderId db = some highest) (uid : Nat) :
    uid ∈ (((((searchReply mailbox hits (.range 1 highest)).mergeSort
        fun first second => second ≤ first).filter fun uid =>
          uid ∉ Messages.listUids folderId db).take batch).mergeSort
            fun first second => first ≤ second) ↔
      uid ∈ older mailbox folderId batch db := by
  have searched : ((searchReply mailbox hits (.range 1 highest)).mergeSort
      fun first second => second ≤ first) =
      (searchReply mailbox hits (.range 1 highest)).reverse := by
    have ascending : (searchReply mailbox hits
        (.range 1 highest)).Pairwise (· < ·) := mailbox.uids_ascending.filter _
    refine List.Perm.eq_of_pairwise
      (fun _ _ _ _ downwards upwards => ?_)
      (List.pairwise_mergeSort ?_ ?_ _)
      (List.pairwise_reverse.mpr (ascending.imp fun {_ _} below => ?_))
      ((List.mergeSort_perm _ _).trans (List.reverse_perm _).symm)
    all_goals simp only [decide_eq_true_eq, Bool.or_eq_true] at *
    · omega
    · intros
      omega
    · intros
      omega
    · exact Nat.le_of_lt below
  have missing : ((searchReply mailbox hits (.range 1 highest)).filter
      fun uid => uid ∉ Messages.listUids folderId db) =
        absent mailbox folderId db := by
    unfold searchReply absent
    rw [List.filter_filter]
    refine List.filter_congr fun uid member => ?_
    have positive : 1 ≤ uid := numbered uid member
    cases cached : db.message? folderId uid with
    | none => simp [mem_listUids, cached, known, positive]
    | some row => simp [mem_listUids, cached]
  rw [(List.mergeSort_perm _ _).mem_iff, searched, List.filter_reverse,
    missing, List.take_reverse, List.mem_reverse]
  rfl

end Lists

/-! ## One call -/

/-- The folder as a load records it: only the count is the server's. -/
def noted (folder : Folder) (mailbox : Mailbox) : Folder :=
  { folder with
    uidValidity := some mailbox.uidValidity
    uidNext := some ((folder.uidNext.or mailbox.uidNext).getD 0)
    serverTotal := some mailbox.mails.length }

/-- What a load leaves of the folder's rows: the newest missing messages are
cached, and every other row is as it was. -/
structure Loaded (crates : Crates) (mailbox : Mailbox) (folderId batch : Nat)
    (before after : Db) : Prop where
  cached : ∀ mail ∈ mailbox.mails,
    mail.uid ∈ older mailbox folderId batch before →
    ∃ row, after.message? folderId mail.uid = some row ∧
      Describes crates mail row ∧ row.flagsDirty = false ∧
      Carries false mail row
  others : ∀ uid, uid ∉ older mailbox folderId batch before →
    after.message? folderId uid = before.message? folderId uid

section Call

variable {chrono : Chrono} {crates : Crates} {ι : Type} [DecidableEq ι]
  {who : ι} {env : Environment} {folder : Folder} {mailbox : Mailbox}
  {world : World chrono ι} {batch : Nat}

omit [DecidableEq ι] in
theorem find?_setSyncState {db : Db}
    (known : db.folders.find? folder.id = some folder)
    (uidValidity uidNext total modseq : Nat) :
    (Folders.setSyncState folder.id uidValidity uidNext total modseq
      db).2.folders.find? folder.id = some { folder with
        uidValidity := some uidValidity
        uidNext := some uidNext
        serverTotal := some total
        highestModseq := modseq } := by
  unfold Folders.setSyncState Db.updateFolder
  rw [Table.find?_update_matched _ known (by simp)]

/-- One load, on a cache that is not empty. -/
theorem syncOlder_yields (able : Openable who folder mailbox world)
    {highest : Nat}
    (known : Messages.maxUid folder.id world.db = some highest)
    (sound : env.sure → ∀ mail ∈ mailbox.mails,
      mail.uid ∈ older mailbox folder.id batch world.db →
        (crates.readMail mail.raw).isSome) :
    Yields (respond chrono who) env.calm env.sure
      (syncOlder chrono crates folder.id batch) world fun _ after =>
        Loaded crates mailbox folder.id batch world.db after.db ∧
          Openable who (noted folder mailbox) mailbox after := by
  unfold syncOlder
  refine (folderGet_yields able).bind ?_
  rintro found reached ⟨same, here⟩
  rw [same, here]
  refine (accountGet_yields able).bind ?_
  rintro _ reached here
  rw [here]
  refine (select_yields able.server able.usable none).bind
    fun reply selected opens => ?_
  have form : reply.uidValidity = some mailbox.uidValidity ∧
      reply.uidNext = mailbox.uidNext ∧
      reply.exists_ = mailbox.mails.length ∧
      validityDiffers folder reply = false := by
    rcases opens.reported with rfl | rfl
    all_goals exact ⟨rfl, rfl, rfl, able.same _⟩
  obtain ⟨validity, next, total, unchanged⟩ := form
  rw [unchanged, if_neg Bool.false_ne_true, validity, next, total]
  have listed : Yields (respond chrono who) env.calm env.sure
      (perform chrono (.maxUid folder.id)) selected fun top after =>
        top = some highest ∧ after = selected := by
    refine (statement_yields rfl (fun _ => rfl) fun _ => rfl).mono ?_
    rintro top _ ⟨read, rfl⟩
    rw [opens.db, known] at read
    exact ⟨(Except.ok.inj read).symm, rfl⟩
  refine listed.bind ?_
  rintro _ listed ⟨rfl, here⟩
  rw [here]
  refine (uidSearch_yields opens.works _).bind ?_
  rintro hits searched ⟨here, found, rfl⟩
  rw [here]
  refine (listUids_yields selected folder.id).bind ?_
  rintro cached listed ⟨rfl, here⟩
  rw [here, opens.db]
  dsimp only
  generalize picked : List.mergeSort (List.take batch _) _ = wanted
  have asked : ∀ mail, mail ∈ (Data.chunks fetchChunk wanted).flatMap
      mailbox.named ↔ mail ∈ mailbox.mails ∧
        mail.uid ∈ older mailbox folder.id batch world.db := by
    intro mail
    rw [mem_flatMap_named, Data.flatten_chunks, ← picked,
      mem_picked able.numbered known]
  refine (fetchEach_yields false opens.works able.numbered fun certain =>
    ⟨?_, fun mail member => ?_⟩).bind ?_
  · rw [opens.db]
    exact ⟨folder, Table.mem_of_find? able.cached⟩
  · obtain ⟨member, inside⟩ := (asked mail).mp member
    exact sound certain mail member inside
  rintro count reached ⟨_, stays, stocked⟩
  rw [opens.db] at stocked
  have row : reached.db.folders.find? folder.id = some folder :=
    stocked.folders ▸ able.cached
  refine (statement_yields rfl (fun _ => rfl) fun _ =>
    setSyncState_ok row mailbox.uidValidity
      ((folder.uidNext.or mailbox.uidNext).getD 0) mailbox.mails.length
      folder.highestModseq).bind ?_
  rintro _ _ ⟨_, rfl⟩
  refine yields_pure ⟨⟨fun mail member inside => ?_, fun uid absent => ?_⟩,
    ?_⟩
  · obtain ⟨stored, here, letter, clean⟩ :=
      stocked.own mail ((asked mail).mpr ⟨member, inside⟩)
    refine ⟨stored, here, letter, clean fun other found => ?_⟩
    have missing := (mem_absent.mp (older_subset inside)).2.1
    rw [missing] at found
    cases found
  · refine (stocked.others uid fun mail member same => absent ?_)
    rw [← same]
    exact ((asked mail).mp member).2
  · have works := opens.works.congr stays.server stays.session
    refine ⟨(find?_setSyncState row _ _ _ _).trans ?_, works.server,
      works.usable, fun stored same => ?_, able.numbered⟩
    · rfl
    · exact (Option.some.inj same).symm

end Call

end Imap
end Mailcore
