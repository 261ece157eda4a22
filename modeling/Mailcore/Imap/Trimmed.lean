import Mailcore.Imap.Asked
import Mailcore.Imap.Pending
import Mailcore.Imap.Stocked

/-!
# Opening a window and clearing it

What the removals of a window sync leave of a folder's rows, what it knows once
it has selected the folder, and what the sweep of the Trash does.
-/

namespace Mailcore
namespace Imap

open Store Concurrent Concurrent.Fallible
open Data (chunks)

theorem mem_listUids {folderId uid : Nat} {db : Db} :
    uid ∈ Messages.listUids folderId db ↔ (db.message? folderId uid).isSome := by
  unfold Messages.listUids Relational.Table.select
  rw [List.mem_map]
  constructor
  · rintro ⟨row, member, rfl⟩
    obtain ⟨stored, own⟩ := List.mem_filter.mp member
    rw [decide_eq_true_eq] at own
    rw [← own, Db.message?_of_mem stored]
    rfl
  · intro found
    obtain ⟨row, same⟩ := Option.isSome_iff_exists.mp found
    obtain ⟨stored, own, rfl⟩ := Db.mem_of_message? same
    exact ⟨row, List.mem_filter.mpr ⟨stored, decide_eq_true own⟩, rfl⟩

/-- What removals leave of a folder's rows. -/
structure Trimmed (folderId : Nat) (gone : Nat → Prop) (before after : Db) :
    Prop where
  folders : after.folders = before.folders
  removed : ∀ uid, gone uid → after.message? folderId uid = none
  others : ∀ uid, ¬gone uid →
    after.message? folderId uid = before.message? folderId uid

namespace Trimmed

variable {folderId : Nat}

theorem nothing (folderId : Nat) (db : Db) :
    Trimmed folderId (fun _ => False) db db :=
  ⟨rfl, nofun, fun _ _ => rfl⟩

theorem trans {earlier later : Nat → Prop} {first second third : Db}
    (before : Trimmed folderId earlier first second)
    (after : Trimmed folderId later second third) :
    Trimmed folderId (fun uid => earlier uid ∨ later uid) first third where
  folders := after.folders.trans before.folders
  removed uid gone := by
    by_cases now : later uid
    · exact after.removed uid now
    · rw [after.others uid now]
      exact before.removed uid (gone.resolve_right now)
  others uid kept := by
    rw [after.others uid fun now => kept (.inr now),
      before.others uid fun already => kept (.inl already)]

/-- Which of the UIDs that are not cached are removed does not matter. -/
theorem congr {gone same : Nat → Prop} {before after : Db}
    (trimmed : Trimmed folderId gone before after)
    (iff : ∀ uid, (before.message? folderId uid).isSome →
      (gone uid ↔ same uid)) :
    Trimmed folderId same before after where
  folders := trimmed.folders
  removed uid other := by
    by_cases taken : gone uid
    · exact trimmed.removed uid taken
    · rw [trimmed.others uid taken]
      by_contra cached
      exact taken ((iff uid (Option.isSome_iff_ne_none.mpr cached)).mpr other)
  others uid kept := by
    by_cases taken : gone uid
    · rw [trimmed.removed uid taken]
      by_contra cached
      refine kept ((iff uid ?_).mp taken)
      exact Option.isSome_iff_ne_none.mpr (Ne.symm cached)
    · exact trimmed.others uid taken

theorem deleteMessages (filter : Message → Bool) (gone : Nat → Prop)
    (iff : ∀ row : Message, row.folderId = folderId →
      (filter row ↔ gone row.uid)) (db : Db) :
    Trimmed folderId gone db (db.deleteMessages filter) where
  folders := rfl
  removed uid taken := by
    rw [Db.message?_deleteMessages]
    cases found : db.message? folderId uid with
    | none => rfl
    | some row =>
        obtain ⟨_, own, rfl⟩ := Db.mem_of_message? found
        simp [Option.filter_some, (iff row own).mpr taken]
  others uid kept := by
    rw [Db.message?_deleteMessages]
    cases found : db.message? folderId uid with
    | none => rfl
    | some row =>
        obtain ⟨_, own, rfl⟩ := Db.mem_of_message? found
        have stays : ¬filter row := fun taken => kept ((iff row own).mp taken)
        simp [Option.filter_some, stays]

end Trimmed

section Removals

variable {chrono : Chrono} {ι : Type} [DecidableEq ι] {who : ι}
  {env : Environment} {place : Place} {mailbox : Mailbox}
  {world : World chrono ι} {folderId : Nat}

theorem listUids_yields (world : World chrono ι) (folderId : Nat) :
    Yields (respond chrono who) env.calm env.sure
      (perform chrono (.listUids folderId)) world fun uids after =>
        uids = Messages.listUids folderId world.db ∧ after = world := by
  refine (statement_yields rfl (fun _ => rfl) fun _ => rfl).mono ?_
  rintro uids _ ⟨listed, rfl⟩
  cases listed
  exact ⟨rfl, rfl⟩

theorem deleteEach_yields (pieces : List (List Nat)) :
    Yields (respond chrono who) env.calm env.sure
      (deleteEach chrono folderId pieces) world fun _ after =>
        Local world after ∧
          Trimmed folderId (fun uid => uid ∈ pieces.flatten) world.db
            after.db := by
  induction pieces generalizing world with
  | nil =>
      refine yields_pure ⟨⟨rfl, rfl⟩, ?_⟩
      exact (Trimmed.nothing _ _).congr fun uid _ => by simp
  | cons piece rest inductionHypothesis =>
      refine (statement_yields rfl (fun _ => rfl) fun _ => rfl).bind ?_
      rintro count _ ⟨_, rfl⟩
      refine inductionHypothesis.bind ?_
      rintro others after ⟨stays, later⟩
      refine yields_pure ⟨⟨stays.server, stays.session⟩, ?_⟩
      have first : Trimmed folderId (fun uid => uid ∈ piece) world.db
          (Messages.deleteManyByUids folderId piece world.db) :=
        .deleteMessages _ _ (fun row own => by simp [Messages.among, own]) _
      exact (first.trans later).congr fun uid _ => by simp

theorem searchEach_yields (works : At who place mailbox world)
    (pieces : List (List Nat)) :
    Yields (respond chrono who) env.calm env.sure (searchEach chrono pieces)
      world fun found after => after = world ∧ ∀ uid, uid ∈ found ↔
        uid ∈ pieces.flatten ∧ uid ∈ mailbox.uids := by
  induction pieces with
  | nil => exact yields_pure ⟨rfl, by simp⟩
  | cons piece rest inductionHypothesis =>
      refine (uidSearch_yields works (.uids piece)).bind ?_
      rintro here _ ⟨rfl, hits, rfl⟩
      refine inductionHypothesis.bind ?_
      rintro others _ ⟨rfl, mem⟩
      refine yields_pure ⟨rfl, fun uid => ?_⟩
      rw [List.mem_append, mem, List.flatten_cons, List.mem_append, or_and_right]
      simp [searchReply, and_comm]

/-- Of the cached UIDs a server calls vanished, those it no longer has go. -/
theorem dropVanished_yields (works : At who place mailbox world)
    (vanished : List (Nat × Nat)) :
    Yields (respond chrono who) env.calm env.sure
      (dropVanished chrono folderId vanished) world fun _ after =>
        Local world after ∧ Trimmed folderId
          (fun uid => inRanges vanished uid ∧ uid ∉ mailbox.uids) world.db
            after.db := by
  unfold dropVanished
  refine (listUids_yields world folderId).bind ?_
  rintro cached _ ⟨rfl, rfl⟩
  refine (searchEach_yields works _).bind ?_
  rintro still _ ⟨rfl, mem⟩
  refine (deleteEach_yields _).mono ?_
  rintro _ after ⟨stays, trimmed⟩
  refine ⟨stays, trimmed.congr fun uid cached => ?_⟩
  rw [Data.flatten_chunks] at mem ⊢
  have listed := mem_listUids.mpr cached
  by_cases named : inRanges vanished uid
  · simp [mem, listed, named]
  · simp [named]

theorem expungeEach_yields (searchLo : Nat) (serverUids uids : List Nat) :
    Yields (respond chrono who) env.calm env.sure
      (expungeEach chrono folderId searchLo serverUids uids) world
      fun _ after => Local world after ∧ Trimmed folderId
        (fun uid => uid ∈ uids ∧ searchLo ≤ uid ∧ uid ∉ serverUids) world.db
          after.db := by
  induction uids generalizing world with
  | nil =>
      refine yields_pure ⟨⟨rfl, rfl⟩, ?_⟩
      exact (Trimmed.nothing _ _).congr fun uid _ => by simp
  | cons uid rest inductionHypothesis =>
      unfold expungeEach
      split
      · next taken =>
        refine (statement_yields rfl (fun _ => rfl) fun _ => rfl).bind ?_
        rintro _ _ ⟨_, rfl⟩
        refine inductionHypothesis.bind ?_
        rintro others after ⟨stays, later⟩
        refine yields_pure ⟨⟨stays.server, stays.session⟩, ?_⟩
        have first : Trimmed folderId (fun other => other = uid) world.db
            (Messages.deleteByUid folderId uid world.db) :=
          .deleteMessages _ _ (fun row own => by simp [own]) _
        refine (first.trans later).congr fun other _ => ?_
        constructor
        · rintro (rfl | ⟨member, above, absent⟩)
          · exact ⟨List.mem_cons_self, taken⟩
          · exact ⟨List.mem_cons_of_mem _ member, above, absent⟩
        · rintro ⟨member, above, absent⟩
          exact (List.mem_cons.mp member).imp_right fun later =>
            ⟨later, above, absent⟩
      · next kept =>
        refine inductionHypothesis.mono ?_
        rintro _ after ⟨stays, trimmed⟩
        refine ⟨stays, trimmed.congr fun other _ => ?_⟩
        constructor
        · rintro ⟨member, rest⟩
          exact ⟨List.mem_cons_of_mem _ member, rest⟩
        · rintro ⟨member, rest⟩
          refine ⟨(List.mem_cons.mp member).resolve_left ?_, rest⟩
          rintro rfl
          exact kept rest

end Removals

/-! ## The sweep of the Trash -/

/-- What the sweep leaves of a row: a clean unread one may be read. -/
def SweptRow (before after : Option Message) : Prop :=
  after = before ∨ ∃ row queued, before = some row ∧ row.isRead = false ∧
    row.flagsDirty = false ∧
    after = some { row with isRead := true, flagsDirty := queued }

theorem SweptRow.isSome_iff {before after : Option Message}
    (swept : SweptRow before after) : after.isSome ↔ before.isSome := by
  rcases swept with same | ⟨row, queued, was, _, _, now⟩
  · rw [same]
  · simp [was, now]

/-- What the sweep leaves of a folder's rows. -/
structure Swept (folderId : Nat) (before after : Db) : Prop where
  folders : after.folders = before.folders
  rows : ∀ uid, SweptRow (before.message? folderId uid)
    (after.message? folderId uid)

namespace Swept

variable {folderId : Nat}

theorem refl (folderId : Nat) (db : Db) : Swept folderId db db :=
  ⟨rfl, fun _ => .inl rfl⟩

theorem setReadCleanByUids (uids : List Nat) (queued : Bool) (db : Db) :
    Swept folderId db
      (Messages.setReadCleanByUids folderId uids queued db) where
  folders := rfl
  rows uid := by
    unfold Messages.setReadCleanByUids
    rw [Db.message?_updateMessages]
    cases found : db.message? folderId uid with
    | none => exact .inl rfl
    | some row =>
        rw [Option.map_some]
        split
        · next matched =>
          simp only [Bool.and_eq_true, Bool.not_eq_true'] at matched
          exact .inr ⟨row, queued, rfl, matched.1.2, matched.2, rfl⟩
        · exact .inl rfl

end Swept

section Sweep

variable {chrono : Chrono} {ι : Type} [DecidableEq ι] {who : ι}
  {folderId : Nat}

/-- The sweep does not fail the sync. -/
theorem sweepTrashSeen_leads (folderId : Nat) (world : World chrono ι) :
    Leads (respond chrono who) (fun _ => True)
      (sweepTrashSeen chrono folderId) world fun result after =>
        result = .ok () ∧ Swept folderId world.db after.db := by
  unfold sweepTrashSeen
  refine leads_attempt_bind (leads_perform fun answer _ => ?_)
  have listed : (respond chrono who (.listUnreadUids folderId) answer
      world).2 = world := by
    rw [respond_statement chrono who rfl]
    cases answer.refused <;> rfl
  rw [listed]
  split
  · exact leads_pure ⟨rfl, .refl _ _⟩
  · exact leads_pure ⟨rfl, .refl _ _⟩
  next uids _ nonempty =>
    have stores : Leads (respond chrono who) (fun _ => True)
        (uidStoreFlags chrono uids .add .seen) world fun _ after =>
          after.db = world.db := by
      unfold uidStoreFlags
      split
      · exact leads_pure rfl
      · exact leads_perform fun answer _ => db_respond rfl answer world
    have marks : ∀ (queued : Bool) (reached : World chrono ι),
        reached.db = world.db →
        Leads (respond chrono who) (fun _ => True) (Fallible.ignore
          (perform chrono (.setReadCleanByUids folderId uids queued))) reached
          fun result after => result = .ok () ∧
            Swept folderId world.db after.db := by
      intro queued reached same
      refine Leads.ignore (leads_perform fun answer _ => ⟨rfl, ?_⟩)
      rw [respond_statement chrono who rfl, ← same]
      cases answer.refused with
      | some text => exact .refl _ _
      | none => exact Swept.setReadCleanByUids uids queued reached.db
    refine leads_attempt_bind (stores.mono fun result reached same => ?_)
    cases result with
    | ok _ => exact marks false reached same
    | error _ => exact marks true reached same

end Sweep

end Imap
end Mailcore
