import Mathlib.Data.Prod.Lex
import Mailcore.Data.Leading
import Mailcore.Imap.Db
import Mailcore.Outbox.Row

/-!
# Trimming the local cache

`trim_local_cache` deletes, folder by folder, the messages behind the newest ones
that no guard of its statement protects.
-/

namespace Mailcore
namespace Maintenance

open Imap (Message PendingRow)
open Outbox (QueueStatus SendQueue SendRow)

/-- The store as trimming reads it: the mail cache, and the outbox whose rows may
refer to its messages. -/
structure Store where
  cache : Imap.Db
  queue : SendQueue
  /-- The foreign key of `send_queue.message_id`. -/
  referenced : ∀ row ∈ queue.rows, ∀ id, row.messageId = some id →
    ∃ message ∈ cache.messages.rows, message.id = id

namespace Store

/-- A message that a delete with this filter removes. -/
def removes (store : Store) (filter : Message → Bool) (id : Nat) : Bool :=
  store.cache.messages.rows.any fun message => filter message && message.id = id

/-- Remove messages: their pending rows go with them, and outbox rows no longer
refer to them (`on delete set null`). -/
def deleteMessages (store : Store) (filter : Message → Bool) : Store where
  cache := store.cache.deleteMessages filter
  queue := store.queue.update (fun row => row.messageId.any (store.removes filter))
    fun row => { row with messageId := none }
  referenced := by
    intro row member id refers
    obtain ⟨old, stored, rfl⟩ := List.mem_map.mp member
    by_cases cleared : old.messageId.any (store.removes filter) = true
    · rw [if_pos cleared] at refers
      cases refers
    · rw [if_neg cleared] at refers
      obtain ⟨message, owner, rfl⟩ := store.referenced old stored id refers
      refine ⟨message, List.mem_filter.mpr ⟨owner, ?_⟩, rfl⟩
      rw [refers, Option.any_some, removes, List.any_eq_true] at cleared
      rw [Bool.not_eq_true', ← Bool.not_eq_true]
      exact fun matched => cleared ⟨message, owner, by simp [matched]⟩

end Store

/-- `order by uid desc, id desc`. -/
def newerFirst (first second : Message) : Bool :=
  decide ((toLex (second.uid, second.id) : Nat ×ₗ Nat) ≤ toLex (first.uid, first.id))

/-- `limit ?2`: a `usize` that does not fit `i64` turns negative, which is no
limit at all. -/
def rowLimit (keepPerFolder : UInt64) : Option Nat :=
  if keepPerFolder.toNat < 2 ^ 63 then some keepPerFolder.toNat else none

/-- The newest messages of a folder up to the limit. -/
def newest (cache : Imap.Db) (folderId : Nat) (keepPerFolder : UInt64) : List Message :=
  let sorted := (cache.messages.rows.filter fun row => row.folderId = folderId).mergeSort newerFirst
  match rowLimit keepPerFolder with
  | some limit => sorted.take limit
  | none => sorted

/-- The states whose rows the statement spares. -/
def sparedStatuses : List QueueStatus :=
  [.queued, .sending, .failed]

/-- The `where` of the statement. -/
def expendable (store : Store) (folderId : Nat) (keepPerFolder : UInt64) (message : Message) :
    Bool :=
  message.folderId = folderId && !message.isDraft && !message.flagsDirty &&
    !((newest store.cache folderId keepPerFolder).map Message.id).contains message.id &&
    !(store.cache.pendingMoves.map PendingRow.messageId).contains message.id &&
    !((store.queue.rows.filter fun row => sparedStatuses.contains row.status).filterMap
      SendRow.messageId).contains message.id

/-- The statement for one folder. -/
def trimFolder (keepPerFolder : UInt64) (state : Store × Nat) (folderId : Nat) : Store × Nat :=
  let filter := expendable state.1 folderId keepPerFolder
  (state.1.deleteMessages filter, state.2 + state.1.cache.messages.count filter)

def trimLocalCache (store : Store) (keepPerFolder : UInt64) : Store × Nat :=
  (store.cache.folders.rows.map Imap.Folder.id).foldl (trimFolder keepPerFolder) (store, 0)

/-! ## What a message is spared for -/

/-- A message with few enough newer ones in its folder. -/
def Newest (cache : Imap.Db) (keepPerFolder : UInt64) (message : Message) : Prop :=
  ∀ limit, rowLimit keepPerFolder = some limit →
    (cache.messages.rows.countP fun other =>
      other.folderId = message.folderId && message.uid < other.uid) < limit

/-- An outbox row in one of the states refers to the message. -/
def ReferredTo (store : Store) (statuses : List QueueStatus) (message : Message) : Prop :=
  ∃ row ∈ store.queue.rows, row.status ∈ statuses ∧ row.messageId = some message.id

/-- Local work that exists nowhere else. -/
def LocalWork (store : Store) (statuses : List QueueStatus) (message : Message) : Prop :=
  message.isDraft = true ∨ message.flagsDirty = true ∨ store.cache.isPending message.id ∨
    ReferredTo store statuses message

theorem newerFirst_iff {first second : Message} :
    newerFirst first second = true ↔
      second.uid < first.uid ∨ second.uid = first.uid ∧ second.id ≤ first.id := by
  rw [newerFirst, decide_eq_true_iff, Prod.Lex.toLex_le_toLex]

theorem newerFirst_trans (first second third : Message) (above : newerFirst first second)
    (below : newerFirst second third) : newerFirst first third := by
  rw [newerFirst_iff] at above below ⊢
  omega

theorem newerFirst_total (first second : Message) :
    (newerFirst first second || newerFirst second first) = true := by
  rw [Bool.or_eq_true, newerFirst_iff, newerFirst_iff]
  omega

theorem nodup_messages (cache : Imap.Db) : cache.messages.rows.Nodup := by
  refine cache.messages.ascending.imp fun less same => ?_
  rw [same] at less
  exact Nat.lt_irrefl _ less

/-- Messages of one folder are in order by their UIDs alone. -/
theorem newerFirst_eq {cache : Imap.Db} {first second : Message}
    (here : first ∈ cache.messages.rows) (there : second ∈ cache.messages.rows)
    (sameFolder : first.folderId = second.folderId) (apart : first ≠ second) :
    newerFirst first second = decide (second.uid < first.uid) := by
  have differs : first.uid ≠ second.uid := fun same =>
    apart (cache.oneUid first here second there sameFolder same)
  rw [Bool.eq_iff_iff, newerFirst_iff, decide_eq_true_iff]
  omega

theorem mem_newest_iff {cache : Imap.Db} {keepPerFolder : UInt64} {message : Message}
    (stored : message ∈ cache.messages.rows) :
    message ∈ newest cache message.folderId keepPerFolder ↔ Newest cache keepPerFolder message := by
  have own : message ∈ cache.messages.rows.filter fun row => row.folderId = message.folderId :=
    List.mem_filter.mpr ⟨stored, decide_eq_true rfl⟩
  unfold newest Newest
  cases bound : rowLimit keepPerFolder with
  | none => simpa using stored
  | some limit =>
      have nodup := (nodup_messages cache).sublist
        (List.filter_sublist (p := fun row => decide (row.folderId = message.folderId)))
      have known : ∀ other ∈ cache.messages.rows.filter fun row =>
          decide (row.folderId = message.folderId), other ∈ cache.messages.rows ∧
            other.folderId = message.folderId := by
        intro other member
        obtain ⟨inside, same⟩ := List.mem_filter.mp member
        exact ⟨inside, of_decide_eq_true same⟩
      have counted : (cache.messages.rows.countP fun other =>
          decide (other.folderId = message.folderId) && decide (message.uid < other.uid)) =
            (cache.messages.rows.filter fun row =>
              decide (row.folderId = message.folderId)).countP fun other =>
                message.uid < other.uid := by
        rw [List.countP_filter]
        exact List.countP_congr fun other _ => by simp [and_comm]
      simp only [Option.some.injEq, forall_eq', counted]
      obtain ⟨front, back, split⟩ := List.append_of_mem own
      rw [split] at nodup known ⊢
      rw [Data.mem_take_mergeSort newerFirst_trans newerFirst_total nodup]
      have apart : ∀ other, other ∈ front ∨ other ∈ back → other ≠ message := by
        rintro other (early | late) rfl
        · exact (List.nodup_append.mp nodup).2.2 _ early _ List.mem_cons_self rfl
        · exact (List.nodup_cons.mp (List.nodup_append.mp nodup).2.1).1 late
      have behind : front.countP (newerFirst · message) =
          front.countP fun other => message.uid < other.uid := by
        refine List.countP_congr fun other member => ?_
        have place := known other (List.mem_append_left _ member)
        rw [newerFirst_eq place.1 stored place.2 (apart other (.inl member))]
      have above : back.countP (fun other => !newerFirst message other) =
          back.countP fun other => message.uid < other.uid := by
        refine List.countP_congr fun other member => ?_
        have place := known other (by simp [member])
        have differs := apart other (.inr member)
        rw [newerFirst_eq stored place.1 place.2.symm differs.symm]
        have uids : message.uid ≠ other.uid := fun same =>
          differs (cache.oneUid other place.1 message stored place.2 same.symm)
        simp only [Bool.not_eq_true', decide_eq_false_iff_not, decide_eq_true_eq]
        omega
      rw [Data.ahead, behind, above, List.countP_append, List.countP_cons_of_neg (by simp)]

theorem stored_of_mem_newest {cache : Imap.Db} {folderId : Nat} {keepPerFolder : UInt64}
    {message : Message} (member : message ∈ newest cache folderId keepPerFolder) :
    message ∈ cache.messages.rows := by
  unfold newest at member
  have known : message ∈ (cache.messages.rows.filter fun row => row.folderId = folderId).mergeSort
      newerFirst := by
    cases bound : rowLimit keepPerFolder with
    | none => simpa only [bound] using member
    | some limit =>
        simp only [bound] at member
        exact List.mem_of_mem_take member
  exact (List.mem_filter.mp (List.mem_mergeSort.mp known)).1

/-- What the statement removes. -/
theorem expendable_iff {store : Store} {keepPerFolder : UInt64} {message : Message}
    (stored : message ∈ store.cache.messages.rows) :
    expendable store message.folderId keepPerFolder message = true ↔
      ¬(Newest store.cache keepPerFolder message ∨ LocalWork store sparedStatuses message) := by
  have ids : message.id ∈ (newest store.cache message.folderId keepPerFolder).map Message.id ↔
      Newest store.cache keepPerFolder message := by
    rw [← mem_newest_iff stored, List.mem_map]
    constructor
    · rintro ⟨other, member, same⟩
      rwa [Imap.Db.eq_of_id_eq (stored_of_mem_newest member) stored same] at member
    · exact fun member => ⟨message, member, rfl⟩
  have pending : message.id ∈ store.cache.pendingMoves.map PendingRow.messageId ↔
      store.cache.isPending message.id := List.mem_map
  have sent : message.id ∈ (store.queue.rows.filter fun row =>
      sparedStatuses.contains row.status).filterMap SendRow.messageId ↔
        ReferredTo store sparedStatuses message := by
    simp only [List.mem_filterMap, List.mem_filter, List.contains_iff_mem, and_assoc, ReferredTo]
  simp only [expendable, Bool.and_eq_true, Bool.not_eq_true', ← Bool.not_eq_true,
    List.contains_iff_mem, ids, pending, sent, decide_true, true_and, LocalWork, not_or, and_assoc]
  tauto

/-! ## One folder after the other -/

section Frame

variable {store : Store} {filter : Message → Bool} {message : Message}

theorem removes_eq_false (stored : message ∈ store.cache.messages.rows)
    (spared : filter message = false) : store.removes filter message.id = false := by
  rw [← Bool.not_eq_true, Store.removes, List.any_eq_true]
  rintro ⟨other, inside, both⟩
  rw [Bool.and_eq_true, decide_eq_true_eq] at both
  rw [Imap.Db.eq_of_id_eq inside stored both.2, spared] at both
  cases both.1

/-- A message that stays keeps its pending row. -/
theorem isPending_deleteMessages (stored : message ∈ store.cache.messages.rows)
    (spared : filter message = false) :
    (store.deleteMessages filter).cache.isPending message.id ↔ store.cache.isPending message.id := by
  have stays := removes_eq_false stored spared
  constructor
  · rintro ⟨row, member, same⟩
    exact ⟨row, (List.mem_filter.mp member).1, same⟩
  · rintro ⟨row, member, same⟩
    refine ⟨row, List.mem_filter.mpr ⟨member, ?_⟩, same⟩
    rw [same]
    exact Bool.not_eq_true' _ |>.mpr stays

/-- A message that stays keeps the outbox rows that refer to it. -/
theorem referredTo_deleteMessages (stored : message ∈ store.cache.messages.rows)
    (spared : filter message = false) (statuses : List QueueStatus) :
    ReferredTo (store.deleteMessages filter) statuses message ↔
      ReferredTo store statuses message := by
  have stays := removes_eq_false stored spared
  constructor
  · rintro ⟨row, member, status, refers⟩
    obtain ⟨old, inside, rfl⟩ := List.mem_map.mp member
    by_cases cleared : old.messageId.any (store.removes filter) = true
    · rw [if_pos cleared] at refers
      cases refers
    · rw [if_neg cleared] at status refers
      exact ⟨old, inside, status, refers⟩
  · rintro ⟨row, member, status, refers⟩
    refine ⟨row, List.mem_map.mpr ⟨row, member, if_neg ?_⟩, status, refers⟩
    change ¬row.messageId.any (store.removes filter) = true
    rw [refers, Option.any_some, stays]
    exact Bool.false_ne_true

theorem localWork_deleteMessages (stored : message ∈ store.cache.messages.rows)
    (spared : filter message = false) (statuses : List QueueStatus) :
    LocalWork (store.deleteMessages filter) statuses message ↔ LocalWork store statuses message := by
  rw [LocalWork, LocalWork, isPending_deleteMessages stored spared,
    referredTo_deleteMessages stored spared]

theorem newest_deleteMessages {keepPerFolder : UInt64}
    (others : ∀ other, other.folderId = message.folderId → filter other = false) :
    Newest (store.deleteMessages filter).cache keepPerFolder message ↔
      Newest store.cache keepPerFolder message := by
  have same : ((store.deleteMessages filter).cache.messages.rows.countP fun other =>
      decide (other.folderId = message.folderId) && decide (message.uid < other.uid)) =
        store.cache.messages.rows.countP fun other =>
          decide (other.folderId = message.folderId) && decide (message.uid < other.uid) := by
    change ((store.cache.messages.rows.filter fun row => !filter row).countP _) = _
    rw [List.countP_filter]
    refine List.countP_congr fun other _ => ?_
    by_cases here : other.folderId = message.folderId
    · simp [here, others other here]
    · simp [here]
  rw [Newest, Newest, same]

/-- Trimming one folder changes nothing about what is expendable in another. -/
theorem expendable_deleteMessages {keepPerFolder : UInt64}
    (stored : message ∈ store.cache.messages.rows)
    (others : ∀ other, other.folderId = message.folderId → filter other = false) :
    expendable (store.deleteMessages filter) message.folderId keepPerFolder message =
      expendable store message.folderId keepPerFolder message := by
  have spared := others message rfl
  have kept : message ∈ (store.deleteMessages filter).cache.messages.rows :=
    List.mem_filter.mpr ⟨stored, by rw [spared]; rfl⟩
  rw [Bool.eq_iff_iff, expendable_iff stored, expendable_iff kept,
    newest_deleteMessages others, localWork_deleteMessages stored spared]

end Frame

theorem folder_of_expendable {store : Store} {folderId : Nat} {keepPerFolder : UInt64}
    {message : Message} (removed : expendable store folderId keepPerFolder message = true) :
    message.folderId = folderId := by
  simp only [expendable, Bool.and_eq_true, decide_eq_true_eq] at removed
  exact removed.1.1.1.1.1

/-- What the loop leaves of the messages. -/
theorem mem_foldl_trimFolder {keepPerFolder : UInt64} {message : Message} (folders : List Nat)
    (distinct : folders.Nodup) (store : Store) (removed : Nat) :
    message ∈ (folders.foldl (trimFolder keepPerFolder) (store, removed)).1.cache.messages.rows ↔
      message ∈ store.cache.messages.rows ∧ ¬(message.folderId ∈ folders ∧
        expendable store message.folderId keepPerFolder message = true) := by
  induction folders generalizing store removed with
  | nil => simp
  | cons folder folders inductionHypothesis =>
      obtain ⟨fresh, distinct⟩ := List.nodup_cons.mp distinct
      rw [List.foldl_cons, trimFolder, inductionHypothesis distinct]
      have left : message ∈ (store.deleteMessages
          (expendable store folder keepPerFolder)).cache.messages.rows ↔
            message ∈ store.cache.messages.rows ∧
              ¬expendable store folder keepPerFolder message = true := by
        refine List.mem_filter.trans ?_
        rw [Bool.not_eq_true', Bool.not_eq_true]
      rw [left]
      by_cases here : message.folderId = folder
      · subst here
        simp [fresh]
      · have other : ¬expendable store folder keepPerFolder message = true :=
          fun gone => here (folder_of_expendable gone)
        have member : message.folderId ∈ folder :: folders ↔ message.folderId ∈ folders := by
          simp [here]
        rw [member]
        by_cases stored : message ∈ store.cache.messages.rows
        · rw [expendable_deleteMessages stored]
          · simp [other]
          · intro candidate same
            rw [← Bool.not_eq_true]
            exact fun gone => here (same.symm.trans (folder_of_expendable gone))
        · simp [stored]

/-- Exactly the newest messages and what the guards spare are left. -/
theorem mem_trimLocalCache {store : Store} {keepPerFolder : UInt64} {message : Message}
    (stored : message ∈ store.cache.messages.rows) :
    message ∈ (trimLocalCache store keepPerFolder).1.cache.messages.rows ↔
      Newest store.cache keepPerFolder message ∨ LocalWork store sparedStatuses message := by
  have distinct : (store.cache.folders.rows.map Imap.Folder.id).Nodup := by
    rw [List.Nodup, List.pairwise_map]
    exact store.cache.folders.ascending.imp fun less => Nat.ne_of_lt less
  obtain ⟨folder, member, same⟩ := store.cache.messageOwned message stored
  have listed : message.folderId ∈ store.cache.folders.rows.map Imap.Folder.id :=
    List.mem_map.mpr ⟨folder, member, same⟩
  rw [trimLocalCache, mem_foldl_trimFolder _ distinct, expendable_iff stored]
  simp only [stored, listed, true_and, not_not]

/-- The states of a row that is not sent yet. -/
def unsentStatuses : List QueueStatus :=
  [.queued, .scheduled, .sending, .failed]

/-- Trimming keeps the newest messages and all local work exactly where every
message of a scheduled row is kept for another reason. -/
theorem trimLocalCache_iff (store : Store) (keepPerFolder : UInt64) :
    (∀ message ∈ store.cache.messages.rows,
      Newest store.cache keepPerFolder message ∨ LocalWork store unsentStatuses message →
        message ∈ (trimLocalCache store keepPerFolder).1.cache.messages.rows) ↔
    ∀ message ∈ store.cache.messages.rows, ReferredTo store [.scheduled] message →
      Newest store.cache keepPerFolder message ∨ LocalWork store sparedStatuses message := by
  have split : ∀ message, LocalWork store unsentStatuses message ↔
      LocalWork store sparedStatuses message ∨ ReferredTo store [.scheduled] message := by
    intro message
    have parts : ReferredTo store unsentStatuses message ↔
        ReferredTo store sparedStatuses message ∨ ReferredTo store [.scheduled] message := by
      simp only [ReferredTo, ← exists_or, ← and_or_left, ← or_and_right, unsentStatuses,
        sparedStatuses, List.mem_cons, List.not_mem_nil, or_false]
      refine exists_congr fun row => and_congr_right fun _ => and_congr_left fun _ => ?_
      tauto
    rw [LocalWork, LocalWork, parts]
    tauto
  constructor
  · intro kept message stored scheduled
    exact (mem_trimLocalCache stored).mp
      (kept message stored (.inr ((split message).mpr (.inr scheduled))))
  · intro condition message stored needed
    rw [mem_trimLocalCache stored]
    rw [split] at needed
    rcases needed with new | work | scheduled
    · exact .inl new
    · exact .inr work
    · exact condition message stored scheduled

namespace Sample

/-- A message of folder 1 with nothing in it. -/
def message (uid : Nat) : Imap.NewMessage :=
  ⟨1, uid, ⟨none, none, none, none, none, [], [], [], none, none, none, none, none, none, [],
    false, 0, true⟩, true, false, false⟩

theorem inbox_free :
    ∀ folder ∈ (Imap.Db.fresh [1]).folders.rows, folder.place ≠ ⟨1, "INBOX"⟩ := by
  decide

/-- A folder with two read messages. -/
def inbox : Imap.Db :=
  (((Imap.Db.fresh [1]).insertFolder ⟨1, "INBOX"⟩ "/" .inbox (by decide) inbox_free).insertMessage
    (message 1) (by decide) (by decide)).insertMessage (message 2) (by decide) (by decide)

/-- The older of them is sent later. -/
def sentLater : SendRow :=
  ⟨1, 1, some 1, .scheduled, none, 0, none, none, "[]", some "2027-01-01T00:00:00Z", false, false,
    none, false, "2026-01-01T00:00:00Z", "2026-01-01T00:00:00Z"⟩

def store : Store where
  cache := inbox
  queue := (Relational.Table.empty : SendQueue).insert fun id => { sentLater with id }
  referenced := by
    intro row member id refers
    obtain rfl := List.mem_singleton.mp member
    obtain rfl := Option.some.inj refers
    decide

/-- The message of the scheduled row is trimmed away. -/
theorem scheduled_message_trimmed :
    ¬∀ message ∈ store.cache.messages.rows,
      Newest store.cache 1 message ∨ LocalWork store unsentStatuses message →
        message ∈ (trimLocalCache store 1).1.cache.messages.rows := by
  intro kept
  have stored : ⟨1, 1, 1, (message 1).letter, true, false, false, false⟩ ∈
      store.cache.messages.rows := by decide
  have left := (mem_trimLocalCache stored).mp
    (kept _ stored (.inr (.inr (.inr (.inr ⟨_, List.mem_singleton_self _, by decide, rfl⟩)))))
  rcases left with new | draft | dirty | ⟨row, pending, -⟩ | ⟨row, member, status, -⟩
  · exact absurd (new 1 rfl) (by decide)
  · cases draft
  · cases dirty
  · cases pending
  · obtain rfl := List.mem_singleton.mp member
    exact absurd status (by decide)

end Sample

end Maintenance
end Mailcore
