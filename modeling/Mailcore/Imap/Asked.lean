import Mailcore.Concurrent.Alone
import Mailcore.Imap.Sync

/-!
# What a window sync has asked the server

A window sync removes a cached message when it believes the server no longer
has it.  The monitor remembers what the sync listed as cached and, of that,
what a later search covered and did not find.  Every removal of a sync is of
such a UID, of a UID above everything it searched, or of the old incarnation.
-/

namespace Mailcore
namespace Imap

open Store Concurrent Concurrent.Fallible
open Data (chunks)

/-- What a sync knows of its folder. -/
structure AskDesk where
  /-- The window it syncs. -/
  window : Option Nat
  /-- The folder it read, under its id. -/
  folder : Option (Nat × Folder)
  /-- What its SELECT reported. -/
  reply : Option SelectResult
  /-- The UIDs cached when it saw that the mailbox had been rebuilt. -/
  old : Option (List Nat)
  /-- The UIDs it has listed as cached since the SELECT. -/
  listed : List Nat
  /-- Of these, the UIDs a search covered and did not find. -/
  gone : List Nat

namespace AskDesk

/-- A sync that has not begun. -/
def fresh (window : Option Nat) : AskDesk := ⟨window, none, none, none, [], []⟩

/-- The UIDNEXT a windowed search starts below. -/
def ceiling (desk : AskDesk) : Option Nat := do
  let _ ← desk.window
  let reply ← desk.reply
  let next ← reply.uidNext
  if 1 < next then some next else none

/-- A UID above everything a windowed search looks at. -/
def Beyond (desk : AskDesk) (uid : Nat) : Prop :=
  ∃ next, desk.ceiling = some next ∧ next ≤ uid

/-- The mailbox has been rebuilt since it was cached. -/
def rebuilt (desk : AskDesk) : Bool :=
  desk.folder.any fun folder => desk.reply.any (validityDiffers folder.2)

/-- The UIDs of the old incarnation. -/
def stale (desk : AskDesk) : List Nat := desk.old.getD []

/-- The next listing is that of the old incarnation. -/
def listsOld (desk : AskDesk) : Bool := desk.rebuilt && desk.old.isNone

/-- The folder the sync works in. -/
def In (desk : AskDesk) (id : Nat) : Prop :=
  (∃ folder, desk.folder = some (id, folder)) ∧ desk.reply.isSome

end AskDesk

/-- A search tells whether the server has the UID. -/
def SearchKey.covers : SearchKey → Nat → Bool
  | .all, _ => true
  | .range lo hi, uid => lo ≤ uid && uid ≤ hi
  | .uids named, uid => uid ∈ named
  | .deleted, _ => false
  | .criteria _, _ => false

namespace AskDesk

/-- The calls of a window sync. -/
def Allows (desk : AskDesk) : Call → Prop
  | .select place _ => ∃ id folder, desk.folder = some (id, folder) ∧
      folder.place = place
  | .search _ => desk.reply.isSome
  | .listUids folderId => desk.In folderId
  | .deleteByUid folderId uid => desk.In folderId ∧
      (uid ∈ desk.gone ∨ uid ∈ desk.listed ∧ desk.Beyond uid)
  | .deleteManyByUids folderId uids => desk.In folderId ∧
      ∀ uid ∈ uids, uid ∈ desk.gone ∨ uid ∈ desk.stale
  | .session | .useExtensions _ _ | .fetchFlags _ _ | .fetchMessages _
  | .store _ _ _ | .accountGet _ | .folderGet _ | .setSyncState _ _ _ _ _
  | .listUnreadUids _ | .upsert _ | .setReadCleanByUids _ _ _
  | .setFlagsByUid _ _ _ _ _ | .listAttachments _ | .addAttachment _ _ =>
      True
  | _ => False

/-- The desk after a listing. -/
def list (desk : AskDesk) (uids : List Nat) : AskDesk :=
  if desk.listsOld then { desk with old := some uids }
  else { desk with
    listed := desk.listed ++ uids.filter fun uid => uid ∉ desk.stale }

/-- The desk after a search. -/
def search (desk : AskDesk) (key : SearchKey) (found : List Nat) : AskDesk :=
  { desk with
    gone := desk.gone ++ desk.listed.filter fun uid =>
      key.covers uid && uid ∉ found }

/-- What a reply tells a sync. -/
def next (chrono : Chrono) (desk : AskDesk) :
    (call : Call) → Except StoreError (call.Value chrono) → AskDesk
  | .folderGet id, .ok folder =>
      ⟨desk.window, some (id, folder), none, none, [], []⟩
  | .select _ _, .ok reply =>
      ⟨desk.window, desk.folder, some reply, none, [], []⟩
  | .select _ _, .error _ =>
      ⟨desk.window, desk.folder, none, none, [], []⟩
  | .listUids _, .ok uids => desk.list uids
  | .search key, .ok found => desk.search key found
  | _, _ => desk

end AskDesk

/-- The monitor of window syncs. -/
@[reducible] def askMonitor (chrono : Chrono) : Monitor (signature chrono) where
  State := AskDesk
  allows := AskDesk.Allows
  next := AskDesk.next chrono

/-! ## What a sync may rely on -/

section Obedience

variable {chrono : Chrono} {crates : Crates} {desk : AskDesk} {α : Type}

/-- The desk after a SELECT. -/
def AskDesk.selected (desk : AskDesk) (reply : SelectResult) : AskDesk :=
  ⟨desk.window, desk.folder, some reply, none, [], []⟩

/-- The desk after some searches. -/
structure AskDesk.Sought (desk after : AskDesk) : Prop where
  window : after.window = desk.window
  folder : after.folder = desk.folder
  reply : after.reply = desk.reply
  old : after.old = desk.old
  listed : after.listed = desk.listed
  gone : desk.gone ⊆ after.gone

theorem AskDesk.Sought.refl (desk : AskDesk) : desk.Sought desk :=
  ⟨rfl, rfl, rfl, rfl, rfl, List.Subset.refl _⟩

theorem AskDesk.Sought.trans {first second third : AskDesk}
    (earlier : first.Sought second) (later : second.Sought third) :
    first.Sought third :=
  ⟨later.window.trans earlier.window, later.folder.trans earlier.folder,
    later.reply.trans earlier.reply, later.old.trans earlier.old,
    later.listed.trans earlier.listed,
    List.Subset.trans earlier.gone later.gone⟩

theorem AskDesk.sought_search (desk : AskDesk) (key : SearchKey)
    (found : List Nat) : desk.Sought (desk.search key found) :=
  ⟨rfl, rfl, rfl, rfl, rfl, List.subset_append_left _ _⟩

theorem AskDesk.mem_gone_search {desk : AskDesk} {key : SearchKey}
    {found : List Nat} {uid : Nat} (listed : uid ∈ desk.listed)
    (covered : key.covers uid) (absent : uid ∉ found) :
    uid ∈ (desk.search key found).gone := by
  refine List.mem_append_right _ (List.mem_filter.mpr ⟨listed, ?_⟩)
  simp [covered, absent]

/-- Whether the desk is at work in a folder is read off what searches keep. -/
theorem AskDesk.Sought.in {desk after : AskDesk} (sought : desk.Sought after)
    {id : Nat} (works : desk.In id) : after.In id := by
  unfold AskDesk.In at works ⊢
  rwa [sought.folder, sought.reply]

theorem select_asks {id : Nat} {folder : Folder}
    (read : desk.folder = some (id, folder))
    (qresync : Option (Nat × Nat)) :
    Keeps (askMonitor chrono) (select chrono folder.place qresync) desk
      fun result after => ∀ reply, result = .ok reply →
        after = desk.selected reply := by
  unfold select perform
  rw [keeps_perform_bind]
  refine ⟨trivial, fun session => ?_, fun error => nofun⟩
  rw [keeps_attempt_bind, keeps_perform]
  refine ⟨⟨id, folder, read, rfl⟩, fun reply => ?_⟩
  cases reply with
  | ok reply =>
      rintro _ ⟨⟩
      rfl
  | error error =>
      dsimp only
      rw [keeps_perform_bind]
      refine ⟨trivial, fun session => ?_, fun _ => nofun⟩
      split
      · rw [keeps_perform_bind]
        refine ⟨trivial, fun _ => ⟨⟨id, folder, read, rfl⟩, ?_⟩, fun _ => nofun⟩
        intro reply
        cases reply with
        | ok reply =>
            rintro _ ⟨⟩
            rfl
        | error error => exact nofun
      · exact nofun

/-- An error is no result. -/
theorem of_error_eq_ok {ε : Type} {error : ε} {value : α} {claim : Prop}
    (same : (.error error : Except ε α) = .ok value) : claim := by
  cases same

/-! ## Searches -/

theorem uidSearch_asks (asks : desk.reply.isSome) (key : SearchKey) :
    Keeps (askMonitor chrono) (uidSearch chrono key) desk
      fun result after => desk.Sought after ∧ ∀ found, result = .ok found →
        ∀ uid ∈ desk.listed, key.covers uid → uid ∉ found →
          uid ∈ after.gone := by
  unfold uidSearch perform
  rw [keeps_perform]
  refine ⟨asks, fun reply => ?_⟩
  cases reply with
  | error error => exact ⟨AskDesk.Sought.refl desk, nofun⟩
  | ok found =>
      refine ⟨desk.sought_search key found, ?_⟩
      rintro _ ⟨⟩ uid listed covered absent
      exact AskDesk.mem_gone_search listed covered absent

/-- Of the listed UIDs between a bound and the top, those not found are known
to be gone. -/
def AskDesk.Settled (desk : AskDesk) (bound top : Nat) (found : List Nat) :
    Prop :=
  ∀ uid ∈ desk.listed, bound ≤ uid → uid ≤ top → uid ∉ found →
    uid ∈ desk.gone

/-- The pages leave no UID out between the last one and the top. -/
theorem searchPages_asks (want span top : Nat) {pages lo hi searchedLo : Nat}
    {found : List Nat} (asks : desk.reply.isSome)
    (settled : desk.Settled (hi + 1) top found)
    (last : pages = 0 → hi < searchedLo) :
    Keeps (askMonitor chrono)
      (searchPages chrono want span pages lo hi found searchedLo) desk
      fun result after => desk.Sought after ∧
        ∀ all bound, result = .ok (all, bound) →
          after.Settled bound top all := by
  induction pages generalizing desk lo hi searchedLo found with
  | zero =>
      refine ⟨AskDesk.Sought.refl desk, ?_⟩
      rintro _ _ ⟨⟩ uid listed above
      exact settled uid listed (Nat.le_trans (last rfl) above)
  | succ pages inductionHypothesis =>
      unfold searchPages
      refine (uidSearch_asks asks (.range lo hi)).bind ?_ fun error after both =>
        ⟨both.1, nofun⟩
      rintro uids after ⟨sought, page⟩
      have here : after.Settled lo top (found ∪ uids) := by
        intro uid listed above below absent
        rw [sought.listed] at listed
        rw [List.mem_union_iff, not_or] at absent
        by_cases inside : uid ≤ hi
        · exact page uids rfl uid listed (by simp [SearchKey.covers, *])
            absent.2
        · exact sought.gone
            (settled uid listed (Nat.lt_of_not_le inside) below absent.1)
      dsimp only
      split
      · refine ⟨sought, ?_⟩
        rintro _ _ ⟨⟩
        exact here
      · next more =>
        have positive : 1 < lo := by omega
        have next : after.Settled (lo - 1 + 1) top (found ∪ uids) := by
          rwa [Nat.sub_add_cancel (Nat.le_of_lt positive)]
        refine (inductionHypothesis (sought.reply ▸ asks) next
          fun _ => by omega).mono ?_
        rintro result reached ⟨further, all⟩
        exact ⟨sought.trans further, all⟩

/-- What a windowed search does not find of the UIDs from its bound on is gone,
or above everything it looked at. -/
theorem searchRecentUids_asks {reply : SelectResult}
    (asked : desk.reply = some reply) :
    Keeps (askMonitor chrono)
      (searchRecentUids chrono desk.window reply.uidNext) desk
      fun result after => desk.Sought after ∧
        ∀ all bound, result = .ok (all, bound) → ∀ uid ∈ desk.listed,
          bound ≤ uid → uid ∉ all → uid ∈ after.gone ∨ desk.Beyond uid := by
  have asks : desk.reply.isSome := by rw [asked]; rfl
  have searchAll : Keeps (askMonitor chrono)
      (do return (← uidSearch chrono .all, 1)) desk
      fun result after => desk.Sought after ∧
        ∀ all bound, result = .ok (all, bound) → ∀ uid ∈ desk.listed,
          bound ≤ uid → uid ∉ all → uid ∈ after.gone ∨ desk.Beyond uid := by
    refine (uidSearch_asks asks .all).bind ?_ fun error after both =>
      ⟨both.1, nofun⟩
    rintro found after ⟨sought, absent⟩
    refine ⟨sought, ?_⟩
    rintro _ _ ⟨⟩ uid listed _ missing
    exact .inl (absent found rfl uid listed rfl missing)
  unfold searchRecentUids
  cases windowed : desk.window with
  | none => exact searchAll
  | some count =>
      dsimp only
      split
      · exact searchAll
      · next some_ =>
        unfold searchPaged
        have vacuous : desk.Settled (reply.uidNext.getD 0 - 1 + 1)
            (reply.uidNext.getD 0 - 1) [] := by
          intro uid _ above below
          omega
        refine (searchPages_asks count _ _ asks vacuous
          fun zero => absurd zero (by decide)).mono ?_
        rintro result after ⟨sought, settled⟩
        refine ⟨sought, ?_⟩
        rintro all bound same uid listed above absent
        by_cases below : uid ≤ reply.uidNext.getD 0 - 1
        · exact .inl (settled all bound same uid (sought.listed ▸ listed) above
            below absent)
        · refine .inr ?_
          cases announced : reply.uidNext with
          | none => simp [announced] at some_
          | some next =>
              rw [announced, Option.getD_some] at some_ below
              refine ⟨next, ?_, by omega⟩
              unfold AskDesk.ceiling
              rw [windowed, asked]
              simp only [Option.bind_eq_bind, Option.bind_some, announced]
              exact if_pos (by omega)

/-! ## What tells the monitor nothing -/

theorem uidFetchFlagsChangedSince_idles (uids : List Nat) (modseq : Nat) :
    Idles (askMonitor chrono) desk
      (uidFetchFlagsChangedSince chrono uids modseq) := by
  unfold uidFetchFlagsChangedSince perform
  have fetches : ∀ since, Idles (askMonitor chrono) desk
      (Fallible.perform (.fetchFlags uids since)) :=
    fun since => Idles.perform trivial fun _ => rfl
  split
  · exact Idles.pure _
  refine (Idles.perform trivial fun _ => rfl).bind fun session => ?_
  split
  · refine (fetches _).attempt.bind fun reply => ?_
    cases reply with
    | ok reply => exact Idles.pure _
    | error error =>
        dsimp only
        refine (Idles.perform trivial fun _ => rfl).bind fun session => ?_
        split
        · exact Idles.throw error
        · exact (Idles.perform trivial fun _ => rfl).bind fun _ => fetches none
  · exact fetches none

theorem applyFlags_idles (folderId : Nat) (isTrash : Bool)
    (changed : List (Nat × List Flag)) :
    Idles (askMonitor chrono) desk
      (applyFlags chrono folderId isTrash changed) := by
  induction changed with
  | nil => exact Idles.pure _
  | cons item rest inductionHypothesis =>
      exact (Idles.perform trivial fun _ => rfl).bind fun _ =>
        inductionHypothesis

theorem refreshEach_idles (folderId : Nat) (isTrash : Bool) (since : Nat)
    (pieces : List (List Nat)) :
    Idles (askMonitor chrono) desk
      (refreshEach chrono folderId isTrash since pieces) := by
  induction pieces with
  | nil => exact Idles.pure _
  | cons piece rest inductionHypothesis =>
      exact (uidFetchFlagsChangedSince_idles piece since).bind fun changed =>
        (applyFlags_idles folderId isTrash changed).bind fun _ =>
          inductionHypothesis

theorem refreshFlags_idles (folderId : Nat) (opened : Opened)
    (serverUids : List Nat) (relevant : Option (List Nat)) :
    Idles (askMonitor chrono) desk
      (refreshFlags chrono folderId opened serverUids relevant) := by
  unfold refreshFlags perform
  refine (Idles.perform trivial fun _ => rfl).bind fun session => ?_
  refine (refreshEach_idles _ _ _ _).bind fun _ => ?_
  refine (Idles.perform trivial fun _ => rfl).bind fun later => ?_
  split
  · exact refreshEach_idles _ _ _ _
  · exact Idles.pure _

theorem addEach_idles (messageId : Nat) (files : List NewAttachment) :
    Idles (askMonitor chrono) desk (addEach chrono messageId files) := by
  induction files with
  | nil => exact Idles.pure _
  | cons file rest inductionHypothesis =>
      exact (Idles.perform trivial fun _ => rfl).ignore.bind fun _ =>
        inductionHypothesis

theorem storeOne_idles (folderId : Nat) (isTrash : Bool)
    (item : Nat × List Flag × Raw) :
    Idles (askMonitor chrono) desk
      (storeOne chrono crates folderId isTrash item) := by
  obtain ⟨uid, flags, raw⟩ := item
  unfold storeOne perform
  dsimp only
  split
  · exact Idles.throw _
  refine (Idles.perform trivial fun _ => rfl).bind fun id => ?_
  unfold storeAttachmentMeta perform
  split
  · exact Idles.pure _
  refine (Idles.perform trivial fun _ => rfl).attempt.bind fun listed => ?_
  split
  · exact addEach_idles _ _
  · exact Idles.pure _

theorem storeEach_idles (folderId : Nat) (isTrash : Bool)
    (items : List (Nat × List Flag × Raw)) :
    Idles (askMonitor chrono) desk
      (storeEach chrono crates folderId isTrash items) := by
  induction items with
  | nil => exact Idles.pure _
  | cons item rest inductionHypothesis =>
      exact (storeOne_idles folderId isTrash item).bind fun _ =>
        inductionHypothesis.bind fun _ => Idles.pure _

theorem fetchEach_idles (folderId : Nat) (isTrash : Bool)
    (pieces : List (List Nat)) :
    Idles (askMonitor chrono) desk
      (fetchEach chrono crates folderId isTrash pieces) := by
  induction pieces with
  | nil => exact Idles.pure _
  | cons piece rest inductionHypothesis =>
      have fetches : Idles (askMonitor chrono) desk
          (uidFetchMessages chrono piece) := by
        unfold uidFetchMessages perform
        split
        · exact Idles.pure _
        · exact (Idles.perform trivial fun _ => rfl).bind fun _ => Idles.pure _
      exact fetches.bind fun items =>
        (storeEach_idles folderId isTrash items).bind fun _ =>
          inductionHypothesis.bind fun _ => Idles.pure _

theorem sweepTrashSeen_idles (folderId : Nat) :
    Idles (askMonitor chrono) desk (sweepTrashSeen chrono folderId) := by
  unfold sweepTrashSeen perform
  refine (Idles.perform trivial fun _ => rfl).attempt.bind fun unread => ?_
  split
  · exact Idles.pure _
  · exact Idles.pure _
  · next uids _ =>
    have stores : Idles (askMonitor chrono) desk
        (uidStoreFlags chrono uids .add .seen) := by
      unfold uidStoreFlags perform
      split
      · exact Idles.pure _
      · exact Idles.perform trivial fun _ => rfl
    refine stores.attempt.bind fun stored => ?_
    split <;> exact (Idles.perform trivial fun _ => rfl).ignore

/-! ## Removals -/

theorem expungeEach_idles {folderId searchLo : Nat} {serverUids uids : List Nat}
    (works : desk.In folderId)
    (each : ∀ uid ∈ uids, searchLo ≤ uid → uid ∉ serverUids →
      uid ∈ desk.gone ∨ uid ∈ desk.listed ∧ desk.Beyond uid) :
    Idles (askMonitor chrono) desk
      (expungeEach chrono folderId searchLo serverUids uids) := by
  induction uids with
  | nil => exact Idles.pure _
  | cons uid rest inductionHypothesis =>
      have goesOn := inductionHypothesis fun other member =>
        each other (List.mem_cons_of_mem _ member)
      unfold expungeEach perform
      split
      · next chosen =>
        have allowed := each uid List.mem_cons_self chosen.1 chosen.2
        have deletes : Idles (askMonitor chrono) desk
            (Fallible.perform (.deleteByUid folderId uid)) :=
          Idles.perform ⟨works, allowed⟩ fun _ => rfl
        exact deletes.bind fun _ => goesOn.bind fun _ => Idles.pure _
      · exact goesOn

theorem deleteEach_idles {folderId : Nat} {pieces : List (List Nat)}
    (works : desk.In folderId)
    (each : ∀ piece ∈ pieces, ∀ uid ∈ piece,
      uid ∈ desk.gone ∨ uid ∈ desk.stale) :
    Idles (askMonitor chrono) desk (deleteEach chrono folderId pieces) := by
  induction pieces with
  | nil => exact Idles.pure _
  | cons piece rest inductionHypothesis =>
      unfold deleteEach perform
      have deletes : Idles (askMonitor chrono) desk
          (Fallible.perform (.deleteManyByUids folderId piece)) :=
        Idles.perform ⟨works, each piece List.mem_cons_self⟩ fun _ => rfl
      refine deletes.bind fun _ => ?_
      exact (inductionHypothesis fun other member =>
        each other (List.mem_cons_of_mem _ member)).bind fun _ => Idles.pure _

theorem searchEach_asks {pieces : List (List Nat)}
    (asks : desk.reply.isSome) :
    Keeps (askMonitor chrono) (searchEach chrono pieces) desk
      fun result after => desk.Sought after ∧ ∀ found, result = .ok found →
        ∀ uid ∈ desk.listed, uid ∈ pieces.flatten → uid ∉ found →
          uid ∈ after.gone := by
  induction pieces generalizing desk with
  | nil => exact ⟨AskDesk.Sought.refl desk, fun _ _ _ _ => nofun⟩
  | cons piece rest inductionHypothesis =>
      unfold searchEach
      refine (uidSearch_asks asks (.uids piece)).bind ?_ fun _ _ both =>
        ⟨both.1, nofun⟩
      rintro found after ⟨sought, here⟩
      refine (inductionHypothesis (sought.reply ▸ asks)).bind ?_
        fun _ _ both => ⟨sought.trans both.1, nofun⟩
      rintro others reached ⟨further, later⟩
      refine ⟨sought.trans further, ?_⟩
      rintro _ ⟨⟩ uid listed asked absent
      rw [List.mem_append, not_or] at absent
      rw [List.flatten_cons, List.mem_append] at asked
      rcases asked with inside | inside
      · exact further.gone (here found rfl uid listed
          (by simpa [SearchKey.covers] using inside) absent.1)
      · exact later others rfl uid (sought.listed ▸ listed) inside absent.2

/-- The desk after listings and searches in the selected folder. -/
structure AskDesk.Works (desk after : AskDesk) : Prop where
  window : after.window = desk.window
  folder : after.folder = desk.folder
  reply : after.reply = desk.reply
  old : after.old = desk.old

theorem AskDesk.Works.refl (desk : AskDesk) : desk.Works desk :=
  ⟨rfl, rfl, rfl, rfl⟩

theorem AskDesk.Works.listsOld {desk after : AskDesk}
    (works : desk.Works after) : after.listsOld = desk.listsOld := by
  unfold AskDesk.listsOld AskDesk.rebuilt
  rw [works.folder, works.reply, works.old]

theorem AskDesk.Sought.works {desk after : AskDesk}
    (sought : desk.Sought after) : desk.Works after :=
  ⟨sought.window, sought.folder, sought.reply, sought.old⟩

/-- A listing of the incarnation that is cached. -/
theorem AskDesk.list_of_current {desk : AskDesk}
    (current : desk.listsOld = false) (uids : List Nat) :
    desk.Works (desk.list uids) ∧
      ∀ uid ∈ uids, uid ∈ desk.stale ∨ uid ∈ (desk.list uids).listed := by
  unfold AskDesk.list
  rw [current]
  refine ⟨⟨rfl, rfl, rfl, rfl⟩, ?_⟩
  intro uid member
  by_cases old : uid ∈ desk.stale
  · exact .inl old
  · refine .inr (List.mem_append_right _ (List.mem_filter.mpr ⟨member, ?_⟩))
    simpa using old

theorem listUids_asks {folderId : Nat} (works : desk.In folderId)
    (current : desk.listsOld = false) :
    Keeps (askMonitor chrono) (perform chrono (.listUids folderId)) desk
      fun result after => desk.Works after ∧ ∀ cached, result = .ok cached →
        ∀ uid ∈ cached, uid ∈ desk.stale ∨ uid ∈ after.listed := by
  unfold perform
  rw [keeps_perform]
  refine ⟨works, fun reply => ?_⟩
  cases reply with
  | error error => exact ⟨AskDesk.Works.refl desk, nofun⟩
  | ok cached =>
      obtain ⟨same, each⟩ := AskDesk.list_of_current current cached
      refine ⟨same, ?_⟩
      rintro _ ⟨⟩
      exact each

theorem dropVanished_asks {folderId : Nat} (works : desk.In folderId)
    (current : desk.listsOld = false) (vanished : List (Nat × Nat)) :
    Keeps (askMonitor chrono) (dropVanished chrono folderId vanished) desk
      fun _ after => desk.Works after := by
  unfold dropVanished
  refine (listUids_asks works current).bind ?_ fun _ _ both => both.1
  rintro cached listed ⟨same, each⟩
  have asks : listed.reply.isSome := same.reply ▸ works.2
  refine (searchEach_asks asks).bind ?_ fun error after both => ?_
  · rintro found after ⟨sought, absent⟩
    have inFolder : after.In folderId := by
      unfold AskDesk.In at works ⊢
      rw [sought.folder, sought.reply, same.folder, same.reply]
      exact works
    have done : desk.Works after :=
      ⟨sought.window.trans same.window, sought.folder.trans same.folder,
        sought.reply.trans same.reply, sought.old.trans same.old⟩
    refine (deleteEach_idles inFolder ?_).mono ?_
    · intro piece pieceMember uid inside
      obtain ⟨named, missing⟩ :=
        List.mem_filter.mp (Data.mem_of_mem_chunk pieceMember inside)
      obtain ⟨member, _⟩ := List.mem_filter.mp named
      rcases each cached rfl uid member with stale | fresh
      · refine .inr ?_
        unfold AskDesk.stale at stale ⊢
        rwa [sought.old, same.old]
      · refine .inl (absent found rfl uid fresh ?_ (of_decide_eq_true missing))
        rw [Data.flatten_chunks]
        exact named
    · rintro _ _ rfl
      exact done
  · exact ⟨both.1.window.trans same.window, both.1.folder.trans same.folder,
      both.1.reply.trans same.reply, both.1.old.trans same.old⟩

/-! ## The window sync -/

/-- What an opened folder says of the desk. -/
structure Opened.On (opened : Opened) (folderId : Nat) (desk : AskDesk) :
    Prop where
  folder : desk.folder = some (folderId, opened.folder)
  reply : desk.reply = some opened.reply
  listed : ∀ uid ∈ opened.localUids, uid ∈ desk.listed
  stale : ∀ uid ∈ opened.oldUids, uid ∈ desk.stale

theorem Opened.On.in {opened : Opened} {folderId : Nat}
    (on : opened.On folderId desk) : desk.In folderId :=
  ⟨⟨opened.folder, on.folder⟩, by rw [on.reply]; rfl⟩

/-- Opening a folder, with the two conditional steps as programs of their
own. -/
theorem openWindow_eq (folderId : Nat) :
    openWindow chrono folderId = do
      let folder ← perform chrono (.folderGet folderId)
      perform chrono (.accountGet folder.accountId)
      let reply ← select chrono folder.place
        (folder.uidValidity.map fun validity =>
          (validity, folder.highestModseq))
      let oldUids ← (if validityDiffers folder reply then
        perform chrono (.listUids folderId) else pure [])
      let expunged ← (if reply.vanished = [] then pure 0
        else dropVanished chrono folderId reply.vanished)
      let cached ← perform chrono (.listUids folderId)
      return {
        folder := folder
        reply := reply
        validityChanged := validityDiffers folder reply
        oldUids := oldUids
        localUids := cached.filter fun uid =>
          !validityDiffers folder reply || uid ∉ oldUids
        expunged := expunged } := by
  unfold openWindow
  refine congrArg (Bind.bind _) (funext fun folder => ?_)
  refine congrArg (Bind.bind _) (funext fun _ => ?_)
  refine congrArg (Bind.bind _) (funext fun reply => ?_)
  by_cases vanished : reply.vanished = []
  all_goals
    simp only [vanished, if_true, if_false]
    split <;> rfl

/-- What is listed before the main listing. -/
theorem listOld_asks {folderId : Nat} {folder : Folder} {reply : SelectResult}
    (read : desk.folder = some (folderId, folder))
    (asked : desk.reply = some reply) (unlisted : desk.old = none) :
    Keeps (askMonitor chrono)
      (if validityDiffers folder reply then
        perform chrono (.listUids folderId) else pure []) desk
      fun result after => ∀ old, result = .ok old →
        after.window = desk.window ∧ after.folder = desk.folder ∧
          after.reply = desk.reply ∧ after.listsOld = false ∧
          after.stale = old ∧ (¬validityDiffers folder reply → old = []) := by
  have rebuilt : desk.rebuilt = validityDiffers folder reply := by
    unfold AskDesk.rebuilt
    rw [read, asked]
    rfl
  by_cases differs : validityDiffers folder reply
  · rw [if_pos differs, perform, keeps_perform]
    refine ⟨⟨⟨folder, read⟩, by rw [asked]; rfl⟩, fun listed => ?_⟩
    cases listed with
    | error error => exact nofun
    | ok old =>
        intro _ same
        cases same
        have first : desk.listsOld = true := by
          unfold AskDesk.listsOld
          rw [rebuilt, differs, unlisted]
          rfl
        have after : (askMonitor chrono).next desk (.listUids folderId)
            (.ok old) = { desk with old := some old } := by
          change desk.list old = _
          unfold AskDesk.list
          rw [first]
          rfl
        rw [after]
        exact ⟨rfl, rfl, rfl, Bool.and_false _, rfl, absurd differs⟩
  · rw [if_neg differs]
    intro _ same
    cases same
    refine ⟨rfl, rfl, rfl, ?_, ?_, fun _ => rfl⟩
    · unfold AskDesk.listsOld
      rw [rebuilt]
      simp [differs]
    · unfold AskDesk.stale
      rw [unlisted]
      rfl

/-- The listings of a folder once it is selected. -/
theorem listCached_asks {folderId : Nat} {folder : Folder}
    {reply : SelectResult} (read : desk.folder = some (folderId, folder))
    (asked : desk.reply = some reply) (unlisted : desk.old = none) :
    Keeps (askMonitor chrono) (do
        let oldUids ← (if validityDiffers folder reply then
          perform chrono (.listUids folderId) else pure [])
        let expunged ← (if reply.vanished = [] then pure 0
          else dropVanished chrono folderId reply.vanished)
        let cached ← perform chrono (.listUids folderId)
        return ({
          folder := folder
          reply := reply
          validityChanged := validityDiffers folder reply
          oldUids := oldUids
          localUids := cached.filter fun uid =>
            !validityDiffers folder reply || uid ∉ oldUids
          expunged := expunged } : Opened)) desk
      fun result after => ∀ opened : Opened, result = .ok opened →
        after.window = desk.window ∧ opened.On folderId after := by
  refine (listOld_asks read asked unlisted).bind ?_ fun _ _ _ _ => of_error_eq_ok
  intro oldUids known facts
  obtain ⟨window, sameFolder, sameReply, current, stale, none⟩ :=
    facts oldUids rfl
  have works : known.In folderId :=
    ⟨⟨folder, sameFolder.trans read⟩, by rw [sameReply, asked]; rfl⟩
  have drops : Keeps (askMonitor chrono)
      (if reply.vanished = [] then pure 0
        else dropVanished chrono folderId reply.vanished) known
      fun _ after => known.Works after := by
    split
    · exact AskDesk.Works.refl known
    · exact dropVanished_asks works current _
  refine drops.bind ?_ fun _ _ _ _ => of_error_eq_ok
  intro expunged reached same
  have worksThen : reached.In folderId := by
    unfold AskDesk.In at works ⊢
    rwa [same.folder, same.reply]
  refine (listUids_asks worksThen (same.listsOld.trans current)).bind ?_
    fun _ _ _ _ => of_error_eq_ok
  rintro cached last ⟨sameLast, each⟩
  intro opened done
  cases done
  have staleThen : reached.stale = oldUids := by
    unfold AskDesk.stale at stale ⊢
    rwa [same.old]
  constructor
  · exact sameLast.window.trans (same.window.trans window)
  constructor
  · exact sameLast.folder.trans (same.folder.trans (sameFolder.trans read))
  · exact sameLast.reply.trans (same.reply.trans (sameReply.trans asked))
  · intro uid member
    obtain ⟨inside, fresh⟩ := List.mem_filter.mp member
    refine (each cached rfl uid inside).resolve_left fun old => ?_
    rw [staleThen] at old
    by_cases differs : validityDiffers folder reply
    · simp [differs, old] at fresh
    · rw [none differs] at old
      cases old
  · intro uid member
    unfold AskDesk.stale at staleThen ⊢
    rw [sameLast.old, staleThen]
    exact member

theorem openWindow_asks (folderId : Nat) :
    Keeps (askMonitor chrono) (openWindow chrono folderId) desk
      fun result after => ∀ opened, result = .ok opened →
        after.window = desk.window ∧ opened.On folderId after := by
  rw [openWindow_eq, perform, keeps_perform_bind]
  refine ⟨trivial, fun folder => ?_, fun _ _ => of_error_eq_ok⟩
  rw [perform, keeps_perform_bind]
  refine ⟨trivial, fun _ => ?_, fun _ _ => of_error_eq_ok⟩
  refine (select_asks rfl _).bind ?_ fun _ _ _ _ => of_error_eq_ok
  intro reply chosen same
  rw [same reply rfl]
  exact listCached_asks rfl rfl rfl

theorem skipWindow_idles (folderId : Nat) (opened : Opened) :
    Idles (askMonitor chrono) desk (skipWindow chrono folderId opened) := by
  obtain ⟨folder, reply, validityChanged, oldUids, localUids, expunged⟩ :=
    opened
  have records : ∀ uidValidity uidNext total modseq,
      Idles (askMonitor chrono) desk (do
        perform chrono (.setSyncState folderId uidValidity uidNext total modseq)
        return (⟨0, 0⟩ : SyncReport)) :=
    fun _ _ _ _ => (Idles.perform trivial fun _ => rfl).bind fun _ =>
      Idles.pure _
  unfold skipWindow
  dsimp only
  split
  · exact (sweepTrashSeen_idles folderId).bind fun _ => records _ _ _ _
  · exact records _ _ _ _

/-- What follows the removals of a window sync. -/
theorem closeWindow_idles (folderId : Nat) (isTrash : Bool)
    (report : SyncReport) (uidValidity uidNext total modseq : Nat) :
    Idles (askMonitor chrono) desk (do
      if isTrash then sweepTrashSeen chrono folderId
      perform chrono (.setSyncState folderId uidValidity uidNext total modseq)
      return report) := by
  have records : Idles (askMonitor chrono) desk (do
      perform chrono (.setSyncState folderId uidValidity uidNext total modseq)
      return report) :=
    (Idles.perform trivial fun _ => rfl).bind fun _ => Idles.pure _
  split
  · exact (sweepTrashSeen_idles folderId).bind fun _ => records
  · exact records

theorem syncWindow_asks {folderId : Nat} {opened : Opened}
    (on : opened.On folderId desk) :
    Keeps (askMonitor chrono)
      (syncWindow chrono crates folderId desk.window opened) desk
      fun _ _ => True := by
  obtain ⟨folder, reply, validityChanged, oldUids, localUids, expunged⟩ :=
    opened
  unfold syncWindow
  dsimp only
  refine (searchRecentUids_asks on.reply).bind ?_ fun _ _ _ => trivial
  rintro ⟨serverUids, searchLo⟩ after ⟨sought, missing⟩
  have works : after.In folderId := sought.in on.in
  have beyond : ∀ uid, desk.Beyond uid → after.Beyond uid := by
    intro uid
    unfold AskDesk.Beyond AskDesk.ceiling
    rw [sought.window, sought.reply]
    exact id
  have expunges : ∀ fetched : Nat, Keeps (askMonitor chrono) (do
      let removed ← expungeEach chrono folderId searchLo serverUids localUids
      if decide (folder.role = .trash) then sweepTrashSeen chrono folderId
      perform chrono (.setSyncState folderId
        (reply.uidValidity.getD (folder.uidValidity.getD 0))
        (reply.uidNext.getD (folder.uidNext.getD 0)) reply.exists_
        (if validityChanged then reply.highestModseq.getD 0
          else reply.highestModseq.getD folder.highestModseq))
      return (⟨fetched, expunged + removed⟩ : SyncReport)) after
      fun _ _ => True := by
    intro fetched
    refine (expungeEach_idles works ?_).followed ?_ fun _ => trivial
    · intro uid member above absent
      have listed := on.listed uid member
      rcases missing serverUids searchLo rfl uid listed above absent with
        gone | high
      · exact .inl gone
      · exact .inr ⟨sought.listed ▸ listed, beyond uid high⟩
    · intro removed
      exact (closeWindow_idles folderId _ _ _ _ _ _).mono
        fun _ _ _ => trivial
  refine (refreshFlags_idles _ _ _ _).followed ?_ fun _ => trivial
  intro _
  refine (fetchEach_idles _ _ _).followed ?_ fun _ => trivial
  intro fetched
  split
  · refine (deleteEach_idles works ?_).followed ?_ fun _ => trivial
    · intro piece pieceMember uid inside
      obtain ⟨member, _⟩ :=
        List.mem_filter.mp (Data.mem_of_mem_chunk pieceMember inside)
      refine .inr ?_
      have stale := on.stale uid member
      unfold AskDesk.stale at stale ⊢
      rwa [sought.old]
    · exact fun _ => expunges fetched
  · exact expunges fetched

/-- A window sync, whatever it is answered, removes only what its desk
allows. -/
theorem syncFolderWindow_asks (folderId : Nat) :
    Keeps (askMonitor chrono)
      (syncFolderWindow chrono crates folderId desk.window) desk
      fun _ _ => True := by
  unfold syncFolderWindow
  refine (openWindow_asks folderId).bind ?_ fun _ _ _ => trivial
  intro opened after facts
  obtain ⟨window, on⟩ := facts opened rfl
  split
  · exact (skipWindow_idles folderId opened).mono fun _ _ _ => trivial
  · rw [← window]
    exact syncWindow_asks on

end Obedience

end Imap
end Mailcore
