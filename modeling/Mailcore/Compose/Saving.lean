import Mailcore.Compose.Send
import Mailcore.Concurrent.Leads

/-!
# Saving a draft, up to the append

A save that runs alone finds its account, its Drafts folder and the version it
is to replace.  Whatever fails on the way there leaves everything a later save
depends on as it was.
-/

namespace Mailcore
namespace Compose

open Relational Concurrent Concurrent.Fallible

variable {ι : Type} {who : ι}

/-- An answer whose statement the database does not refuse. -/
def Served (answer : Answer) : Prop := answer.refused = none

/-- Save a draft while nothing else runs. -/
def saveAlone (who : ι) (captured : Int) (form : ComposeForm)
    (answers : Nat → Answer) (world : World ι) :
    Except String DraftSaved × (Nat → Answer) × World ι :=
  alone (respond who) (saveDraft captured form) answers world

namespace World

variable (world : World ι) (account : Account)

/-- The account's Drafts folder, as `drafts_folder` finds it. -/
def drafts : Option Folder :=
  (world.folders.select fun folder => folder.accountId = account.id).find?
    fun folder => folder.role = .drafts

/-- Where the account's drafts are saved. -/
def draftsPath : String :=
  (world.drafts account).elim "Drafts" Folder.path

/-- The mailbox drafts are saved in; before it is created it is empty. -/
def draftsBox : Mailbox :=
  (world.server account.id (world.draftsPath account)).getD ⟨1, []⟩

end World

/-- The version a form was opened from is on the server. -/
def VersionStays (world : World ι) (account : Account)
    (form : ComposeForm) : Prop :=
  0 ≤ form.draftUid →
    ∃ mail ∈ (world.draftsBox account).mails, mail.uid = form.draftUid.toNat

/-- A draft can be saved: its account is stored, the mailbox of a cached
Drafts folder exists and numbers its messages, and the version a form was
opened from is cached as a draft and is on the server. -/
structure Ready (captured : Int) (account : Account) (form : ComposeForm)
    (world : World ι) : Prop where
  resolved :
    if 0 ≤ captured then world.account captured = some account
    else world.accountsByName.head? = some account
  stored : world.accounts.find? account.id = some account
  hosted : ∀ folder, world.drafts account = some folder →
    (world.server account.id folder.path).isSome
  numbered : ∀ mail ∈ (world.draftsBox account).mails,
    mail.uid < (world.draftsBox account).uidNext
  distinct : ((world.draftsBox account).mails.map Mail.uid).Nodup
  opened : 0 ≤ form.draftUid →
    ∃ folder row, world.drafts account = some folder ∧
      (world.messages.rows.find? fun row =>
        row.folderId = folder.id && row.uid = form.draftUid.toNat) =
          some row ∧ row.isDraft
  stays : VersionStays world account form

/-- Only the history differs. -/
structure Kept (before after : World ι) : Prop where
  accounts : after.accounts = before.accounts
  folders : after.folders = before.folders
  messages : after.messages = before.messages
  server : after.server = before.server

namespace Kept

theorem refl (world : World ι) : Kept world world := ⟨rfl, rfl, rfl, rfl⟩

theorem trans {first second third : World ι}
    (earlier : Kept first second) (later : Kept second third) :
    Kept first third :=
  ⟨later.accounts.trans earlier.accounts, later.folders.trans earlier.folders,
    later.messages.trans earlier.messages, later.server.trans earlier.server⟩

theorem record (world : World ι) (deed : Deed ι) :
    Kept world (world.record deed) := ⟨rfl, rfl, rfl, rfl⟩

variable {before after : World ι}

theorem drafts (kept : Kept before after) (account : Account) :
    after.drafts account = before.drafts account := by
  rw [World.drafts, kept.folders]
  rfl

theorem draftsPath (kept : Kept before after) (account : Account) :
    after.draftsPath account = before.draftsPath account := by
  rw [World.draftsPath, kept.drafts]
  rfl

theorem draftsBox (kept : Kept before after) (account : Account) :
    after.draftsBox account = before.draftsBox account := by
  rw [World.draftsBox, kept.draftsPath, kept.server]
  rfl

theorem ready (kept : Kept before after) {captured : Int} {account : Account}
    {form : ComposeForm} (ready : Ready captured account form before) :
    Ready captured account form after := by
  have resolved := ready.resolved
  refine ⟨?_, ?_, ?_, ?_, ?_, ?_, ?_⟩
  · unfold World.account World.accountsByName at resolved ⊢
    rwa [kept.accounts]
  · rw [kept.accounts]
    exact ready.stored
  · rw [kept.drafts, kept.server]
    exact ready.hosted
  · rw [kept.draftsBox]
    exact ready.numbered
  · rw [kept.draftsBox]
    exact ready.distinct
  · rw [kept.drafts, kept.messages]
    exact ready.opened
  · unfold VersionStays
    rw [kept.draftsBox]
    exact ready.stays

end Kept

/-- A served statement is carried out. -/
theorem respond_served {call : Call} {answer : Answer} {world : World ι}
    (served : Served answer) :
    respond who call answer world = carryOut who call answer world := by
  unfold respond
  rw [served]
  split <;> rfl

/-! ## The steps before the server takes the new version -/

section Before

variable {captured : Int} {account : Account} {form : ComposeForm}
  {world : World ι}

/-- `job_account` finds the account. -/
theorem leads_jobAccount (ready : Ready captured account form world) :
    Leads (respond who) Served (jobAccount captured) world
      fun result reached => result = .ok account ∧ Kept world reached := by
  have resolved := ready.resolved
  unfold jobAccount
  split at resolved
  · next requested =>
      rw [if_neg (by omega)]
      apply leads_attempt_bind
      apply leads_perform
      intro answer served
      rw [respond_served served]
      simp only [carryOut, resolved, found]
      exact leads_pure ⟨rfl, .record _ _⟩
  · next fallback =>
      rw [if_pos (by omega), resolveAccount, if_neg fallback, firstAccount]
      apply leads_perform_bind
      intro answer served
      rw [respond_served served]
      simp only [carryOut, Then, resolved]
      exact leads_pure ⟨rfl, .record _ _⟩

theorem leads_draftsFolder :
    Leads (respond who) Served (draftsFolder account.id) world
      fun result reached =>
        result = .ok (world.drafts account) ∧ reached = world := by
  unfold draftsFolder
  apply leads_attempt_bind
  apply leads_perform
  intro answer served
  rw [respond_served served]
  exact leads_pure ⟨rfl, rfl⟩

/-- Where a save will put its draft: a stored folder whose mailbox exists,
with nothing changed that a save depends on. -/
structure Destined (captured : Int) (account : Account) (form : ComposeForm)
    (world reached : World ι) (folder : Folder) : Prop where
  ready : Ready captured account form reached
  box : reached.draftsBox account = world.draftsBox account
  path : folder.path = reached.draftsPath account
  stored : reached.folders.find? folder.id = some folder
  hosted : (reached.server account.id folder.path).isSome
  own : 0 ≤ form.draftUid → reached.drafts account = some folder

/-- A save that ended before the server took anything. -/
structure Unchanged (captured : Int) (account : Account) (form : ComposeForm)
    (world reached : World ι) : Prop where
  ready : Ready captured account form reached
  box : reached.draftsBox account = world.draftsBox account

theorem Ready.unchanged {reached : World ι}
    (ready : Ready captured account form world) (kept : Kept world reached) :
    Unchanged captured account form world reached :=
  ⟨kept.ready ready, kept.draftsBox account⟩

theorem Unchanged.trans {second third : World ι}
    (earlier : Unchanged captured account form world second)
    (later : Unchanged captured account form second third) :
    Unchanged captured account form world third :=
  ⟨later.ready, later.box.trans earlier.box⟩

theorem Destined.unchanged {reached : World ι} {folder : Folder}
    (destined : Destined captured account form world reached folder) :
    Unchanged captured account form world reached :=
  ⟨destined.ready, destined.box⟩

theorem World.mem_of_drafts {folder : Folder}
    (found : world.drafts account = some folder) :
    folder ∈ world.folders.rows :=
  List.mem_of_mem_filter (List.mem_of_find?_eq_some found)

/-- Without a source, only the mailbox matters. -/
theorem Ready.fresh {reached : World ι}
    (ready : Ready captured account form world)
    (unopened : ¬ 0 ≤ form.draftUid)
    (accounts : reached.accounts = world.accounts)
    (box : reached.draftsBox account = world.draftsBox account)
    (hosted : ∀ folder, reached.drafts account = some folder →
      (reached.server account.id folder.path).isSome) :
    Ready captured account form reached := by
  have resolved := ready.resolved
  refine ⟨?_, ?_, hosted, ?_, ?_, fun opened => absurd opened unopened,
    fun opened => absurd opened unopened⟩
  · unfold World.account World.accountsByName at resolved ⊢
    rwa [accounts]
  · rw [accounts]
    exact ready.stored
  · rw [box]
    exact ready.numbered
  · rw [box]
    exact ready.distinct

/-- The mailbox `Drafts` is there, empty if it is new. -/
def World.created (world : World ι) (who : ι) (account : Account) : World ι :=
  (if (world.server account.id "Drafts").isSome then world
    else world.withMailbox account.id "Drafts" ⟨1, []⟩).record
      (.storedUnder who account.id)

theorem World.created_tables (who : ι) :
    (world.created who account).accounts = world.accounts ∧
      (world.created who account).folders = world.folders := by
  unfold World.created
  split <;> exact ⟨rfl, rfl⟩

theorem World.created_server (who : ι) :
    (world.created who account).server account.id "Drafts" =
      some ((world.server account.id "Drafts").getD ⟨1, []⟩) := by
  unfold World.created
  split
  · next present =>
      obtain ⟨mailbox, some⟩ := Option.isSome_iff_exists.mp present
      simp [World.record, some]
  · next absent =>
      have none : world.server account.id "Drafts" = none := by
        simpa using absent
      simp [World.record, World.withMailbox, none]

/-- The folder `Drafts` is registered as well. -/
def World.registered (world : World ι) (who : ι) (account : Account)
    (delimiter : String) : World ι :=
  (world.created who account).register account.id "Drafts" delimiter .drafts

theorem World.registered_keeps (who : ι) (delimiter : String) :
    (world.registered who account delimiter).accounts = world.accounts ∧
      (world.registered who account delimiter).server =
        (world.created who account).server := by
  unfold World.registered World.register
  split
  · exact ⟨(World.created_tables who).1, rfl⟩
  · exact ⟨(World.created_tables who).1, rfl⟩

/-- Registering finds or makes the row of `Drafts`, and drafts go there. -/
theorem World.registered_folder (who : ι) (delimiter : String)
    (none : world.drafts account = none) :
    ∃ folder, (world.registered who account delimiter).folderByPath account.id
        "Drafts" = some folder ∧
      folder.path = "Drafts" ∧
      (world.registered who account delimiter).folders.find? folder.id =
        some folder ∧
      (world.registered who account delimiter).draftsPath account =
        "Drafts" := by
  have tables : (world.created who account).folders = world.folders :=
    (World.created_tables who).2
  unfold World.registered World.register
  split
  · next known =>
      obtain ⟨folder, search⟩ : ∃ folder,
          (world.created who account).folderByPath account.id "Drafts" =
            some folder := by
        rw [← Option.isSome_iff_exists]
        unfold World.folderByPath
        rw [List.find?_isSome]
        simpa using known
      have place := List.find?_some search
      simp only [Bool.and_eq_true, decide_eq_true_eq] at place
      refine ⟨folder, search, place.2,
        Table.find?_of_mem (List.mem_of_find?_eq_some search), ?_⟩
      unfold World.draftsPath World.drafts
      rw [tables]
      change ((world.drafts account).elim "Drafts" Folder.path) = _
      rw [none]
      rfl
  · next unknown =>
      refine ⟨⟨world.folders.last + 1, account.id, "Drafts", delimiter,
        .drafts⟩, ?_, rfl, ?_, ?_⟩
      · unfold World.folderByPath Table.insert
        simp only [tables]
        have absent : world.folders.rows.find? (fun folder =>
            decide (folder.accountId = account.id) &&
              decide (folder.path = "Drafts")) = Option.none := by
          rw [tables] at unknown
          simpa using unknown
        rw [List.find?_append, absent]
        simp
      · simp only [tables, Table.find?_insert, if_pos]
      · have earlier : (world.folders.rows.filter fun folder =>
            decide (folder.accountId = account.id)).find?
              (fun folder => decide (folder.role = .drafts)) =
                Option.none := none
        unfold World.draftsPath World.drafts Table.select Table.insert
        simp only [tables]
        rw [List.filter_append, List.find?_append, earlier]
        simp

/-- Neither creating nor registering the folder changes what a fresh draft
depends on. -/
theorem unchanged_created
    (ready : Ready captured account form world)
    (none : world.drafts account = none) (who : ι) :
    Unchanged captured account form world (world.created who account) := by
  have tables : (world.created who account).accounts = world.accounts ∧
      (world.created who account).folders = world.folders :=
    World.created_tables who
  have noDrafts : (world.created who account).drafts account = Option.none := by
    unfold World.drafts
    rw [tables.2]
    exact none
  have path : world.draftsPath account = "Drafts" := by
    rw [World.draftsPath, none]
    rfl
  have pathAfter : (world.created who account).draftsPath account =
      "Drafts" := by
    rw [World.draftsPath, noDrafts]
    rfl
  have box : (world.created who account).draftsBox account =
      world.draftsBox account := by
    rw [World.draftsBox, World.draftsBox, path, pathAfter,
      World.created_server, Option.getD_some]
  refine ⟨ready.fresh ?_ tables.1 box ?_, box⟩
  · intro opened
    obtain ⟨folder, _, cached, _⟩ := ready.opened opened
    rw [none] at cached
    cases cached
  · intro folder cached
    rw [noDrafts] at cached
    cases cached

theorem destined_registered
    (ready : Ready captured account form world)
    (none : world.drafts account = none) (who : ι) (delimiter : String) :
    ∃ folder,
      (world.registered who account delimiter).folderByPath account.id
        "Drafts" = some folder ∧
      Destined captured account form world
        (world.registered who account delimiter) folder := by
  obtain ⟨folder, found, path, stored, draftsPath⟩ :=
    World.registered_folder who delimiter none
  have keeps : (world.registered who account delimiter).accounts =
        world.accounts ∧
      (world.registered who account delimiter).server =
        (world.created who account).server :=
    World.registered_keeps who delimiter
  have server : (world.registered who account delimiter).server account.id
      "Drafts" = some ((world.server account.id "Drafts").getD ⟨1, []⟩) := by
    rw [keeps.2, World.created_server]
  have before : world.draftsPath account = "Drafts" := by
    rw [World.draftsPath, none]
    rfl
  have box : (world.registered who account delimiter).draftsBox account =
      world.draftsBox account := by
    rw [World.draftsBox, World.draftsBox, draftsPath, before, server,
      Option.getD_some]
  have unopened : ¬ 0 ≤ form.draftUid := by
    intro opened
    obtain ⟨other, _, cached, _⟩ := ready.opened opened
    rw [none] at cached
    cases cached
  refine ⟨folder, found, ready.fresh unopened keeps.1 box ?_, box, ?_, stored,
    ?_, fun opened => absurd opened unopened⟩
  · intro other cached
    have same : other.path = "Drafts" := by
      rw [World.draftsPath, cached] at draftsPath
      exact draftsPath
    rw [same, server]
    rfl
  · rw [path, draftsPath]
  · rw [path, server]
    rfl

/-- What looking for the Drafts folder comes to. -/
def Finds (captured : Int) (account : Account) (form : ComposeForm)
    (world : World ι) : Except String Folder → World ι → Prop
  | .ok folder, reached => Destined captured account form world reached folder
  | .error _, reached => Unchanged captured account form world reached

/-- Creating the folder succeeds when its command does. -/
theorem carryOut_createFolderPath
    (who : ι) (ready : Ready captured account form world)
    (none : world.drafts account = none) (delimiter : String)
    {answer : Answer} (fate : answer.fate = .done) :
    ∃ folder,
      carryOut who (.createFolderPath account "Drafts" delimiter) answer
          world = (.ok folder, world.registered who account delimiter) ∧
        Destined captured account form world
          (world.registered who account delimiter) folder := by
  obtain ⟨folder, found, destined⟩ :=
    destined_registered ready none who delimiter
  refine ⟨folder, ?_, destined⟩
  have stored : (world.accounts.find? account.id).isSome := by
    rw [ready.stored]
    rfl
  simp only [carryOut, fate]
  rw [if_pos stored]
  have reached : (world.created who account).register account.id "Drafts" delimiter
      (roleOf "Drafts") = world.registered who account delimiter := rfl
  unfold World.created at reached
  rw [reached, found]

/-- Creating the folder may fail at any point. -/
theorem leads_createFolderPath
    (ready : Ready captured account form world)
    (none : world.drafts account = none) (delimiter : String) :
    Leads (respond who) Served
      (perform (.createFolderPath account "Drafts" delimiter)) world
      (Finds captured account form world) := by
  apply leads_perform
  intro answer served
  rw [respond_served served]
  obtain ⟨folder, _, destined⟩ :=
    destined_registered ready none who delimiter
  have stored : (world.accounts.find? account.id).isSome := by
    rw [ready.stored]
    rfl
  cases fate : answer.fate with
  | lostBefore error =>
      simp only [carryOut, fate]
      exact ready.unchanged (.refl world)
  | lostAfter error =>
      simp only [carryOut, fate]
      rw [if_pos stored]
      split
      · exact destined.unchanged
      · exact unchanged_created ready none who
  | done =>
      obtain ⟨made, answered, destinedMade⟩ := carryOut_createFolderPath
        who ready none delimiter fate
      rw [answered]
      exact destinedMade

/-- The Drafts folder is found, or created and found. -/
theorem leads_draftsOrCreate (ready : Ready captured account form world) :
    Leads (respond who) Served (draftsOrCreate account) world
      (Finds captured account form world) := by
  unfold draftsOrCreate
  apply Leads.seq
  refine leads_draftsFolder.mono ?_
  rintro result reached ⟨rfl, rfl⟩
  cases cached : reached.drafts account with
  | some folder =>
      refine leads_pure ⟨ready, rfl, ?_, ?_, ready.hosted folder cached,
        fun _ => cached⟩
      · rw [World.draftsPath, cached]
        rfl
      · exact Table.find?_of_mem (World.mem_of_drafts cached)
  | none =>
      apply leads_attempt_bind
      apply leads_perform
      intro listing servedListing
      rw [respond_served servedListing]
      apply leads_perform_bind
      intro session servedSession
      rw [respond_served servedSession]
      simp only [carryOut]
      have same := ready.unchanged (Kept.refl reached)
      cases session.fate with
      | lostBefore error => exact same
      | lostAfter error => exact same
      | done =>
          dsimp only [Then]
          exact leads_createFolderPath ready cached _

/-- The source of a form: the cached row of the version it was opened from. -/
def Sourced (world : World ι) (folder : Folder) (form : ComposeForm) :
    Option Message → Prop
  | some row =>
      0 ≤ form.draftUid ∧ world.messages.find? row.id = some row ∧
        row.folderId = folder.id ∧ row.uid = form.draftUid.toNat
  | none => ¬ 0 ≤ form.draftUid

theorem leads_sourceDraft {reached : World ι} {folder : Folder}
    (destined : Destined captured account form world reached folder) :
    Leads (respond who) Served (sourceDraft folder form) reached
      fun result later => later = reached ∧
        ∃ source, result = .ok source ∧ Sourced reached folder form source := by
  unfold sourceDraft
  split
  · next opened =>
      obtain ⟨other, row, cached, search, draft⟩ :=
        destined.ready.opened opened
      rw [destined.own opened] at cached
      cases cached
      apply leads_attempt_bind
      apply leads_perform
      intro answer served
      rw [respond_served served]
      simp only [carryOut, search, found, draft, if_true]
      have place := List.find?_some search
      simp only [Bool.and_eq_true, decide_eq_true_eq] at place
      exact leads_pure ⟨rfl, some row, rfl, opened,
        Table.find?_of_mem (List.mem_of_find?_eq_some search), place⟩
  · next fresh => exact leads_pure ⟨rfl, none, rfl, fresh⟩

end Before

end Compose
end Mailcore
