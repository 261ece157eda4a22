import Mailcore.Imap.Asked
import Mailcore.Imap.TakenBack

/-!
# Overlapping syncs

Several window syncs run at once while mail arrives.  A sync may remove the
cached row of a message that is on the server: another one cached the message
after the first had asked for its UIDNEXT, or stored it under the new
UIDVALIDITY while the first was still purging the rows of the old one.  When
neither happens, no row is lost.
-/

namespace Mailcore
namespace Imap

open Store Relational Concurrent

/-! ## Mailboxes that only grow -/

namespace Mailbox

variable {mailbox : Mailbox}

/-- Messages have arrived, and none has left. -/
structure Grows (before after : Mailbox) : Prop where
  uidValidity : after.uidValidity = before.uidValidity
  fresh : before.freshUid ≤ after.freshUid
  kept : before.uids ⊆ after.uids
  later : ∀ uid ∈ after.uids, uid ∈ before.uids ∨ before.freshUid ≤ uid

theorem Grows.refl (mailbox : Mailbox) : mailbox.Grows mailbox :=
  ⟨rfl, Nat.le_refl _, List.Subset.refl _, fun _ => .inl⟩

theorem Grows.trans {first second third : Mailbox}
    (earlier : first.Grows second) (later : second.Grows third) :
    first.Grows third := by
  refine ⟨later.uidValidity.trans earlier.uidValidity,
    Nat.le_trans earlier.fresh later.fresh,
    List.Subset.trans earlier.kept later.kept, ?_⟩
  intro uid member
  rcases later.later uid member with middle | new
  · exact earlier.later uid middle
  · exact .inr (Nat.le_trans earlier.fresh new)

/-- A UID that is gone from a mailbox never comes back. -/
theorem Grows.gone {before after : Mailbox} (grows : before.Grows after)
    {uid : Nat} (gone : uid ∉ before.uids ∧ uid < before.freshUid) :
    uid ∉ after.uids ∧ uid < after.freshUid := by
  refine ⟨fun member => ?_, Nat.lt_of_lt_of_le gone.2 grows.fresh⟩
  rcases grows.later uid member with old | new
  · exact gone.1 old
  · exact Nat.not_le_of_lt gone.2 new

theorem uids_deliver (flags : List Flag) (raw : Raw) :
    (mailbox.deliver flags raw).uids = mailbox.uids ++ [mailbox.freshUid] :=
  List.map_append

theorem freshUid_deliver (flags : List Flag) (raw : Raw) :
    mailbox.freshUid < (mailbox.deliver flags raw).freshUid := by
  have present : mailbox.freshUid ∈ (mailbox.deliver flags raw).uids := by
    rw [uids_deliver]
    exact List.mem_append_right _ (List.mem_singleton_self _)
  obtain ⟨mail, member, same⟩ := mem_uids.mp present
  exact same ▸ lt_freshUid member

theorem grows_deliver (flags : List Flag) (raw : Raw) :
    mailbox.Grows (mailbox.deliver flags raw) := by
  refine ⟨rfl, Nat.le_of_lt (freshUid_deliver flags raw), ?_, ?_⟩
  · rw [uids_deliver]
    exact List.subset_append_left _ _
  · intro uid member
    rw [uids_deliver] at member
    rcases List.mem_append.mp member with old | new
    · exact .inl old
    · exact .inr (Nat.le_of_eq (List.mem_singleton.mp new).symm)

theorem grows_deliverAll (mails : List Mail) :
    mailbox.Grows (mailbox.deliverAll mails) := by
  unfold deliverAll
  induction mails generalizing mailbox with
  | nil => exact Grows.refl mailbox
  | cons mail rest inductionHypothesis =>
      exact (grows_deliver mail.flags mail.raw).trans inductionHypothesis

theorem grows_store (uids : List Nat) (op : StoreType) (flag : Flag) :
    mailbox.Grows (mailbox.store uids op flag) := by
  have same : (mailbox.store uids op flag).uids = mailbox.uids :=
    uids_store uids op flag
  have fresh : (mailbox.store uids op flag).freshUid = mailbox.freshUid := by
    unfold freshUid
    rw [same]
    rfl
  refine ⟨rfl, Nat.le_of_eq fresh.symm, ?_, ?_⟩
  · rw [same]
    exact List.Subset.refl _
  · intro uid member
    exact .inl (same ▸ member)

end Mailbox

/-! ## What a sync knows -/

section Knowledge

variable {chrono : Chrono} {ι : Type}

/-- What a desk says of the world holds. -/
structure AskDesk.Holds (desk : AskDesk) (world : World chrono ι) (who : ι)
    (id : Nat) (folder : Folder) (reply : SelectResult) : Prop where
  selected : ∀ selected, (world.session who).selected = some selected →
    selected.place = folder.place
  mailbox : ∃ mailbox, world.server folder.place = some mailbox ∧
    (∀ next, reply.uidNext = some next → next ≤ mailbox.freshUid) ∧
    (∀ uid ∈ desk.listed, uid < mailbox.freshUid ∧ ¬desk.Beyond uid) ∧
    ∀ uid ∈ desk.gone, uid ∉ mailbox.uids ∧ uid < mailbox.freshUid

/-- What a process knows of its folder. -/
structure Knows (world : World chrono ι) (who : ι) (desk : AskDesk) :
    Prop where
  folder : ∀ id folder, desk.folder = some (id, folder) →
    ∃ row ∈ world.db.folders.rows, row.id = id ∧ row.place = folder.place
  asked : ∀ id folder reply, desk.folder = some (id, folder) →
    desk.reply = some reply → desk.Holds world who id folder reply

/-- A removed row is not that of a message on the server: none that the server
has now or will have under the same UIDVALIDITY. -/
def World.Spared (world : World chrono ι) : Prop :=
  ∀ place rows, .removed place rows ∈ world.history → ∀ entry ∈ rows,
    ∀ mailbox, world.server place = some mailbox →
      entry.2 = mailbox.uidValidity →
        entry.1 ∉ mailbox.uids ∧ entry.1 < mailbox.freshUid

/-- What a step may do to the world without touching what syncs know. -/
structure Onward (world after : World chrono ι) : Prop where
  places : SamePlaces world.db after.db
  sessions : ∀ who, (after.session who).selected =
    (world.session who).selected
  mailboxes : ∀ place, (world.server place = none ∧
    after.server place = none) ∨ ∃ before later,
      world.server place = some before ∧ after.server place = some later ∧
        before.Grows later
  history : ∀ place rows, .removed place rows ∈ after.history →
    .removed place rows ∈ world.history

theorem Onward.refl (world : World chrono ι) : Onward world world where
  places := SamePlaces.refl _
  sessions _ := rfl
  mailboxes place := by
    cases there : world.server place with
    | none => exact .inl ⟨rfl, rfl⟩
    | some mailbox => exact .inr ⟨mailbox, mailbox, rfl, rfl, .refl mailbox⟩
  history _ _ := id

theorem Onward.later {world after : World chrono ι}
    (onward : Onward world after) {place : Place} {before : Mailbox}
    (there : world.server place = some before) :
    ∃ later, after.server place = some later ∧ before.Grows later := by
  rcases onward.mailboxes place with ⟨none, _⟩ | ⟨old, later, was, is, grows⟩
  · rw [none] at there
    cases there
  · rw [was] at there
    cases there
    exact ⟨later, is, grows⟩

theorem Onward.knows {world after : World chrono ι}
    (onward : Onward world after) {who : ι} {desk : AskDesk}
    (knows : Knows world who desk) : Knows after who desk := by
  constructor
  · intro id folder read
    obtain ⟨row, member, own, place⟩ := knows.folder id folder read
    obtain ⟨same, sameMember, sameId, samePlace⟩ := onward.places row member
    exact ⟨same, sameMember, sameId.trans own, samePlace.trans place⟩
  · intro id folder reply read asked
    obtain ⟨selected, mailbox, there, next, listed, gone⟩ :=
      knows.asked id folder reply read asked
    obtain ⟨later, laterThere, grows⟩ := onward.later there
    refine ⟨?_, later, laterThere, ?_, ?_, ?_⟩
    · rw [onward.sessions]
      exact selected
    · exact fun value same => Nat.le_trans (next value same) grows.fresh
    · intro uid member
      obtain ⟨below, inside⟩ := listed uid member
      exact ⟨Nat.lt_of_lt_of_le below grows.fresh, inside⟩
    · exact fun uid member => grows.gone (gone uid member)

theorem Onward.spared {world after : World chrono ι}
    (onward : Onward world after) (spared : world.Spared) :
    after.Spared := by
  intro place rows member entry inside mailbox there same
  rcases onward.mailboxes place with ⟨_, none⟩ | ⟨old, later, was, is, grows⟩
  · rw [none] at there
    cases there
  · rw [is] at there
    cases there
    exact grows.gone (spared place rows (onward.history place rows member)
      entry inside old was (same.trans grows.uidValidity))

end Knowledge

/-! ## Calls that keep what is known -/

section Calls

variable {chrono : Chrono} {ι : Type} [DecidableEq ι]
  {world : World chrono ι} {desks : ι → AskDesk} {who : ι}

/-- A broken transport changes nothing else. -/
theorem Onward.broken {after : World chrono ι} (onward : Onward world after)
    (who : ι) : Onward world { after with
      session := Function.update after.session who
        { after.session who with broken := true } } where
  places := onward.places
  sessions other := by
    change (Function.update after.session who _ other).selected = _
    by_cases same : other = who
    · subst same
      rw [Function.update_self]
      exact onward.sessions other
    · rw [Function.update_of_ne same]
      exact onward.sessions other
  mailboxes := onward.mailboxes
  history := onward.history

omit [DecidableEq ι] in
/-- A statement that keeps where the folders are. -/
theorem Onward.of_places {after : World chrono ι}
    (places : SamePlaces world.db after.db)
    (session : after.session = world.session)
    (server : after.server = world.server)
    (history : after.history = world.history) : Onward world after where
  places := places
  sessions _ := by rw [session]
  mailboxes := by
    rw [server]
    exact (Onward.refl world).mailboxes
  history := by
    rw [history]
    exact fun _ _ => id

omit [DecidableEq ι] in
theorem samePlaces_of_eq {before after : Db}
    (same : after.folders = before.folders) : SamePlaces before after := by
  intro folder member
  exact ⟨folder, same ▸ member, rfl, rfl⟩

theorem onward_useExtensions (condstore qresync : Bool) (answer : Answer) :
    Onward world (carryOut chrono who (.useExtensions condstore qresync)
      answer world).2 where
  places := SamePlaces.refl _
  sessions other := by
    change (Function.update world.session who _ other).selected = _
    by_cases same : other = who
    · subst same
      rw [Function.update_self]
    · rw [Function.update_of_ne same]
  mailboxes := (Onward.refl world).mailboxes
  history _ _ := id

/-- A command that only reads. -/
theorem onward_read {α : Type} {wire : Wire}
    {act : Selected → Mailbox → Except StoreError (α × World chrono ι)}
    (reads : ∀ selected mailbox value next,
      act selected mailbox = .ok (value, next) → next = world) :
    Onward world (inMailbox chrono who world wire act).2 := by
  refine inMailbox_outcome (Onward.refl world) ?_
    fun reached onward => onward.broken who
  intro selected mailbox value next _ acted
  rw [reads selected mailbox value next acted]
  exact Onward.refl world

omit [DecidableEq ι] in
/-- A mailbox that has grown. -/
theorem onward_withMailbox {place : Place} {mailbox grown : Mailbox}
    (there : world.server place = some mailbox)
    (grows : mailbox.Grows grown) :
    Onward world (world.withMailbox place grown) where
  places := SamePlaces.refl _
  sessions _ := rfl
  mailboxes other := by
    by_cases here : other = place
    · subst here
      exact .inr ⟨mailbox, grown, there, Function.update_self .., grows⟩
    · have same : (world.withMailbox place grown).server other =
          world.server other := Function.update_of_ne here _ _
      rw [same]
      exact (Onward.refl world).mailboxes other
  history _ _ := id

theorem onward_store (uids : List Nat) (op : StoreType) (flag : Flag)
    (answer : Answer) :
    Onward world (carryOut chrono who (.store uids op flag) answer
      world).2 := by
  refine inMailbox_outcome (Onward.refl world) ?_
    fun reached onward => onward.broken who
  rintro selected mailbox _ next now ⟨⟩
  have there : (use chrono world selected uids).server selected.place =
      some mailbox := (of_current now).2.1
  have grown := onward_withMailbox there (Mailbox.grows_store uids op flag)
  refine ⟨grown.places, grown.sessions, grown.mailboxes, ?_⟩
  intro place rows member
  rcases List.mem_cons.mp member with same | earlier
  · cases same
  · exact earlier

omit [DecidableEq ι] in
theorem folders_upsert {new : NewMessage} {before after : Db} {id : Nat}
    (stored : Messages.upsert new before = .ok (id, after)) :
    after.folders = before.folders := by
  unfold Messages.upsert at stored
  split at stored
  · cases stored
    rfl
  · split at stored
    · cases stored
      rfl
    · cases stored

theorem onward_upsert (new : NewMessage) (answer : Answer) :
    Onward world (carryOut chrono who (.upsert new) answer world).2 := by
  simp only [carryOut, storeFetched]
  split
  · exact Onward.refl world
  · next stored =>
    exact Onward.of_places (samePlaces_of_eq (folders_upsert stored)) rfl rfl
      rfl

theorem onward_setSyncState (id uidValidity uidNext total modseq : Nat)
    (answer : Answer) :
    Onward world (carryOut chrono who
      (.setSyncState id uidValidity uidNext total modseq) answer world).2 := by
  apply Onward.of_places
  · exact samePlaces_updateFolder world.db id
      (fun row => { row with
        uidValidity := some uidValidity
        uidNext := some uidNext
        serverTotal := some total
        highestModseq := modseq }) fun _ => ⟨rfl, rfl, rfl⟩
  · rfl
  · rfl
  · rfl

theorem onward_addAttachment (messageId : Nat) (file : NewAttachment)
    (answer : Answer) :
    Onward world (carryOut chrono who (.addAttachment messageId file) answer
      world).2 := by
  simp only [carryOut, writes]
  split
  · next added =>
    exact Onward.of_places
      (samePlaces_of_eq (Messages.addAttachment_keeps added).2) rfl rfl rfl
  · exact Onward.refl world

end Calls

/-! ## Turns -/

section Turns

variable {chrono : Chrono} {ι : Type} [DecidableEq ι]
  {world : World chrono ι} {desk : AskDesk} {who : ι}

/-- The mailbox of the folder a desk works in. -/
def AskDesk.mailbox? (desk : AskDesk) (world : World chrono ι) :
    Option Mailbox :=
  desk.folder.bind fun known => world.server known.2.place

/-- The UIDs a sync is going to ask about lie below this. -/
def AskDesk.bound (desk : AskDesk) (mailbox : Mailbox) : Nat :=
  desk.ceiling.getD mailbox.freshUid

/-- No other sync has cached a UID that this one will not ask about: not when
it lists the cached UIDs, and not among the old rows when it purges them. -/
def Unmixed (world : World chrono ι) (desk : AskDesk) : Call → Prop
  | .listUids folderId => desk.listsOld ∨
      ∀ uid ∈ Messages.listUids folderId world.db, uid ∉ desk.stale →
        ∀ mailbox ∈ desk.mailbox? world, uid < desk.bound mailbox
  | .deleteManyByUids folderId uids =>
      ∀ row ∈ world.db.messages.rows, Messages.among folderId uids row →
        row.uid ∈ desk.stale → ∀ mailbox ∈ desk.mailbox? world,
          world.origin row.id ≠ mailbox.uidValidity
  | _ => True

omit [DecidableEq ι] in
theorem ceiling_reply {next : Nat} {reply : SelectResult}
    (asked : desk.reply = some reply) (below : desk.ceiling = some next) :
    reply.uidNext = some next := by
  unfold AskDesk.ceiling at below
  rw [asked] at below
  cases windowed : desk.window with
  | none => simp [windowed] at below
  | some count =>
      cases announced : reply.uidNext with
      | none => simp [windowed, announced] at below
      | some value =>
          simp only [windowed, announced, Option.bind_eq_bind,
            Option.bind_some] at below
          split at below
          · exact below
          · cases below

omit [DecidableEq ι] in
/-- A listing of UIDs that will be asked about. -/
theorem Knows.list (knows : Knows world who desk) {folderId : Nat}
    (unmixed : Unmixed world desk (.listUids folderId)) :
    Knows world who (desk.list (Messages.listUids folderId world.db)) := by
  unfold AskDesk.list
  split
  · exact ⟨knows.folder, fun id folder reply read asked =>
      ⟨(knows.asked id folder reply read asked).selected,
        (knows.asked id folder reply read asked).mailbox⟩⟩
  · next main =>
    refine ⟨knows.folder, fun id folder reply read asked => ?_⟩
    obtain ⟨selected, mailbox, there, next, listed, gone⟩ :=
      knows.asked id folder reply read asked
    refine ⟨selected, mailbox, there, next, ?_, gone⟩
    intro uid member
    rcases List.mem_append.mp member with old | new
    · exact listed uid old
    obtain ⟨cached, fresh⟩ := List.mem_filter.mp new
    have here : mailbox ∈ desk.mailbox? world := by
      unfold AskDesk.mailbox?
      rw [show desk.folder = some (id, folder) from read]
      exact there
    have below := unmixed.resolve_left main uid cached
      (of_decide_eq_true fresh) mailbox here
    unfold AskDesk.bound at below
    cases ceiling : desk.ceiling with
    | none =>
        rw [ceiling] at below
        refine ⟨below, ?_⟩
        rintro ⟨value, same, _⟩
        exact absurd (ceiling.symm.trans same) (by simp)
    | some value =>
        rw [ceiling, Option.getD_some] at below
        have announced := next value (ceiling_reply asked ceiling)
        refine ⟨Nat.lt_of_lt_of_le below announced, ?_⟩
        rintro ⟨other, same, above⟩
        cases ceiling.symm.trans same
        exact absurd above (Nat.not_le_of_lt below)

theorem mem_searchReply {mailbox : Mailbox} {hits : List Nat}
    {key : SearchKey} {uid : Nat} (covered : key.covers uid)
    (there : uid ∈ mailbox.uids) : uid ∈ searchReply mailbox hits key := by
  cases key with
  | all => exact there
  | range lo hi =>
      refine List.mem_filter.mpr ⟨there, ?_⟩
      simpa [SearchKey.covers] using covered
  | uids named =>
      refine List.mem_filter.mpr ⟨there, ?_⟩
      simpa [SearchKey.covers] using covered
  | deleted => cases covered
  | criteria query => cases covered

/-- A command that succeeds has been carried out. -/
theorem command_ok {α : Type} {wire : Wire}
    {act : Except StoreError (α × World chrono ι)} {value : α}
    (succeeds : (command chrono who world wire act).1 = .ok value) :
    ∃ next, act = .ok (value, next) := by
  unfold command at succeeds
  split at succeeds
  · cases succeeds
  cases wire with
  | refused text => cases succeeds
  | lost text acted => cases succeeds
  | answered =>
      cases act with
      | error error => cases succeeds
      | ok outcome =>
          cases succeeds
          exact ⟨outcome.2, rfl⟩

/-- A command on the selected mailbox that succeeds has reached it. -/
theorem inMailbox_ok {α : Type} {wire : Wire}
    {act : Selected → Mailbox → Except StoreError (α × World chrono ι)}
    {value : α}
    (succeeds : (inMailbox chrono who world wire act).1 = .ok value) :
    ∃ selected mailbox next, current chrono who world =
      some (selected, mailbox) ∧ act selected mailbox = .ok (value, next) := by
  obtain ⟨next, acted⟩ := command_ok succeeds
  split at acted
  · next selected mailbox now => exact ⟨selected, mailbox, _, now, acted⟩
  · cases acted

/-- What a search does not find of what it covers is gone. -/
theorem Knows.search (knows : Knows world who desk) {key : SearchKey}
    {answer : Answer} {found : List Nat}
    (replied : (carryOut chrono who (.search key) answer world).1 =
      .ok found) :
    Knows world who (desk.search key found) := by
  obtain ⟨selected, mailbox, _, now, acted⟩ := inMailbox_ok replied
  cases acted
  obtain ⟨chosen, there, _⟩ := of_current now
  refine ⟨knows.folder, fun id folder reply read asked => ?_⟩
  obtain ⟨place, known, knownThere, next, listed, gone⟩ :=
    knows.asked id folder reply read asked
  refine ⟨place, known, knownThere, next, listed, ?_⟩
  rw [place selected chosen, knownThere] at there
  cases there
  intro uid member
  rcases List.mem_append.mp member with old | new
  · exact gone uid old
  · obtain ⟨inside, absent⟩ := List.mem_filter.mp new
    rw [Bool.and_eq_true, decide_eq_true_eq] at absent
    exact ⟨fun onServer => absent.2 (mem_searchReply absent.1 onServer),
      (listed uid inside).1⟩

omit [DecidableEq ι] in
/-- A desk that relies on no SELECT knows its folder alone. -/
theorem Knows.unasked {desk : AskDesk} (unasked : desk.reply = none)
    (folder : ∀ id folder, desk.folder = some (id, folder) →
      ∃ row ∈ world.db.folders.rows, row.id = id ∧ row.place = folder.place) :
    Knows world who desk := by
  refine ⟨folder, fun id known reply _ asked => ?_⟩
  rw [unasked] at asked
  cases asked

omit [DecidableEq ι] in
theorem Knows.folderGet (knows : Knows world who desk) (id : Nat) :
    Knows world who
      (desk.next chrono (.folderGet id) (Folders.get id world.db)) := by
  unfold Folders.get
  cases found : world.db.folders.find? id with
  | none => exact knows
  | some folder =>
      apply Knows.unasked rfl
      rintro _ _ ⟨⟩
      obtain ⟨member, own⟩ := Table.mem_of_find? found
      exact ⟨folder, member, own, rfl⟩

/-- A SELECT that succeeds reports the mailbox of its place. -/
theorem select_ok {place : Place} {mode : SelectMode} {answer : Answer}
    {reply : SelectResult}
    (replied : (carryOut chrono who (.select place mode) answer world).1 =
      .ok reply) :
    ∃ mailbox, world.server place = some mailbox ∧
      reply = selectReply mailbox mode := by
  obtain ⟨next, acted⟩ := command_ok replied
  cases there : world.server place with
  | none =>
      rw [there] at acted
      cases acted
  | some mailbox =>
      rw [there] at acted
      cases acted
      exact ⟨mailbox, rfl, rfl⟩

theorem Knows.select (knows : Knows world who desk) {place : Place}
    (own : ∃ id folder, desk.folder = some (id, folder) ∧
      folder.place = place) {mode : SelectMode} {answer : Answer} :
    Knows (carryOut chrono who (.select place mode) answer world).2 who
      (desk.next chrono (.select place mode)
        (carryOut chrono who (.select place mode) answer world).1) := by
  have reselected := @select_reselects chrono ι _ world who place mode answer
  have folder : ∀ id folder, desk.folder = some (id, folder) →
      ∃ row ∈ (carryOut chrono who (.select place mode) answer
        world).2.db.folders.rows, row.id = id ∧ row.place = folder.place := by
    rw [reselected.db]
    exact knows.folder
  cases replied : (carryOut chrono who (.select place mode) answer world).1 with
  | error error => exact Knows.unasked rfl folder
  | ok reply =>
      obtain ⟨mailbox, there, rfl⟩ := select_ok replied
      refine ⟨folder, fun id known reply read asked => ?_⟩
      obtain ⟨ownId, ownFolder, ownRead, ownPlace⟩ := own
      cases ownRead.symm.trans read
      cases asked
      refine ⟨?_, mailbox, ?_, ?_, fun _ => nofun, fun _ => nofun⟩
      · intro selected now
        rw [ownPlace]
        exact reselected.selected _ replied selected now
      · rw [reselected.server, ownPlace]
        exact there
      · intro next announced
        change mailbox.uidNext = some next at announced
        unfold Mailbox.freshUid
        rw [announced]
        exact Nat.le_refl _

/-! ## Removals -/

omit [DecidableEq ι] in
/-- A removal spares the messages on the server. -/
theorem World.Spared.remove (spared : world.Spared) {folderId : Nat}
    {uids : List Nat} {row : Folder} (member : row ∈ world.db.folders.rows)
    (own : row.id = folderId)
    (absent : ∀ message ∈ world.db.messages.rows,
      Messages.among folderId uids message →
        ∀ mailbox, world.server row.place = some mailbox →
          world.origin message.id = mailbox.uidValidity →
            message.uid ∉ mailbox.uids ∧ message.uid < mailbox.freshUid)
    (db : Db) :
    ((world.record (world.removalOf folderId uids)).withDb db).Spared := by
  have found := Table.find?_of_mem member
  rw [key_folder, own] at found
  intro place rows recorded entry inside mailbox there same
  rcases List.mem_cons.mp recorded with now | earlier
  · unfold World.removalOf at now
    rw [found] at now
    cases now
    obtain ⟨message, chosen, rfl⟩ := List.mem_map.mp inside
    obtain ⟨messageMember, among⟩ := List.mem_filter.mp chosen
    exact absent message messageMember among mailbox there same
  · exact spared place rows earlier entry inside mailbox there same

omit [DecidableEq ι] in
/-- What a desk says of the folder it works in. -/
theorem Knows.works (knows : Knows world who desk) {folderId : Nat}
    (works : desk.In folderId) :
    ∃ folder reply, desk.folder = some (folderId, folder) ∧
      desk.Holds world who folderId folder reply ∧
        ∃ row ∈ world.db.folders.rows, row.id = folderId ∧
          row.place = folder.place := by
  obtain ⟨⟨folder, read⟩, asked⟩ := works
  obtain ⟨reply, same⟩ := Option.isSome_iff_exists.mp asked
  exact ⟨folder, reply, read, knows.asked folderId folder reply read same,
    knows.folder folderId folder read⟩

theorem Knows.deleteByUid (knows : Knows world who desk)
    (spared : world.Spared) {folderId uid : Nat}
    (allowed : desk.Allows (.deleteByUid folderId uid)) (answer : Answer) :
    (carryOut chrono who (.deleteByUid folderId uid) answer
      world).2.Spared := by
  obtain ⟨works, chosen⟩ := allowed
  obtain ⟨folder, reply, _, holds, row, member, own, place⟩ :=
    knows.works works
  obtain ⟨mailbox, there, _, listed, gone⟩ := holds.mailbox
  have isGone : uid ∈ desk.gone := by
    rcases chosen with inside | ⟨inside, beyond⟩
    · exact inside
    · exact absurd beyond (listed uid inside).2
  apply spared.remove member own
  intro message _ among box boxThere _
  rw [place, there] at boxThere
  cases boxThere
  unfold Messages.among at among
  rw [Bool.and_eq_true, decide_eq_true_eq, decide_eq_true_eq,
    List.mem_singleton] at among
  rw [among.2]
  exact gone uid isGone

theorem Knows.deleteManyByUids (knows : Knows world who desk)
    (spared : world.Spared) {folderId : Nat} {uids : List Nat}
    (allowed : desk.Allows (.deleteManyByUids folderId uids))
    (unmixed : Unmixed world desk (.deleteManyByUids folderId uids))
    (answer : Answer) :
    (carryOut chrono who (.deleteManyByUids folderId uids) answer
      world).2.Spared := by
  obtain ⟨works, chosen⟩ := allowed
  obtain ⟨folder, reply, read, holds, row, member, own, place⟩ :=
    knows.works works
  obtain ⟨mailbox, there, _, _, gone⟩ := holds.mailbox
  have here : mailbox ∈ desk.mailbox? world := by
    unfold AskDesk.mailbox?
    rw [read]
    exact there
  apply spared.remove member own
  intro message messageMember among box boxThere same
  rw [place, there] at boxThere
  cases boxThere
  have named : message.uid ∈ uids := by
    unfold Messages.among at among
    rw [Bool.and_eq_true, decide_eq_true_eq, decide_eq_true_eq] at among
    exact among.2
  rcases chosen message.uid named with isGone | stale
  · exact gone message.uid isGone
  · exact absurd same
      (unmixed message messageMember among stale mailbox here)

/-! ## A turn -/

/-- What holds throughout a run of window syncs. -/
structure Informed (world : World chrono ι) (desks : ι → AskDesk) : Prop where
  knows : ∀ who, Knows world who (desks who)
  spared : world.Spared

variable {desks : ι → AskDesk}

/-- A turn whose process knows what it says, and whose effect the others do
not notice. -/
theorem Informed.turn_of (informed : Informed world desks)
    {after : World chrono ι} {next : AskDesk}
    (others : ∀ other desk, other ≠ who → Knows world other desk →
      Knows after other desk)
    (own : Knows after who next) (spared : after.Spared) :
    Informed after (Function.update desks who next) := by
  refine ⟨fun other => ?_, spared⟩
  by_cases same : other = who
  · subst same
    rw [Function.update_self]
    exact own
  · rw [Function.update_of_ne same]
    exact others other _ same (informed.knows other)

theorem Informed.turn_onward (informed : Informed world desks)
    {after : World chrono ι} (onward : Onward world after) :
    Informed after (Function.update desks who (desks who)) :=
  informed.turn_of (fun _ _ _ => onward.knows)
    (onward.knows (informed.knows who)) (onward.spared informed.spared)

/-- A removal changes nothing that syncs know. -/
theorem Informed.turn_removal (informed : Informed world desks)
    {deed : Deed} {db : Db} (folders : db.folders = world.db.folders)
    (spared : ((world.record deed).withDb db).Spared) :
    Informed ((world.record deed).withDb db)
      (Function.update desks who (desks who)) := by
  have keeps : ∀ other desk, Knows world other desk →
      Knows ((world.record deed).withDb db) other desk := by
    intro other desk knows
    refine ⟨fun id folder read => ?_, fun id folder reply read asked => ?_⟩
    · obtain ⟨row, member, rest⟩ := knows.folder id folder read
      exact ⟨row, folders ▸ member, rest⟩
    · obtain ⟨selected, mailbox⟩ := knows.asked id folder reply read asked
      exact ⟨selected, mailbox⟩
  exact informed.turn_of (fun other desk _ => keeps other desk)
    (keeps who _ (informed.knows who)) spared

/-- A failing statement tells a sync nothing. -/
theorem next_error {call : Call} (statement : call.isStatement)
    (error : StoreError) :
    desk.next chrono call (.error error) = desk := by
  cases call
  all_goals first
    | rfl
    | cases statement

/-- Every turn of a window sync keeps what syncs know, and spares the messages
on the server. -/
theorem Informed.turn (informed : Informed world desks) {call : Call}
    (allowed : (desks who).Allows call) {answer : Answer}
    (unmixed : answer.refused = none → Unmixed world (desks who) call) :
    Informed (respond chrono who call answer world).2
      (Function.update desks who ((desks who).next chrono call
        (respond chrono who call answer world).1)) := by
  have knows := informed.knows who
  have spared := informed.spared
  have carried : answer.refused = none ∨ call.isStatement = false →
      Informed (carryOut chrono who call answer world).2
        (Function.update desks who ((desks who).next chrono call
          (carryOut chrono who call answer world).1)) := by
    intro reaches
    have same := Onward.refl world
    cases call with
    | session => exact informed.turn_onward same
    | useExtensions condstore qresync =>
        exact informed.turn_onward
          (onward_useExtensions condstore qresync answer)
    | select place mode =>
        apply informed.turn_of _ (knows.select allowed)
        · have reselected :=
            @select_reselects chrono ι _ world who place mode answer
          unfold World.Spared
          rw [reselected.history, reselected.server]
          exact spared
        · have reselected :=
            @select_reselects chrono ι _ world who place mode answer
          intro other desk different known
          refine ⟨?_, fun id folder reply read asked => ?_⟩
          · rw [reselected.db]
            exact known.folder
          · obtain ⟨selected, mailbox⟩ :=
              known.asked id folder reply read asked
            refine ⟨?_, ?_⟩
            · rw [reselected.others other different]
              exact selected
            · rw [reselected.server]
              exact mailbox
    | search key =>
        have onward : Onward world
            (carryOut chrono who (.search key) answer world).2 := by
          apply onward_read
          rintro selected mailbox value next ⟨⟩
          rfl
        refine informed.turn_of (fun _ _ _ => onward.knows) ?_
          (onward.spared spared)
        apply onward.knows
        cases replied : (carryOut chrono who (.search key) answer world).1 with
        | error error => exact knows
        | ok found => exact knows.search replied
    | fetchFlags uids since =>
        apply informed.turn_onward
        apply onward_read
        rintro selected mailbox value next ⟨⟩
        rfl
    | fetchMessages uids =>
        apply informed.turn_onward
        apply onward_read
        rintro selected mailbox value next ⟨⟩
        rfl
    | store uids op flag =>
        exact informed.turn_onward (onward_store uids op flag answer)
    | accountGet id => exact informed.turn_onward same
    | folderGet id =>
        exact informed.turn_of (fun _ _ _ => same.knows) (knows.folderGet id)
          spared
    | setSyncState id uidValidity uidNext total modseq =>
        exact informed.turn_onward
          (onward_setSyncState id uidValidity uidNext total modseq answer)
    | listUids folderId =>
        exact informed.turn_of (fun _ _ _ => same.knows)
          (knows.list (unmixed (reaches.resolve_right nofun))) spared
    | listUnreadUids folderId => exact informed.turn_onward same
    | upsert new => exact informed.turn_onward (onward_upsert new answer)
    | deleteByUid folderId uid =>
        exact informed.turn_removal rfl
          (knows.deleteByUid spared allowed answer)
    | deleteManyByUids folderId uids =>
        exact informed.turn_removal rfl (knows.deleteManyByUids spared allowed
          (unmixed (reaches.resolve_right nofun)) answer)
    | setReadCleanByUids folderId uids queuePush =>
        exact informed.turn_onward
          (Onward.of_places (samePlaces_of_eq rfl) rfl rfl rfl)
    | setFlagsByUid folderId uid isRead isStarred isDraft =>
        exact informed.turn_onward
          (Onward.of_places (samePlaces_of_eq rfl) rfl rfl rfl)
    | listAttachments messageId => exact informed.turn_onward same
    | addAttachment messageId file =>
        exact informed.turn_onward (onward_addAttachment messageId file answer)
    | _ => exact absurd allowed id
  unfold respond
  split
  · next statement =>
    split
    · rw [next_error statement]
      exact informed.turn_onward (Onward.refl world)
    · next willing => exact carried (.inl willing)
  · next command => exact carried (.inr (by simpa using command))

end Turns

/-! ## Runs -/

/-- Window syncs while mail arrives on the servers. -/
def arrivalSystem (chrono : Chrono) (ι : Type) [DecidableEq ι] :
    System (signature chrono) ι (World chrono ι) Answer
      (Place × List Mail) where
  respond := respond chrono
  disturb arrival world :=
    match world.server arrival.1 with
    | some mailbox =>
        world.withMailbox arrival.1 (mailbox.deliverAll arrival.2)
    | none => world

/-- One window sync. -/
structure SyncJob where
  folderId : Nat
  window : Option Nat
  deriving DecidableEq, Repr

/-- Every sync before its first call. -/
def startSyncs {chrono : Chrono} {ι : Type} (crates : Crates)
    (jobs : ι → SyncJob) (world : World chrono ι) :
    Config (signature chrono) (askMonitor chrono) ι (World chrono ι) where
  shared := world
  thread who := Fallible.runOnly
    (syncFolderWindow chrono crates (jobs who).folderId (jobs who).window)
  seen who := .fresh (jobs who).window

/-- No sync meets rows another one has cached where it does not ask. -/
def NeverMixed (chrono : Chrono) (ι : Type) :
    Condition (signature chrono) (askMonitor chrono) ι (World chrono ι)
      Answer :=
  fun world desks who call answer =>
    answer.refused = none → Unmixed world (desks who) call

/-- No sync has removed the cached row of a message that is on the server under
the current UIDVALIDITY: what was removed is not there. -/
def NoneLost {chrono : Chrono} {ι : Type} (world : World chrono ι) : Prop :=
  ∀ place rows, .removed place rows ∈ world.history → ∀ entry ∈ rows,
    ∀ mailbox, world.server place = some mailbox →
      entry.2 = mailbox.uidValidity → entry.1 ∉ mailbox.uids

/-- Overlapping syncs lose no mail as long as they do not mix. -/
theorem none_lost_of_neverMixed {chrono : Chrono} {ι : Type} [DecidableEq ι]
    (crates : Crates) (jobs : ι → SyncJob) (world : World chrono ι)
    (start : world.history = [])
    (events : List (Event ι Answer (Place × List Mail)))
    (neverMixed : Config.RunMeets (arrivalSystem chrono ι)
      (NeverMixed chrono ι) (startSyncs crates jobs world) events) :
    NoneLost ((startSyncs crates jobs world).run (arrivalSystem chrono ι)
      events).shared := by
  have initial : Informed world fun who => AskDesk.fresh (jobs who).window := by
    constructor
    · exact fun who => Knows.unasked rfl fun _ _ => nofun
    · intro place rows member
      rw [start] at member
      cases member
  have obedient : (startSyncs crates jobs world).Obedient := fun who =>
    Fallible.obeys_runOnly (@syncFolderWindow_asks chrono crates
      (AskDesk.fresh (jobs who).window) (jobs who).folderId)
  have informed := Config.run_invariant Informed
    (fun shared seen who call answer informed allowed unmixed =>
      informed.turn allowed unmixed)
    (fun shared seen arrival informed => by
      have onward : Onward shared
          ((arrivalSystem chrono ι).disturb arrival shared) := by
        simp only [arrivalSystem]
        split
        · next there =>
          exact onward_withMailbox there (Mailbox.grows_deliverAll arrival.2)
        · exact Onward.refl shared
      exact ⟨fun who => onward.knows (informed.knows who),
        onward.spared informed.spared⟩)
    obedient initial events neverMixed
  intro place rows member entry inside mailbox there same
  exact (informed.spared place rows member entry inside mailbox there same).1

section Decidable

variable {chrono : Chrono} {ι : Type}

instance (world : World chrono ι) (desk : AskDesk) (call : Call) :
    Decidable (Unmixed world desk call) := by
  unfold Unmixed
  split <;> infer_instance

instance [DecidableEq ι] (world : World chrono ι) (desks : ι → AskDesk)
    (who : ι) (call : Call) (answer : Answer) :
    Decidable (NeverMixed chrono ι world desks who call answer) :=
  inferInstanceAs (Decidable (answer.refused = none → _))

end Decidable

/-! ## Two syncs of one folder -/

namespace Sample

local instance twoSyncs : NeZero 2 := ⟨by decide⟩

/-- The folder is empty, and its only message so far is long gone. -/
def quietInbox : World winter (Fin 2) where
  clock := winterAt 0 start_inWinter
  db := emptyFolder 1
  server place :=
    if place = ⟨1, "INBOX"⟩ then
      some ⟨1, some 2, none, [], [], Mailbox.ascending_nil, by simp,
        Mailbox.recorded_nil⟩
    else none
  session _ := ⟨true, true, false, false, none, false⟩
  reported _ _ := 0
  origin _ := 0
  history := []

/-- Two quick syncs of the folder. -/
def quickSyncs : Config (signature winter) (askMonitor winter) (Fin 2)
    (World winter (Fin 2)) :=
  startSyncs parser (fun _ => ⟨1, some quickSyncWindow⟩) quietInbox

/-- Some turns of one sync, with nothing in its way. -/
def syncTurns (who : Fin 2) (count : Nat) :
    List (Event (Fin 2) Answer (Place × List Mail)) :=
  List.replicate count (.turn who .plain)

/-- A message arrives. -/
def newMail : Event (Fin 2) Answer (Place × List Mail) :=
  .disturb (⟨1, "INBOX"⟩, [⟨0, [], 0, [65]⟩])

/-- The message arrives after the first sync's SELECT, and the second one
caches it before the first lists what is cached. -/
def overtaken : List (Event (Fin 2) Answer (Place × List Mail)) :=
  syncTurns 0 4 ++ newMail :: syncTurns 1 16 ++ syncTurns 0 16

/-- The first sync removes the new message from the cache. -/
theorem overtaken_loses_message :
    ¬NoneLost (quickSyncs.run (arrivalSystem winter (Fin 2))
      overtaken).shared := by
  intro noneLost
  have removed : Deed.removed ⟨1, "INBOX"⟩ [(2, 1)] ∈
      (quickSyncs.run (arrivalSystem winter (Fin 2))
        overtaken).shared.history := by
    decide +kernel
  have present : ((quickSyncs.run (arrivalSystem winter (Fin 2))
      overtaken).shared.server ⟨1, "INBOX"⟩).any (fun mailbox =>
        1 = mailbox.uidValidity ∧ 2 ∈ mailbox.uids) := by
    decide +kernel
  obtain ⟨mailbox, there, both⟩ := (Option.any_eq_true ..).mp present
  rw [decide_eq_true_eq] at both
  exact noneLost _ _ removed (2, 1) List.mem_cons_self mailbox there both.1
    both.2

/-- The message arrives once the first sync has listed and searched. -/
def inTurn : List (Event (Fin 2) Answer (Place × List Mail)) :=
  syncTurns 0 16 ++ newMail :: syncTurns 1 16

theorem inTurn_loses_none :
    NoneLost (quickSyncs.run (arrivalSystem winter (Fin 2)) inTurn).shared :=
  none_lost_of_neverMixed parser _ quietInbox rfl inTurn (by decide +kernel)

end Sample

end Imap
end Mailcore
