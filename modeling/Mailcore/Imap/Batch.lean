import Mathlib.Data.List.TakeWhile
import Mailcore.Concurrent.Leads
import Mailcore.Imap.Effect
import Mailcore.Imap.Sync

/-!
# One response of messages

What one response to a FETCH of whole messages leaves in the cache, whatever
items the server sends.
-/

namespace Mailcore
namespace Imap

open Store Concurrent Concurrent.Fallible

/-- The parser accepts the item's body. -/
def Readable (crates : Crates) (item : FetchItem) : Bool :=
  (item.raw.bind crates.readMail).isSome

/-- The items that carry a UID. -/
def named (items : List FetchItem) : List FetchItem :=
  items.filter fun item => 0 < item.uid.getD 0

/-- The item's body reads as this letter. -/
def Gives (crates : Crates) (item : FetchItem) (letter : Letter) : Prop :=
  ∃ raw parsed, item.raw = some raw ∧ crates.readMail raw = some parsed ∧
    parsed.letter = letter

/-- What a UID has is what it had, or comes from an item with its body; and
every readable message of the response is cached. -/
structure Undamaged (crates : Crates) (folderId : Nat)
    (items : List FetchItem) (before after : Db) : Prop where
  bodies : ∀ uid, after.message? folderId uid = before.message? folderId uid ∨
    ∃ row, after.message? folderId uid = some row ∧
      ∃ item ∈ items, item.uid = some uid ∧ Gives crates item row.letter
  cached : ∀ item ∈ named items, Readable crates item →
    ∃ row, after.message? folderId (item.uid.getD 0) = some row ∧
      ∃ other ∈ items, other.uid = item.uid ∧ Gives crates other row.letter

/-- Each UID with a readable message has one before the first item with a UID
that has no readable body. -/
def ReadableFirst (crates : Crates) (items : List FetchItem) : Prop :=
  ∀ item ∈ named items, Readable crates item →
    ∃ other ∈ (named items).takeWhile (Readable crates),
      other.uid = item.uid

instance (crates : Crates) (items : List FetchItem) :
    Decidable (ReadableFirst crates items) :=
  inferInstanceAs (Decidable (∀ _ ∈ _, _ → _))

section Alone

variable {chrono : Chrono} {crates : Crates} {ι : Type} [DecidableEq ι]
  {who : ι}

/-- The database refuses nothing. -/
def Willing (answer : Answer) : Prop := answer.refused = none

theorem respond_willing {call : Call} {answer : Answer}
    (willing : Willing answer) (world : World chrono ι) :
    respond chrono who call answer world =
      carryOut chrono who call answer world := by
  unfold respond
  rw [show answer.refused = none from willing]
  split <;> rfl

/-- Only parts have been recorded. -/
structure Beside (world after : World chrono ι) : Prop where
  messages : after.db.messages = world.db.messages
  folders : after.db.folders = world.db.folders
  server : after.server = world.server
  session : after.session = world.session

omit [DecidableEq ι] in
theorem Beside.refl (world : World chrono ι) : Beside world world :=
  ⟨rfl, rfl, rfl, rfl⟩

omit [DecidableEq ι] in
theorem Beside.trans {first second third : World chrono ι}
    (earlier : Beside first second) (later : Beside second third) :
    Beside first third :=
  ⟨later.messages.trans earlier.messages, later.folders.trans earlier.folders,
    later.server.trans earlier.server, later.session.trans earlier.session⟩

omit [DecidableEq ι] in
theorem Beside.message? {world after : World chrono ι}
    (beside : Beside world after) (folderId uid : Nat) :
    after.db.message? folderId uid = world.db.message? folderId uid := by
  unfold Db.message?
  rw [beside.messages]

/-- Recording a part never fails the sync. -/
theorem addEach_leads (messageId : Nat) (files : List NewAttachment)
    (world : World chrono ι) :
    Leads (respond chrono who) (fun _ => True) (addEach chrono messageId files)
      world fun result after => result = .ok () ∧ Beside world after := by
  induction files generalizing world with
  | nil => exact leads_pure ⟨rfl, .refl world⟩
  | cons file files inductionHypothesis =>
      refine leads_ignore_bind (leads_perform fun answer _ => ?_)
      have added : Beside world (respond chrono who
          (.addAttachment messageId file) answer world).2 := by
        rw [respond_statement chrono who rfl]
        cases answer.refused with
        | some text => exact .refl world
        | none =>
            simp only [carryOut, writes]
            cases stored : Messages.addAttachment messageId file world.db with
            | error error => exact .refl world
            | ok db =>
                obtain ⟨messages, folders⟩ :=
                  Messages.addAttachment_keeps stored
                exact ⟨messages, folders, rfl, rfl⟩
      exact (inductionHypothesis _).mono fun _ _ both =>
        ⟨both.1, added.trans both.2⟩

theorem storeAttachmentMeta_leads (messageId : Nat)
    (files : List NewAttachment) (world : World chrono ι) :
    Leads (respond chrono who) (fun _ => True)
      (storeAttachmentMeta chrono crates messageId files) world
      fun result after => result = .ok () ∧ Beside world after := by
  unfold storeAttachmentMeta
  split
  · exact leads_pure ⟨rfl, .refl world⟩
  refine leads_attempt_bind (leads_perform fun answer _ => ?_)
  have listed : (respond chrono who (.listAttachments messageId) answer
      world).2 = world := by
    rw [respond_statement chrono who rfl]
    cases answer.refused <;> rfl
  rw [listed]
  split
  · exact addEach_leads _ _ world
  · exact leads_pure ⟨rfl, .refl world⟩

/-- What storing one readable message leaves. -/
structure StoredOne (crates : Crates) (folderId uid : Nat) (raw : Raw)
    (before after : Db) : Prop where
  folders : after.folders = before.folders
  others : ∀ other, other ≠ uid →
    after.message? folderId other = before.message? folderId other
  own : ∃ row, after.message? folderId uid = some row ∧
    ∃ parsed, crates.readMail raw = some parsed ∧ row.letter = parsed.letter

/-- A readable message is stored. -/
theorem storeOne_leads {folderId uid : Nat} {flags : List Flag} {raw : Raw}
    (isTrash : Bool) {world : World chrono ι}
    (owned : ∃ folder ∈ world.db.folders.rows, folder.id = folderId)
    {parsed : Parsed} (readable : crates.readMail raw = some parsed) :
    Leads (respond chrono who) Willing
      (storeOne chrono crates folderId isTrash (uid, flags, raw)) world
      fun result after => result = .ok () ∧
        StoredOne crates folderId uid raw world.db after.db := by
  unfold storeOne parseToNew
  simp only [readable, Option.map_some]
  generalize fresh : (if isTrash then _ else _ : NewMessage) = new
  have sameFolder : new.folderId = folderId := by
    rw [← fresh]
    split <;> rfl
  have sameUid : new.uid = uid := by
    rw [← fresh]
    split <;> rfl
  have sameLetter : new.letter = parsed.letter := by
    rw [← fresh]
    split <;> rfl
  apply leads_perform_bind
  intro answer willing
  rw [respond_willing willing]
  have ownedNew : ∃ folder ∈ world.db.folders.rows,
      folder.id = new.folderId := sameFolder ▸ owned
  obtain ⟨id, db, stored, upserted⟩ := Messages.upsert_ok ownedNew
  simp only [carryOut, storeFetched, stored]
  refine Leads.mono ((@storeAttachmentMeta_leads chrono crates ι _ who id _
    _).strict fun _ _ => trivial) ?_
  rintro result after ⟨done, beside⟩
  have same : ∀ folderId uid,
      after.db.message? folderId uid = db.message? folderId uid :=
    beside.message?
  refine ⟨done, beside.folders.trans upserted.folders, ?_, ?_⟩
  · intro other differs
    rw [same]
    apply upserted.others
    rintro ⟨_, again⟩
    exact differs (again.trans sameUid)
  · obtain ⟨row, found, _, letter, _⟩ := upserted.own
    rw [sameFolder, sameUid, ← same] at found
    exact ⟨row, found, parsed, readable, letter.trans sameLetter⟩

/-- A message that cannot be read ends the sync of the folder. -/
theorem storeOne_leads_of_none {folderId uid : Nat} {flags : List Flag}
    {raw : Raw} (isTrash : Bool) (world : World chrono ι)
    (unreadable : crates.readMail raw = none) :
    Leads (respond chrono who) Willing
      (storeOne chrono crates folderId isTrash (uid, flags, raw)) world
      fun result after => result.isOk = false ∧ after = world := by
  unfold storeOne parseToNew
  simp only [unreadable, Option.map_none]
  exact leads_throw ⟨rfl, rfl⟩

/-- The parser accepts the fetched bytes. -/
def readableFetch (crates : Crates) (item : Nat × List Flag × Raw) : Bool :=
  (crates.readMail item.2.2).isSome

/-- What storing some messages leaves: each UID has the letter of one of its
messages. -/
structure StoredSome (crates : Crates) (folderId : Nat)
    (stored : List (Nat × List Flag × Raw)) (before after : Db) : Prop where
  folders : after.folders = before.folders
  others : ∀ uid, (∀ item ∈ stored, item.1 ≠ uid) →
    after.message? folderId uid = before.message? folderId uid
  own : ∀ item ∈ stored, ∃ row, after.message? folderId item.1 = some row ∧
    ∃ other ∈ stored, other.1 = item.1 ∧
      ∃ parsed, crates.readMail other.2.2 = some parsed ∧
        row.letter = parsed.letter

theorem StoredSome.nil (crates : Crates) (folderId : Nat) (db : Db) :
    StoredSome crates folderId [] db db :=
  ⟨rfl, fun _ _ => rfl, nofun⟩

/-- One message more, stored first. -/
theorem StoredSome.cons {folderId uid : Nat} {flags : List Flag} {raw : Raw}
    {rest : List (Nat × List Flag × Raw)} {before middle after : Db}
    (first : StoredOne crates folderId uid raw before middle)
    (others : StoredSome crates folderId rest middle after) :
    StoredSome crates folderId ((uid, flags, raw) :: rest) before after where
  folders := others.folders.trans first.folders
  others other absent := by
    rw [others.others other fun item member =>
      absent item (List.mem_cons_of_mem _ member)]
    exact first.others other (Ne.symm (absent _ List.mem_cons_self))
  own item member := by
    -- the last message under a UID is the one that stays
    by_cases again : ∃ later ∈ rest, later.1 = item.1
    · obtain ⟨later, laterMember, sameUid⟩ := again
      obtain ⟨row, found, other, otherMember, otherUid, parsed⟩ :=
        others.own later laterMember
      rw [sameUid] at found otherUid
      exact ⟨row, found, other, List.mem_cons_of_mem _ otherMember, otherUid,
        parsed⟩
    · rcases List.mem_cons.mp member with rfl | later
      · obtain ⟨row, found, parsed⟩ := first.own
        refine ⟨row, ?_, _, List.mem_cons_self, rfl, parsed⟩
        rw [others.others uid fun item member same =>
          again ⟨item, member, same⟩]
        exact found
      · exact absurd ⟨item, later, rfl⟩ again

/-- The messages up to the first unreadable one are stored. -/
theorem storeEach_leads {folderId : Nat} (isTrash : Bool)
    (fetched : List (Nat × List Flag × Raw)) {world : World chrono ι}
    (owned : ∃ folder ∈ world.db.folders.rows, folder.id = folderId) :
    Leads (respond chrono who) Willing
      (storeEach chrono crates folderId isTrash fetched) world
      fun _ after => StoredSome crates folderId
        (fetched.takeWhile (readableFetch crates)) world.db after.db := by
  induction fetched generalizing world with
  | nil => exact leads_pure (StoredSome.nil _ _ _)
  | cons item rest inductionHypothesis =>
      obtain ⟨uid, flags, raw⟩ := item
      unfold storeEach
      rw [List.takeWhile_cons]
      cases read : crates.readMail raw with
      | none =>
          rw [if_neg (by simp [readableFetch, read])]
          refine (storeOne_leads_of_none isTrash world read).bind ?_ ?_
          · rintro value reached ⟨done, _⟩
            cases done
          · rintro error reached ⟨_, rfl⟩
            exact StoredSome.nil _ _ _
      | some parsed =>
          rw [if_pos (by simp [readableFetch, read])]
          refine (storeOne_leads isTrash owned read).bind ?_ ?_
          · rintro value reached ⟨_, stored⟩
            have stillOwned : ∃ folder ∈ reached.db.folders.rows,
                folder.id = folderId := by
              rw [stored.folders]
              exact owned
            refine (inductionHypothesis stillOwned).bind ?_ ?_
            · intro count after others
              exact leads_pure (StoredSome.cons stored others)
            · intro error after others
              exact StoredSome.cons stored others
          · rintro error reached ⟨failed, _⟩
            cases failed

/-! ## The response -/

/-- The server answers, and a FETCH with these items. -/
def Sends (items : List FetchItem) (answer : Answer) : Prop :=
  answer.refused = none ∧ answer.wire = .answered ∧ answer.items = some items

/-- The folder is cached and its mailbox is selected. -/
structure Ready (who : ι) (folderId : Nat) (world : World chrono ι) :
    Prop where
  owned : ∃ folder ∈ world.db.folders.rows, folder.id = folderId
  selected : (current chrono who world).isSome
  usable : (world.session who).broken = false

/-- An item as the collector keeps it. -/
def fetchedOf (item : FetchItem) : Nat × List Flag × Raw :=
  (item.uid.getD 0, item.flags, item.raw.getD [])

theorem collectFetched_eq (items : List FetchItem) :
    collectFetched items = (named items).map fetchedOf := by
  induction items with
  | nil => rfl
  | cons item rest inductionHypothesis =>
      unfold collectFetched named at *
      by_cases given : 0 < item.uid.getD 0
      · rw [List.filter_cons_of_pos (by simpa using given), List.map_cons,
          ← inductionHypothesis]
        simp only [List.filterMap_cons, if_pos given, fetchedOf]
      · rw [List.filter_cons_of_neg (by simpa using given),
          ← inductionHypothesis]
        simp only [List.filterMap_cons, if_neg given]

omit [DecidableEq ι] in
/-- A parser that finds no message in nothing reads no item without a body. -/
theorem readableFetch_fetchedOf (noHeaders : crates.readMail [] = none) :
    readableFetch crates ∘ fetchedOf = Readable crates := by
  funext item
  unfold Readable
  cases body : item.raw with
  | none => simp [readableFetch, fetchedOf, body, noHeaders]
  | some raw => simp [readableFetch, fetchedOf, body]

/-- One chunk: what the server sends is collected and stored. -/
theorem fetchEach_leads (noHeaders : crates.readMail [] = none)
    {folderId : Nat} (isTrash : Bool) {chunk : List Nat} (asked : chunk ≠ [])
    (items : List FetchItem) {world : World chrono ι}
    (ready : Ready who folderId world) :
    Leads (respond chrono who) (Sends items)
      (fetchEach chrono crates folderId isTrash [chunk]) world
      fun _ after => StoredSome crates folderId
        (((named items).takeWhile (Readable crates)).map fetchedOf)
        world.db after.db := by
  obtain ⟨⟨selected, mailbox⟩, now⟩ :=
    Option.isSome_iff_exists.mp ready.selected
  have fetches : Leads (respond chrono who) (Sends items)
      (uidFetchMessages chrono chunk) world fun result after =>
        result = .ok ((named items).map fetchedOf) ∧ after = world := by
    unfold uidFetchMessages
    rw [if_neg asked]
    apply leads_perform_bind
    rintro answer ⟨willing, answered, sent⟩
    rw [respond_willing willing]
    simp only [carryOut, inMailbox, command, ready.usable, answered, now, sent]
    exact leads_pure ⟨congrArg Except.ok (collectFetched_eq items), rfl⟩
  unfold fetchEach
  refine fetches.bind ?_ ?_
  · rintro value reached ⟨same, rfl⟩
    cases same
    have stores := @storeEach_leads chrono crates ι _ who folderId isTrash
      ((named items).map fetchedOf) reached ready.owned
    rw [List.takeWhile_map, readableFetch_fetchedOf noHeaders] at stores
    refine (stores.strict fun answer sends => sends.1).bind ?_ ?_
    · intro count after stored
      exact leads_pure stored
    · intro error after stored
      exact stored
  · rintro error reached ⟨failed, _⟩
    cases failed

end Alone

/-! ## Every response -/

section Response

variable {chrono : Chrono} {crates : Crates}

/-- Whatever is cached, this response to the FETCH of a chunk leaves the folder
undamaged. -/
def BatchUndamaged (chrono : Chrono) (crates : Crates) (folderId : Nat)
    (isTrash : Bool) (chunk : List Nat) (items : List FetchItem) : Prop :=
  ∀ world : World chrono Unit, Ready () folderId world →
    Leads (respond chrono ()) (Sends items)
      (fetchEach chrono crates folderId isTrash [chunk]) world
      fun _ after => Undamaged crates folderId items world.db after.db

theorem mem_named {items : List FetchItem} {item : FetchItem} :
    item ∈ named items ↔ item ∈ items ∧
      ∃ uid, 0 < uid ∧ item.uid = some uid := by
  unfold named
  rw [List.mem_filter, decide_eq_true_eq]
  refine and_congr_right fun _ => ?_
  cases item.uid with
  | none => simp
  | some uid => simp

theorem gives_of_readable {item : FetchItem} {letter : Letter}
    (readable : Readable crates item) {parsed : Parsed}
    (read : crates.readMail (item.raw.getD []) = some parsed)
    (same : letter = parsed.letter) : Gives crates item letter := by
  unfold Readable at readable
  cases body : item.raw with
  | none => simp [body] at readable
  | some raw =>
      rw [body] at read
      exact ⟨raw, parsed, body, read, same.symm⟩

/-- Storing the readable items before the first bad one replaces nothing by
nothing. -/
theorem StoredSome.undamaged {folderId : Nat} {items : List FetchItem}
    {before after : Db}
    (stored : StoredSome crates folderId
      (((named items).takeWhile (Readable crates)).map fetchedOf) before after)
    (first : ReadableFirst crates items) :
    Undamaged crates folderId items before after := by
  have source : ∀ item ∈ (named items).takeWhile (Readable crates),
      ∃ row, after.message? folderId (item.uid.getD 0) = some row ∧
        ∃ other ∈ items, other.uid = item.uid ∧ Gives crates other row.letter := by
    intro item member
    obtain ⟨row, found, _, otherMember, sameUid, parsed, read, letter⟩ :=
      stored.own _ (List.mem_map_of_mem member)
    obtain ⟨other, inside, rfl⟩ := List.mem_map.mp otherMember
    have readable := List.mem_takeWhile_imp inside
    obtain ⟨inItems, uid, _, uid_eq⟩ :=
      mem_named.mp (List.takeWhile_subset _ inside)
    obtain ⟨_, own, _, own_eq⟩ :=
      mem_named.mp (List.takeWhile_subset _ member)
    refine ⟨row, found, other, inItems, ?_, gives_of_readable readable read
      letter⟩
    change other.uid.getD 0 = item.uid.getD 0 at sameUid
    rw [uid_eq, own_eq] at sameUid ⊢
    exact congrArg some sameUid
  constructor
  · intro uid
    by_cases written : ∃ item ∈ (named items).takeWhile (Readable crates),
        item.uid.getD 0 = uid
    · right
      obtain ⟨item, member, rfl⟩ := written
      obtain ⟨row, found, other, inItems, sameUid, gives⟩ :=
        source item member
      obtain ⟨_, own, _, own_eq⟩ :=
        mem_named.mp (List.takeWhile_subset _ member)
      refine ⟨row, found, other, inItems, ?_, gives⟩
      rw [sameUid, own_eq]
      rfl
    · left
      apply stored.others
      intro fetched member same
      obtain ⟨item, inside, rfl⟩ := List.mem_map.mp member
      exact written ⟨item, inside, same⟩
  · intro item member readable
    obtain ⟨early, earlyMember, sameUid⟩ := first item member readable
    rw [← sameUid]
    exact source early earlyMember

/-- An account with one folder and no mail. -/
def emptyFolder (folderId : Nat) : Db :=
  { Db.fresh [1] with
    folders :=
      { rows := [⟨folderId, 1, "INBOX", "/", .inbox, some 1, none, none, 0,
          true⟩]
        last := folderId
        ascending := List.pairwise_singleton _ _
        bounded := by simp }
    folderOwned := by simp [Db.fresh]
    onePlace := by simp
    messageOwned := by simp [Db.fresh, Relational.Table.empty]
    targetOwned := by simp [Db.fresh] }

/-- A mailbox without mail. -/
def emptyMailbox : Mailbox :=
  ⟨1, some 1, none, [], [], Mailbox.ascending_nil, Mailbox.announced_nil,
    Mailbox.recorded_nil⟩

/-- The folder is empty and selected. -/
def atEmptyFolder (clock : chrono.Clock) (folderId : Nat) :
    World chrono Unit where
  clock := clock
  db := emptyFolder folderId
  server place := if place = ⟨1, "INBOX"⟩ then some emptyMailbox else none
  session _ := ⟨true, true, false, false, some ⟨⟨1, "INBOX"⟩, 1⟩, false⟩
  reported _ _ := 1
  origin _ := 1
  history := []

theorem atEmptyFolder_ready (clock : chrono.Clock) (folderId : Nat) :
    Ready () folderId (atEmptyFolder clock folderId) where
  owned := ⟨_, List.mem_singleton_self _, rfl⟩
  selected := rfl
  usable := rfl

/-- A response leaves every cache undamaged exactly when its readable messages
come before its first item without a readable body. -/
theorem batch_undamaged_iff (clock : chrono.Clock)
    (noHeaders : crates.readMail [] = none) (folderId : Nat) (isTrash : Bool)
    {chunk : List Nat} (asked : chunk ≠ []) (items : List FetchItem) :
    BatchUndamaged chrono crates folderId isTrash chunk items ↔
      ReadableFirst crates items := by
  constructor
  · intro undamaged item member readable
    have ready := atEmptyFolder_ready clock folderId
    have both := (undamaged _ ready).and
      (fetchEach_leads noHeaders isTrash asked items ready)
    obtain ⟨whole, stored⟩ := both
      (fun _ => ⟨none, .answered, [], some items, []⟩)
      fun _ => ⟨rfl, rfl, rfl⟩
    obtain ⟨row, found, _⟩ := whole.cached item member readable
    by_contra never
    rw [stored.others (item.uid.getD 0)] at found
    · cases found
    · intro fetched fetchedMember same
      obtain ⟨early, inside, rfl⟩ := List.mem_map.mp fetchedMember
      obtain ⟨_, uid, _, uid_eq⟩ := mem_named.mp member
      obtain ⟨_, other, _, other_eq⟩ :=
        mem_named.mp (List.takeWhile_subset _ inside)
      apply never
      refine ⟨early, inside, ?_⟩
      change early.uid.getD 0 = item.uid.getD 0 at same
      rw [uid_eq, other_eq] at same ⊢
      exact congrArg some same
  · intro first world ready
    exact (fetchEach_leads noHeaders isTrash asked items ready).mono
      fun _ _ stored => stored.undamaged first

end Response

namespace Sample

/-- A letter with nothing in it. -/
def blank : Letter :=
  ⟨none, none, none, none, none, [], [], [], none, none, none, none, none,
    none, [], false, 0, true⟩

theorem one_listed : 1 ∈ [1] := by decide

theorem trash_free : ∀ folder ∈ (emptyFolder 1).folders.rows, folder.place ≠ ⟨1, "Trash"⟩ := by
  decide

/-- A parser that reads every message but the empty one. -/
def parser : Crates where
  readMail raw := if raw = [] then none else some ⟨blank, [], []⟩
  isPreviewPart _ := false
  isInlineImage _ := false

/-- The flags of message 7, which another client has just changed. -/
def unsolicited : FetchItem := ⟨some 7, [.seen], none⟩

/-- The message that was asked for. -/
def wanted : FetchItem := ⟨some 8, [], some [65]⟩

/-- The message that was asked for is not cached when another's flags come
first. -/
theorem unsolicited_first_loses_message :
    ¬ BatchUndamaged Store.winter parser 1 false [8] [unsolicited, wanted] := by
  intro undamaged
  have whole := undamaged _
    (atEmptyFolder_ready (Store.winterAt 0) 1)
    (fun _ => ⟨none, .answered, [], some [unsolicited, wanted], []⟩)
    fun _ => ⟨rfl, rfl, rfl⟩
  obtain ⟨row, found, _⟩ := whole.cached wanted (by decide) (by decide)
  revert found
  rw [show Db.message? _ 1 _ = none from by decide +kernel]
  exact nofun

/-- It is cached when the flags come last. -/
theorem unsolicited_last_undamaged :
    BatchUndamaged Store.winter parser 1 false [8] [wanted, unsolicited] :=
  (batch_undamaged_iff (Store.winterAt 0) rfl 1 false (by simp) _).mpr
    (by decide +kernel)

end Sample

end Imap
end Mailcore
