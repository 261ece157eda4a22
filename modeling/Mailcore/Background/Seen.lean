import Mailcore.Background.Cache
import Mailcore.Concurrent.Run

/-!
# New-mail marks

The marks are read in one statement, carried in a report and written in
another, while other processes do the same.  Everything here is about one
inbox under one UIDVALIDITY.
-/

namespace Mailcore
namespace Background

open Concurrent
open Text (InI64)

/-- An inbox and the validity it keeps. -/
structure Inbox where
  accountId : Int
  folderId : Int
  validity : Int
  deriving DecidableEq, Repr

/-- The mark of the inbox at a UID. -/
def Inbox.mark (inbox : Inbox) (uid : Int) : SeenMark where
  accountId := inbox.accountId
  folderId := inbox.folderId
  uidValidity := inbox.validity
  uid := uid

/-- The settings key of the inbox's seen mark. -/
def Inbox.key (inbox : Inbox) : String := (inbox.mark 0).key

/-- The inbox keeps its account and its validity. -/
def Cache.Keeps (cache : Cache) (inbox : Inbox) : Prop :=
  ∀ folder ∈ cache.folders, folder.id = inbox.folderId →
    folder.accountId = inbox.accountId ∧
      folder.uidValidity.getD 0 = inbox.validity

instance (cache : Cache) (inbox : Inbox) : Decidable (cache.Keeps inbox) :=
  inferInstanceAs (Decidable (∀ _ ∈ _, _ → _))

/-- What the query for the tops returns: one mark a folder, the inbox's own
under its validity. -/
structure Tops (inbox : Inbox) where
  marks : List SeenMark
  distinct : (marks.map SeenMark.folderId).Nodup
  own : ∀ top ∈ marks, top.folderId = inbox.folderId →
    top = inbox.mark top.uid ∧ InI64 top.uidValidity ∧ InI64 top.uid

/-- The statements of the new-mail functions. -/
inductive Call
  | inboxTops
  | getSetting (key : String)
  | setSetting (key value : String)
  | unreadAbove (top : SeenMark) (mark : Int)
  deriving DecidableEq, Repr

/-- What each statement comes to; a failing one counts as empty, or as not
saved. -/
@[reducible] def Call.Value (inbox : Inbox) : Call → Type
  | .inboxTops => Tops inbox
  | .getSetting _ => Option String
  | .setSetting _ _ => Bool
  | .unreadAbove _ _ => List NewMail

@[reducible] def signature (inbox : Inbox) : Signature where
  Call := Call
  Reply := Call.Value inbox

abbrev MarkProgram (inbox : Inbox) (α : Type) := Program (signature inbox) α

/-! ## The programs -/

section Programs

variable {inbox : Inbox}

/-- One statement. -/
def ask (call : Call) : MarkProgram inbox (call.Value inbox) :=
  @Program.perform (signature inbox) call

def storedMark (key : String) (validity : Int) :
    MarkProgram inbox (Option Int) := do
  let raw : Option String ← ask (.getSetting key)
  pure (raw.bind (markOf validity))

/-- The unread mail above each folder's mark. -/
def collectEach : List SeenMark → MarkProgram inbox (List NewMail)
  | [] => pure []
  | top :: rest => do
      match ← storedMark top.key top.uidValidity with
      | none => collectEach rest
      | some mark => do
          let mails : List NewMail ← ask (.unreadAbove top mark)
          let later ← collectEach rest
          pure (mails ++ later)

def collectNewMail : MarkProgram inbox (List NewMail × List SeenMark) := do
  let tops : Tops inbox ← ask .inboxTops
  let new ← collectEach tops.marks
  pure (new, tops.marks)

/-- The unread mail above each folder's shown line, or above its mark. -/
def pendingEach : List SeenMark → MarkProgram inbox (List NewMail)
  | [] => pure []
  | top :: rest => do
      let shown ← storedMark top.shownKey top.uidValidity
      let mark ← match shown with
        | some mark => pure (some mark)
        | none => storedMark top.key top.uidValidity
      match mark with
      | none => pendingEach rest
      | some mark => do
          let mails : List NewMail ← ask (.unreadAbove top mark)
          let later ← pendingEach rest
          pure (mails ++ later)

def collectPending : MarkProgram inbox (List NewMail) := do
  let tops : Tops inbox ← ask .inboxTops
  pendingEach tops.marks

def markEach : List SeenMark → MarkProgram inbox Unit
  | [] => pure ()
  | top :: rest => do
      let _saved : Bool ← ask (.setSetting top.key top.value)
      let _saved : Bool ← ask (.setSetting top.shownKey top.value)
      markEach rest

def markInboxSeen : MarkProgram inbox Unit := do
  let tops : Tops inbox ← ask .inboxTops
  markEach tops.marks

/-- A folder without a shown line gets one at the mark this commit moves
past. -/
def drawLine (mark : SeenMark) : MarkProgram inbox Unit := do
  match ← storedMark mark.shownKey mark.uidValidity with
  | some _ => pure ()
  | none => do
      let seen ← storedMark mark.key mark.uidValidity
      let line := { mark with uid := seen.getD mark.uid }
      let _saved : Bool ← ask (.setSetting mark.shownKey line.value)
      pure ()

def commitSeen : List SeenMark → MarkProgram inbox Unit
  | [] => pure ()
  | mark :: rest => do
      drawLine mark
      let _saved : Bool ← ask (.setSetting mark.key mark.value)
      commitSeen rest

/-- What a process does. -/
inductive Job
  /-- A check whose report is committed. -/
  | check
  /-- The user has the app open. -/
  | openApp
  /-- The notification's list is read. -/
  | list
  deriving DecidableEq, Repr

def Job.program (inbox : Inbox) : Job → Program (signature inbox) Unit
  | .check => do
      let (_, marks) ← collectNewMail
      commitSeen marks
  | .openApp => markInboxSeen
  | .list => do
      let _ ← collectPending
      pure ()

end Programs

/-! ## The shared state -/

/-- The tables and settings the processes share, and what was true of the inbox
when each process read it. -/
structure World (inbox : Inbox) (ι : Type) where
  cache : Cache
  keeps : cache.Keeps inbox
  settings : String → Option String
  /-- The raw seen mark when each process first read it. -/
  asked : ι → Option (Option String)
  /-- The unread UIDs the inbox listed when each process read its mark, or then
  looked for mail above it. -/
  listed : ι → List Nat

section World

variable {inbox : Inbox} {ι : Type}

/-- The inbox's seen mark. -/
def World.seenMark (world : World inbox ι) : Option Int :=
  (world.settings inbox.key).bind (markOf inbox.validity)

/-- The seen mark as it was when a process first read it. -/
def World.askedMark (world : World inbox ι) (who : ι) : Option Int :=
  (world.asked who).bind fun raw => raw.bind (markOf inbox.validity)

/-- The unread UIDs the inbox lists. -/
def World.unread (world : World inbox ι) : List Nat :=
  (world.cache.unread inbox.folderId).map MailRow.uid

theorem mem_inboxTops {cache : Cache} {top : SeenMark}
    (member : top ∈ cache.inboxTops) :
    ∃ folder ∈ cache.folders, top.accountId = folder.accountId ∧
      top.folderId = folder.id ∧
        top.uidValidity = folder.uidValidity.getD 0 ∧
          top.uid = cache.topUid folder.id := by
  obtain ⟨folder, inside, rfl⟩ := List.mem_map.mp member
  exact ⟨folder, (List.mem_filter.mp inside).1, rfl, rfl, rfl, rfl⟩

theorem foldl_max_lt {uids : List Nat} {start bound : Nat}
    (first : start < bound) (rest : ∀ uid ∈ uids, uid < bound) :
    uids.foldl max start < bound := by
  induction uids generalizing start with
  | nil => exact first
  | cons head tail inductionHypothesis =>
      apply inductionHypothesis
      · exact Nat.max_lt.mpr ⟨first, rest head List.mem_cons_self⟩
      · intro uid member
        exact rest uid (List.mem_cons_of_mem _ member)

theorem topUid_lt (cache : Cache) (folderId : Int) :
    cache.topUid folderId < 2 ^ 32 := by
  apply foldl_max_lt (by decide)
  intro uid member
  obtain ⟨mail, inside, rfl⟩ := List.mem_map.mp member
  exact cache.narrow mail (List.mem_filter.mp inside).1

/-- The tops the query returns. -/
def World.tops (world : World inbox ι) : Tops inbox where
  marks := world.cache.inboxTops
  distinct := by
    unfold Cache.inboxTops
    rw [List.map_map]
    exact (List.filter_sublist.map FolderRow.id).nodup world.cache.oneFolder
  own := by
    intro top member own
    obtain ⟨folder, inside, account, id, validity, uid⟩ := mem_inboxTops member
    obtain ⟨sameAccount, sameValidity⟩ :=
      world.keeps folder inside (id.symm.trans own)
    have inRange := world.cache.valid folder inside
    have narrow := topUid_lt world.cache folder.id
    refine ⟨?_, ?_, ?_⟩
    · cases top
      simp only [Inbox.mark, SeenMark.mk.injEq]
      exact ⟨account.trans sameAccount, own, validity.trans sameValidity, trivial⟩
    · rw [validity]
      exact inRange
    · rw [uid]
      unfold InI64
      omega

/-- No tops, when the query fails. -/
def Tops.none : Tops inbox where
  marks := []
  distinct := List.nodup_nil
  own := by simp

variable [DecidableEq ι]

/-- Answer one statement.  A refused one changes nothing the processes
share. -/
def respond (who : ι) :
    (call : Call) → Bool → World inbox ι → call.Value inbox × World inbox ι
  | .inboxTops, refused, world =>
      (if refused then Tops.none else world.tops, world)
  | .getSetting key, refused, world =>
      (if refused then none else world.settings key,
        if key = inbox.key ∧ world.asked who = none then
          { world with
            asked := Function.update world.asked who
              (some (world.settings inbox.key))
            listed := Function.update world.listed who world.unread }
        else
          world)
  | .setSetting key value, refused, world =>
      if refused then
        (false, world)
      else
        (true, { world with
          settings := Function.update world.settings key (some value) })
  | .unreadAbove top mark, refused, world =>
      (if refused then [] else world.cache.unreadAbove top mark,
        if top.key = inbox.key then
          { world with
            listed := Function.update world.listed who world.unread }
        else
          world)

/-- What syncs, the user and other settings change. -/
inductive Change
  | cache (cache : Cache)
  | setting (key : String) (value : Option String)

/-- A change that gives the inbox another validity, or writes its mark from
elsewhere, does not happen here. -/
def disturb (change : Change) (world : World inbox ι) : World inbox ι :=
  match change with
  | .cache cache =>
      if keeps : cache.Keeps inbox then { world with cache, keeps } else world
  | .setting key value =>
      if key = inbox.key then world
      else { world with settings := Function.update world.settings key value }

/-- The new-mail functions over the store. -/
def system (inbox : Inbox) (ι : Type) [DecidableEq ι] :
    System (signature inbox) ι (World inbox ι) Bool Change where
  respond := respond
  disturb := disturb

end World

end Background
end Mailcore
