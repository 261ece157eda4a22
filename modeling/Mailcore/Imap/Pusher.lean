import Mailcore.Imap.Mutate
import Mathlib.Data.List.Dedup

/-!
# What a push of due moves relies on

A push works from the due rows it listed.  The monitor remembers them until
the push is done with them, together with the folder it selected: every
command of a push names UIDs of such rows in that folder.
-/

namespace Mailcore
namespace Imap

open Store Concurrent Concurrent.Fallible

/-- What a process knows of its own work on pending moves. -/
structure PushDesk where
  /-- The due rows it listed and is not done with. -/
  due : List PendingMove
  /-- The folder it read last, and where it is. -/
  folder : Option (Nat × Place)
  /-- The folder its session has selected. -/
  selected : Option (Nat × Place)
  deriving DecidableEq, Repr

namespace PushDesk

/-- A process that has not done anything yet. -/
def fresh : PushDesk := ⟨[], none, none⟩

/-- UIDs of due rows of a folder. -/
def Holds (desk : PushDesk) (folderId : Nat) (uids : List Nat) : Prop :=
  ∀ uid ∈ uids, ∃ row ∈ desk.due, row.folderId = folderId ∧ row.uid = uid

/-- UIDs of due rows of the selected folder. -/
def HoldsSelected (desk : PushDesk) (uids : List Nat) : Prop :=
  ∃ folderId place, desk.selected = some (folderId, place) ∧
    desk.Holds folderId uids

/-- The calls of a process that queues, pushes or undoes moves. -/
def Allows (desk : PushDesk) : Call → Prop
  | .store uids _ _ | .copy uids _ | .move uids _ | .expungeUids uids =>
      desk.HoldsSelected uids
  | .deleteManyByUids folderId uids => desk.Holds folderId uids
  | .clock | .session | .useExtensions _ _ | .select _ _ | .search _
  | .expunge | .create _ | .discover _ | .folderGet _ | .folderByPath _
  | .listByAccount _ | .upsertFolders _ _ | .noteRemovedOnServer _ _
  | .idsByUids _ _ | .queue _ _ _ _ _ | .cancelBatch _ | .listDue _
  | .recordFailure _ | .removePending _ => True
  | _ => False

/-- The desk without the rows of some messages. -/
def settle (desk : PushDesk) (ids : List Nat) : PushDesk :=
  { desk with due := desk.due.filter fun row => row.messageId ∉ ids }

/-- What a reply tells a process. -/
def next (chrono : Chrono) (desk : PushDesk) :
    (call : Call) → Except StoreError (call.Value chrono) → PushDesk
  | .folderGet id, .ok folder =>
      { desk with folder := some (id, folder.place) }
  | .select place _, .ok _ =>
      { desk with selected := desk.folder.filter fun known =>
          known.2 = place }
  | .select _ _, .error _ => { desk with selected := none }
  | .listDue _, .ok due => { desk with due := due.rows }
  | .recordFailure ids, _ => desk.settle ids
  | .removePending ids, _ => desk.settle ids
  | _, _ => desk

end PushDesk

/-- The monitor of the processes that queue, push or undo moves. -/
@[reducible] def pushMonitor (chrono : Chrono) :
    Monitor (signature chrono) where
  State := PushDesk
  allows := PushDesk.Allows
  next := PushDesk.next chrono

/-! ## Groups -/

/-- All items of some groups. -/
def itemsOf (groups : List (MoveGroup × List PendingItem)) :
    List PendingItem := groups.flatMap Prod.snd

/-- The groups contain the due row. -/
def InGroups (groups : List (MoveGroup × List PendingItem))
    (due : PendingMove) : Prop :=
  ∃ items, (due.group, items) ∈ groups ∧ due.item ∈ items

theorem itemsOf_addToGroups
    (due : PendingMove) (groups : List (MoveGroup × List PendingItem)) :
    (itemsOf (addToGroups due groups)).Perm (due.item :: itemsOf groups) := by
  induction groups with
  | nil => exact .refl _
  | cons head rest inductionHypothesis =>
      obtain ⟨group, items⟩ := head
      unfold addToGroups
      split
      · change ((items ++ [due.item]) ++ itemsOf rest).Perm
          (due.item :: (items ++ itemsOf rest))
        rw [List.append_assoc]
        exact List.perm_middle
      · change (items ++ itemsOf (addToGroups due rest)).Perm
          (due.item :: (items ++ itemsOf rest))
        exact (inductionHypothesis.append_left items).trans
          List.perm_middle

/-- Grouping neither loses nor repeats a row. -/
theorem itemsOf_groupDue (due : List PendingMove) :
    (itemsOf (groupDue due)).Perm (due.map PendingMove.item) := by
  unfold groupDue
  suffices general : ∀ groups, (itemsOf (due.foldl (fun groups row =>
      addToGroups row groups) groups)).Perm
      (due.map PendingMove.item ++ itemsOf groups) by
    simpa [itemsOf] using general []
  induction due with
  | nil => exact fun groups => .refl _
  | cons row rest inductionHypothesis =>
      intro groups
      rw [List.foldl_cons]
      refine (inductionHypothesis _).trans ?_
      refine ((itemsOf_addToGroups row groups).append_left _).trans ?_
      exact List.perm_middle

/-- Each item of a group is a due row of the group's folder. -/
def Grouped (due : List PendingMove)
    (groups : List (MoveGroup × List PendingItem)) : Prop :=
  ∀ group ∈ groups, ∀ item ∈ group.2, ∃ row ∈ due,
    row.group = group.1 ∧ row.item = item

theorem grouped_addToGroups
    {due : List PendingMove} {row : PendingMove} (member : row ∈ due)
    {groups : List (MoveGroup × List PendingItem)}
    (grouped : Grouped due groups) :
    Grouped due (addToGroups row groups) := by
  induction groups with
  | nil =>
      intro group groupMember item itemMember
      unfold addToGroups at groupMember
      rw [List.mem_singleton] at groupMember
      subst groupMember
      rw [List.mem_singleton] at itemMember
      exact ⟨row, member, rfl, itemMember.symm⟩
  | cons head rest inductionHypothesis =>
      have restGrouped : Grouped due rest := fun group groupMember =>
        grouped group (List.mem_cons_of_mem _ groupMember)
      obtain ⟨key, items⟩ := head
      unfold addToGroups
      split
      · rename_i same
        intro group groupMember item itemMember
        rcases List.mem_cons.mp groupMember with rfl | later
        · rcases List.mem_append.mp itemMember with old | added
          · exact grouped (key, items) List.mem_cons_self item old
          · rw [List.mem_singleton] at added
            exact ⟨row, member, same.symm, added.symm⟩
        · exact restGrouped group later item itemMember
      · intro group groupMember
        rcases List.mem_cons.mp groupMember with rfl | later
        · exact grouped (key, items) List.mem_cons_self
        · exact inductionHypothesis restGrouped group later

theorem grouped_groupDue (due : List PendingMove) :
    Grouped due (groupDue due) := by
  unfold groupDue
  suffices general : ∀ rows : List PendingMove, (∀ row ∈ rows, row ∈ due) →
      ∀ groups, Grouped due groups →
        Grouped due (rows.foldl (fun groups row =>
          addToGroups row groups) groups) by
    exact general due (fun _ => id) [] fun _ member => by cases member
  intro rows
  induction rows with
  | nil => exact fun _ _ grouped => grouped
  | cons row rest inductionHypothesis =>
      intro within groups grouped
      rw [List.foldl_cons]
      exact inductionHypothesis
        (fun other member => within other (List.mem_cons_of_mem _ member)) _
        (grouped_addToGroups (within row List.mem_cons_self) grouped)

/-! ## The verbs of a session -/

section Verbs

variable {chrono : Chrono} {desk : PushDesk}

/-- Selecting forgets the old folder and takes the one last read. -/
theorem select_keeps (place : Place) (qresync : Option (Nat × Nat)) :
    Keeps (pushMonitor chrono) (select chrono place qresync) desk
      fun result after => after.due = desk.due ∧
        ∀ reply, result = .ok reply →
          after.selected = desk.folder.filter fun known =>
            known.2 = place := by
  unfold select perform
  rw [keeps_perform_bind]
  refine ⟨trivial, fun session => ?_, fun error => ⟨rfl, fun _ => nofun⟩⟩
  rw [keeps_attempt_bind, keeps_perform]
  refine ⟨trivial, fun reply => ?_⟩
  cases reply with
  | ok reply => exact ⟨rfl, fun _ _ => rfl⟩
  | error error =>
      dsimp only
      rw [keeps_perform_bind]
      refine ⟨trivial, fun session => ?_, fun _ => ⟨rfl, fun _ => nofun⟩⟩
      split
      · rw [keeps_perform_bind]
        refine ⟨trivial, fun _ => ⟨trivial, fun reply => ?_⟩, fun _ =>
          ⟨rfl, fun _ => nofun⟩⟩
        cases reply with
        | ok reply => exact ⟨rfl, fun _ _ => rfl⟩
        | error error => exact ⟨rfl, fun _ => nofun⟩
      · exact ⟨rfl, fun _ => nofun⟩

variable {uids : List Nat}

theorem uidStoreFlags_keeps (held : desk.HoldsSelected uids)
    (op : StoreType) (flag : Flag) :
    Keeps (pushMonitor chrono) (uidStoreFlags chrono uids op flag) desk
      fun _ after => after = desk := by
  unfold uidStoreFlags perform
  split
  · rfl
  · exact ⟨held, fun _ => rfl⟩

theorem expungeOnly_keeps (uids : List Nat) :
    Keeps (pushMonitor chrono) (expungeOnly chrono uids) desk
      fun _ after => after = desk := by
  unfold expungeOnly uidSearch perform
  rw [keeps_perform_bind]
  refine ⟨trivial, fun found => ?_, fun _ => rfl⟩
  dsimp only
  split
  · rfl
  · exact ⟨trivial, fun _ => rfl⟩

theorem uidExpunge_keeps (held : desk.HoldsSelected uids) :
    Keeps (pushMonitor chrono) (uidExpunge chrono uids) desk
      fun _ after => after = desk := by
  unfold uidExpunge perform
  split
  · rfl
  rw [keeps_perform_bind]
  refine ⟨trivial, fun session => ?_, fun _ => rfl⟩
  split
  · rw [keeps_attempt_bind, keeps_perform]
    refine ⟨held, fun reply => ?_⟩
    cases reply with
    | ok value => rfl
    | error error =>
        dsimp only
        rw [keeps_perform_bind]
        refine ⟨trivial, fun session => ?_, fun _ => rfl⟩
        split
        · rfl
        · exact expungeOnly_keeps uids
  · exact expungeOnly_keeps uids

theorem copyThenRemove_keeps (held : desk.HoldsSelected uids)
    (dest : String) :
    Keeps (pushMonitor chrono) (copyThenRemove chrono uids dest) desk
      fun _ after => after = desk := by
  unfold copyThenRemove perform
  rw [keeps_perform_bind]
  refine ⟨held, fun _ => ?_, fun _ => rfl⟩
  rw [keeps_ignore]
  refine (uidStoreFlags_keeps held _ _).bind ?_ fun _ _ same => same
  intro _ after same
  subst same
  exact uidExpunge_keeps held

theorem uidMove_keeps (held : desk.HoldsSelected uids) (dest : String) :
    Keeps (pushMonitor chrono) (uidMove chrono uids dest) desk
      fun _ after => after = desk := by
  unfold uidMove perform
  split
  · rfl
  rw [keeps_perform_bind]
  refine ⟨trivial, fun session => ?_, fun _ => rfl⟩
  split
  · rw [keeps_attempt_bind, keeps_perform]
    refine ⟨held, fun reply => ?_⟩
    cases reply with
    | ok value => rfl
    | error error =>
        dsimp only
        rw [keeps_perform_bind]
        refine ⟨trivial, fun session => ?_, fun _ => rfl⟩
        split
        · rfl
        · exact copyThenRemove_keeps held dest
  · exact copyThenRemove_keeps held dest

end Verbs

/-! ## The push -/

section Push

variable {chrono : Chrono} {desk : PushDesk}

theorem createLevels_keeps
    (accountId : Nat) (delimiter done : String) (segments : List String) :
    Keeps (pushMonitor chrono)
      (createLevels chrono accountId delimiter done segments) desk
      fun _ after => after = desk := by
  induction segments generalizing done with
  | nil => rfl
  | cons segment segments inductionHypothesis =>
      unfold createLevels perform
      rw [keeps_attempt_bind, keeps_perform]
      refine ⟨trivial, fun reply => ?_⟩
      cases reply with
      | ok value => exact inductionHypothesis _
      | error error =>
          dsimp only
          split
          · exact inductionHypothesis _
          · rfl

theorem syncFolders_keeps (accountId : Nat) :
    Keeps (pushMonitor chrono) (syncFolders chrono accountId) desk
      fun _ after => after = desk := by
  unfold syncFolders perform
  simp only [keeps_perform_bind]
  exact ⟨trivial, fun _ => ⟨trivial, fun _ => ⟨trivial, fun _ => rfl⟩,
    fun _ => rfl⟩, fun _ => rfl⟩

theorem createFolderPath_keeps (accountId : Nat) (path delimiter : String) :
    Keeps (pushMonitor chrono)
      (createFolderPath chrono accountId path delimiter) desk
      fun _ after => after = desk := by
  unfold createFolderPath
  cases normalizeFolderPath path delimiter with
  | error error => rfl
  | ok normalized =>
      refine (createLevels_keeps _ _ _ _).bind ?_ fun _ _ same => same
      intro _ after same
      subst same
      refine (syncFolders_keeps accountId).bind ?_ fun _ _ same => same
      intro _ after same
      subst same
      unfold perform
      rw [keeps_attempt_bind, keeps_perform]
      refine ⟨trivial, fun reply => ?_⟩
      cases reply <;> rfl

theorem pendingTarget_keeps (accountId : Nat) (group : MoveGroup) :
    Keeps (pushMonitor chrono) (pendingTarget chrono accountId group) desk
      fun _ after => after = desk := by
  unfold pendingTarget perform
  rw [keeps_perform_bind]
  refine ⟨trivial, fun known => ?_, fun _ => rfl⟩
  split
  · rfl
  · rfl
  · rfl
  · rfl
  · split
    · rfl
    · exact (createFolderPath_keeps _ _ _).bind (fun _ _ same => same)
        fun _ _ same => same

theorem mem_clean {uids : List Nat} {uid : Nat} :
    uid ∈ clean uids ↔ uid ∈ uids := by
  unfold clean
  rw [List.mem_dedup, List.mem_mergeSort]

/-- A move names only rows the push holds. -/
theorem moveUidsTo_keeps {srcFolderId : Nat} {uids : List Nat}
    (held : desk.Holds srcFolderId uids) (destPath : String) :
    Keeps (pushMonitor chrono)
      (moveUidsTo chrono srcFolderId uids destPath) desk
      fun _ after => after.due = desk.due := by
  have cleanHeld : desk.Holds srcFolderId (clean uids) := fun uid member =>
    held uid (mem_clean.mp member)
  unfold moveUidsTo
  split
  · rfl
  unfold perform
  rw [keeps_perform_bind]
  refine ⟨trivial, fun src => ?_, fun _ => rfl⟩
  split
  · rfl
  unfold moveFrom perform
  rw [keeps_perform_bind]
  refine ⟨trivial, fun known => ?_, fun _ => rfl⟩
  refine (select_keeps _ _).bind ?_ fun _ _ kept => kept.1
  rintro reply after ⟨sameDue, selected⟩
  have heldAfter : after.Holds srcFolderId (clean uids) := by
    unfold PushDesk.Holds
    rw [sameDue]
    exact cleanHeld
  have heldSelected : after.HoldsSelected (clean uids) := by
    refine ⟨srcFolderId, src.place, ?_, heldAfter⟩
    rw [selected reply rfl]
    exact Option.filter_some_pos (by simp)
  have moves : Keeps (pushMonitor chrono) (do
      uidMove chrono (clean uids) destPath
      let count ← Fallible.perform
        (Call.deleteManyByUids srcFolderId (clean uids))
      let _ ← Fallible.perform (Call.noteRemovedOnServer srcFolderId count)
      return count) after fun _ reached => reached.due = desk.due := by
    refine (uidMove_keeps heldSelected destPath).bind ?_ ?_
    · intro _ reached same
      subst same
      simp only [keeps_perform_bind]
      exact ⟨heldAfter, fun _ => ⟨trivial, fun _ => sameDue,
        fun _ => sameDue⟩, fun _ => sameDue⟩
    · intro _ reached same
      exact same ▸ sameDue
  split
  · rw [keeps_ignore_bind]
    refine (uidStoreFlags_keeps heldSelected _ _).mono ?_
    intro _ reached same
    subst same
    exact moves
  · exact moves

/-- What a group leaves on the desk: the rows of other messages. -/
def Left (desk : PushDesk) (items : List PendingItem) (after : PushDesk) :
    Prop :=
  ∀ row ∈ desk.due, row.messageId ∉ items.map PendingItem.messageId →
    row ∈ after.due

theorem left_settle {items : List PendingItem} {ids : List Nat}
    {reached : PushDesk} (left : Left desk items reached)
    (own : ∀ id ∈ ids, id ∈ items.map PendingItem.messageId) :
    Left desk items (reached.settle ids) := by
  intro row member other
  exact List.mem_filter.mpr ⟨left row member other,
    by simpa using fun settled => other (own _ settled)⟩

theorem left_of_due_eq {items : List PendingItem} {reached : PushDesk}
    (same : reached.due = desk.due) : Left desk items reached := by
  intro row member _
  rw [same]
  exact member

theorem givenUp_subset {items : List PendingItem} {id : Nat}
    (member : id ∈ givenUp items) :
    id ∈ items.map PendingItem.messageId := by
  obtain ⟨item, itemMember, rfl⟩ := List.mem_map.mp member
  exact List.mem_map_of_mem (List.mem_of_mem_filter itemMember)

theorem retried_subset {items : List PendingItem} {id : Nat}
    (member : id ∈ retried items) :
    id ∈ items.map PendingItem.messageId := by
  obtain ⟨item, itemMember, rfl⟩ := List.mem_map.mp member
  exact List.mem_map_of_mem (List.mem_of_mem_filter itemMember)

theorem pendingFailed_keeps {reached : PushDesk} {items : List PendingItem}
    (left : Left desk items reached) :
    Keeps (pushMonitor chrono) (pendingFailed chrono items) reached
      fun _ after => Left desk items after := by
  unfold pendingFailed perform
  split
  · simp only [keeps_ignore_bind, keeps_ignore, keeps_perform]
    exact ⟨trivial, fun _ => ⟨trivial, fun _ =>
      left_settle (left_settle left fun _ => givenUp_subset)
        fun _ => retried_subset⟩⟩
  · simp only [keeps_ignore, keeps_perform]
    exact ⟨trivial, fun _ => left_settle left fun _ => retried_subset⟩

theorem pushGroup_keeps {group : MoveGroup} {items : List PendingItem}
    (held : desk.Holds group.folderId (items.map PendingItem.uid))
    (accountId : Nat) :
    Keeps (pushMonitor chrono) (pushGroup chrono accountId group items) desk
      fun _ after => Left desk items after := by
  unfold pushGroup
  rw [keeps_attempt_bind]
  refine (pendingTarget_keeps accountId group).mono ?_
  intro target after same
  subst same
  have failed : ∀ reached : PushDesk, reached.due = after.due →
      Keeps (pushMonitor chrono) (do
        pendingFailed chrono items
        return 0) reached fun _ last => Left after items last := by
    intro reached same
    exact (pendingFailed_keeps (left_of_due_eq same)).bind
      (fun _ _ left => left) fun _ _ left => left
  cases target with
  | error error => exact failed after rfl
  | ok path =>
      cases path with
      | none =>
          unfold perform
          simp only [keeps_ignore_bind, keeps_perform]
          exact ⟨trivial, fun _ =>
            left_settle (left_of_due_eq rfl) fun _ member => member⟩
      | some path =>
          dsimp only
          rw [keeps_attempt_bind]
          refine (moveUidsTo_keeps held path).mono ?_
          intro moved reached sameDue
          cases moved with
          | ok moved => exact left_of_due_eq sameDue
          | error error => exact failed reached sameDue

theorem pushGroups_keeps (accountId : Nat)
    {groups : List (MoveGroup × List PendingItem)}
    (grouped : Grouped desk.due groups)
    (distinct : ((itemsOf groups).map PendingItem.messageId).Nodup) :
    Keeps (pushMonitor chrono) (pushGroups chrono accountId groups) desk
      fun _ _ => True := by
  induction groups generalizing desk with
  | nil => trivial
  | cons head rest inductionHypothesis =>
      obtain ⟨group, items⟩ := head
      have held : desk.Holds group.folderId (items.map PendingItem.uid) := by
        intro uid member
        obtain ⟨item, itemMember, rfl⟩ := List.mem_map.mp member
        obtain ⟨row, rowMember, sameGroup, sameItem⟩ :=
          grouped (group, items) List.mem_cons_self item itemMember
        exact ⟨row, rowMember, congrArg MoveGroup.folderId sameGroup,
          congrArg PendingItem.uid sameItem⟩
      change ((items ++ itemsOf rest).map PendingItem.messageId).Nodup
        at distinct
      rw [List.map_append, List.nodup_append] at distinct
      obtain ⟨_, restDistinct, disjoint⟩ := distinct
      unfold pushGroups
      refine (pushGroup_keeps held accountId).bind ?_ fun _ _ _ => trivial
      intro moved after left
      refine (inductionHypothesis ?_ restDistinct).bind
        (fun _ _ _ => trivial) fun _ _ _ => trivial
      intro other otherMember item itemMember
      obtain ⟨row, rowMember, sameGroup, sameItem⟩ :=
        grouped other (List.mem_cons_of_mem _ otherMember) item itemMember
      refine ⟨row, left row rowMember ?_, sameGroup, sameItem⟩
      intro own
      have later : row.messageId ∈
          (itemsOf rest).map PendingItem.messageId := by
        refine List.mem_map.mpr ⟨item, ?_, ?_⟩
        · exact List.mem_flatMap.mpr ⟨other, otherMember, itemMember⟩
        · exact (congrArg PendingItem.messageId sameItem).symm
      exact disjoint _ own _ later rfl

theorem pushDueMoves_keeps (accountId : Nat) :
    Keeps (pushMonitor chrono) (pushDueMoves chrono accountId) desk
      fun _ _ => True := by
  unfold pushDueMoves perform
  rw [keeps_attempt_bind, keeps_perform]
  refine ⟨trivial, fun reply => ?_⟩
  cases reply with
  | error error => trivial
  | ok due =>
      apply pushGroups_keeps
      · exact grouped_groupDue due.rows
      · have ids := (itemsOf_groupDue due.rows).map PendingItem.messageId
        refine ids.nodup_iff.mpr ?_
        rw [List.map_map]
        exact due.distinct

end Push

/-! ## Queueing and undo -/

section Acting

variable {chrono : Chrono} {desk : PushDesk} {β : Type}

theorem orText_bind_keeps (call : Call)
    (allowed : desk.Allows call)
    (text : StoreError → String)
    {continuation : call.Value chrono → ImapProgram chrono β}
    (continues : ∀ value, Keeps (pushMonitor chrono) (continuation value)
      (desk.next chrono call (.ok value)) fun _ _ => True) :
    Keeps (pushMonitor chrono)
      (orText chrono (perform chrono call) text >>= continuation) desk
      fun _ _ => True := by
  have wrapped : Keeps (pushMonitor chrono)
      (orText chrono (perform chrono call) text) desk fun result after =>
        ∀ value, result = .ok value →
          after = desk.next chrono call (.ok value) := by
    unfold orText perform
    rw [keeps_attempt_bind, keeps_perform]
    refine ⟨allowed, fun reply => ?_⟩
    cases reply with
    | ok value =>
        rintro _ ⟨⟩
        rfl
    | error error => rintro _ ⟨⟩
  refine wrapped.bind ?_ fun _ _ _ => trivial
  intro value after same
  rw [same value rfl]
  exact continues value

theorem queueInto_keeps (accountId folderId : Nat) (uids : List Nat)
    (target : MoveTarget) (batch : String) (graceSecs : Int) :
    Keeps (pushMonitor chrono)
      (queueInto chrono accountId folderId uids target batch graceSecs) desk
      fun _ _ => True := by
  unfold queueInto
  split
  · trivial
  refine orText_bind_keeps (.folderGet folderId) trivial _ fun src => ?_
  split
  · trivial
  refine orText_bind_keeps (.listByAccount accountId) trivial _ fun known => ?_
  split
  · trivial
  · trivial
  · refine orText_bind_keeps (.idsByUids folderId uids) trivial _ fun ids => ?_
    split
    · trivial
    unfold perform
    rw [keeps_perform_bind]
    refine ⟨trivial, fun clock => ?_, fun _ => trivial⟩
    exact orText_bind_keeps (.queue _ _ _ _ _) trivial _ fun _ => trivial

theorem undo_keeps (batch : String) :
    Keeps (pushMonitor chrono) (undo chrono batch) desk fun _ _ => True := by
  unfold undo orText perform
  rw [keeps_attempt_bind, keeps_perform]
  refine ⟨trivial, fun reply => ?_⟩
  cases reply <;> trivial

end Acting

/-- What a process that works on pending moves does. -/
inductive MoveJob
  | queueMove (accountId folderId : Nat) (uids : List Nat)
      (target : MoveTarget) (batch : String) (graceSecs : Int)
  | pushDueMoves (accountId : Nat)
  | undo (batch : String)
  deriving DecidableEq, Repr

/-- The program of a job. -/
def MoveJob.program (chrono : Chrono) :
    MoveJob → Program (signature chrono) Unit
  | .queueMove accountId folderId uids target batch graceSecs =>
      runOnly (queueInto chrono accountId folderId uids target batch
        graceSecs)
  | .pushDueMoves accountId => runOnly (Imap.pushDueMoves chrono accountId)
  | .undo batch => runOnly (Imap.undo chrono batch)

/-- Every job, whatever it is answered, makes only the calls its desk
allows. -/
theorem MoveJob.obeys (chrono : Chrono) (job : MoveJob) :
    (job.program chrono).Obeys (pushMonitor chrono) PushDesk.fresh
      fun _ _ => True := by
  cases job with
  | queueMove accountId folderId uids target batch graceSecs =>
      exact obeys_runOnly (queueInto_keeps _ _ _ _ _ _)
  | pushDueMoves accountId => exact obeys_runOnly (pushDueMoves_keeps _)
  | undo batch => exact obeys_runOnly (undo_keeps _)

end Imap
end Mailcore
