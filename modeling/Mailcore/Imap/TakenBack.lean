import Mailcore.Imap.Honest
import Mailcore.Imap.Pending
import Mathlib.Data.Fintype.Basic
import Mathlib.Data.List.Permutation

/-!
# An undo is honoured

What every turn of `queue_move`, `push_due_moves` and `undo` keeps: no message
that an undo reported as taken back is moved or deleted afterwards.  It holds
of every run in which no undo comes while a push still works from a due row of
the batch, and none comes for a message the server no longer has.
-/

namespace Mailcore
namespace Imap

open Store Relational Concurrent

section Frames

variable {chrono : Chrono} {ι : Type} [DecidableEq ι]
  {world : World chrono ι} {desks : ι → PushDesk} {who : ι}

/-! ## Commands -/

omit [DecidableEq ι] in
/-- A command that names held UIDs and keeps every other undeleted message of
the selected mailbox. -/
theorem Honest.frame_named
    (honest : Honest world desks)
    {uids : List Nat} (held : (desks who).HoldsSelected uids)
    {selected : Selected} {mailbox : Mailbox}
    (now : current chrono who world = some (selected, mailbox))
    {left : Mailbox}
    (keeps : ∀ mail ∈ mailbox.mails, mail.uid ∉ uids →
      Mailbox.isDeleted mail = false → mail ∈ left.mails) :
    Frame world ((use chrono world selected uids).withMailbox selected.place
      left) := by
  obtain ⟨chosen, there, _⟩ := of_current now
  apply Frame.server
  · rfl
  · rfl
  · rfl
  · intro batch reported taken member
    rcases List.mem_cons.mp member with same | earlier
    · cases same
    · exact earlier
  intro taken stands alone
  have before : (use chrono world selected uids).onServer taken.place
      taken.uid := alone.2.2
  refine onServer_update before ?_
  intro old thereOld here mail member sameUid undeleted
  cases there.symm.trans thereOld
  refine ⟨mail, keeps mail member ?_ undeleted, sameUid, undeleted⟩
  rw [sameUid]
  exact honest.not_named held chosen stands here

theorem Honest.frame_store
    (honest : Honest world desks)
    {uids : List Nat} (held : (desks who).HoldsSelected uids)
    (op : StoreType) (flag : Flag) (answer : Answer) :
    Frame world (carryOut chrono who (.store uids op flag) answer world).2 := by
  refine inMailbox_outcome (Frame.refl world) ?_
    fun reached frame => frame.broken who
  rintro selected mailbox _ next now ⟨⟩
  apply honest.frame_named held now
  intro mail member other _
  refine List.mem_map.mpr ⟨mail, member, ?_⟩
  unfold Mailbox.storedMail Mailbox.changes
  simp [other]

theorem Honest.frame_expungeUids
    (honest : Honest world desks)
    {uids : List Nat} (held : (desks who).HoldsSelected uids)
    (answer : Answer) :
    Frame world (carryOut chrono who (.expungeUids uids) answer world).2 := by
  refine inMailbox_outcome (Frame.refl world) ?_
    fun reached frame => frame.broken who
  rintro selected mailbox _ next now ⟨⟩
  apply honest.frame_named held now
  intro mail member _ undeleted
  exact List.mem_filter.mpr ⟨member, by simp [undeleted]⟩

omit [DecidableEq ι] in
/-- The destination of a COPY keeps what it has. -/
theorem onServer_deliverAll
    {place : Place} {target : Mailbox}
    (there : world.server place = some target) (mails : List Mail)
    {taken : Taken} (before : world.onServer taken.place taken.uid) :
    (world.withMailbox place (target.deliverAll mails)).onServer taken.place
      taken.uid := by
  apply onServer_update before
  intro old thereOld _ mail member sameUid undeleted
  cases there.symm.trans thereOld
  exact ⟨mail, Mailbox.mem_deliverAll mails member, sameUid, undeleted⟩

theorem frame_copy (uids : List Nat) (dest : String) (answer : Answer) :
    Frame world (carryOut chrono who (.copy uids dest) answer world).2 := by
  refine inMailbox_outcome (Frame.refl world) ?_
    fun reached frame => frame.broken who
  intro selected mailbox _ next now acted
  cases found : destination chrono world selected dest with
  | error error =>
      rw [found] at acted
      cases acted
  | ok target =>
      rw [found] at acted
      cases acted
      apply Frame.server
      · rfl
      · rfl
      · rfl
      · intro batch reported taken member
        rcases List.mem_cons.mp member with same | earlier
        · cases same
        · exact earlier
      · intro taken _ alone
        have before : (use chrono world selected uids).onServer taken.place
            taken.uid := alone.2.2
        exact onServer_deliverAll (of_destination found) _ before

theorem Honest.frame_move
    (honest : Honest world desks)
    {uids : List Nat} (held : (desks who).HoldsSelected uids)
    (dest : String) (answer : Answer) :
    Frame world (carryOut chrono who (.move uids dest) answer world).2 := by
  refine inMailbox_outcome (Frame.refl world) ?_
    fun reached frame => frame.broken who
  intro selected mailbox _ next now acted
  cases found : destination chrono world selected dest with
  | error error =>
      rw [found] at acted
      cases acted
  | ok target =>
      rw [found] at acted
      cases acted
      obtain ⟨chosen, there, _⟩ := of_current now
      apply Frame.server
      · rfl
      · rfl
      · rfl
      · intro batch reported taken member
        rcases List.mem_cons.mp member with same | earlier
        · cases same
        · exact earlier
      intro taken stands alone
      by_cases here : taken.place = selected.place
      · -- the source keeps the messages that were not named
        obtain ⟨old, thereOld, mail, member, sameUid, undeleted⟩ :=
          onServer_iff.mp alone.2.2
        rw [here, there] at thereOld
        cases thereOld
        have unnamed := honest.not_named held chosen stands here
        refine onServer_iff.mpr ⟨mailbox.moveOut uids, ?_, mail, ?_, sameUid,
          undeleted⟩
        · rw [here]
          exact Function.update_self ..
        · exact List.mem_filter.mpr ⟨member, by simp [sameUid, unnamed]⟩
      · -- elsewhere messages only arrive
        have before : (use chrono world selected uids).onServer taken.place
            taken.uid := alone.2.2
        have arrived := onServer_deliverAll (of_destination found)
          (mailbox.named uids) before
        obtain ⟨box, thereBox, kept⟩ := onServer_iff.mp arrived
        exact onServer_iff.mpr
          ⟨box, (Function.update_of_ne here _ _).trans thereBox, kept⟩

theorem frame_expunge (answer : Answer) :
    Frame world (carryOut chrono who .expunge answer world).2 := by
  refine inMailbox_outcome (Frame.refl world) ?_
    fun reached frame => frame.broken who
  rintro selected mailbox _ next now ⟨⟩
  apply Frame.server
  · rfl
  · rfl
  · rfl
  · exact fun _ _ _ => id
  intro taken _ alone
  apply onServer_update alone.2.2
  intro old thereOld _ mail member sameUid undeleted
  cases (of_current now).2.1.symm.trans thereOld
  exact ⟨mail, List.mem_filter.mpr ⟨member, by simp [undeleted]⟩, sameUid,
    undeleted⟩

theorem frame_create (place : Place) (answer : Answer) :
    Frame world (carryOut chrono who (.create place) answer world).2 := by
  refine command_outcome (Frame.refl world) ?_
    fun reached frame => frame.broken who
  intro _ next acted
  split at acted
  · cases acted
  rename_i absent
  cases acted
  apply Frame.server
  · rfl
  · rfl
  · rfl
  · exact fun _ _ _ => id
  intro taken _ alone
  apply onServer_update alone.2.2
  intro old thereOld
  rw [absent] at thereOld
  cases thereOld

/-- A command that only reads. -/
theorem frame_read {α : Type} {wire : Wire}
    {act : Selected → Mailbox → Except StoreError (α × World chrono ι)}
    (reads : ∀ selected mailbox value next,
      act selected mailbox = .ok (value, next) → next = world) :
    Frame world (inMailbox chrono who world wire act).2 := by
  refine inMailbox_outcome (Frame.refl world) ?_
    fun reached frame => frame.broken who
  intro selected mailbox value next _ acted
  rw [reads selected mailbox value next acted]
  exact Frame.refl world

theorem frame_discover (accountId : Nat) (answer : Answer) :
    Frame world
      (carryOut chrono who (.discover accountId) answer world).2 := by
  refine command_outcome (Frame.refl world) ?_
    fun reached frame => frame.broken who
  rintro _ next ⟨⟩
  exact Frame.refl world

theorem frame_useExtensions (condstore qresync : Bool) (answer : Answer) :
    Frame world
      (carryOut chrono who (.useExtensions condstore qresync) answer
        world).2 where
  folders folder member := ⟨folder, member, rfl, rfl⟩
  sessions other := by
    change (Function.update world.session who _ other).selected = _
    by_cases same : other = who
    · subst same
      rw [Function.update_self]
    · rw [Function.update_of_ne same]
  messages _ := id
  stands _ member := ⟨member, id⟩
  history _ _ _ := id

/-! ## Statements -/

omit [DecidableEq ι] in
/-- The statements on folders hide nothing. -/
theorem frame_sameMail {db : Db} (same : SameMail world.db db) :
    Frame world (world.withDb db) := by
  apply Frame.withDb same.places same.messages
  rintro id ⟨row, member, own⟩
  exact ⟨row, same.pendingMoves ▸ member, own⟩

omit [DecidableEq ι] in
theorem isPending_recordFailure {ids : List Nat} {db : Db} {id : Nat}
    (pending : (PendingMoves.recordFailure ids db).isPending id) :
    db.isPending id := by
  unfold PendingMoves.recordFailure at pending
  induction ids generalizing db with
  | nil => exact pending
  | cons first rest inductionHypothesis =>
      rw [List.foldl_cons] at pending
      obtain ⟨row, member, own⟩ := inductionHypothesis pending
      obtain ⟨old, oldMember, rfl⟩ := List.mem_map.mp member
      refine ⟨old, oldMember, ?_⟩
      rw [← own]
      split <;> rfl

theorem recordFailure_keeps (ids : List Nat) (db : Db) :
    (PendingMoves.recordFailure ids db).messages = db.messages ∧
      (PendingMoves.recordFailure ids db).folders = db.folders := by
  unfold PendingMoves.recordFailure
  induction ids generalizing db with
  | nil => exact ⟨rfl, rfl⟩
  | cons first rest inductionHypothesis => exact inductionHypothesis _

/-- Queueing hides only the messages it names. -/
theorem queue_keeps {ids : List Nat} {action : PendingAction}
    {destFolderId : Option Nat} {batch dueAt : String} {before after : Db}
    (queued : PendingMoves.queue ids action destFolderId batch dueAt before =
      .ok after) :
    after.messages = before.messages ∧ after.folders = before.folders ∧
      ∀ id, after.isPending id → before.isPending id ∨ id ∈ ids := by
  unfold PendingMoves.queue at queued
  induction ids generalizing before with
  | nil =>
      cases queued
      exact ⟨rfl, rfl, fun _ => .inl⟩
  | cons first rest inductionHypothesis =>
      rw [List.foldlM_cons] at queued
      cases put : PendingMoves.queueOne action destFolderId batch dueAt first
          before with
      | error error =>
          rw [put] at queued
          cases queued
      | ok middle =>
          rw [put] at queued
          obtain ⟨messages, folders, hidden⟩ := inductionHypothesis queued
          unfold PendingMoves.queueOne at put
          split at put
          · split at put
            · cases put
              refine ⟨messages, folders, ?_⟩
              intro id pending
              rcases hidden id pending with ⟨row, member, own⟩ | named
              · rcases List.mem_append.mp member with old | added
                · exact .inl ⟨row, List.mem_of_mem_filter old, own⟩
                · rw [List.mem_singleton] at added
                  rw [added] at own
                  exact .inr (own ▸ List.mem_cons_self)
              · exact .inr (List.mem_cons_of_mem _ named)
            · cases put
          · cases put

omit [DecidableEq ι] in
/-- A message that is queued again no longer stands taken back. -/
theorem frame_queue {ids : List Nat} {action : PendingAction}
    {destFolderId : Option Nat} {batch dueAt : String} {after : Db}
    (queued : PendingMoves.queue ids action destFolderId batch dueAt
      world.db = .ok after) :
    Frame world ((world.record (.queued ids)).withDb after) := by
  obtain ⟨messages, folders, hidden⟩ := queue_keeps queued
  refine ⟨?_, fun _ => rfl, ?_, ?_, ?_⟩
  · intro folder member
    exact ⟨folder, folders ▸ member, rfl, rfl⟩
  · intro row member
    exact messages ▸ member
  · intro taken member
    obtain ⟨stands, fresh⟩ := List.mem_filter.mp member
    refine ⟨stands, ?_⟩
    rintro ⟨⟨row, rowMember, sameId, sameUid, folder, folderMember, place⟩,
      listed, onServer⟩
    refine ⟨⟨row, messages ▸ rowMember, sameId, sameUid, folder,
      folders ▸ folderMember, place⟩, ?_, onServer⟩
    intro pending
    rcases hidden _ pending with before | named
    · exact listed before
    · exact of_decide_eq_true fresh named
  · intro batch reported taken member
    rcases List.mem_cons.mp member with same | earlier
    · cases same
    · exact earlier

/-- A push forgets only messages it holds. -/
theorem Honest.frame_deleteManyByUids
    (honest : Honest world desks) {folderId : Nat} {uids : List Nat}
    (held : (desks who).Holds folderId uids) (answer : Answer) :
    Frame world (carryOut chrono who (.deleteManyByUids folderId uids) answer
      world).2 where
  folders folder member := ⟨folder, member, rfl, rfl⟩
  sessions _ := rfl
  messages row member := List.mem_of_mem_filter member
  stands taken member := by
    refine ⟨member, ?_⟩
    rintro ⟨⟨row, rowMember, sameId, sameUid, place⟩, listed, onServer⟩
    refine ⟨⟨row, List.mem_filter.mpr ⟨rowMember, ?_⟩, sameId, sameUid,
      place⟩, ?_, onServer⟩
    · rw [Bool.not_eq_true', ← Bool.not_eq_true]
      intro named
      unfold Messages.among at named
      rw [Bool.and_eq_true, decide_eq_true_eq, decide_eq_true_eq] at named
      obtain ⟨due, dueMember, dueFolder, dueUid⟩ := held row.uid named.2
      have own := honest.held who due dueMember row rowMember
        (named.1.trans dueFolder.symm) dueUid.symm
      exact (honest.free taken member).2 who due dueMember
        (own.symm.trans sameId)
    · rintro ⟨pending, pendingMember, own⟩
      exact listed ⟨pending, List.mem_of_mem_filter pendingMember, own⟩
  history batch reported taken member := by
    rcases List.mem_cons.mp member with same | earlier
    · cases same
    · exact earlier

end Frames

/-! ## Turns -/

section Turns

variable {chrono : Chrono} {ι : Type} [DecidableEq ι]
  {world : World chrono ι} {desks : ι → PushDesk} {who : ι}

/-- A turn that takes nothing on. -/
theorem Honest.frame_turn (honest : Honest world desks)
    {after : World chrono ι} (frame : Frame world after) {next : PushDesk}
    (recedes : Recedes (desks who) next) :
    Honest after (Function.update desks who next) := by
  apply honest.frame frame
  intro other
  by_cases same : other = who
  · subst same
    rw [Function.update_self]
    exact recedes
  · rw [Function.update_of_ne same]
    exact Recedes.refl _

/-- A failing statement tells a process nothing. -/
theorem recedes_error {call : Call} (statement : call.isStatement)
    (desk : PushDesk) (error : StoreError) :
    Recedes desk (desk.next chrono call (.error error)) := by
  cases call
  all_goals first
    | exact Recedes.refl _
    | exact recedes_settle _ _
    | cases statement

/-- A turn that only changes what its process knows. -/
theorem Honest.turn_desk (honest : Honest world desks) {next : PushDesk}
    (known : ∀ id place, next.folder = some (id, place) ∨
      next.selected = some (id, place) →
        ∃ folder ∈ world.db.folders.rows, folder.id = id ∧
          folder.place = place)
    (session : ∀ id place, next.selected = some (id, place) →
      ∀ selected, (world.session who).selected = some selected →
        selected.place = place)
    (held : ∀ due ∈ next.due, ∀ row ∈ world.db.messages.rows,
      row.folderId = due.folderId → row.uid = due.uid →
        row.id = due.messageId)
    (unheld : ∀ taken ∈ standing world.history, ∀ due ∈ next.due,
      due.messageId ≠ taken.messageId) :
    Honest world (Function.update desks who next) := by
  have each : ∀ other, other = who ∧ Function.update desks who next other =
      next ∨ Function.update desks who next other = desks other := by
    intro other
    by_cases same : other = who
    · exact .inl ⟨same, same ▸ Function.update_self ..⟩
    · exact .inr (Function.update_of_ne same _ _)
  constructor
  · intro other
    rcases each other with ⟨_, now⟩ | now
    · rw [now]
      exact known
    · rw [now]
      exact honest.known other
  · intro other
    rcases each other with ⟨rfl, now⟩ | now
    · rw [now]
      exact session
    · rw [now]
      exact honest.session other
  · intro other
    rcases each other with ⟨_, now⟩ | now
    · rw [now]
      exact held
    · rw [now]
      exact honest.held other
  · intro taken stands
    obtain ⟨alone, apart⟩ := honest.free taken stands
    refine ⟨alone, fun other => ?_⟩
    rcases each other with ⟨_, now⟩ | now
    · rw [now]
      exact unheld taken stands
    · rw [now]
      exact apart other
  · exact honest.counted

/-- A process reads a folder before it selects it. -/
theorem Honest.turn_folderGet (honest : Honest world desks) (id : Nat) :
    Honest world (Function.update desks who
      ((desks who).next chrono (.folderGet id)
        (Folders.get id world.db))) := by
  unfold Folders.get
  cases found : world.db.folders.find? id with
  | none => exact honest.frame_turn (Frame.refl world) (Recedes.refl _)
  | some folder =>
      apply honest.turn_desk
      · rintro readId place (read | chosen)
        · cases read
          obtain ⟨member, own⟩ := Table.mem_of_find? found
          exact ⟨folder, member, own, rfl⟩
        · exact honest.known who readId place (Or.inr chosen)
      · exact honest.session who
      · exact honest.held who
      · exact fun taken stands => (honest.free taken stands).2 who

/-- The due rows are those of messages that wait, and none of these stands
taken back. -/
theorem Honest.turn_listDue (honest : Honest world desks)
    (accountId : Nat) (now : String) :
    Honest world (Function.update desks who
      ((desks who).next chrono (.listDue accountId)
        (.ok ⟨_, listDue_distinct accountId now world.db⟩))) := by
  apply honest.turn_desk
  · exact honest.known who
  · exact honest.session who
  · intro due dueMember row rowMember sameFolder sameUid
    obtain ⟨pending, _, joined⟩ := mem_listDue.mp dueMember
    obtain ⟨message, member, own, _, rfl⟩ := joined_iff.mp joined
    rw [world.db.oneUid row rowMember message member sameFolder sameUid]
    exact own
  · intro taken stands due dueMember same
    obtain ⟨pending, pendingMember, joined⟩ := mem_listDue.mp dueMember
    obtain ⟨_, _, _, _, rfl⟩ := joined_iff.mp joined
    exact (honest.free taken stands).1.2.1 ⟨pending, pendingMember, same⟩

/-- A process that relies on no selection may change its session. -/
theorem Honest.turn_session (honest : Honest world desks)
    (unselected : (desks who).selected = none)
    {after : World chrono ι} (db : after.db = world.db)
    (server : after.server = world.server)
    (history : after.history = world.history)
    (others : ∀ other, other ≠ who →
      after.session other = world.session other) :
    Honest after desks := by
  constructor
  · intro other id place on
    rw [db]
    exact honest.known other id place on
  · intro other id place on selected selectedNow
    by_cases same : other = who
    · subst same
      rw [unselected] at on
      cases on
    · rw [others other same] at selectedNow
      exact honest.session other id place on selected selectedNow
  · rw [db]
    exact honest.held
  · intro taken stands
    rw [history] at stands
    obtain ⟨⟨row, listed, onServer⟩, unheld⟩ := honest.free taken stands
    refine ⟨⟨?_, ?_, ?_⟩, unheld⟩
    · rwa [db]
    · rwa [db]
    · unfold World.onServer
      rwa [server]
  · rw [history]
    exact honest.counted

/-- What a SELECT leaves. -/
structure Reselected (who : ι) (place : Place) (world after : World chrono ι)
    (result : Except StoreError SelectResult) : Prop where
  db : after.db = world.db
  server : after.server = world.server
  history : after.history = world.history
  others : ∀ other, other ≠ who → after.session other = world.session other
  selected : ∀ reply, result = .ok reply →
    ∀ selected, (after.session who).selected = some selected →
      selected.place = place

theorem select_reselects (place : Place) (mode : SelectMode)
    (answer : Answer) :
    Reselected who place world
      (carryOut chrono who (.select place mode) answer world).2
      (carryOut chrono who (.select place mode) answer world).1 := by
  have unchanged : ∀ error : StoreError,
      Reselected who place world world (.error error) :=
    fun error => ⟨rfl, rfl, rfl, fun _ _ => rfl, by rintro _ ⟨⟩⟩
  simp only [carryOut, command]
  split
  · exact unchanged _
  cases answer.wire with
  | refused text => exact unchanged _
  | answered =>
      cases world.server place with
      | none => exact unchanged _
      | some mailbox =>
          refine ⟨rfl, rfl, rfl, ?_, ?_⟩
          · exact fun other different => Function.update_of_ne different _ _
          · intro reply _ selected now
            change (Function.update world.session who _ who).selected = _
              at now
            rw [Function.update_self] at now
            cases now
            rfl
  | lost text acted =>
      cases world.server place with
      | none =>
          exact ⟨rfl, rfl, rfl,
            fun other different => Function.update_of_ne different _ _, by rintro _ ⟨⟩⟩
      | some mailbox =>
          cases acted
          · exact ⟨rfl, rfl, rfl,
              fun other different => Function.update_of_ne different _ _,
              by rintro _ ⟨⟩⟩
          · refine ⟨rfl, rfl, rfl, ?_, by rintro _ ⟨⟩⟩
            intro other different
            change Function.update (Function.update _ who _) who _ other = _
            rw [Function.update_of_ne different, Function.update_of_ne different]

/-- A process relies on a selection only once SELECT has answered. -/
theorem Honest.turn_select (honest : Honest world desks)
    {place : Place} {mode : SelectMode} {after : World chrono ι}
    {result : Except StoreError SelectResult}
    (reselected : Reselected who place world after result) :
    Honest after (Function.update desks who
      ((desks who).next chrono (.select place mode) result)) := by
  have forgotten : Honest world (Function.update desks who
      { desks who with selected := none }) := by
    apply honest.turn_desk
    · rintro id at_ (read | chosen)
      · exact honest.known who id at_ (Or.inl read)
      · cases chosen
    · exact nofun
    · exact honest.held who
    · exact fun taken stands => (honest.free taken stands).2 who
  have own : Function.update desks who { desks who with selected := none }
      who = { desks who with selected := none } := Function.update_self ..
  have moved := forgotten.turn_session (by rw [own]) reselected.db
    reselected.server reselected.history reselected.others
  -- the selection is known once the session has it
  have chosen : ∀ id at_, ((desks who).next chrono (.select place mode)
      result).selected = some (id, at_) →
      (desks who).folder = some (id, at_) ∧ at_ = place ∧
        ∃ reply, result = .ok reply := by
    intro id at_ now
    cases result with
    | error error => cases now
    | ok reply =>
        obtain ⟨read, same⟩ := Option.filter_eq_some_iff.mp now
        exact ⟨read, of_decide_eq_true same, reply, rfl⟩
  have folder : ((desks who).next chrono (.select place mode) result).folder =
      (desks who).folder := by
    cases result <;> rfl
  have due : ((desks who).next chrono (.select place mode) result).due =
      (desks who).due := by
    cases result <;> rfl
  rw [← Function.update_idem { desks who with selected := none }]
  apply moved.turn_desk
  · intro id at_ on
    rw [reselected.db]
    rw [folder] at on
    exact honest.known who id at_
      (Or.inl (on.elim (fun read => read) fun now => (chosen id at_ now).1))
  · intro id at_ now selected selectedNow
    obtain ⟨_, rfl, reply, replied⟩ := chosen id at_ now
    exact reselected.selected reply replied selected selectedNow
  · rw [reselected.db, due]
    exact honest.held who
  · rw [reselected.history, due]
    exact fun taken stands => (honest.free taken stands).2 who

/-! ## The undo itself -/

omit [DecidableEq ι] in
/-- A pending row has a message in a folder. -/
theorem takenBy_row (world : World chrono ι) {row : PendingRow}
    (member : row ∈ world.db.pendingMoves) :
    ∃ message ∈ world.db.messages.rows, message.id = row.messageId ∧
      ∃ folder ∈ world.db.folders.rows, folder.id = message.folderId ∧
        (do
          let message ← world.db.messages.find? row.messageId
          let folder ← world.db.folders.find? message.folderId
          some ⟨message.id, folder.place, message.uid⟩ : Option Taken) =
            some ⟨row.messageId, folder.place, message.uid⟩ := by
  obtain ⟨message, messageMember, own⟩ := world.db.pendingOwned row member
  obtain ⟨folder, folderMember, owns⟩ :=
    world.db.messageOwned message messageMember
  have found := Table.find?_of_mem messageMember
  have foundFolder := Table.find?_of_mem folderMember
  rw [key_message, own] at found
  rw [key_folder, owns] at foundFolder
  refine ⟨message, messageMember, own, folder, folderMember, owns, ?_⟩
  rw [found]
  change ((world.db.folders.find? message.folderId).bind fun folder =>
    some (⟨message.id, folder.place, message.uid⟩ : Taken)) = _
  rw [foundFolder, own]
  rfl

omit [DecidableEq ι] in
/-- An undo takes back the messages of its rows. -/
theorem messageIds_takenBy (world : World chrono ι) (batch : String) :
    (world.takenBy batch).map Taken.messageId =
      (world.db.pendingMoves.filter (PendingMoves.ofBatch batch)).map
        PendingRow.messageId := by
  unfold World.takenBy
  rw [List.map_filterMap, ← List.filterMap_eq_map, ← List.filterMap_eq_filter,
    List.filterMap_filterMap]
  apply List.filterMap_congr
  intro row member
  obtain ⟨message, _, _, folder, _, _, taken⟩ := takenBy_row world member
  simp only [taken, PendingMoves.ofBatch, Option.guard, decide_eq_true_eq]
  split <;> rfl

omit [DecidableEq ι] in
theorem of_takenBy {batch : String} {taken : Taken}
    (member : taken ∈ world.takenBy batch) :
    (∃ row ∈ world.db.pendingMoves, row.batch = batch ∧
      row.messageId = taken.messageId) ∧
    ∃ message ∈ world.db.messages.rows, message.id = taken.messageId ∧
      message.uid = taken.uid ∧ ∃ folder ∈ world.db.folders.rows,
        folder.id = message.folderId ∧ folder.place = taken.place := by
  obtain ⟨row, rowMember, found⟩ := List.mem_filterMap.mp member
  split at found
  · next same =>
    obtain ⟨message, messageMember, own, folder, folderMember, owns, read⟩ :=
      takenBy_row world rowMember
    rw [read] at found
    cases found
    exact ⟨⟨row, rowMember, same, rfl⟩, message, messageMember, own, rfl,
      folder, folderMember, owns, rfl⟩
  · cases found

/-- An undo that comes in time: no process works from a due row of the batch,
and the server still has its messages where the cache has them. -/
def InTime (world : World chrono ι) (desks : ι → PushDesk) :
    Call → Answer → Prop
  | .cancelBatch batch, answer =>
      answer.refused = none → ∀ taken ∈ world.takenBy batch,
        Unheld desks taken.messageId ∧
          world.onServer taken.place taken.uid
  | _, _ => True

omit [DecidableEq ι] in
theorem Honest.turn_cancelBatch (honest : Honest world desks)
    {batch : String} (inTime : ∀ taken ∈ world.takenBy batch,
      Unheld desks taken.messageId ∧ world.onServer taken.place taken.uid) :
    Honest ((world.record (.tookBack batch
        (world.db.pendingMoves.countP (PendingMoves.ofBatch batch))
        (world.takenBy batch))).withDb
      (PendingMoves.cancelBatch batch world.db)) desks := by
  have rows : ∀ row ∈ (PendingMoves.cancelBatch batch world.db).pendingMoves,
      row ∈ world.db.pendingMoves ∧ row.batch ≠ batch := by
    intro row member
    obtain ⟨before, other⟩ := List.mem_filter.mp member
    exact ⟨before, by simpa [PendingMoves.ofBatch] using other⟩
  constructor
  · exact honest.known
  · exact honest.session
  · exact honest.held
  · intro taken stands
    rcases List.mem_append.mp stands with new | old
    · obtain ⟨⟨row, rowMember, ofBatch, own⟩, message⟩ := of_takenBy new
      obtain ⟨unheld, onServer⟩ := inTime taken new
      refine ⟨⟨?_, ?_, onServer⟩, unheld⟩
      · obtain ⟨row, member, id, uid, folder⟩ := message
        exact ⟨row, member, id, uid, folder⟩
      · rintro ⟨other, otherMember, same⟩
        obtain ⟨before, different⟩ := rows other otherMember
        rw [row_eq_of_messageId before rowMember (same.trans own.symm)]
          at different
        exact different ofBatch
    · obtain ⟨⟨row, listed, onServer⟩, unheld⟩ := honest.free taken old
      refine ⟨⟨row, ?_, onServer⟩, unheld⟩
      rintro ⟨other, otherMember, same⟩
      exact listed ⟨other, (rows other otherMember).1, same⟩
  · intro other reported taken member
    rcases List.mem_cons.mp member with same | earlier
    · cases same
      have ids := messageIds_takenBy world batch
      constructor
      · have length := congrArg List.length ids
        rw [List.length_map, List.length_map] at length
        rw [length, List.countP_eq_length_filter]
      · rw [ids]
        exact world.db.onePending.sublist (List.filter_sublist.map _)
    · exact honest.counted other reported taken earlier

/-! ## A turn -/

/-- Every turn of a job keeps what stands taken back. -/
theorem Honest.turn (honest : Honest world desks) {call : Call}
    (allowed : (desks who).Allows call) {answer : Answer}
    (inTime : InTime world desks call answer) :
    Honest (respond chrono who call answer world).2
      (Function.update desks who ((desks who).next chrono call
        (respond chrono who call answer world).1)) := by
  have carried : answer.refused = none ∨ call.isStatement = false →
      Honest (carryOut chrono who call answer world).2
        (Function.update desks who ((desks who).next chrono call
          (carryOut chrono who call answer world).1)) := by
    intro reaches
    have recedes := Recedes.refl (desks who)
    cases call with
    | store uids op flag =>
        exact honest.frame_turn (honest.frame_store allowed op flag answer)
          recedes
    | copy uids dest =>
        exact honest.frame_turn (frame_copy uids dest answer) recedes
    | move uids dest =>
        exact honest.frame_turn (honest.frame_move allowed dest answer) recedes
    | expungeUids uids =>
        exact honest.frame_turn (honest.frame_expungeUids allowed answer)
          recedes
    | deleteManyByUids folderId uids =>
        exact honest.frame_turn (honest.frame_deleteManyByUids allowed answer)
          recedes
    | clock => exact honest.frame_turn (Frame.refl world) recedes
    | session => exact honest.frame_turn (Frame.refl world) recedes
    | useExtensions condstore qresync =>
        exact honest.frame_turn (frame_useExtensions condstore qresync answer)
          recedes
    | select place mode =>
        exact honest.turn_select (select_reselects place mode answer)
    | search key =>
        refine honest.frame_turn (frame_read ?_) recedes
        rintro selected mailbox value next ⟨⟩
        rfl
    | expunge => exact honest.frame_turn (frame_expunge answer) recedes
    | create place => exact honest.frame_turn (frame_create place answer) recedes
    | discover accountId =>
        exact honest.frame_turn (frame_discover accountId answer) recedes
    | folderGet id => exact honest.turn_folderGet id
    | folderByPath place => exact honest.frame_turn (Frame.refl world) recedes
    | listByAccount accountId =>
        exact honest.frame_turn (Frame.refl world) recedes
    | upsertFolders accountId found =>
        simp only [carryOut, writes]
        split
        · next stored =>
          exact honest.frame_turn (frame_sameMail (upsertFound_sameMail stored))
            recedes
        · exact honest.frame_turn (Frame.refl world) recedes
    | noteRemovedOnServer id removed =>
        exact honest.frame_turn
          (frame_sameMail (noteRemovedOnServer_sameMail id removed world.db))
          recedes
    | idsByUids folderId uids =>
        exact honest.frame_turn (Frame.refl world) recedes
    | queue ids action destFolderId batch dueAt =>
        simp only [carryOut]
        split
        · next queued => exact honest.frame_turn (frame_queue queued) recedes
        · exact honest.frame_turn (Frame.refl world) recedes
    | cancelBatch batch =>
        have untouched := reaches.elim inTime fun command => by cases command
        exact (honest.turn_cancelBatch untouched).frame_turn (Frame.refl _)
          recedes
    | listDue accountId => exact honest.turn_listDue accountId _
    | recordFailure ids =>
        refine honest.frame_turn ?_ (recedes_settle _ ids)
        obtain ⟨messages, folders⟩ := recordFailure_keeps ids world.db
        apply Frame.withDb _ messages fun _ => isPending_recordFailure
        intro folder member
        exact ⟨folder, folders ▸ member, rfl, rfl⟩
    | removePending ids =>
        refine honest.frame_turn ?_ (recedes_settle _ ids)
        obtain ⟨rows, messages, folders⟩ := pendingMoves_remove ids world.db
        apply Frame.withDb _ messages
        · rintro id ⟨row, member, own⟩
          rw [rows] at member
          exact ⟨row, List.mem_of_mem_filter member, own⟩
        · intro folder member
          exact ⟨folder, folders ▸ member, rfl, rfl⟩
    | _ => exact absurd allowed id
  unfold respond
  split
  · next statement =>
    split
    · exact honest.frame_turn (Frame.refl world)
        (recedes_error statement _ _)
    · next willing => exact carried (.inl willing)
  · next command => exact carried (.inr (by simpa using command))

end Turns

/-! ## Runs -/

/-- Processes that queue, push and undo, over servers nobody else changes. -/
def moveSystem (chrono : Chrono) (ι : Type) [DecidableEq ι] :
    System (signature chrono) ι (World chrono ι) Answer chrono.Clock where
  respond := respond chrono
  disturb := passTime chrono

/-- Every process before its first call. -/
def startJobs {chrono : Chrono} {ι : Type} (jobs : ι → MoveJob)
    (world : World chrono ι) :
    Config (signature chrono) (pushMonitor chrono) ι (World chrono ι) where
  shared := world
  thread who := (jobs who).program chrono
  seen _ := .fresh

/-- Every undo of a run comes in time. -/
def UndoInTime (chrono : Chrono) (ι : Type) :
    Condition (signature chrono) (pushMonitor chrono) ι (World chrono ι)
      Answer :=
  fun world desks _ call answer => InTime world desks call answer

section Decidable

variable {chrono : Chrono} {ι : Type} [Fintype ι]

instance (desks : ι → PushDesk) (messageId : Nat) :
    Decidable (Unheld desks messageId) :=
  inferInstanceAs (Decidable (∀ who, ∀ due ∈ (desks who).due,
    due.messageId ≠ messageId))

instance (world : World chrono ι) (desks : ι → PushDesk) (call : Call)
    (answer : Answer) : Decidable (InTime world desks call answer) := by
  unfold InTime
  split <;> infer_instance

instance [DecidableEq ι] (world : World chrono ι) (desks : ι → PushDesk)
    (who : ι) (call : Call) (answer : Answer) :
    Decidable (UndoInTime chrono ι world desks who call answer) :=
  inferInstanceAs (Decidable (InTime world desks call answer))

end Decidable

/-- An undo reports as many messages as it took back, and each of them that
the user did not queue again is listed and left where it was. -/
structure UndoHonoured {chrono : Chrono} {ι : Type} (world : World chrono ι) :
    Prop where
  counted : ∀ batch reported taken, .tookBack batch reported taken ∈
    world.history → taken.length = reported ∧
      (taken.map Taken.messageId).Nodup
  left : ∀ taken ∈ standing world.history, LeftAlone world taken

theorem frame_passTime {chrono : Chrono} {ι : Type} (later : chrono.Clock)
    (world : World chrono ι) : Frame world (passTime chrono later world) :=
  ⟨fun folder member => ⟨folder, member, rfl, rfl⟩, fun _ => rfl, fun _ => id,
    fun _ member => ⟨member, id⟩, fun _ _ _ => id⟩

/-- Undo is honoured in every run whose undos come in time. -/
theorem undo_honoured_of_inTime {chrono : Chrono} {ι : Type} [DecidableEq ι]
    (jobs : ι → MoveJob) (world : World chrono ι)
    (start : world.history = [])
    (events : List (Event ι Answer chrono.Clock))
    (inTime : Config.RunMeets (moveSystem chrono ι) (UndoInTime chrono ι)
      (startJobs jobs world) events) :
    UndoHonoured
      ((startJobs jobs world).run (moveSystem chrono ι) events).shared := by
  have initial : Honest world fun _ : ι => PushDesk.fresh := by
    constructor
    · rintro _ _ _ (read | chosen)
      · cases read
      · cases chosen
    · exact nofun
    · exact fun _ _ => nofun
    · rw [start]
      exact fun _ => nofun
    · rw [start]
      exact fun _ _ _ => nofun
  have honest := Config.run_invariant Honest
    (fun shared seen who call answer honest allowed inTime =>
      honest.turn allowed inTime)
    (fun shared seen later honest =>
      honest.frame (frame_passTime later shared) fun who => Recedes.refl _)
    (fun who => (jobs who).obeys chrono) initial events inTime
  exact ⟨honest.counted, fun taken stands => (honest.free taken stands).1⟩

/-! ## An undo during a push -/

namespace Sample

local instance threeMoves : NeZero 3 := ⟨by decide⟩

/-- An account with an inbox, a trash and one message. -/
def inboxAndTrash : Db :=
  ((emptyFolder 1).insertFolder ⟨1, "Trash"⟩ "/" .trash
    one_listed trash_free).insertMessage
      ⟨1, 5, blank, false, false, false⟩
      ⟨_, List.mem_cons_self, rfl⟩ rfl

/-- The message is on the server. -/
def withMail : World winter (Fin 3) where
  clock := winterAt 0 start_inWinter
  db := inboxAndTrash
  server place :=
    if place = ⟨1, "INBOX"⟩ then
      some ⟨1, some 6, none, [], [⟨5, [], 1, [65]⟩],
        List.pairwise_singleton _ _, by simp, by simp⟩
    else if place = ⟨1, "Trash"⟩ then some emptyMailbox
    else none
  session _ := ⟨true, true, false, false, none, false⟩
  reported _ _ := 0
  origin _ := 1
  history := []

/-- One process moves the message to the trash, one pushes, one undoes. -/
def moveAndUndo (who : Fin 3) : MoveJob :=
  if who = 0 then .queueMove 1 1 [5] .trash "batch" undoGraceSecs
  else if who = 1 then .pushDueMoves 1
  else .undo "batch"

/-- The system with the folders of the account in this order. -/
def orderedSystem (order : List Folder) : System (signature winter) (Fin 3)
    (World winter (Fin 3)) Answer winter.Clock :=
  { moveSystem winter (Fin 3) with
    respond := fun who call answer world =>
      match call, answer.refused with
      | .listByAccount accountId, none =>
          (.ok (if accountId = 1 ∧
              world.db.folders.rows = inboxAndTrash.folders.rows then order
            else Folders.listByAccount accountId world.db), world)
      | call, _ => respond winter who call answer world }

theorem moveSystem_eq_orderedSystem : moveSystem winter (Fin 3) =
    orderedSystem (Folders.listByAccount 1 inboxAndTrash) := by
  unfold orderedSystem moveSystem
  congr
  funext who call answer world
  cases call with
  | listByAccount accountId =>
      cases refused : answer.refused with
      | some text => simp [respond, refused, Call.isStatement]
      | none =>
          simp only [respond, refused, Call.isStatement, carryOut, reads,
            if_true]
          split
          · next same =>
            unfold Folders.listByAccount Table.select
            rw [same.1, same.2]
          · rfl
  | _ => rfl

/-- The sidebar shows the two folders in one order or the other. -/
theorem moveSystem_ordered :
    ∃ order ∈ [inboxAndTrash.folders.rows, inboxAndTrash.folders.rows.reverse],
      moveSystem winter (Fin 3) = orderedSystem order := by
  refine ⟨_, ?_, moveSystem_eq_orderedSystem⟩
  have perm : (Folders.listByAccount 1 inboxAndTrash).Perm
      inboxAndTrash.folders.rows := by
    unfold Folders.listByAccount
    refine (List.mergeSort_perm _ _).trans ((List.mergeSort_perm _ _).trans ?_)
    rw [show inboxAndTrash.folders.select (fun row => row.accountId = 1) =
      inboxAndTrash.folders.rows from by decide]
  rcases List.perm_pair.mp perm with same | same
  · rw [same]
    exact List.mem_cons_self
  · rw [same]
    exact List.mem_cons_of_mem _ (List.mem_singleton_self _)

/-- Some turns of one process, with nothing in its way. -/
def turnsOf (who : Fin 3) (count : Nat) :
    List (Event (Fin 3) Answer winter.Clock) :=
  List.replicate count (.turn who .plain)

/-- The push lists its rows, the undo comes, and the push goes on. -/
def undoDuringPush : List (Event (Fin 3) Answer winter.Clock) :=
  turnsOf 0 5 ++ .disturb (winterAt 10 soon_inWinter) :: turnsOf 1 1 ++ turnsOf 2 1 ++
    turnsOf 1 11

/-- The undo reports the message, which the push then moves to the trash. -/
theorem undo_during_push_not_honoured :
    ¬UndoHonoured ((startJobs moveAndUndo withMail).run
      (moveSystem winter (Fin 3)) undoDuringPush).shared := by
  obtain ⟨order, member, same⟩ := moveSystem_ordered
  rw [same]
  intro honoured
  have stands : ∀ order ∈ [inboxAndTrash.folders.rows,
      inboxAndTrash.folders.rows.reverse],
      (⟨1, ⟨1, "INBOX"⟩, 5⟩ : Taken) ∈ standing ((startJobs moveAndUndo
        withMail).run (orderedSystem order) undoDuringPush).shared.history ∧
      ((startJobs moveAndUndo withMail).run (orderedSystem order)
        undoDuringPush).shared.db.messages.rows = [] := by
    decide +kernel
  obtain ⟨stands, gone⟩ := stands order member
  obtain ⟨⟨row, rowMember, _⟩, _⟩ := honoured.left _ stands
  rw [gone] at rowMember
  cases rowMember

/-- The undo comes before the push lists its rows. -/
def undoBeforePush : List (Event (Fin 3) Answer winter.Clock) :=
  turnsOf 0 5 ++ .disturb (winterAt 10 soon_inWinter) :: turnsOf 2 1 ++ turnsOf 1 12

theorem undo_before_push_honoured :
    UndoHonoured ((startJobs moveAndUndo withMail).run
      (moveSystem winter (Fin 3)) undoBeforePush).shared := by
  apply undo_honoured_of_inTime
  · rfl
  obtain ⟨order, member, same⟩ := moveSystem_ordered
  rw [same]
  have inTime : ∀ order ∈ [inboxAndTrash.folders.rows,
      inboxAndTrash.folders.rows.reverse],
      Config.RunMeets (orderedSystem order) (UndoInTime winter (Fin 3))
        (startJobs moveAndUndo withMail) undoBeforePush := by
    decide +kernel
  exact inTime order member

end Sample

end Imap
end Mailcore
