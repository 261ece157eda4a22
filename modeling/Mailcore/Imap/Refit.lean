import Mailcore.Data.Classes
import Mailcore.Imap.Batch

/-!
# Replacing attachments

A replacement goes class by class, a class being the rows or files of one
filename, content id, size and inline flag.  The rows of a class, by id, take
over the files of the class in their order; files too many become new rows, rows
too many go.  Bytes are not compared: a row takes those of its file, or keeps its
own where the file comes without.
-/

namespace Mailcore
namespace Imap
namespace Messages

open Data Relational Store

/-- What rows and files are matched by. -/
structure FileKey where
  filename : Option String
  contentId : Option String
  size : Nat
  isInline : Bool
  deriving DecidableEq, Repr

def fileKey (file : NewAttachment) : FileKey :=
  ⟨file.filename, file.contentId, file.size, file.isInline⟩

def rowKey (row : Attachment) : FileKey :=
  ⟨row.filename, row.contentId, row.size, row.isInline⟩

/-- The row an insert makes of a file. -/
def rowOf (messageId : Nat) (file : NewAttachment) (id : Nat) : Attachment :=
  ⟨id, messageId, file.filename, file.mimeType, file.size, file.contentId, none,
    file.data, file.isInline⟩

/-- A row made of a file, under an id that no row had. -/
def Fresh (messageId last : Nat) (file : NewAttachment) (row : Attachment) : Prop :=
  last < row.id ∧ row = rowOf messageId file row.id

theorem Fresh.mono
    {messageId last later : Nat} {file : NewAttachment} {row : Attachment}
    (le : last ≤ later) (fresh : Fresh messageId later file row) :
    Fresh messageId last file row :=
  ⟨Nat.lt_of_le_of_lt le fresh.1, fresh.2⟩

/-- What a replacement leaves: in each class the old rows, refilled in order, and
new rows for the other files. -/
structure Merged (messageId : Nat) (files : List NewAttachment) (before after : Db) :
    Prop where
  classes : ∀ key, ∃ fresh,
    withKey rowKey key (after.attachmentsOf messageId) =
      List.zipWith refill (withKey fileKey key files)
        (withKey rowKey key (before.attachmentsOf messageId)) ++ fresh ∧
    List.Forall₂ (Fresh messageId before.attachments.last)
      ((withKey fileKey key files).drop
        (withKey rowKey key (before.attachmentsOf messageId)).length) fresh
  /-- The rows are those of the files, one for each. -/
  oneToOne : ((after.attachmentsOf messageId).map rowKey).Perm (files.map fileKey)
  others : ∀ other, other ≠ messageId →
    after.attachmentsOf other = before.attachmentsOf other
  rest : after.accounts = before.accounts ∧ after.folders = before.folders ∧
    after.messages = before.messages ∧ after.pendingMoves = before.pendingMoves

theorem sameFile_eq (file : NewAttachment) :
    sameFile file = fun row => decide (rowKey row = fileKey file) := by
  funext row
  unfold sameFile rowKey fileKey
  simp only [FileKey.mk.injEq, Bool.decide_and, Bool.and_assoc]

/-! ## Refilling -/

@[simp] theorem rowKey_refill (file : NewAttachment) (row : Attachment) :
    rowKey (refill file row) = rowKey row := rfl

@[simp] theorem rowKey_rowOf (messageId : Nat) (file : NewAttachment) (id : Nat) :
    rowKey (rowOf messageId file id) = fileKey file := rfl

/-- Refilling a second time changes nothing. -/
theorem refill_refill (file : NewAttachment) (row : Attachment) :
    refill file (refill file row) = refill file row := by
  unfold refill
  cases file.data <;> cases file.mimeType <;> simp

/-- A row made of a file has all the file has. -/
theorem refill_rowOf (messageId : Nat) (file : NewAttachment) (id : Nat) :
    refill file (rowOf messageId file id) = rowOf messageId file id := by
  unfold refill rowOf
  cases file.data <;> cases file.mimeType <;> simp

/-- A class that was merged is merged with the same files. -/
theorem zipWith_refill_merged
    {messageId last : Nat} {files : List NewAttachment} {old fresh : List Attachment}
    (made : List.Forall₂ (Fresh messageId last) (files.drop old.length) fresh) :
    List.zipWith refill files (List.zipWith refill files old ++ fresh) =
      List.zipWith refill files old ++ fresh := by
  induction files generalizing old fresh with
  | nil =>
      rw [List.drop_nil, List.forall₂_nil_left_iff] at made
      rw [made]
      rfl
  | cons file files inductionHypothesis =>
      cases old with
      | nil =>
          rw [List.length_nil, List.drop_zero] at made
          cases made with
          | @cons _ row _ rows head tail =>
              have full : refill file row = row := by rw [head.2, refill_rowOf]
              have rest := @inductionHypothesis [] _ tail
              rw [List.zipWith_nil_right, List.nil_append] at rest ⊢
              rw [List.zipWith_cons_cons, rest, full]
      | cons row old =>
          have rest := @inductionHypothesis old _ (by simpa using made)
          rw [List.zipWith_cons_cons, List.cons_append, List.zipWith_cons_cons,
            refill_refill, rest]

theorem length_merged
    {messageId last : Nat} {files : List NewAttachment} {old fresh : List Attachment}
    (made : List.Forall₂ (Fresh messageId last) (files.drop old.length) fresh) :
    (List.zipWith refill files old ++ fresh).length = files.length := by
  rw [List.length_append, List.length_zipWith, ← made.length_eq, List.length_drop]
  omega

/-! ## The statements on the rows of a message -/

section Rows

variable {messageId : Nat} {db : Db}

/-- The rows of a message are in the order of their ids. -/
theorem attachmentsOf_ascending (messageId : Nat) (db : Db) :
    (db.attachmentsOf messageId).Pairwise fun first second => first.id < second.id :=
  db.attachments.ascending.filter _

theorem eq_of_id
    {first second : Attachment}
    (firstMember : first ∈ db.attachments.rows)
    (secondMember : second ∈ db.attachments.rows)
    (same : first.id = second.id) : first = second := by
  have firstFound := Table.find?_of_mem firstMember
  have secondFound := Table.find?_of_mem secondMember
  change db.attachments.find? first.id = _ at firstFound
  change db.attachments.find? second.id = _ at secondFound
  rw [same, secondFound] at firstFound
  exact (Option.some.inj firstFound).symm

theorem attachmentsOf_insert
    (new : NewAttachment)
    (owned : ∃ message ∈ db.messages.rows, message.id = messageId) (other : Nat) :
    (db.insertAttachment messageId new owned).attachmentsOf other =
      db.attachmentsOf other ++
        if other = messageId then
          [rowOf messageId new (db.attachments.last + 1)]
        else [] := by
  unfold Db.attachmentsOf Db.insertAttachment Table.insert
  rw [List.filter_append]
  congr 1
  by_cases same : other = messageId
  · rw [if_pos same, List.filter_cons_of_pos (by simp [same])]
    rfl
  · rw [if_neg same, List.filter_cons_of_neg (by simpa using Ne.symm same)]
    rfl

theorem attachmentsOf_update (filter : Attachment → Bool) (file : NewAttachment)
    (other : Nat) :
    (db.updateAttachments filter (refill file)).attachmentsOf other =
      (db.attachmentsOf other).map fun row =>
        if filter row then refill file row else row := by
  unfold Db.attachmentsOf Db.updateAttachments Table.update
  rw [List.filter_map]
  congr 2
  funext row
  rw [Function.comp_apply]
  split <;> rfl

theorem attachmentsOf_delete (filter : Attachment → Bool) (other : Nat) :
    (db.deleteAttachments filter).attachmentsOf other =
      (db.attachmentsOf other).filter fun row => !filter row := by
  unfold Db.attachmentsOf Db.deleteAttachments Table.delete
  rw [List.filter_filter, List.filter_filter]
  congr 1
  funext row
  rw [Bool.and_comm]

/-- Setting one row leaves a list without it. -/
theorem map_set_of_absent
    {rows : List Attachment} {row : Attachment} {file : NewAttachment}
    (stored : row ∈ db.attachments.rows)
    (inside : ∀ other ∈ rows, other ∈ db.attachments.rows) (absent : row ∉ rows) :
    rows.map (fun other => if other.id = row.id then refill file other else other) =
      rows := by
  refine (List.map_congr_left fun other member => ?_).trans (List.map_id rows)
  exact if_neg fun same => absent (eq_of_id (inside other member) stored same ▸ member)

end Rows

/-! ## The loop -/

section Loop

variable {messageId : Nat}

/-- What a loop over the files leaves: the rows done before it, the unmatched
rows refilled in order, and new rows. -/
structure Looped (messageId : Nat) (files : List NewAttachment)
    (done : FileKey → List Attachment) (existing : List Attachment)
    (before after : Db) : Prop where
  classes : ∀ key, ∃ fresh,
    withKey rowKey key (after.attachmentsOf messageId) = done key ++
      (List.zipWith refill (withKey fileKey key files) (withKey rowKey key existing) ++ fresh) ∧
    List.Forall₂ (Fresh messageId before.attachments.last)
      ((withKey fileKey key files).drop (withKey rowKey key existing).length) fresh
  others : ∀ other, other ≠ messageId →
    after.attachmentsOf other = before.attachmentsOf other
  rest : after.accounts = before.accounts ∧ after.folders = before.folders ∧
    after.messages = before.messages ∧ after.pendingMoves = before.pendingMoves

/-- The unmatched rows are rows of the message, each class behind what is done of
it. -/
def Parts (messageId : Nat) (done : FileKey → List Attachment)
    (existing : List Attachment) (db : Db) : Prop :=
  ∀ key, withKey rowKey key (db.attachmentsOf messageId) = done key ++ withKey rowKey key existing

variable {files : List NewAttachment} {file : NewAttachment}
  {done : FileKey → List Attachment} {existing : List Attachment} {db : Db}
  {row : Attachment}

/-- One row more is done. -/
def doneWith (done : FileKey → List Attachment) (row : Attachment) (key : FileKey) :
    List Attachment :=
  if key = rowKey row then done key ++ [row] else done key

/-- The first row of a class, with the others behind it. -/
theorem rowsWith_of_find
    (found : existing.find? (sameFile file) = some row) :
    rowKey row = fileKey file ∧ withKey rowKey (fileKey file) existing =
      row :: withKey rowKey (fileKey file) (existing.eraseP (sameFile file)) := by
  rw [sameFile_eq] at found ⊢
  have same := List.find?_some found
  rw [decide_eq_true_eq] at same
  refine ⟨same, ?_⟩
  rw [find?_eq_head?_withKey] at found
  rw [withKey_eraseP_same]
  exact (List.cons_head?_tail found).symm

theorem rowsWith_of_find_none
    (missing : existing.find? (sameFile file) = none) :
    withKey rowKey (fileKey file) existing = [] := by
  rw [sameFile_eq, find?_eq_head?_withKey, List.head?_eq_none_iff] at missing
  exact missing

/-- What was not matched is there. -/
theorem Parts.mem
    (parts : Parts messageId done existing db) (left : row ∈ existing) :
    row ∈ db.attachmentsOf messageId := by
  have inside : row ∈ withKey rowKey (rowKey row) (db.attachmentsOf messageId) := by
    rw [parts]
    exact List.mem_append_right _ (mem_withKey.mpr ⟨left, rfl⟩)
  exact (mem_withKey.mp inside).1

/-- A matched row is done. -/
theorem Parts.update
    (parts : Parts messageId done existing db)
    (found : existing.find? (sameFile file) = some row) :
    Parts messageId (doneWith done (refill file row))
      (existing.eraseP (sameFile file))
      (db.updateAttachments (fun other => other.id = row.id) (refill file)) := by
  obtain ⟨same, unmatched⟩ := rowsWith_of_find found
  have member := parts.mem (List.mem_of_find?_eq_some found)
  have stored := List.mem_of_mem_filter member
  intro key
  have inside : ∀ other ∈ withKey rowKey key (db.attachmentsOf messageId),
      other ∈ db.attachments.rows :=
    fun other otherMember => List.mem_of_mem_filter (mem_withKey.mp otherMember).1
  rw [attachmentsOf_update]
  simp only [decide_eq_true_eq]
  rw [withKey_map (fun other => by split <;> rfl)]
  unfold doneWith
  rw [rowKey_refill]
  by_cases own : key = rowKey row
  · subst own
    have sorted := (attachmentsOf_ascending messageId db).filter
      fun other => rowKey other = rowKey row
    change (withKey rowKey (rowKey row) _).Pairwise _ at sorted
    rw [if_pos rfl]
    rw [parts, same, unmatched] at sorted inside ⊢
    rw [List.pairwise_append, List.pairwise_cons] at sorted
    obtain ⟨-, ⟨behind, -⟩, ahead⟩ := sorted
    have notDone : row ∉ done (fileKey file) := fun done =>
      lt_irrefl _ (ahead row done row List.mem_cons_self)
    have notLeft : row ∉ withKey rowKey (fileKey file) (existing.eraseP (sameFile file)) :=
      fun left => lt_irrefl _ (behind row left)
    rw [List.map_append, List.map_cons, if_pos rfl,
      map_set_of_absent stored
        (fun other done => inside other (List.mem_append_left _ done)) notDone,
      map_set_of_absent stored
        (fun other left => inside other
          (List.mem_append_right _ (List.mem_cons_of_mem _ left))) notLeft,
      List.append_assoc, List.singleton_append]
  · rw [if_neg own, sameFile_eq, withKey_eraseP_other fun gone => own (gone.symm.trans same.symm),
      ← parts]
    exact map_set_of_absent stored inside
      fun inClass => own (mem_withKey.mp inClass).2.symm

/-- A file without a row is done with its insert. -/
theorem Parts.insert
    (parts : Parts messageId done existing db)
    (missing : existing.find? (sameFile file) = none)
    (owned : ∃ message ∈ db.messages.rows, message.id = messageId) :
    Parts messageId
      (doneWith done (rowOf messageId file (db.attachments.last + 1))) existing
      (db.insertAttachment messageId file owned) := by
  intro key
  rw [attachmentsOf_insert, if_pos rfl, withKey_append, parts]
  unfold doneWith
  rw [rowKey_rowOf]
  by_cases own : key = fileKey file
  · subst own
    rw [if_pos rfl, rowsWith_of_find_none missing, List.append_nil, List.append_nil]
    congr 1
    exact withKey_cons_same rowKey (rowOf messageId file _) []
  · have other : rowKey (rowOf messageId file (db.attachments.last + 1)) ≠ key :=
      Ne.symm own
    rw [if_neg own, withKey_cons_other other]
    exact List.append_nil _

theorem Parts.mem_done
    (parts : Parts messageId done existing db) {key : FileKey}
    (member : row ∈ done key) :
    row ∈ db.attachmentsOf messageId ∧ rowKey row = key := by
  have inClass : row ∈ withKey rowKey key (db.attachmentsOf messageId) := by
    rw [parts]
    exact List.mem_append_left _ member
  exact mem_withKey.mp inClass

/-- What is done is not among what was not matched. -/
theorem Parts.apart
    (parts : Parts messageId done existing db) {key : FileKey}
    (member : row ∈ done key) : ∀ left ∈ existing, left.id ≠ row.id := by
  intro left leftMember same
  have here := parts.mem_done member
  have equal := eq_of_id (List.mem_of_mem_filter (parts.mem leftMember))
    (List.mem_of_mem_filter here.1) same
  have sorted := (attachmentsOf_ascending messageId db).filter
    fun other => rowKey other = key
  change (withKey rowKey key _).Pairwise _ at sorted
  rw [parts, List.pairwise_append] at sorted
  have less := sorted.2.2 row member left
    (mem_withKey.mpr ⟨leftMember, equal ▸ here.2⟩)
  rw [same] at less
  exact lt_irrefl _ less

/-- At the end what was not matched goes. -/
theorem Parts.delete (parts : Parts messageId done existing db) (key : FileKey) :
    withKey rowKey key ((db.deleteAttachments fun row =>
      existing.any fun left => left.id = row.id).attachmentsOf messageId) =
        done key := by
  rw [attachmentsOf_delete]
  unfold withKey
  rw [List.filter_comm]
  change (withKey rowKey key _).filter _ = _
  rw [parts, List.filter_append, List.filter_eq_self.mpr, List.filter_eq_nil_iff.mpr,
    List.append_nil]
  · intro row member
    rw [Bool.not_eq_true, Bool.not_eq_false', List.any_eq_true]
    exact ⟨row, (mem_withKey.mp member).1, by simp⟩
  · intro row member
    rw [Bool.not_eq_true', List.any_eq_false]
    intro left leftMember
    simpa using parts.apart member left leftMember

/-- The loop without files deletes what is left. -/
theorem looped_nil (parts : Parts messageId done existing db) :
    Looped messageId [] done existing db
      (db.deleteAttachments fun row => existing.any fun left => left.id = row.id) := by
  refine ⟨fun key => ⟨[], ?_, ?_⟩, ?_, rfl, rfl, rfl, rfl⟩
  · rw [parts.delete]
    simp [withKey]
  · simp [withKey]
  · intro other different
    rw [attachmentsOf_delete, List.filter_eq_self]
    intro row member
    rw [Bool.not_eq_true', List.any_eq_false]
    intro left leftMember same
    rw [decide_eq_true_eq] at same
    have here := parts.mem leftMember
    rw [eq_of_id (List.mem_of_mem_filter here) (List.mem_of_mem_filter member) same]
      at here
    have here := of_decide_eq_true (List.mem_filter.mp here).2
    have there := of_decide_eq_true (List.mem_filter.mp member).2
    exact different (there.symm.trans here)

/-- A file with a row refills it. -/
theorem Looped.update
    {after : Db}
    (parts : Parts messageId done existing db)
    (found : existing.find? (sameFile file) = some row)
    (looped : Looped messageId files (doneWith done (refill file row))
      (existing.eraseP (sameFile file))
      (db.updateAttachments (fun other => other.id = row.id) (refill file)) after) :
    Looped messageId (file :: files) done existing db after := by
  obtain ⟨same, unmatched⟩ := rowsWith_of_find found
  refine ⟨fun key => ?_, fun other different => ?_, looped.rest⟩
  · obtain ⟨fresh, rows, made⟩ := looped.classes key
    refine ⟨fresh, ?_⟩
    unfold doneWith at rows
    rw [rowKey_refill] at rows
    by_cases own : key = fileKey file
    · subst own
      rw [if_pos same.symm, List.append_assoc] at rows
      rw [withKey_cons_same, unmatched]
      exact ⟨rows, made⟩
    · have other : key ≠ rowKey row := fun equal => own (equal.trans same)
      rw [sameFile_eq, withKey_eraseP_other (Ne.symm own)] at rows made
      rw [if_neg other] at rows
      rw [withKey_cons_other (Ne.symm own)]
      exact ⟨rows, made⟩
  · rw [looped.others other different, attachmentsOf_update]
    simp only [decide_eq_true_eq]
    have here := parts.mem (List.mem_of_find?_eq_some found)
    refine map_set_of_absent (List.mem_of_mem_filter here)
      (fun row member => List.mem_of_mem_filter member) fun there => ?_
    have here := of_decide_eq_true (List.mem_filter.mp here).2
    have there := of_decide_eq_true (List.mem_filter.mp there).2
    exact different (there.symm.trans here)

/-- A file without a row gets a new one. -/
theorem Looped.insert
    {after : Db}
    (missing : existing.find? (sameFile file) = none)
    (owned : ∃ message ∈ db.messages.rows, message.id = messageId)
    (looped : Looped messageId files
      (doneWith done (rowOf messageId file (db.attachments.last + 1))) existing
      (db.insertAttachment messageId file owned) after) :
    Looped messageId (file :: files) done existing db after := by
  refine ⟨fun key => ?_, fun other different => ?_, looped.rest⟩
  · obtain ⟨fresh, rows, made⟩ := looped.classes key
    have made := made.imp fun _ _ (made : Fresh messageId (_ + 1) _ _) =>
      made.mono (Nat.le_succ db.attachments.last)
    unfold doneWith at rows
    rw [rowKey_rowOf] at rows
    by_cases own : key = fileKey file
    · subst own
      rw [if_pos rfl, List.append_assoc] at rows
      rw [rowsWith_of_find_none missing] at rows made ⊢
      rw [withKey_cons_same]
      refine ⟨rowOf messageId file (db.attachments.last + 1) :: fresh, ?_,
        .cons ⟨Nat.lt_succ_self _, rfl⟩ made⟩
      simpa using rows
    · rw [if_neg own] at rows
      rw [withKey_cons_other (Ne.symm own)]
      exact ⟨fresh, rows, made⟩
  · rw [looped.others other different, attachmentsOf_insert, if_neg different,
      List.append_nil]

/-- The loop ends, and refills class by class. -/
theorem replaceFiles_looped
    (parts : Parts messageId done existing db)
    (owned : ∃ message ∈ db.messages.rows, message.id = messageId) :
    ∃ after, replaceFiles messageId files existing db = .ok after ∧
      Looped messageId files done existing db after := by
  induction files generalizing done existing db with
  | nil => exact ⟨_, rfl, looped_nil parts⟩
  | cons file files inductionHypothesis =>
      rw [replaceFiles]
      cases found : existing.find? (sameFile file) with
      | some row =>
          obtain ⟨after, ran, looped⟩ :=
            inductionHypothesis (parts.update found) owned
          exact ⟨after, ran, looped.update parts found⟩
      | none =>
          have stored : addAttachment messageId file db =
              .ok (db.insertAttachment messageId file owned) := dif_pos owned
          obtain ⟨after, ran, looped⟩ :=
            inductionHypothesis (parts.insert found owned) owned
          refine ⟨after, ?_, looped.insert found owned⟩
          simp only [stored]
          exact ran

theorem deleteAttachments_none
    {filter : Attachment → Bool} (never : ∀ row ∈ db.attachments.rows, filter row = false) :
    db.deleteAttachments filter = db := by
  have same : db.attachments.delete filter = db.attachments := by
    unfold Table.delete
    congr 1
    exact List.filter_eq_self.mpr fun row member => by rw [never row member]; rfl
  unfold Db.deleteAttachments
  cases db
  congr

theorem updateAttachments_none
    {filter : Attachment → Bool}
    (same : ∀ row ∈ db.attachments.rows, filter row = true → refill file row = row) :
    db.updateAttachments filter (refill file) = db := by
  have same : db.attachments.update filter (refill file) = db.attachments := by
    unfold Table.update
    congr 1
    refine (List.map_congr_left fun row member => ?_).trans (List.map_id _)
    split
    · next chosen => exact same row member chosen
    · rfl
  unfold Db.updateAttachments
  cases db
  congr

/-- Files that change none of the rows that match them, one for each, leave
everything. -/
theorem replaceFiles_unchanged
    (matched : ∀ key, (withKey rowKey key existing).length =
      (withKey fileKey key files).length)
    (full : ∀ key, List.zipWith refill (withKey fileKey key files)
      (withKey rowKey key existing) = withKey rowKey key existing)
    (inside : ∀ row ∈ existing, row ∈ db.attachments.rows) :
    replaceFiles messageId files existing db = .ok db := by
  induction files generalizing existing with
  | nil =>
      have none_ : existing = [] := by
        refine List.eq_nil_iff_forall_not_mem.mpr fun row member => ?_
        have empty := List.length_eq_zero_iff.mp (matched (rowKey row))
        exact absurd (mem_withKey.mpr ⟨member, rfl⟩) (empty ▸ List.not_mem_nil)
      subst none_
      rw [replaceFiles, deleteAttachments_none]
      exact fun _ _ => rfl
  | cons file files inductionHypothesis =>
      have own := matched (fileKey file)
      have unchanged := full (fileKey file)
      rw [withKey_cons_same] at own unchanged
      cases found : existing.find? (sameFile file) with
      | none =>
          rw [rowsWith_of_find_none found] at own
          cases own
      | some row =>
          obtain ⟨same, first⟩ := rowsWith_of_find found
          rw [first] at own unchanged
          rw [List.zipWith_cons_cons, List.cons.injEq] at unchanged
          have here := inside row (List.mem_of_find?_eq_some found)
          rw [replaceFiles, found]
          simp only
          rw [updateAttachments_none]
          · refine inductionHypothesis (fun key => ?_) (fun key => ?_)
              fun other member => inside other (List.mem_of_mem_eraseP member)
            · by_cases equal : key = fileKey file
              · subst equal
                exact Nat.succ.inj own
              · have before := matched key
                rw [withKey_cons_other (Ne.symm equal)] at before
                rw [sameFile_eq, withKey_eraseP_other (Ne.symm equal), before]
            · by_cases equal : key = fileKey file
              · subst equal
                exact unchanged.2
              · have before := full key
                rw [withKey_cons_other (Ne.symm equal)] at before
                rw [sameFile_eq, withKey_eraseP_other (Ne.symm equal), before]
          · intro other member chosen
            rw [eq_of_id member here (of_decide_eq_true chosen)]
            exact unchanged.1

end Loop

/-- The rows of a class, by id, as the loop first sees them. -/
theorem withKey_listAttachments (key : FileKey) (messageId : Nat) (db : Db) :
    withKey rowKey key (listAttachments messageId db) =
      withKey rowKey key (db.attachmentsOf messageId) := by
  have inline : ∀ row, rowKey row = key → row.isInline = key.isInline :=
    fun row same => same ▸ rfl
  unfold listAttachments
  rw [withKey_append]
  unfold withKey
  rw [List.filter_filter, List.filter_filter]
  have shown : ∀ row, (decide (rowKey row = key) && !row.isInline) =
      (decide (rowKey row = key) && !key.isInline) := by
    intro row
    by_cases same : rowKey row = key
    · rw [inline row same]
    · simp [same]
  have hidden : ∀ row, (decide (rowKey row = key) && row.isInline) =
      (decide (rowKey row = key) && key.isInline) := by
    intro row
    by_cases same : rowKey row = key
    · rw [inline row same]
    · simp [same]
  simp only [shown, hidden]
  cases key.isInline <;> simp

theorem mem_listAttachments
    {messageId : Nat} {db : Db} {row : Attachment}
    (member : row ∈ listAttachments messageId db) : row ∈ db.attachments.rows := by
  unfold listAttachments at member
  rcases List.mem_append.mp member with shown | inline
  · exact List.mem_of_mem_filter (List.mem_of_mem_filter shown)
  · exact List.mem_of_mem_filter (List.mem_of_mem_filter inline)

/-- A replacement of the attachments of a message refills its rows class by class,
makes new ones for the other files, leaves all else, and changes nothing when it
runs again. -/
theorem replaceAttachments_merged
    {messageId : Nat} (files : List NewAttachment) {before : Db}
    (owned : ∃ message ∈ before.messages.rows, message.id = messageId) :
    ∃ after, replaceAttachments messageId files before = .ok after ∧
      Merged messageId files before after ∧
        replaceAttachments messageId files after = .ok after := by
  have parts : Parts messageId (fun _ => []) (listAttachments messageId before) before :=
    fun key => (withKey_listAttachments key messageId before).symm
  obtain ⟨after, ran, looped⟩ := @replaceFiles_looped _ files _ _ _ parts owned
  have classes := looped.classes
  simp only [withKey_listAttachments, List.nil_append] at classes
  have lengths : ∀ key, (withKey rowKey key (after.attachmentsOf messageId)).length =
      (withKey fileKey key files).length := by
    intro key
    obtain ⟨fresh, rows, made⟩ := classes key
    rw [rows, length_merged made]
  refine ⟨after, ran, ⟨classes, perm_keys_of_length lengths, looped.others,
    looped.rest⟩, ?_⟩
  refine replaceFiles_unchanged (fun key => ?_) (fun key => ?_) fun row member => ?_
  · rw [withKey_listAttachments, lengths]
  · rw [withKey_listAttachments]
    obtain ⟨fresh, rows, made⟩ := classes key
    rw [rows, zipWith_refill_merged made]
  · exact mem_listAttachments member

/-- The rows are those of files whose bytes are known, one for each, and hold
either none or the bytes of their own file. -/
def Attributed (files : List (NewAttachment × Raw)) (rows : List Attachment) : Prop :=
  ∃ order, order.Perm rows ∧
    List.Forall₂ (fun file row => rowKey row = fileKey file.1 ∧
      ∀ bytes, row.data = some bytes → bytes = file.2) files order

namespace Sample

/-- A text file of one byte that comes without it. -/
def textFile : NewAttachment :=
  ⟨some "a.txt", some "text/plain", none, 1, none, false⟩

theorem inbox_free : ∀ folder ∈ (Db.fresh [1]).folders.rows, folder.place ≠ ⟨1, "INBOX"⟩ := by
  decide

/-- A message whose file of that name and size was downloaded. -/
def downloaded : Db :=
  ((Db.fresh [1]).insertFolder ⟨1, "INBOX"⟩ "/" .inbox
    Imap.Sample.one_listed inbox_free).insertMessage
      ⟨1, 5, Imap.Sample.blank, false, false, false⟩
      ⟨_, List.mem_cons_self, rfl⟩ rfl |>.insertAttachment 1
        { textFile with data := some [65] } ⟨_, List.mem_cons_self, rfl⟩

/-- A file that only looks the same keeps the bytes of the other. -/
theorem bytes_of_another_file :
    ¬∀ (messageId : Nat) (files : List (NewAttachment × Raw)) (before after : Db),
      (∀ file ∈ files, ∀ bytes, file.1.data = some bytes → bytes = file.2) →
        replaceAttachments messageId (files.map Prod.fst) before = .ok after →
          Attributed files (after.attachmentsOf messageId) := by
  intro attributed
  have replaced : replaceAttachments 1 [textFile] downloaded = .ok downloaded := rfl
  obtain ⟨order, perm, own⟩ := attributed 1 [(textFile, [66])] downloaded downloaded
    (by simp [textFile]) replaced
  obtain ⟨row, same⟩ := List.length_eq_one_iff.mp perm.length_eq
  rw [same] at perm own
  have held : ∀ row ∈ downloaded.attachmentsOf 1, row.data = some [65] := by decide
  have bytes := held row (perm.mem_iff.mp (List.mem_singleton_self row))
  rw [List.forall₂_cons] at own
  exact absurd (own.1.2 [65] bytes) (by decide)

/-- Another file of the message that the list brings is stored beside it. -/
theorem other_file_added :
    ∃ after, replaceAttachments 1 [textFile, { textFile with size := 2 }] downloaded =
      .ok after ∧
        Merged 1 [textFile, { textFile with size := 2 }] downloaded after ∧
          replaceAttachments 1 [textFile, { textFile with size := 2 }] after =
            .ok after :=
  replaceAttachments_merged _ ⟨_, List.mem_cons_self, rfl⟩

end Sample

end Messages
end Imap
end Mailcore
