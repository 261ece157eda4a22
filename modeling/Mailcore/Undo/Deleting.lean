import Mailcore.Undo.Share

/-!
# Deleting again and again

Where a delete goes is decided when it is queued and once more when it is
pushed.  A message that is deleted over and over moves along the folders these
decisions name until it is destroyed, unless two folders are Trash.
-/

namespace Mailcore
namespace Undo

open Imap Store Relational Concurrent

/-- What becomes of a message that is deleted. -/
inductive Fate
  | destroyed
  | movedTo (dest : Folder)
  /-- The queued delete has lost its target. -/
  | stays
  deriving DecidableEq, Repr

/-- A delete from `src`, queued and pushed over one folder list. -/
def delete (known : List Folder) (src : Folder) : Fate :=
  match moveTarget src known .trash with
  | .ok (.inl .permanent) => .destroyed
  | .ok (.inr _) =>
      match (byRole known src.id .trash).bind fun path =>
          known.find? fun folder => folder.path = path with
      | some dest => .movedTo dest
      | none => .stays
  | _ => .stays

/-- Where the message is after so many deletes, `none` once destroyed. -/
def whereabouts (known : List Folder) (src : Folder) : Nat → Option Folder
  | 0 => some src
  | count + 1 =>
      (whereabouts known src count).bind fun folder =>
        match delete known folder with
        | .destroyed => none
        | .movedTo dest => some dest
        | .stays => some folder

/-- At most one folder is Trash. -/
def OneTrash (known : List Folder) : Prop :=
  ∀ first ∈ known, ∀ second ∈ known,
    first.role = .trash → second.role = .trash → first = second

/-- A folder list as the database keeps it: ids and paths are unique. -/
structure Keyed (known : List Folder) : Prop where
  ids : ∀ first ∈ known, ∀ second ∈ known, first.id = second.id → first = second
  paths : ∀ first ∈ known, ∀ second ∈ known,
    first.path = second.path → first = second

theorem keyed_listByAccount (accountId : Nat) (db : Db) :
    Keyed (Folders.listByAccount accountId db) where
  ids first firstListed second secondListed :=
    Db.folder_eq_of_id_eq (mem_listByAccount.mp firstListed).1
      (mem_listByAccount.mp secondListed).1
  paths first firstListed second secondListed same := by
    obtain ⟨firstMember, firstOwn⟩ := mem_listByAccount.mp firstListed
    obtain ⟨secondMember, secondOwn⟩ := mem_listByAccount.mp secondListed
    apply db.onePlace first firstMember second secondMember
    rw [Folder.place, Folder.place, same, firstOwn, secondOwn]

/-! ## One delete -/

section Delete

variable {known : List Folder} {src dest : Folder}

/-- The first Trash that is not the source. -/
def otherTrash (known : List Folder) (src : Folder) : Option Folder :=
  known.find? fun folder => folder.role = .trash && folder.id ≠ src.id

theorem mem_of_otherTrash (found : otherTrash known src = some dest) :
    dest ∈ known ∧ dest.role = .trash ∧ dest.id ≠ src.id := by
  have wanted := List.find?_some found
  rw [Bool.and_eq_true, decide_eq_true_eq, decide_eq_true_eq] at wanted
  exact ⟨List.mem_of_find?_eq_some found, wanted⟩

theorem role_ne_of_otherTrash_none
    (absent : otherTrash known src = none)
    (member : dest ∈ known)
    (other : dest.id ≠ src.id) :
    dest.role ≠ .trash := by
  intro trash
  have refused := List.find?_eq_none.mp absent dest member
  simp [trash, other] at refused

theorem byRole_trash :
    byRole known src.id .trash = (otherTrash known src).map Folder.path := rfl

/-- A delete destroys in Junk and where no other folder is Trash. -/
theorem permanent_iff :
    deleteIsPermanent src known = true ↔
      src.role = .junk ∨ otherTrash known src = none := by
  unfold deleteIsPermanent otherTrash
  rw [Bool.or_eq_true, decide_eq_true_eq, Bool.not_eq_true', List.find?_eq_none,
    List.any_eq_false]

/-- Where one delete takes a message. -/
theorem delete_eq
    (keyed : Keyed known) :
    delete known src =
      if src.role = .junk then .destroyed
      else (otherTrash known src).elim .destroyed .movedTo := by
  unfold delete
  simp only [moveTarget, permanent_iff]
  by_cases junk : src.role = .junk
  · simp [junk]
  simp only [junk, false_or, if_false]
  cases found : otherTrash known src with
  | none => rfl
  | some trash =>
      obtain ⟨member, -⟩ := mem_of_otherTrash found
      have looked : (known.find? fun folder => folder.path = trash.path) =
          some trash := by
        cases search : known.find? fun folder => folder.path = trash.path with
        | none => simpa using List.find?_eq_none.mp search trash member
        | some dest =>
            have same := List.find?_some search
            rw [decide_eq_true_eq] at same
            rw [keyed.paths dest (List.mem_of_find?_eq_some search) trash
              member same]
      rw [byRole_trash, found]
      simp [looked]

/-- A delete that is queued goes to the first Trash that is not its source. -/
theorem otherTrash_of_moveTarget
    {action : PendingAction} {destId : Option Nat} {place : String}
    (resolved : moveTarget src known .trash =
      .ok (.inr (action, destId, place))) :
    action = .trash ∧ (otherTrash known src).map Folder.path = some place := by
  simp only [moveTarget, permanent_iff] at resolved
  split_ifs at resolved with permanent
  · cases resolved
  rw [not_or] at permanent
  obtain ⟨trash, found⟩ := Option.ne_none_iff_exists'.mp permanent.2
  cases resolved
  refine ⟨rfl, ?_⟩
  change _ = some (((otherTrash known src).map Folder.path).getD "")
  rw [found]
  rfl

end Delete

/-! ## Every delete -/

section Whereabouts

variable {known : List Folder} {src : Folder}

theorem whereabouts_succ (keyed : Keyed known) (count : Nat) :
    whereabouts known src (count + 1) =
      (whereabouts known src count).bind fun folder =>
        if folder.role = .junk then none else otherTrash known folder := by
  rw [whereabouts]
  congr 1
  funext folder
  rw [delete_eq keyed]
  split_ifs
  · rfl
  · cases otherTrash known folder <;> rfl

theorem whereabouts_of_destroyed
    {count later : Nat}
    (destroyed : whereabouts known src count = none)
    (after : count ≤ later) :
    whereabouts known src later = none := by
  induction later, after using Nat.le_induction with
  | base => exact destroyed
  | succ later _ inductionHypothesis => rw [whereabouts, inductionHypothesis]; rfl

/-- With one Trash there are at most two deletes, the second from Trash. -/
theorem whereabouts_of_oneTrash
    (keyed : Keyed known)
    (one : OneTrash known)
    (src : Folder) :
    whereabouts known src 2 = none ∧
      ∀ dest, whereabouts known src 1 = some dest → dest.id ≠ src.id := by
  have first : whereabouts known src 1 =
      if src.role = .junk then none else otherTrash known src :=
    whereabouts_succ keyed 0
  constructor
  · rw [whereabouts_succ keyed, first]
    split_ifs
    · rfl
    cases found : otherTrash known src with
    | none => rfl
    | some trash =>
        obtain ⟨member, role, -⟩ := mem_of_otherTrash found
        rw [Option.bind_some]
        split_ifs
        · rfl
        cases again : otherTrash known trash with
        | none => rfl
        | some next =>
            obtain ⟨nextMember, nextRole, other⟩ := mem_of_otherTrash again
            rw [one next nextMember trash member nextRole role] at other
            exact absurd rfl other
  · intro dest found
    rw [first] at found
    split_ifs at found
    exact (mem_of_otherTrash found).2.2

/-- With two, a delete from the first leads into the second and the next one
back. -/
theorem exists_return
    (keyed : Keyed known)
    {first second : Folder}
    (firstMember : first ∈ known)
    (secondMember : second ∈ known)
    (firstTrash : first.role = .trash)
    (secondTrash : second.role = .trash)
    (distinct : first ≠ second) :
    ∃ trash ∈ known, whereabouts known trash 2 = some trash := by
  have notJunk : ∀ folder : Folder, folder.role = .trash → folder.role ≠ .junk :=
    fun folder trash junk => by rw [trash] at junk; cases junk
  -- The Trash that every lookup finds first, unless it is the source.
  obtain ⟨top, found⟩ : ∃ top, (known.find? fun folder =>
      folder.role = .trash) = some top := by
    rw [← Option.isSome_iff_exists, List.find?_isSome]
    exact ⟨first, firstMember, by simpa using firstTrash⟩
  have topMember := List.mem_of_find?_eq_some found
  have topTrash : top.role = .trash := by simpa using List.find?_some found
  obtain ⟨other, there⟩ : ∃ other, otherTrash known top = some other := by
    cases absent : otherTrash known top with
    | some other => exact ⟨other, rfl⟩
    | none =>
        have firstTop : first = top := by
          by_contra apart
          exact role_ne_of_otherTrash_none absent firstMember
            (fun same => apart (keyed.ids _ firstMember _ topMember same))
            firstTrash
        have secondTop : second = top := by
          by_contra apart
          exact role_ne_of_otherTrash_none absent secondMember
            (fun same => apart (keyed.ids _ secondMember _ topMember same))
            secondTrash
        exact absurd (firstTop.trans secondTop.symm) distinct
  obtain ⟨-, otherRole, apart⟩ := mem_of_otherTrash there
  have back : otherTrash known other = some top := by
    obtain ⟨wanted, front, rest, split, unwanted⟩ :=
      List.find?_eq_some_iff_append.mp found
    refine List.find?_eq_some_iff_append.mpr ⟨?_, front, rest, split, ?_⟩
    · rw [wanted, Bool.true_and, decide_eq_true_eq]
      exact apart.symm
    · intro folder earlier
      have custom := unwanted folder earlier
      rw [Bool.not_eq_true'] at custom ⊢
      rw [custom, Bool.false_and]
  refine ⟨top, topMember, ?_⟩
  have one : whereabouts known top 1 = some other := by
    rw [whereabouts_succ keyed, whereabouts, Option.bind_some,
      if_neg (notJunk top topTrash), there]
  rw [whereabouts_succ keyed, one, Option.bind_some,
    if_neg (notJunk other otherRole), back]

end Whereabouts

/-! ## Queueing and pushing agree -/

section Progress

variable (chrono : Chrono) (ι : Type) [DecidableEq ι]

/-- The folder a queued delete reports is the one its push moves to, whatever
has happened to the rest of the database and to the server in between. -/
def Agrees (accountId : Nat) (db : Db) : Prop :=
  ∀ (who pusher : ι) (folderId : Nat) (uids : List Nat) (batch : String)
    (graceSecs : Int) (answers later : Nat → Answer)
    (queueing pushing : World chrono ι) (count : Nat) (action : PendingAction)
    (destId : Option Nat) (place : String) (path : Option String),
    queueing.db = db →
    Folders.listByAccount accountId pushing.db =
      Folders.listByAccount accountId db →
    (Fallible.alone (respond chrono who)
      (queueInto chrono accountId folderId uids .trash batch graceSecs)
      answers queueing).1 = .ok (.pending count action place) →
    (Fallible.alone (respond chrono pusher)
      (pendingTarget chrono accountId ⟨folderId, action, destId⟩)
      later pushing).1 = .ok path →
    path = some place

/-- Deleting makes progress over the folder list of an account. -/
structure MakesProgress (accountId : Nat) (db : Db) : Prop where
  /-- A message is destroyed in the end. -/
  ends : ∀ src ∈ Folders.listByAccount accountId db, ∃ count,
    whereabouts (Folders.listByAccount accountId db) src count = none
  /-- No delete leads back. -/
  onward : ∀ src ∈ Folders.listByAccount accountId db,
    ∀ before after folder, before < after →
      whereabouts (Folders.listByAccount accountId db) src before =
        some folder →
      whereabouts (Folders.listByAccount accountId db) src after ≠ some folder
  agrees : Agrees chrono ι accountId db

variable {chrono ι}

/-- The target a push looks up for a delete. -/
theorem pendingTarget_trash
    {who : ι} {accountId folderId : Nat} {destId : Option Nat}
    {answers : Nat → Answer} {world : World chrono ι} {path : Option String}
    (pushed : (Fallible.alone (respond chrono who)
      (pendingTarget chrono accountId ⟨folderId, .trash, destId⟩)
      answers world).1 = .ok path) :
    path = byRole (Folders.listByAccount accountId world.db) folderId .trash := by
  unfold pendingTarget perform at pushed
  rw [Fallible.alone_bind, Fallible.alone_perform] at pushed
  cases listed : (answers 0).refused with
  | some text =>
      rw [respond_refused chrono who rfl listed] at pushed
      cases pushed
  | none =>
      rw [respond_accepted chrono who listed] at pushed
      cases pushed
      rfl

theorem agrees (accountId : Nat) (db : Db) : Agrees chrono ι accountId db := by
  rintro who pusher folderId uids batch graceSecs answers later queueing pushing
    count action destId place path rfl sameList queued pushed
  have ends := queueInto_ends chrono who accountId folderId uids .trash batch
    graceSecs answers queueing
  have decided := decided_standing accountId .trash queueing.db answers folderId
    uids
  generalize standing accountId .trash queueing.db answers folderId uids =
    stands at ends decided
  generalize Fallible.alone (respond chrono who) (queueInto chrono accountId
    folderId uids .trash batch graceSecs) answers queueing = outcome
    at ends queued
  cases ends with
  | refused error left => cases queued
  | aside share =>
      obtain ⟨src, -, resolved⟩ := decided
      simp only [moveTarget] at resolved
      split_ifs at resolved
      · cases resolved
        cases queued
      · cases resolved
  | queued moved _ db messages folders held =>
      obtain ⟨src, found, resolved⟩ := decided
      cases queued
      obtain ⟨isTrash, target⟩ := otherTrash_of_moveTarget resolved
      have own : src.id = folderId := (Table.mem_of_find? found).2
      rw [isTrash] at pushed
      rw [pendingTarget_trash pushed, sameList, ← own, byRole_trash, target]

/-- Two folders that are Trash send a message back and forth. -/
theorem not_makesProgress
    {accountId : Nat} {db : Db} {first second : Folder}
    (firstListed : first ∈ Folders.listByAccount accountId db)
    (secondListed : second ∈ Folders.listByAccount accountId db)
    (firstTrash : first.role = .trash)
    (secondTrash : second.role = .trash)
    (distinct : first ≠ second) :
    ¬MakesProgress chrono ι accountId db := by
  intro progress
  obtain ⟨trash, listed, back⟩ := exists_return (keyed_listByAccount accountId db)
    firstListed secondListed firstTrash secondTrash distinct
  exact progress.onward trash listed 0 2 trash (by omega) rfl back

/-- Deleting makes progress exactly where at most one folder is Trash. -/
theorem makesProgress_iff
    (chrono : Chrono)
    (ι : Type)
    [DecidableEq ι]
    (accountId : Nat)
    (db : Db) :
    MakesProgress chrono ι accountId db ↔
      OneTrash (Folders.listByAccount accountId db) := by
  have keyed := keyed_listByAccount accountId db
  constructor
  · intro progress first firstListed second secondListed firstTrash secondTrash
    by_contra distinct
    exact not_makesProgress firstListed secondListed firstTrash secondTrash
      distinct progress
  · intro one
    refine ⟨fun src _ => ⟨2, (whereabouts_of_oneTrash keyed one src).1⟩, ?_,
      agrees accountId db⟩
    intro src _ before after folder later there
    obtain ⟨gone, elsewhere⟩ := whereabouts_of_oneTrash keyed one src
    match before, after, later with
    | 0, 1, _ =>
        cases there
        exact fun back => elsewhere src back rfl
    | before + 2, after, _ =>
        rw [whereabouts_of_destroyed gone (by omega)] at there
        cases there
    | before, after + 2, _ =>
        rw [whereabouts_of_destroyed gone (by omega)]
        nofun

end Progress

namespace Sample

/-- An account with two folders that are Trash. -/
def twoTrash : Db :=
  ((emptyFolder 1).insertFolder ⟨1, "Trash"⟩ "/" .trash
    Imap.Sample.one_listed Imap.Sample.trash_free).insertFolder
      ⟨1, "Deleted Items"⟩ "/" .trash Imap.Sample.one_listed (by decide)

/-- A message deleted from one of the two goes to the other and back. -/
theorem never_destroyed : ¬MakesProgress winter Unit 1 twoTrash := by
  have trash : ⟨2, 1, "Trash", "/", .trash, none, none, none, 0, true⟩ ∈
      Folders.listByAccount 1 twoTrash := mem_listByAccount.mpr (by decide)
  have deleted : ⟨3, 1, "Deleted Items", "/", .trash, none, none, none, 0, true⟩ ∈
      Folders.listByAccount 1 twoTrash := mem_listByAccount.mpr (by decide)
  exact not_makesProgress trash deleted rfl rfl (by decide)

end Sample

end Undo
end Mailcore
