import Mailcore.Discovery.Listing
import Mailcore.Imap.Statement

/-!
# The passes of folder discovery

A single `LIST "" "*"` misses folders on some servers, so three more passes
follow it: the subscribed folders, a subtree LIST per root, and a LIST inside
every namespace.  The first pass that names a folder decides its role, and the
later passes never fail the sync.
-/

namespace Mailcore
namespace Discovery

open Imap (Db Folder FolderRole Place)
open Imap
open Store (StoreError)

/-- Path, delimiter and role of a folder that a pass found. -/
abbrev Found := String × String × FolderRole

/-- The cache of one account as discovery uses it. -/
structure Cache where
  db : Db
  /-- The setting `last_full_discovery_{account_id}`. -/
  stamp : Option Int

/-- The stamp, unless it is not positive. -/
def Cache.getLastFullDiscovery (cache : Cache) : Option Int :=
  cache.stamp.filter fun secs => 0 < secs

def Cache.setLastFullDiscovery (cache : Cache) (unixSecs : Int) : Cache :=
  { cache with stamp := some (max unixSecs 0) }

/-- The selectable mailboxes of an answer, with the role a pass gives them. -/
def offered (role : DiscoveredFolder → FolderRole)
    (names : List DiscoveredFolder) : List Found :=
  (names.filter fun n => isSelectable n.attributes).map fun n =>
    (n.name, n.delimiter, role n)

/-- The closure `consider`: what is seen under its name stays. -/
def consider (discovered : List Found) (folder : Found) : List Found :=
  if folder.1 ∈ discovered.map Prod.fst then discovered
  else discovered ++ [folder]

/-- `base` followed by the separator, once. -/
def closed (base d : String) : String :=
  if d.toList <:+ base.toList then base else base ++ d

/-- The pattern of everything below `base`. -/
def join (base d : String) : String := closed base d ++ "*"

/-- Both the reported delimiter and `.` are tried. -/
def separators (root : DiscoveredFolder) : List String :=
  if root.delimiter = "." then [root.delimiter] else [root.delimiter, "."]

/-- The roots that the third pass asks below. -/
def taken (roots : List DiscoveredFolder) : List DiscoveredFolder :=
  (roots.take 64).filter fun root => root.name ≠ ""

section

variable (lowercase : String → String) (session : Session)

/-- The role that an answer's attributes or name give. -/
def listedRole (n : DiscoveredFolder) : FolderRole :=
  mapFolderRole lowercase n.attributes n.name

/-- Pass 1: `LIST "" "*"`. -/
def listPass : Except StoreError (List Found) :=
  (session.list "" "*").map (offered (listedRole lowercase))

/-- A pass whose failure is only logged. -/
def bestEffort (role : DiscoveredFolder → FolderRole) :
    Except StoreError (List DiscoveredFolder) → List Found
  | .ok names => offered role names
  | .error _ => []

/-- Pass 2: `LSUB "" "*"`. -/
def lsubPass : List Found :=
  bestEffort (fun n => roleFromName lowercase n.name) (session.lsub "" "*")

/-- Pass 3: a subtree LIST per root and separator. -/
def subtreePass : List Found :=
  match session.list "" "%" with
  | .ok roots =>
      (taken roots).flatMap fun root =>
        (separators root).flatMap fun d =>
          bestEffort (listedRole lowercase) (session.list "" (join root.name d))
  | .error _ => []

/-- The prefixes that the fourth pass asks inside. -/
def namespacePrefixes : List String :=
  let (personal, other, shared) := session.namespaces
  ((personal ++ other ++ shared).filter fun p => p ≠ "").take 12

/-- Pass 4: a LIST inside every namespace. -/
def namespacePass : List Found :=
  (namespacePrefixes session).flatMap fun reference =>
    bestEffort (listedRole lowercase) (session.list reference "*")

/-- Everything the four passes answer, in their order. -/
def allPasses : Except StoreError (List Found) :=
  (listPass lowercase session).map fun names =>
    names ++ lsubPass lowercase session ++ subtreePass lowercase session ++
      namespacePass lowercase session

/-- Insert or refresh the merged folder list. -/
def upsertDiscovered (accountId : Nat) :
    Db → List Found → Except StoreError (Db × List Folder)
  | db, [] => .ok (db, [])
  | db, (path, delimiter, role) :: rest => do
      let db ← Folders.upsert ⟨accountId, path⟩ delimiter role db
      let folder ← Folders.getByPath ⟨accountId, path⟩ db
      let (db, out) ← upsertDiscovered accountId db rest
      return (db, folder :: out)

/-- Run all passes, upsert what they found and stamp the full run. -/
def discoverFolders (accountId : Nat) (ended : Int) (cache : Cache) :
    Except StoreError (Cache × List Folder) := do
  let offers ← allPasses lowercase session
  let (db, out) ← upsertDiscovered accountId cache.db
    (offers.foldl consider [])
  return (Cache.setLastFullDiscovery { cache with db := db } ended, out)

/-- Pass 1 only; it never stamps. -/
def discoverFoldersQuick (accountId : Nat) (cache : Cache) :
    Except StoreError (Cache × List Folder) := do
  let names ← listPass lowercase session
  let (db, out) ← upsertDiscovered accountId cache.db (names.foldl consider [])
  return ({ cache with db := db }, out)

end

/-! ## What is found is found once -/

theorem consider_fst (discovered : List Found) (folder : Found) :
    (consider discovered folder).map Prod.fst =
      if folder.1 ∈ discovered.map Prod.fst then discovered.map Prod.fst
      else discovered.map Prod.fst ++ [folder.1] := by
  unfold consider
  split
  · rfl
  · rw [List.map_append, List.map_singleton]

/-- Merging keeps names distinct, and loses and invents none. -/
theorem foldl_consider
    (offers discovered : List Found)
    (distinct : (discovered.map Prod.fst).Nodup) :
    ((offers.foldl consider discovered).map Prod.fst).Nodup ∧
      ∀ name, name ∈ (offers.foldl consider discovered).map Prod.fst ↔
        name ∈ discovered.map Prod.fst ∨ name ∈ offers.map Prod.fst := by
  induction offers generalizing discovered with
  | nil => simpa using distinct
  | cons folder offers inductionHypothesis =>
      have stays : ((consider discovered folder).map Prod.fst).Nodup := by
        rw [consider_fst]
        split
        · exact distinct
        · next fresh =>
            rw [← List.concat_eq_append]
            exact distinct.concat fresh
      obtain ⟨merged, exactly⟩ := inductionHypothesis _ stays
      refine ⟨merged, fun name => (exactly name).trans ?_⟩
      rw [consider_fst, List.map_cons, List.mem_cons]
      split
      · next known =>
          constructor
          · rintro (old | new)
            · exact .inl old
            · exact .inr (.inr new)
          · rintro (old | rfl | new)
            · exact .inl old
            · exact .inl known
            · exact .inr new
      · rw [List.mem_append, List.mem_singleton, or_assoc]

/-! ## What the cache shows afterwards -/

/-- Whether the folder at a place is subscribed, if it is cached. -/
def shown (db : Db) (place : Place) : Option Bool :=
  (db.folders.rows.find? fun row => row.place = place).map Folder.subscribed

theorem shown_isSome_iff {db : Db} {place : Place} :
    (shown db place).isSome ↔ ∃ row ∈ db.folders.rows, row.place = place := by
  simp [shown, List.find?_isSome]

theorem shown_eq_some_iff {db : Db} {place : Place} {subscribed : Bool} :
    shown db place = some subscribed ↔
      ∃ row ∈ db.folders.rows,
        row.place = place ∧ row.subscribed = subscribed := by
  unfold shown
  rw [Option.map_eq_some_iff]
  constructor
  · rintro ⟨row, found, rfl⟩
    exact ⟨row, List.mem_of_find?_eq_some found, by
      simpa using List.find?_some found, rfl⟩
  · rintro ⟨row, member, rfl, rfl⟩
    cases search : db.folders.rows.find? fun other =>
        other.place = row.place with
    | none => simpa using List.find?_eq_none.mp search row member
    | some other =>
        have same : other.place = row.place := by
          simpa using List.find?_some search
        rw [db.onePlace other (List.mem_of_find?_eq_some search) row member
          same]
        exact ⟨row, rfl, rfl⟩

theorem shown_getByPath {db : Db} {place : Place} {subscribed : Bool}
    (present : shown db place = some subscribed) :
    ∃ folder, Folders.getByPath place db = .ok folder ∧
      folder.place = place ∧ folder.subscribed = subscribed := by
  unfold shown at present
  obtain ⟨row, found, rfl⟩ := Option.map_eq_some_iff.mp present
  refine ⟨row, ?_, by simpa using List.find?_some found, rfl⟩
  rw [Folders.getByPath, found]

theorem shown_updateFolder
    (db : Db) (id : Nat) (delimiter : String) (role : FolderRole)
    (place : Place) :
    shown (db.updateFolder id fun old =>
      { old with delimiter := delimiter, role := role }) place =
        shown db place := by
  unfold shown Db.updateFolder Relational.Table.update
  rw [List.find?_map]
  have samePlace : (fun row : Folder => decide (row.place = place)) ∘
      (fun row => if row.id = id then
        { row with delimiter := delimiter, role := role } else row) =
      fun row => decide (row.place = place) := by
    funext row
    simp only [Function.comp_apply]
    split <;> rfl
  simp only [decide_eq_true_eq]
  rw [samePlace, Option.map_map]
  congr 1
  funext row
  simp only [Function.comp_apply]
  split <;> rfl

/-- An upsert shows a new folder as subscribed, keeps the choice for a cached
one, and leaves the others alone. -/
theorem upsert_shown
    {db : Db} (place : Place) (delimiter : String) (role : FolderRole)
    (owned : place.accountId ∈ db.accounts) :
    ∃ after, Folders.upsert place delimiter role db = .ok after ∧
      after.accounts = db.accounts ∧
      ∀ other, shown after other =
        if other = place then some ((shown db place).getD true)
        else shown db other := by
  unfold Folders.upsert
  split
  · next taken =>
      obtain ⟨row, found⟩ : ∃ row,
          (db.folders.rows.find? fun row => row.place = place) = some row :=
        Option.isSome_iff_exists.mp
          (List.find?_isSome.mpr (by simpa using taken))
      refine ⟨_, rfl, ?_, fun other => ?_⟩
      · rw [found]
        rfl
      · rw [found]
        change shown (db.updateFolder row.id fun old =>
          { old with delimiter := delimiter, role := role }) other = _
        rw [shown_updateFolder]
        split
        · next same =>
            subst same
            unfold shown
            rw [found]
            rfl
        · rfl
  · next free =>
      refine ⟨_, rfl, rfl, fun other => ?_⟩
      have absent : shown db place = none := by
        rw [← Option.not_isSome_iff_eq_none, shown_isSome_iff]
        exact free
      rw [absent]
      unfold shown Db.insertFolder Relational.Table.insert
      simp only [List.find?_append]
      split
      · next same =>
          have missing : (db.folders.rows.find? fun row =>
              decide (row.place = place)) = none := by
            simpa [shown] using absent
          rw [same, missing]
          simp [Folder.place]
      · next different =>
          have other' : ¬ ((⟨place.accountId, place.path⟩ : Place) = other) :=
            fun same => different same.symm
          simp [Folder.place, other']

/-- The folders an upsert of a list returns: those of the list, with the
subscription the cache had for them. -/
theorem upsertDiscovered_shown
    {accountId : Nat} (found : List Found) (db : Db)
    (owned : accountId ∈ db.accounts) :
    ∃ after out, upsertDiscovered accountId db found = .ok (after, out) ∧
      after.accounts = db.accounts ∧
      out.map Folder.path = found.map Prod.fst ∧
      (∀ folder ∈ out, folder.accountId = accountId ∧
        folder.subscribed = (shown db folder.place).getD true) ∧
      ∀ place, shown after place =
        if place.accountId = accountId ∧ place.path ∈ found.map Prod.fst then
          some ((shown db place).getD true)
        else shown db place := by
  induction found generalizing db with
  | nil => exact ⟨db, [], rfl, rfl, rfl, by simp, by simp⟩
  | cons entry rest inductionHypothesis =>
      obtain ⟨path, delimiter, role⟩ := entry
      obtain ⟨middle, stored, accounts, middleShown⟩ :=
        upsert_shown ⟨accountId, path⟩ delimiter role owned
      have present := middleShown ⟨accountId, path⟩
      rw [if_pos rfl] at present
      obtain ⟨folder, got, folderPlace, folderSubscribed⟩ :=
        shown_getByPath present
      obtain ⟨after, out, upserted, afterAccounts, paths, kept, afterShown⟩ :=
        inductionHypothesis middle (accounts ▸ owned)
      have stable (place : Place) :
          (shown middle place).getD true = (shown db place).getD true := by
        rw [middleShown]
        split
        · next same =>
            subst same
            rfl
        · rfl
      refine ⟨after, folder :: out, ?_, afterAccounts.trans accounts, ?_, ?_,
        fun place => ?_⟩
      · rw [upsertDiscovered, stored]
        change (Folders.getByPath ⟨accountId, path⟩ middle >>= _) = _
        rw [got]
        change (upsertDiscovered accountId middle rest >>= _) = _
        rw [upserted]
        rfl
      · rw [List.map_cons, paths, List.map_cons]
        exact congrArg (· :: _) (congrArg Place.path folderPlace)
      · intro other member
        rcases List.mem_cons.mp member with rfl | later
        · refine ⟨congrArg Place.accountId folderPlace, ?_⟩
          rw [folderSubscribed, folderPlace]
        · obtain ⟨ownedOther, subscribed⟩ := kept other later
          exact ⟨ownedOther, subscribed.trans (stable other.place)⟩
      · rw [afterShown, stable, middleShown, List.map_cons]
        obtain ⟨owner, name⟩ := place
        simp only [Place.mk.injEq, List.mem_cons]
        by_cases ours : owner = accountId
        · subst ours
          by_cases here : name = path
          · subst here
            simp
          · simp only [here, and_false, false_or, true_and, if_false]
        · simp [ours]

/-- What a discovery of these names leaves: the folders returned, and what the
cache shows. -/
structure Refreshed (accountId : Nat) (names : List String)
    (before after : Db) (out : List Folder) : Prop where
  accounts : after.accounts = before.accounts
  distinct : (out.map Folder.path).Nodup
  paths : ∀ path, path ∈ out.map Folder.path ↔ path ∈ names
  kept : ∀ folder ∈ out, folder.accountId = accountId ∧
    folder.subscribed = (shown before folder.place).getD true
  shown : ∀ place, shown after place =
    if place.accountId = accountId ∧ place.path ∈ names then
      some ((shown before place).getD true)
    else shown before place

/-- Merging and upserting what the passes offer. -/
theorem upsert_merged
    {accountId : Nat} (offers : List Found) {db : Db}
    (owned : accountId ∈ db.accounts) :
    ∃ after out,
      upsertDiscovered accountId db (offers.foldl consider []) =
          .ok (after, out) ∧
        Refreshed accountId (offers.map Prod.fst) db after out := by
  obtain ⟨distinct, merged⟩ := foldl_consider offers [] List.nodup_nil
  have same (name : String) :
      name ∈ (offers.foldl consider []).map Prod.fst ↔
        name ∈ offers.map Prod.fst := by
    rw [merged]
    simp
  obtain ⟨after, out, upserted, accounts, paths, kept, afterShown⟩ :=
    upsertDiscovered_shown (offers.foldl consider []) db owned
  refine ⟨after, out, upserted, accounts, ?_, ?_, kept, ?_⟩
  · rwa [paths]
  · rwa [paths]
  · intro place
    rw [afterShown]
    simp only [same]

theorem discoverFolders_refreshed
    {lowercase : String → String} {session : Session} {accountId : Nat}
    (cache : Cache) {offers : List Found}
    (passes : allPasses lowercase session = .ok offers)
    (owned : accountId ∈ cache.db.accounts) (ended : Int) :
    ∃ after out,
      discoverFolders lowercase session accountId ended cache =
          .ok (⟨after, some (max ended 0)⟩, out) ∧
        Refreshed accountId (offers.map Prod.fst) cache.db after out := by
  obtain ⟨after, out, upserted, refreshed⟩ := upsert_merged offers owned
  refine ⟨after, out, ?_, refreshed⟩
  unfold discoverFolders
  rw [passes]
  change (upsertDiscovered accountId cache.db _ >>= _) = _
  rw [upserted]
  rfl

theorem discoverFoldersQuick_refreshed
    {lowercase : String → String} {session : Session} {accountId : Nat}
    {cache : Cache} {names : List Found}
    (bare : listPass lowercase session = .ok names)
    (owned : accountId ∈ cache.db.accounts) :
    ∃ after out,
      discoverFoldersQuick lowercase session accountId cache =
          .ok (⟨after, cache.stamp⟩, out) ∧
        Refreshed accountId (names.map Prod.fst) cache.db after out := by
  obtain ⟨after, out, upserted, refreshed⟩ := upsert_merged names owned
  refine ⟨after, out, ?_, refreshed⟩
  unfold discoverFoldersQuick
  rw [bare]
  change (upsertDiscovered accountId cache.db _ >>= _) = _
  rw [upserted]
  rfl

end Discovery
end Mailcore
