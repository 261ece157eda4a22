import Mailcore.Data.Block
import Mailcore.Imap.Statement
import Mathlib.Data.Prod.Lex
import Mathlib.Data.String.Basic

/-!
# The folder list as a tree

The folders of an account come in the order of a key: the weight and the text of
the top-level segment, then the whole path, in lower case, then the path itself.
The list reads as a tree exactly when no other folder's key lies between those
of a folder and of one below it.
-/

namespace Mailcore
namespace Imap
namespace Folders

open Data (Heads heads_iff pairwise_mergeSort_of_pairwise)

/-- The folders of an account in the order of their paths. -/
def byPath (accountId : Nat) (db : Db) : List Folder :=
  (db.folders.select fun row => row.accountId = accountId).mergeSort
    fun first second => first.path ≤ second.path

/-- A folder below another: its path goes on from the other's with its own
delimiter. -/
def Below (folder child : Folder) : Prop :=
  child.delimiter ≠ "" ∧
    folder.path.toList ++ child.delimiter.toList <+: child.path.toList

/-- What the sort compares. -/
def headKey (rows : List Folder) (row : Folder) : Nat ×ₗ String ×ₗ String :=
  toLex (topWeight rows row, toLex (topOf row, row.path.toLower))

/-- What the whole order goes by: rows the sort cannot tell apart keep the order
of their paths. -/
def sortKey (rows : List Folder) (row : Folder) :
    (Nat ×ₗ String ×ₗ String) ×ₗ String :=
  toLex (headKey rows row, row.path)

/-- The order of the list. -/
def Precedes (rows : List Folder) (first second : Folder) : Prop :=
  sortKey rows first < sortKey rows second

/-- Each folder once, and right behind it all folders below it. -/
structure TreeOrder (accountId : Nat) (db : Db) : Prop where
  once : (listByAccount accountId db).Perm
    (db.folders.select fun row => row.accountId = accountId)
  distinct : (listByAccount accountId db).Nodup
  tree : ∀ folder ∈ listByAccount accountId db,
    Heads (Below folder) folder (listByAccount accountId db)

/-- The keys leave each folder and those below it together. -/
def Together (accountId : Nat) (db : Db) : Prop :=
  ∀ folder ∈ byPath accountId db, ∀ child ∈ byPath accountId db,
    Below folder child → Precedes (byPath accountId db) folder child ∧
      ∀ other ∈ byPath accountId db, other ≠ folder → ¬Below folder other →
        Precedes (byPath accountId db) other folder ∨
          Precedes (byPath accountId db) child other

instance (rows : List Folder) : IsStrictOrder Folder (Precedes rows) where
  irrefl _ := lt_irrefl _
  trans _ _ _ := lt_trans

theorem not_below_self (folder : Folder) : ¬Below folder folder := by
  rintro ⟨separated, inside⟩
  have long := inside.length_le
  rw [List.length_append] at long
  have empty : folder.delimiter.toList = [] :=
    List.length_eq_zero_iff.mp (by omega)
  exact separated (String.toList_eq_nil_iff.mp empty)

/-- The sort compares keys. -/
theorem before_iff (rows : List Folder) (first second : Folder) :
    before rows first second = true ↔ headKey rows first ≤ headKey rows second := by
  unfold before headKey
  simp only [Prod.Lex.toLex_le_toLex, Bool.or_eq_true, Bool.and_eq_true,
    decide_eq_true_eq]

theorem before_trans (rows : List Folder) (first second third : Folder)
    (left : before rows first second) (right : before rows second third) :
    before rows first third := by
  rw [before_iff] at left right ⊢
  exact left.trans right

theorem before_total (rows : List Folder) (first second : Folder) :
    (before rows first second || before rows second first) = true := by
  rw [Bool.or_eq_true, before_iff, before_iff]
  exact le_total _ _

theorem precedes_of_before
    {rows : List Folder} {first second : Folder}
    (ordered : before rows first second = true)
    (ties : before rows second first = true → first.path < second.path) :
    Precedes rows first second := by
  rw [before_iff] at ordered ties
  unfold Precedes sortKey
  rw [Prod.Lex.toLex_lt_toLex]
  rcases ordered.lt_or_eq with less | same
  · exact .inl less
  · exact .inr ⟨same, ties same.ge⟩

variable {accountId : Nat} {db : Db}

theorem byPath_perm : (byPath accountId db).Perm
    (db.folders.select fun row => row.accountId = accountId) :=
  List.mergeSort_perm _ _

theorem byPath_nodup : (byPath accountId db).Nodup := by
  refine byPath_perm.nodup_iff.mpr ((db.folders.ascending.filter _).imp ?_)
  intro first second less same
  exact absurd (same ▸ less) (lt_irrefl _)

/-- Two folders of one account have two paths. -/
theorem path_injective
    {first second : Folder}
    (firstMember : first ∈ byPath accountId db)
    (secondMember : second ∈ byPath accountId db)
    (same : first.path = second.path) : first = second := by
  rw [byPath_perm.mem_iff] at firstMember secondMember
  obtain ⟨firstMember, firstOwned⟩ := List.mem_filter.mp firstMember
  obtain ⟨secondMember, secondOwned⟩ := List.mem_filter.mp secondMember
  refine db.onePlace _ firstMember _ secondMember ?_
  unfold Folder.place
  rw [of_decide_eq_true firstOwned, of_decide_eq_true secondOwned, same]

theorem byPath_sorted :
    (byPath accountId db).Pairwise fun first second => first.path < second.path := by
  have weak := @List.pairwise_mergeSort _
    (fun first second : Folder => decide (first.path ≤ second.path))
    (fun _ _ _ left right => by
      rw [decide_eq_true_eq] at left right ⊢
      exact left.trans right)
    (fun first second => by
      rw [Bool.or_eq_true, decide_eq_true_eq, decide_eq_true_eq]
      exact le_total _ _)
    (db.folders.select fun row => row.accountId = accountId)
  refine (List.Pairwise.and weak byPath_nodup).imp_of_mem ?_
  rintro first second firstMember secondMember ⟨ordered, different⟩
  rw [decide_eq_true_eq] at ordered
  exact ordered.lt_of_ne fun same =>
    different (path_injective firstMember secondMember same)

theorem listByAccount_perm :
    (listByAccount accountId db).Perm (byPath accountId db) :=
  List.mergeSort_perm _ _

/-- The list is in the order of the keys. -/
theorem listByAccount_sorted :
    (listByAccount accountId db).Pairwise (Precedes (byPath accountId db)) :=
  (pairwise_mergeSort_of_pairwise (before_trans _) (before_total _)
    byPath_sorted).imp fun ordered => precedes_of_before ordered.1 ordered.2

/-- When a folder stands in front of those below it. -/
theorem heads_below_iff {folder : Folder} (member : folder ∈ byPath accountId db) :
    Heads (Below folder) folder (listByAccount accountId db) ↔
      ∀ child ∈ byPath accountId db, Below folder child →
        Precedes (byPath accountId db) folder child ∧
          ∀ other ∈ byPath accountId db, other ≠ folder → ¬Below folder other →
            Precedes (byPath accountId db) other folder ∨
              Precedes (byPath accountId db) child other := by
  rw [heads_iff listByAccount_sorted (listByAccount_perm.mem_iff.mpr member)
    (not_below_self folder)]
  simp only [listByAccount_perm.mem_iff]

namespace Sample

/-- A folder, one below it, and one whose name only goes on. -/
def withSibling : Db :=
  (((Db.fresh [1]).insertFolder ⟨1, "A/B"⟩ "/" .custom
      (List.mem_singleton_self _) (by decide)).insertFolder ⟨1, "A/B C"⟩ "/" .custom
      (List.mem_singleton_self _) (by decide)).insertFolder ⟨1, "A/B/D"⟩ "/" .custom
      (List.mem_singleton_self _) (by decide)

theorem splitOn_samples :
    "A/B".splitOn "/" = ["A", "B"] ∧ "A/B C".splitOn "/" = ["A", "B C"] ∧
      "A/B/D".splitOn "/" = ["A", "B", "D"] := by
  refine ⟨?_, ?_, ?_⟩
  all_goals
    change String.splitOnAux _ _ 0 0 0 [] = _
    repeat
      first
      | rw [String.splitOnAux, if_neg (by decide), if_neg (by decide)]
      | rw [String.splitOnAux, if_neg (by decide), if_pos (by decide)]
        simp only
        rw [if_pos (by decide)]
      | rw [String.splitOnAux, if_pos (by decide)]
    decide +kernel

/-- Custom folders all weigh the same. -/
theorem topWeight_custom
    {rows : List Folder} (custom : ∀ row ∈ rows, row.role = .custom)
    {row : Folder} (member : row ∈ rows) : topWeight rows row = 6 := by
  unfold topWeight
  cases found : rows.find? fun other => ownsTop other && topOf other = topOf row with
  | none => rw [Option.getD_none, custom row member, roleWeight]
  | some owner =>
      rw [Option.getD_some, custom owner (List.mem_of_find?_eq_some found), roleWeight]

theorem mem_byPath_sample {row : Folder} :
    row ∈ byPath 1 withSibling ↔ row ∈ withSibling.folders.rows := by
  rw [byPath_perm.mem_iff,
    show withSibling.folders.select (fun row => row.accountId = 1) =
      withSibling.folders.rows from by decide]

/-- All three have the same top-level segment. -/
theorem topOf_sample : ∀ row ∈ withSibling.folders.rows, topOf row = "a" := by
  obtain ⟨first, second, third⟩ := splitOn_samples
  intro row member
  change row ∈ [_, _, _] at member
  simp only [List.mem_cons, List.not_mem_nil, or_false] at member
  rcases member with rfl | rfl | rfl
  all_goals
    unfold topOf splitTop
    simp only [first, second, third]
    decide +kernel

/-- So their paths alone decide. -/
theorem sortKey_sample
    {row : Folder} (member : row ∈ withSibling.folders.rows) :
    sortKey (byPath 1 withSibling) row =
      toLex (toLex (6, toLex ("a", row.path.toLower)), row.path) := by
  have custom : ∀ row ∈ withSibling.folders.rows, row.role = .custom := by decide
  unfold sortKey headKey
  rw [topOf_sample row member, topWeight_custom
    (fun row member => custom row (mem_byPath_sample.mp member))
    (mem_byPath_sample.mpr member)]

end Sample

end Folders
end Imap
end Mailcore
