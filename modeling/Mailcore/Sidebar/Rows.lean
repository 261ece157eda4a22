import Mailcore.Data.Lineage
import Mailcore.Imap.Row
import Mailcore.Text.Slices
import Mathlib.Algebra.Ring.Nat

/-!
# Sidebar rows

The folders of one account folded into painted rows.  Well-known folders always
show, custom ones only while every ancestor up to the nearest always-visible
one is expanded, and a collapsed row carries counts of what it hides.
-/

namespace Mailcore
namespace Sidebar

open Data (Ancestry)
open Imap (FolderRole)
open Text (segments)

/-- `FolderRole::always_visible`. -/
def alwaysVisible (role : FolderRole) : Bool :=
  decide (role ≠ .custom)

structure Folder where
  id : Nat
  path : List Char
  delimiter : List Char
  role : FolderRole
  subscribed : Bool
  deriving DecidableEq, Repr

/-- The folders of an account as the table holds them: no two with one id, no
two with one path. -/
structure FolderList where
  folders : List Folder
  ids : (folders.map Folder.id).Nodup
  paths : (folders.map Folder.path).Nodup

structure Counts where
  total : Nat
  unread : Nat
  deriving DecidableEq, Repr

/-! ## Paths -/

/-- Hierarchy depth of a path: segments minus one. -/
def folderDepth (path delimiter : List Char) : Nat :=
  if delimiter = [] then 0 else (segments delimiter path).length - 1

/-- The parent of a path: everything but the last segment. -/
def parentPath (path delimiter : List Char) : Option (List Char) :=
  if delimiter = [] then none
  else
    let segments := segments delimiter path
    if segments.length < 2 then none
    else some (delimiter.intercalate segments.dropLast)

theorem length_parentPath_lt
    {path delimiter above : List Char}
    (parent : parentPath path delimiter = some above) :
    above.length < path.length := by
  unfold parentPath at parent
  simp only at parent
  split_ifs at parent with empty few
  obtain rfl := Option.some.inj parent
  have shorter := Text.length_intercalate_dropLast empty (Nat.le_of_not_lt few)
  rwa [Text.segments, Text.intercalate_segmentsIn] at shorter

/-- What has a parent is not at the top. -/
theorem folderDepth_ne_zero
    {path delimiter above : List Char}
    (parent : parentPath path delimiter = some above) :
    folderDepth path delimiter ≠ 0 := by
  unfold parentPath at parent
  simp only at parent
  split_ifs at parent with empty few
  rw [folderDepth, if_neg empty]
  omega

/-! ## Rows -/

def folderUnread (folder : Folder) (unread : Nat) : Nat :=
  if folder.role = .trash then 0 else unread

/-- One painted sidebar row. -/
structure SidebarRow where
  id : Nat
  collapsible : Bool
  expanded : Bool
  unread : Nat
  total : Nat
  deriving DecidableEq, Repr

section

variable (visible : List Folder)

/-- `role_by_path`. -/
def roleByPath (path : List Char) : Option FolderRole :=
  (visible.find? fun folder => folder.path = path).map Folder.role

def folderAlwaysVisible (folder : Folder) : Bool :=
  alwaysVisible folder.role ||
    ((parentPath folder.path folder.delimiter).bind (roleByPath visible)) =
      some .inbox

/-- `parent_of`: the folder that has the parent's path. -/
def parentOf (folder : Folder) : Option Folder := do
  let path ← parentPath folder.path folder.delimiter
  visible.find? fun other => other.path = path

theorem length_path_parentOf
    {folder above : Folder}
    (parent : parentOf visible folder = some above) :
    above.path.length < folder.path.length := by
  unfold parentOf at parent
  simp only [Option.bind_eq_bind, Option.bind_eq_some_iff] at parent
  obtain ⟨path, parent, found⟩ := parent
  have same := List.find?_some found
  rw [decide_eq_true_eq] at same
  rw [same]
  exact length_parentPath_lt parent

/-- The tree that the paths imply. -/
def tree : Ancestry Folder where
  parent := parentOf visible
  rank folder := folder.path.length
  falls _ _ parent := length_path_parentOf visible parent

variable (expanded : List Nat)

/-- The loop of `is_shown`, from a folder up its ancestors; what has no parent
shows whatever it is. -/
def shownAlong : Folder → List Folder → Bool
  | _, [] => true
  | folder, parent :: above =>
      if folderDepth folder.path folder.delimiter = 0 ||
          folderAlwaysVisible visible folder then
        true
      else if parent.id ∈ expanded then shownAlong parent above
      else false

def isShown (folder : Folder) : Bool :=
  shownAlong visible expanded folder ((tree visible).lineage folder)

/-- The loop of `is_under`. -/
def isUnder (row : Nat) (folder : Folder) : Bool :=
  (folder :: (tree visible).lineage folder).any fun above => above.id = row

/-- Collapsible only when the toggle hides something: a direct child that folds
away. -/
def isCollapsible (folder : Folder) : Bool :=
  visible.any fun child =>
    (parentOf visible child).map Folder.id = some folder.id &&
      !folderAlwaysVisible visible child

def isOpen (folder : Folder) : Bool :=
  decide (folder.id ∈ expanded)

/-- What a collapsed row counts besides its own folder. -/
def hiddenUnder (folder : Folder) : List Folder :=
  if isCollapsible visible folder && !isOpen expanded folder then
    visible.filter fun other =>
      other.id ≠ folder.id && !isShown visible expanded other &&
        isUnder visible folder.id other
  else
    []

def rowOf (counts : Nat → Counts) (folder : Folder) : SidebarRow where
  id := folder.id
  collapsible := isCollapsible visible folder
  expanded := isOpen expanded folder
  unread := folderUnread folder (counts folder.id).unread +
    ((hiddenUnder visible expanded folder).map fun other =>
      folderUnread other (counts other.id).unread).sum
  total := (counts folder.id).total +
    ((hiddenUnder visible expanded folder).map fun other =>
      (counts other.id).total).sum

end

/-- The painted rows of one account, in feed order; hidden rows are omitted. -/
def sidebarRows (list : FolderList) (counts : Nat → Counts)
    (expanded : List Nat) : List SidebarRow :=
  let visible := list.folders.filter Folder.subscribed
  (visible.filter (isShown visible expanded)).map (rowOf visible expanded counts)

end Sidebar
end Mailcore
