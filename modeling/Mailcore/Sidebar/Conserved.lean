import Mailcore.Sidebar.Rows
import Mathlib.Algebra.Order.BigOperators.Group.List
import Mathlib.Algebra.Order.Ring.Nat

/-!
# What the rows count

Every folder is counted in the row of its nearest shown ancestor.  It is counted
in that row only, unless two closed rows that fold something away lie one below
the other.
-/

namespace Mailcore
namespace Sidebar

open Data (Ancestry)

section

variable {visible : List Folder} {expanded : List Nat}

/-- The row a folder belongs in: its own, or its nearest shown ancestor's. -/
def homeOf (visible : List Folder) (expanded : List Nat) (folder : Folder) :
    Option Folder :=
  (tree visible).nearest (isShown visible expanded) folder

/-- A row that is painted, closed, and folds a direct child away. -/
def Folds (visible : List Folder) (expanded : List Nat) (folder : Folder) : Prop :=
  isShown visible expanded folder = true ∧ isCollapsible visible folder = true ∧
    isOpen expanded folder = false

instance (visible : List Folder) (expanded : List Nat) (folder : Folder) :
    Decidable (Folds visible expanded folder) :=
  inferInstanceAs (Decidable (_ ∧ _))

theorem isShown_of_root
    {folder : Folder}
    (root : parentOf visible folder = none) :
    isShown visible expanded folder = true := by
  have top : (tree visible).parent folder = none := root
  rw [isShown, Ancestry.lineage_of_root top]
  rfl

/-- Whether a folder with a parent shows. -/
theorem isShown_of_parent
    {folder above : Folder}
    (child : parentOf visible folder = some above) :
    isShown visible expanded folder =
      (folderAlwaysVisible visible folder ||
        (isOpen expanded above && isShown visible expanded above)) := by
  have deep : folderDepth folder.path folder.delimiter ≠ 0 := by
    unfold parentOf at child
    simp only [Option.bind_eq_bind, Option.bind_eq_some_iff] at child
    obtain ⟨path, parent, _⟩ := child
    exact folderDepth_ne_zero parent
  have upwards : (tree visible).parent folder = some above := child
  rw [isShown, Ancestry.lineage_of_parent upwards, shownAlong]
  simp only [deep, decide_false, Bool.false_or, isOpen, isShown]
  cases folderAlwaysVisible visible folder <;> by_cases opened : above.id ∈ expanded <;>
    simp [opened]

theorem mem_of_parentOf
    {folder above : Folder}
    (child : parentOf visible folder = some above) :
    above ∈ visible := by
  unfold parentOf at child
  simp only [Option.bind_eq_bind, Option.bind_eq_some_iff] at child
  obtain ⟨_, _, found⟩ := child
  exact List.mem_of_find?_eq_some found

theorem mem_of_mem_lineage
    {folder above : Folder}
    (member : above ∈ (tree visible).lineage folder) :
    above ∈ visible := by
  induction folder using (tree visible).induct with
  | root folder root => simp [Ancestry.lineage_of_root root] at member
  | child folder parent child inductionHypothesis =>
      rw [Ancestry.lineage_of_parent child] at member
      rcases List.mem_cons.mp member with rfl | member
      · exact mem_of_parentOf child
      · exact inductionHypothesis member

/-- The home of a hidden folder is a row that folds, above the folder. -/
theorem folds_homeOf
    {folder : Folder}
    (member : folder ∈ visible)
    (hidden : isShown visible expanded folder = false) :
    ∃ home, homeOf visible expanded folder = some home ∧
      Folds visible expanded home ∧ home ∈ (tree visible).lineage folder := by
  induction folder using (tree visible).induct with
  | root folder root =>
      rw [isShown_of_root root] at hidden
      cases hidden
  | child folder above child inductionHypothesis =>
      have near : homeOf visible expanded folder = homeOf visible expanded above :=
        Ancestry.nearest_of_parent child hidden
      have lineage := Ancestry.lineage_of_parent child
      have within : above ∈ visible := mem_of_parentOf child
      rw [isShown_of_parent child, Bool.or_eq_false_iff] at hidden
      cases shown : isShown visible expanded above with
      | false =>
          obtain ⟨home, found, folds, higher⟩ := inductionHypothesis within shown
          refine ⟨home, near.trans found, folds, ?_⟩
          rw [lineage]
          exact List.mem_cons_of_mem _ higher
      | true =>
          refine ⟨above, near.trans (Ancestry.nearest_of_marked shown), ⟨shown, ?_, ?_⟩, ?_⟩
          · rw [isCollapsible, List.any_eq_true]
            refine ⟨folder, member, ?_⟩
            rw [show parentOf visible folder = some above from child]
            simp [hidden.1]
          · simpa [shown] using hidden.2
          · rw [lineage]
            exact List.mem_cons_self

theorem eq_of_id
    (ids : (visible.map Folder.id).Nodup)
    {first second : Folder}
    (one : first ∈ visible)
    (two : second ∈ visible)
    (same : first.id = second.id) :
    first = second :=
  List.inj_on_of_nodup_map ids one two same

/-- What a row counts besides its own folder: whatever is hidden below it, if
the row folds. -/
theorem mem_hiddenUnder
    (ids : (visible.map Folder.id).Nodup)
    {row folder : Folder}
    (member : row ∈ visible)
    (shown : isShown visible expanded row = true) :
    folder ∈ hiddenUnder visible expanded row ↔
      Folds visible expanded row ∧ folder ∈ visible ∧
        isShown visible expanded folder = false ∧
        row ∈ (tree visible).lineage folder := by
  have under : folder ∈ visible →
      ((folder.id ≠ row.id ∧ isUnder visible row.id folder = true) ↔
        row ∈ (tree visible).lineage folder) := by
    intro within
    simp only [isUnder, List.any_cons, Bool.or_eq_true, decide_eq_true_eq,
      List.any_eq_true]
    constructor
    · rintro ⟨differs, same | ⟨above, higher, same⟩⟩
      · exact absurd same differs
      · rw [← eq_of_id ids (mem_of_mem_lineage higher) member same]
        exact higher
    · intro higher
      refine ⟨fun same => ?_, Or.inr ⟨row, higher, rfl⟩⟩
      obtain rfl := eq_of_id ids within member same
      exact Ancestry.notMem_lineage folder higher
  unfold hiddenUnder Folds
  by_cases folding : isCollapsible visible row && !isOpen expanded row
  · rw [if_pos folding, List.mem_filter]
    rw [Bool.and_eq_true, Bool.not_eq_true'] at folding
    simp only [Bool.and_eq_true, decide_eq_true_eq, Bool.not_eq_true', shown, folding,
      true_and]
    constructor
    · rintro ⟨within, ⟨differs, hidden⟩, below⟩
      exact ⟨within, hidden, (under within).mp ⟨differs, below⟩⟩
    · rintro ⟨within, hidden, higher⟩
      obtain ⟨differs, below⟩ := (under within).mpr higher
      exact ⟨within, ⟨differs, hidden⟩, below⟩
  · rw [if_neg folding]
    rw [Bool.and_eq_true, Bool.not_eq_true'] at folding
    simp only [List.not_mem_nil, false_iff]
    rintro ⟨⟨_, collapsible, closed⟩, _⟩
    exact folding ⟨collapsible, closed⟩

/-- No row that folds lies below another. -/
def Unnested (visible : List Folder) (expanded : List Nat) : Prop :=
  ∀ upper ∈ visible, ∀ lower ∈ visible, Folds visible expanded upper →
    Folds visible expanded lower → upper ∉ (tree visible).lineage lower

instance : Decidable (Unnested visible expanded) :=
  inferInstanceAs (Decidable (∀ upper ∈ _, ∀ lower ∈ _, _ → _ → _))

/-- The folders a row counts, its own first. -/
def countedIn (visible : List Folder) (expanded : List Nat) (row : Folder) :
    List Folder :=
  row :: hiddenUnder visible expanded row

/-- Where no row that folds lies below another, a row counts what belongs in
it. -/
theorem mem_countedIn_iff
    (ids : (visible.map Folder.id).Nodup)
    (unnested : Unnested visible expanded)
    {row folder : Folder}
    (member : row ∈ visible)
    (shown : isShown visible expanded row = true) :
    folder ∈ countedIn visible expanded row ↔
      folder ∈ visible ∧ homeOf visible expanded folder = some row := by
  rw [countedIn, List.mem_cons, mem_hiddenUnder ids member shown]
  constructor
  · rintro (rfl | ⟨folds, within, hidden, higher⟩)
    · exact ⟨member, Ancestry.nearest_of_marked shown⟩
    · obtain ⟨home, found, homeFolds, above⟩ := folds_homeOf within hidden
      refine ⟨within, ?_⟩
      rcases Ancestry.mem_lineage_nearest found hidden higher shown with rfl | upper
      · exact found
      · exact absurd upper
          (unnested row member home (mem_of_mem_lineage above) folds homeFolds)
  · rintro ⟨within, found⟩
    cases self : isShown visible expanded folder with
    | true =>
        have own : homeOf visible expanded folder = some folder :=
          Ancestry.nearest_of_marked self
        left
        exact Option.some.inj (own.symm.trans found)
    | false =>
        obtain ⟨home, found', folds, above⟩ := folds_homeOf within self
        obtain rfl := Option.some.inj (found.symm.trans found')
        exact Or.inr ⟨folds, within, rfl, above⟩

/-- Where a row that folds lies below another, what the lower one hides is
counted in both. -/
theorem counted_twice
    (ids : (visible.map Folder.id).Nodup)
    {upper lower : Folder}
    (upperMember : upper ∈ visible)
    (lowerMember : lower ∈ visible)
    (upperFolds : Folds visible expanded upper)
    (lowerFolds : Folds visible expanded lower)
    (higher : upper ∈ (tree visible).lineage lower) :
    ∃ folder ∈ hiddenUnder visible expanded upper,
      homeOf visible expanded folder = some lower := by
  obtain ⟨shown, collapsible, closed⟩ := lowerFolds
  rw [isCollapsible, List.any_eq_true] at collapsible
  obtain ⟨folder, within, folding⟩ := collapsible
  simp only [Bool.and_eq_true, decide_eq_true_eq, Bool.not_eq_true',
    Option.map_eq_some_iff] at folding
  obtain ⟨⟨parent, child, same⟩, hides⟩ := folding
  obtain rfl := eq_of_id ids (mem_of_parentOf child) lowerMember same
  have hidden : isShown visible expanded folder = false := by
    rw [isShown_of_parent child, hides, closed]
    rfl
  refine ⟨folder, ?_, ?_⟩
  · rw [mem_hiddenUnder ids upperMember upperFolds.1]
    refine ⟨upperFolds, within, hidden, ?_⟩
    have upwards : (tree visible).parent folder = some parent := child
    rw [Ancestry.lineage_of_parent upwards]
    exact List.mem_cons_of_mem _ higher
  · exact (Ancestry.nearest_of_parent child hidden).trans
      (Ancestry.nearest_of_marked shown)

theorem nodup_countedIn
    (nodup : visible.Nodup)
    (row : Folder) :
    (countedIn visible expanded row).Nodup := by
  rw [countedIn, List.nodup_cons]
  unfold hiddenUnder
  split_ifs
  · exact ⟨by simp, nodup.filter _⟩
  · simp

end

section

variable (list : FolderList) (expanded : List Nat)

/-- The subscribed folders, which alone are painted. -/
def subscribed : List Folder :=
  list.folders.filter Folder.subscribed

/-- What the rows count for some number a folder has: the sum over the folders
that belong in the row. -/
def belonging (row : SidebarRow) : List Folder :=
  (subscribed list).filter fun folder =>
    ((homeOf (subscribed list) expanded folder).map Folder.id) = some row.id

/-- Every folder belongs in one painted row, and every row shows the counts of
the folders that belong in it. -/
structure Conserved (counts : Nat → Counts) : Prop where
  housed : ∀ folder ∈ subscribed list,
    ∃! row, row ∈ sidebarRows list counts expanded ∧ folder ∈ belonging list expanded row
  unread : ∀ row ∈ sidebarRows list counts expanded,
    row.unread = ((belonging list expanded row).map fun folder =>
      folderUnread folder (counts folder.id).unread).sum
  total : ∀ row ∈ sidebarRows list counts expanded,
    row.total = ((belonging list expanded row).map fun folder =>
      (counts folder.id).total).sum

variable {list expanded}

theorem nodup_ids : ((subscribed list).map Folder.id).Nodup :=
  (List.filter_sublist.map Folder.id).nodup list.ids

theorem nodup_subscribed : (subscribed list).Nodup :=
  List.Nodup.of_map _ nodup_ids

theorem mem_sidebarRows
    {counts : Nat → Counts} {row : SidebarRow} :
    row ∈ sidebarRows list counts expanded ↔
      ∃ folder ∈ subscribed list, isShown (subscribed list) expanded folder = true ∧
        rowOf (subscribed list) expanded counts folder = row := by
  simp only [sidebarRows, subscribed, List.mem_map, List.mem_filter, and_assoc]

/-- What belongs in the row of a shown folder. -/
theorem mem_belonging_rowOf
    {counts : Nat → Counts} {shown folder : Folder}
    (member : shown ∈ subscribed list) :
    folder ∈ belonging list expanded (rowOf (subscribed list) expanded counts shown) ↔
      folder ∈ subscribed list ∧
        homeOf (subscribed list) expanded folder = some shown := by
  rw [belonging, List.mem_filter, decide_eq_true_eq]
  refine and_congr_right fun within => ?_
  constructor
  · intro same
    obtain ⟨home, found, samed⟩ := Option.map_eq_some_iff.mp same
    replace same : home.id = shown.id := samed
    obtain ⟨_, itself | above⟩ := Ancestry.mem_of_nearest found
    · subst itself
      rw [found, eq_of_id nodup_ids within member same]
    · rw [found, eq_of_id nodup_ids (mem_of_mem_lineage above) member same]
  · intro found
    rw [found]
    rfl

/-- Every folder belongs in exactly one painted row. -/
theorem exists_unique_row
    (counts : Nat → Counts)
    {folder : Folder}
    (member : folder ∈ subscribed list) :
    ∃! row, row ∈ sidebarRows list counts expanded ∧
      folder ∈ belonging list expanded row := by
  obtain ⟨home, found, within, shown⟩ : ∃ home,
      homeOf (subscribed list) expanded folder = some home ∧
        home ∈ subscribed list ∧ isShown (subscribed list) expanded home = true := by
    cases self : isShown (subscribed list) expanded folder with
    | true => exact ⟨folder, Ancestry.nearest_of_marked self, member, self⟩
    | false =>
        obtain ⟨home, found, folds, above⟩ := folds_homeOf member self
        exact ⟨home, found, mem_of_mem_lineage above, folds.1⟩
  refine ⟨rowOf (subscribed list) expanded counts home,
    ⟨mem_sidebarRows.mpr ⟨home, within, shown, rfl⟩,
      (mem_belonging_rowOf within).mpr ⟨member, found⟩⟩, ?_⟩
  rintro row ⟨painted, belongs⟩
  obtain ⟨other, otherMember, _, rfl⟩ := mem_sidebarRows.mp painted
  obtain ⟨_, found'⟩ := (mem_belonging_rowOf otherMember).mp belongs
  rw [Option.some.inj (found.symm.trans found')]

/-- The sidebar conserves counts, whatever they are, exactly where no row that
folds something away lies below another. -/
theorem conserved_iff_unnested :
    (∀ counts, Conserved list expanded counts) ↔
      Unnested (subscribed list) expanded := by
  constructor
  · intro conserved upper upperMember lower lowerMember upperFolds lowerFolds higher
    obtain ⟨folder, counted, home⟩ := counted_twice nodup_ids upperMember lowerMember
      upperFolds lowerFolds higher
    have within := ((mem_hiddenUnder nodup_ids upperMember upperFolds.1).mp counted).2.1
    -- Counts of one for the folder that is counted twice, and of none elsewhere.
    let counts : Nat → Counts := fun id => if id = folder.id then ⟨1, 1⟩ else ⟨0, 0⟩
    have sum := (conserved counts).total (rowOf (subscribed list) expanded counts upper)
      (mem_sidebarRows.mpr ⟨upper, upperMember, upperFolds.1, rfl⟩)
    have nothing : ((belonging list expanded
        (rowOf (subscribed list) expanded counts upper)).map fun folder =>
          (counts folder.id).total).sum = 0 := by
      rw [List.sum_eq_zero_iff_forall_eq_nat]
      intro number listed
      obtain ⟨other, belongs, rfl⟩ := List.mem_map.mp listed
      obtain ⟨otherMember, otherHome⟩ := (mem_belonging_rowOf upperMember).mp belongs
      have differs : other.id ≠ folder.id := by
        intro same
        obtain rfl := eq_of_id nodup_ids otherMember within same
        obtain rfl := Option.some.inj (home.symm.trans otherHome)
        exact Ancestry.notMem_lineage lower higher
      simp [counts, differs]
    have something : 1 ≤ (rowOf (subscribed list) expanded counts upper).total := by
      have one : 1 ∈ (hiddenUnder (subscribed list) expanded upper).map fun other =>
          (counts other.id).total :=
        List.mem_map.mpr ⟨folder, counted, by simp [counts]⟩
      exact Nat.le_trans (List.single_le_sum (by simp) 1 one) (Nat.le_add_left _ _)
    omega
  · intro unnested counts
    have perm : ∀ folder ∈ subscribed list,
        isShown (subscribed list) expanded folder = true →
          (countedIn (subscribed list) expanded folder).Perm
            (belonging list expanded (rowOf (subscribed list) expanded counts folder)) := by
      intro folder member shown
      rw [belonging, List.perm_ext_iff_of_nodup (nodup_countedIn nodup_subscribed folder)
        (nodup_subscribed.filter _)]
      intro other
      rw [mem_countedIn_iff nodup_ids unnested member shown]
      exact (mem_belonging_rowOf member).symm
    refine ⟨fun folder member => exists_unique_row counts member, ?_, ?_⟩
    · intro row painted
      obtain ⟨folder, member, shown, rfl⟩ := mem_sidebarRows.mp painted
      have sums := ((perm folder member shown).map fun other =>
        folderUnread other (counts other.id).unread).sum_eq
      rwa [countedIn, List.map_cons, List.sum_cons] at sums
    · intro row painted
      obtain ⟨folder, member, shown, rfl⟩ := mem_sidebarRows.mp painted
      have sums := ((perm folder member shown).map fun other =>
        (counts other.id).total).sum_eq
      rwa [countedIn, List.map_cons, List.sum_cons] at sums

end

/-! ## A row below a row -/

namespace Sample

def folder (id : Nat) (path : String) (role : Imap.FolderRole) : Folder :=
  ⟨id, path.toList, ['/'], role, true⟩

/-- A closed folder of the user's with a folder of its own, and with the sent
mail, which has a folder of its own, too. -/
def folders : FolderList where
  folders := [folder 1 "Work" .custom, folder 2 "Work/Client" .custom,
    folder 3 "Work/Sent" .sent, folder 4 "Work/Sent/2020" .custom]
  ids := by decide
  paths := by decide

/-- One unread mail in the folder below the sent mail. -/
def counts (id : Nat) : Counts :=
  if id = 4 then ⟨1, 1⟩ else ⟨0, 0⟩

/-- The mail is counted in both rows that are painted. -/
theorem mail_counted_twice : ¬Conserved folders [] counts := by
  intro conserved
  have sum := conserved.total
    (rowOf (subscribed folders) [] counts (folder 1 "Work" .custom)) (by decide +kernel)
  revert sum
  decide +kernel

end Sample

end Sidebar
end Mailcore
