import Mailcore.Imap.Still

/-!
# The newest messages of a mailbox

The window of a mailbox is the newest of the UIDs a search looks at, page by
page, downwards from UIDNEXT.  The paged search of a sync finds exactly the
UIDs from its lower bound on.
-/

namespace Mailcore
namespace Imap

open Store Concurrent Concurrent.Fallible

/-- The lowest UID of this many pages of a span, downwards from a top. -/
def pageFloor (span top pages : Nat) : Nat := max (top + 1 - pages * span) 1

/-- How many pages are looked at: one more until it is enough, at most `left`
more. -/
def pagesUntil (enough : Nat → Bool) : Nat → Nat → Nat
  | 0, done => done
  | left + 1, done =>
      if enough (done + 1) then done + 1 else pagesUntil enough left (done + 1)

namespace Mailbox

variable {mailbox : Mailbox}

/-- The UIDs from a bound on. -/
def above (mailbox : Mailbox) (bound : Nat) : List Nat :=
  mailbox.uids.filter fun uid => bound ≤ uid

/-- The pages down to this one hold enough UIDs, or there are no more. -/
def enough (mailbox : Mailbox) (want span top pages : Nat) : Bool :=
  want ≤ (mailbox.above (pageFloor span top pages)).length ||
    pageFloor span top pages ≤ 1

/-- The lowest UID a search for the newest messages looks at. -/
def searchFloor (mailbox : Mailbox) (window : Option Nat) : Nat :=
  match window with
  | none => 1
  | some count =>
      let top := mailbox.uidNext.getD 0 - 1
      let span := max (searchSpan count) 1
      if top = 0 then 1
      else pageFloor span top
        (pagesUntil (mailbox.enough count span top) searchPageLimit 0)

/-- The UIDs of the window: the newest among those the search looks at. -/
def newest (mailbox : Mailbox) (window : Option Nat) : List Nat :=
  let recent := mailbox.above (mailbox.searchFloor window)
  match window with
  | none => recent
  | some count => recent.drop (recent.length - count)

/-- UIDs are positive. -/
def Numbered (mailbox : Mailbox) : Prop := ∀ uid ∈ mailbox.uids, 0 < uid

instance : Decidable mailbox.Numbered :=
  inferInstanceAs (Decidable (∀ _ ∈ _, _))

theorem mem_above {bound uid : Nat} :
    uid ∈ mailbox.above bound ↔ uid ∈ mailbox.uids ∧ bound ≤ uid := by
  simp [above]

theorem above_ascending (mailbox : Mailbox) (bound : Nat) :
    (mailbox.above bound).Pairwise (· < ·) :=
  mailbox.uids_ascending.filter _

theorem above_one (numbered : mailbox.Numbered) :
    mailbox.above 1 = mailbox.uids :=
  List.filter_eq_self.mpr fun uid member =>
    decide_eq_true (numbered uid member)

theorem newest_subset (window : Option Nat) :
    mailbox.newest window ⊆ mailbox.above (mailbox.searchFloor window) := by
  cases window with
  | none => exact List.Subset.refl _
  | some count => exact List.drop_subset _ _

theorem mem_uids_of_mem_newest {window : Option Nat} {uid : Nat}
    (member : uid ∈ mailbox.newest window) : uid ∈ mailbox.uids :=
  (mem_above.mp (newest_subset window member)).1

theorem searchFloor_le_of_mem_newest {window : Option Nat} {uid : Nat}
    (member : uid ∈ mailbox.newest window) :
    mailbox.searchFloor window ≤ uid :=
  (mem_above.mp (newest_subset window member)).2

/-- No UID is above UIDNEXT. -/
theorem uids_le_top {uid : Nat}
    (some_ : mailbox.uidNext.getD 0 - 1 ≠ 0) (member : uid ∈ mailbox.uids) :
    uid ≤ mailbox.uidNext.getD 0 - 1 := by
  obtain ⟨mail, mailMember, rfl⟩ := mem_uids.mp member
  cases announced : mailbox.uidNext with
  | none => simp [announced] at some_
  | some next =>
      have below := mailbox.announced mail mailMember next announced
      rw [Option.getD_some]
      omega

end Mailbox

theorem pageFloor_zero (span top : Nat) : pageFloor span top 0 = top + 1 := by
  unfold pageFloor
  omega

theorem one_le_pageFloor (span top pages : Nat) :
    1 ≤ pageFloor span top pages := Nat.le_max_right _ _

/-- The next page begins where the pages so far end. -/
theorem pageLo_eq {span top done hi : Nat} (positive : 0 < span)
    (here : hi + 1 = pageFloor span top done) :
    pageLo span hi = pageFloor span top (done + 1) := by
  unfold pageLo
  unfold pageFloor at here ⊢
  rw [Nat.succ_mul]
  omega

section Search

variable {chrono : Chrono} {ι : Type} [DecidableEq ι] {who : ι}
  {env : Environment} {place : Place} {mailbox : Mailbox}
  {world : World chrono ι}

/-- What a search reports: its lower bound, and all UIDs from there on. -/
structure Found (mailbox : Mailbox) (bound : Nat) (found : List Nat × Nat) :
    Prop where
  reached : found.2 = bound
  uids : found.1.Perm (mailbox.above bound)

/-- The pages downwards from one that is complete. -/
theorem searchPages_yields (works : At who place mailbox world)
    {want span top left done lo hi searchedLo : Nat} {found : List Nat}
    (positive : 0 < span)
    (low : lo = pageFloor span top (done + 1))
    (high : hi + 1 = pageFloor span top done)
    (soFar : found.Perm (mailbox.above (pageFloor span top done)))
    (last : left = 0 → searchedLo = pageFloor span top done) :
    Yields (respond chrono who) env.calm env.sure
      (searchPages chrono want span left lo hi found searchedLo) world
      fun all after => after = world ∧ Found mailbox
        (pageFloor span top (pagesUntil (mailbox.enough want span top) left
          done)) all := by
  induction left generalizing done lo hi found searchedLo with
  | zero => exact yields_pure ⟨rfl, last rfl, soFar⟩
  | succ left inductionHypothesis =>
      unfold searchPages
      refine (uidSearch_yields works (.range lo hi)).bind ?_
      rintro uids after ⟨rfl, hits, rfl⟩
      have here : (found ∪ searchReply mailbox hits (.range lo hi)).Perm
          (mailbox.above (pageFloor span top (done + 1))) := by
        have distinct : (searchReply mailbox hits (.range lo hi)).Nodup :=
          mailbox.uids_nodup.filter _
        refine (List.perm_ext_iff_of_nodup (distinct.union _)
          ((mailbox.above_ascending _).imp Nat.ne_of_lt)).mpr fun uid => ?_
        have inPage : uid ∈ searchReply mailbox hits (.range lo hi) ↔
            uid ∈ mailbox.uids ∧ lo ≤ uid ∧ uid ≤ hi := by
          simp [searchReply]
        have falls : lo ≤ hi + 1 := by
          rw [low, high]
          unfold pageFloor
          rw [Nat.succ_mul]
          omega
        rw [List.mem_union_iff, soFar.mem_iff, Mailbox.mem_above,
          Mailbox.mem_above, inPage, ← low, ← high]
        constructor
        · rintro (⟨there, above⟩ | ⟨there, above, _⟩)
          · exact ⟨there, Nat.le_trans falls above⟩
          · exact ⟨there, above⟩
        · rintro ⟨there, above⟩
          by_cases below : uid ≤ hi
          · exact .inr ⟨there, above, below⟩
          · exact .inl ⟨there, Nat.lt_of_not_le below⟩
      dsimp only
      subst low
      rw [here.length_eq]
      split
      · next stops =>
        refine yields_pure ⟨rfl, ?_⟩
        rw [pagesUntil, if_pos (by simpa [Mailbox.enough] using stops)]
        exact ⟨rfl, here⟩
      · next goesOn =>
        rw [pagesUntil, if_neg (by simpa [Mailbox.enough] using goesOn)]
        have next : pageFloor span top (done + 1) - 1 + 1 =
            pageFloor span top (done + 1) :=
          Nat.sub_add_cancel (one_le_pageFloor _ _ _)
        exact inductionHypothesis (pageLo_eq positive next) next here
          fun _ => rfl

/-- A search for the newest messages finds all from its bound on. -/
theorem searchRecentUids_yields (works : At who place mailbox world)
    (numbered : mailbox.Numbered) (window : Option Nat) :
    Yields (respond chrono who) env.calm env.sure
      (searchRecentUids chrono window mailbox.uidNext) world
      fun found after => after = world ∧
        Found mailbox (mailbox.searchFloor window) found := by
  have searchAll : Yields (respond chrono who) env.calm env.sure
      (do return (← uidSearch chrono .all, 1)) world fun found after =>
        after = world ∧ Found mailbox 1 found := by
    refine (uidSearch_yields works .all).bind ?_
    rintro uids after ⟨rfl, hits, rfl⟩
    refine yields_pure ⟨rfl, rfl, ?_⟩
    rw [Mailbox.above_one numbered]
    exact List.Perm.refl _
  unfold searchRecentUids Mailbox.searchFloor
  cases window with
  | none => exact searchAll
  | some count =>
      dsimp only
      split
      · exact searchAll
      · next some_ =>
        unfold searchPaged
        have none_ : mailbox.above (mailbox.uidNext.getD 0 - 1 + 1) = [] := by
          refine List.filter_eq_nil_iff.mpr fun uid member => ?_
          have beneath := Mailbox.uids_le_top some_ member
          simp only [decide_eq_true_eq]
          omega
        refine searchPages_yields works (by omega)
          (pageLo_eq (by omega) (pageFloor_zero _ _).symm)
          (pageFloor_zero _ _).symm ?_ nofun
        rw [pageFloor_zero, none_]

/-- The relevant UIDs of what was found are those of the window. -/
theorem inWindow_iff {window : Option Nat} {found : List Nat × Nat}
    (all : Found mailbox (mailbox.searchFloor window) found) {uid : Nat}
    (there : uid ∈ found.1) :
    inWindow (relevantUids window found.1) uid ↔
      uid ∈ mailbox.newest window := by
  have within := all.uids.mem_iff.mp there
  unfold inWindow relevantUids Mailbox.newest
  cases window with
  | none => simpa using within
  | some count =>
      have sorted : found.1.mergeSort (fun first second => first ≤ second) =
          mailbox.above (mailbox.searchFloor (some count)) := by
        refine List.Perm.eq_of_pairwise
          (fun _ _ _ _ upwards downwards => ?_)
          (List.pairwise_mergeSort ?_ ?_ found.1)
          ((mailbox.above_ascending _).imp fun {_ _} below => ?_)
          ((List.mergeSort_perm _ _).trans all.uids)
        all_goals simp only [decide_eq_true_eq, Bool.or_eq_true] at *
        · omega
        · intros
          omega
        · intros
          omega
        · exact Nat.le_of_lt below
      simp [sorted, all.uids.length_eq]

end Search

end Imap
end Mailcore
