import Mathlib
import Mailcore.Background.Notify
import Mailcore.Text.Decimal

/-!
# Tags

A notification's tag names one account or one mail.
-/

namespace Mailcore
namespace Background

/-- What tells one mail from another. -/
def NewMail.key (mail : NewMail) : Int × Int × Nat :=
  (mail.accountId, mail.folderId, mail.uid)

theorem colon_notMem (value : Int) : ':' ∉ value.repr.toList :=
  Text.notMem_repr rfl (by decide) value

/-- Texts are split at the first separator in one way only. -/
theorem split_inj {α : Type} {separator : α} {first second : List α}
    (firstClean : separator ∉ first)
    (secondClean : separator ∉ second)
    {firstRest secondRest : List α}
    (same : first ++ separator :: firstRest =
      second ++ separator :: secondRest) :
    first = second ∧ firstRest = secondRest := by
  induction first generalizing second with
  | nil =>
      cases second with
      | nil => simpa using same
      | cons head tail =>
          injection same with headSame
          exact absurd (headSame ▸ List.mem_cons_self) secondClean
  | cons head tail inductionHypothesis =>
      cases second with
      | nil =>
          injection same with headSame
          exact absurd (headSame ▸ List.mem_cons_self) firstClean
      | cons otherHead otherTail =>
          injection same with headSame tailSame
          rw [List.mem_cons, not_or] at firstClean secondClean
          obtain ⟨tails, rests⟩ :=
            inductionHypothesis firstClean.2 secondClean.2 tailSame
          exact ⟨by rw [headSame, tails], rests⟩

/-- A mail's tag names its account, folder and UID. -/
theorem openPayload_inj {first second : NewMail} :
    openPayload first = openPayload second ↔ first.key = second.key := by
  constructor
  · intro same
    have chars := congrArg String.toList same
    have colon : ":".toList = [':'] := rfl
    simp only [openPayload, openPayloadPrefix, String.toList_append,
      List.append_assoc, colon, List.cons_append, List.nil_append] at chars
    have accounts := (List.append_cancel_left_eq _ _ _).mp chars
    obtain ⟨account, folders⟩ :=
      split_inj (colon_notMem _) (colon_notMem _) accounts
    obtain ⟨folder, uid⟩ :=
      split_inj (colon_notMem _) (colon_notMem _) folders
    rw [NewMail.key, NewMail.key,
      Int.repr_inj.mp (String.toList_inj.mp account),
      Int.repr_inj.mp (String.toList_inj.mp folder),
      Nat.repr_inj.mp (String.toList_inj.mp uid)]
  · intro same
    have parts := Prod.ext_iff.mp same
    have rest := Prod.ext_iff.mp parts.2
    change first.accountId = second.accountId ∧ _ at parts
    change first.folderId = second.folderId ∧ first.uid = second.uid at rest
    rw [openPayload, openPayload, parts.1, rest.1, rest.2]

/-- A summary's tag names its account. -/
theorem summaryTag_inj {first second : Int} :
    summaryTag first = summaryTag second ↔ first = second := by
  rw [summaryTag, summaryTag, String.append_right_inj, Int.repr_inj]

/-- A summary and a mail never share a tag. -/
theorem summaryTag_ne_openPayload (accountId : Int) (mail : NewMail) :
    summaryTag accountId ≠ openPayload mail := by
  intro same
  have chars := congrArg (fun text => text.toList.head?) same
  simp [summaryTag, summaryTagPrefix, openPayload, openPayloadPrefix,
    String.toList_append] at chars

end Background
end Mailcore
