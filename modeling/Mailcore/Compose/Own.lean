import Mailcore.Concurrent.Alone
import Mailcore.Compose.Send

/-!
# Every step stores under the account it found

A desk watches one process: the account it was started under, the account its
current step has found, and the account a send was prepared under.  Whatever a
step stores or sends is under the account it found, and it looks for no other
one than its own; only the fallback of `resolve_account` can find another.
-/

namespace Mailcore
namespace Compose

open Concurrent Concurrent.Fallible

/-- What is known of one process. -/
structure Desk where
  captured : Int
  /-- The account the current step has found. -/
  found : Option Nat := none
  /-- The account of the send the process has prepared. -/
  prepared : Option Nat := none
  deriving DecidableEq

namespace Desk

/-- A step keeps to the first account it finds. -/
def find (desk : Desk) (accountId : Nat) : Desk :=
  { desk with found := some (desk.found.getD accountId) }

/-- A step ends. -/
def report (desk : Desk) (step : Step) (succeeded : Bool) : Desk :=
  { desk with
    found := none
    prepared := if step = .prepareSend ∧ succeeded then desk.found
      else desk.prepared }

/-- The calls a process may make. -/
def allows (desk : Desk) : Call → Prop
  | .accountsGet id =>
      desk.found.isSome ∨ id = desk.captured ∨
        ∃ accountId, desk.prepared = some accountId ∧ id = accountId
  | .enqueue accountId _ _ => desk.found = some accountId
  | .submitRaw account _ => desk.found = some account.id
  | .createFolderPath account _ _ => desk.found = some account.id
  | .append account _ _ _ => desk.found = some account.id
  | .report _ true => desk.found.isSome
  | _ => True

/-- What a call and its reply tell of the process. -/
def next (desk : Desk) : (call : Call) → Except String call.Value → Desk
  | .accountsGet _, .ok account => desk.find account.id
  | .accountsList, .ok listed =>
      match listed.head? with
      | some account => desk.find account.id
      | none => desk
  | .report step succeeded, _ => desk.report step succeeded
  | _, _ => desk

theorem find_of_found {desk : Desk} {mine : Nat}
    (found : desk.found = some mine) (accountId : Nat) :
    desk.find accountId = desk := by
  cases desk
  simp_all [find]

end Desk

/-- The monitor of the composer's processes. -/
@[reducible] def ownMonitor : Monitor signature where
  State := Desk
  allows := Desk.allows
  next := Desk.next

/-! ## After the account is found -/

section Found

variable {desk : Desk} {account : Account}

/-- A call that neither looks an account up, nor stores, nor reports. -/
def Call.isQuiet : Call → Bool
  | .accountsGet _ | .accountsList | .enqueue _ _ _ | .submitRaw _ _
  | .createFolderPath _ _ _ | .append _ _ _ _ | .report _ _ => false
  | _ => true

theorem quiet_idles {call : Call} (quiet : call.isQuiet = true) :
    Idles ownMonitor desk (perform call) := by
  cases call <;> first
    | exact Idles.perform trivial fun _ => rfl
    | exact absurd quiet Bool.false_ne_true

theorem deleteMessage_idles (messageId : Nat) :
    Idles ownMonitor desk (deleteMessage account messageId) := by
  refine (quiet_idles rfl).bind fun message => ?_
  refine (quiet_idles rfl).bind fun folder => ?_
  refine (quiet_idles rfl).bind fun _ => ?_
  refine (quiet_idles rfl).bind fun _ => ?_
  exact (quiet_idles rfl).bind fun _ => quiet_idles rfl

theorem draftsFolder_idles (accountId : Nat) :
    Idles ownMonitor desk (draftsFolder accountId) := by
  refine (quiet_idles rfl).attempt.bind fun known => ?_
  cases known with
  | ok known => exact Idles.pure _
  | error error => exact Idles.pure _

/-- A call that stores under the account the step has found. -/
theorem stores_idles (mine : desk.found = some account.id) :
    (∀ form sendAt, Idles ownMonitor desk
        (perform (.enqueue account.id form sendAt))) ∧
      (∀ row, Idles ownMonitor desk (perform (.submitRaw account row))) ∧
      (∀ path delimiter, Idles ownMonitor desk
        (perform (.createFolderPath account path delimiter))) ∧
      ∀ path raw draft, Idles ownMonitor desk
        (perform (.append account path raw draft)) :=
  ⟨fun _ _ => Idles.perform mine fun _ => rfl,
    fun _ => Idles.perform mine fun _ => rfl,
    fun _ _ => Idles.perform mine fun _ => rfl,
    fun _ _ _ => Idles.perform mine fun _ => rfl⟩

theorem draftsOrCreate_idles (mine : desk.found = some account.id) :
    Idles ownMonitor desk (draftsOrCreate account) := by
  refine (draftsFolder_idles account.id).bind fun drafts => ?_
  cases drafts with
  | some drafts => exact Idles.pure _
  | none =>
      refine (quiet_idles rfl).attempt.bind fun known => ?_
      exact (quiet_idles rfl).bind fun _ => (stores_idles mine).2.2.1 _ _

theorem sourceDraft_idles (drafts : Folder) (form : ComposeForm) :
    Idles ownMonitor desk (sourceDraft drafts form) := by
  unfold sourceDraft
  split
  · refine (quiet_idles rfl).attempt.bind fun source => ?_
    cases source with
    | error error => exact Idles.throw _
    | ok source =>
        dsimp only
        split
        · exact Idles.pure _
        · exact Idles.throw _
  · exact Idles.pure _

theorem removePrevious_idles (source : Option Message) :
    Idles ownMonitor desk (removePrevious account source) := by
  cases source with
  | none => exact Idles.pure _
  | some source =>
      refine (deleteMessage_idles source.id).attempt.bind fun outcome => ?_
      cases outcome with
      | ok done => exact Idles.pure _
      | error error => exact Idles.pure _

theorem openDraft_idles (folderId uid : Nat) :
    Idles ownMonitor desk (openDraft folderId uid) := by
  refine (quiet_idles rfl).attempt.bind fun folder => ?_
  cases folder with
  | error error => exact Idles.throw _
  | ok folder =>
      refine (quiet_idles rfl).attempt.bind fun message => ?_
      cases message with
      | error error => exact Idles.throw _
      | ok message =>
          dsimp only
          split
          · exact Idles.pure _
          · exact Idles.throw _

theorem submitClaimed_idles (mine : desk.found = some account.id)
    (queueId : Nat) :
    Idles ownMonitor desk (submitClaimed account queueId) := by
  refine (quiet_idles rfl).bind fun row => ?_
  split
  · exact Idles.throw _
  · exact ((stores_idles mine).2.1 row).bind fun _ =>
      (quiet_idles rfl).ignore

/-- A second lookup changes nothing for a step that has found its account. -/
theorem accountsGet_idles (mine : desk.found = some account.id) (id : Int) :
    Idles ownMonitor desk (perform (.accountsGet id)) := by
  refine Idles.perform (.inl (by simp [mine])) fun reply => ?_
  cases reply with
  | ok other => exact Desk.find_of_found mine other.id
  | error error => rfl

theorem saveSentCopy_idles (mine : desk.found = some account.id)
    (raw : List UInt8) :
    Idles ownMonitor desk (saveSentCopy account raw) := by
  refine (quiet_idles rfl).bind fun _ => ?_
  refine (accountsGet_idles mine _).bind fun current => ?_
  split
  · exact Idles.pure _
  · refine (quiet_idles rfl).bind fun known => ?_
    split
    · exact Idles.pure _
    · exact (stores_idles mine).2.2.2 _ _ _

theorem removeSourceDraft_idles (uid : Nat) :
    Idles ownMonitor desk (removeSourceDraft account uid) := by
  refine (draftsFolder_idles account.id).bind fun drafts => ?_
  cases drafts with
  | none => exact Idles.throw _
  | some drafts =>
      refine (quiet_idles rfl).attempt.bind fun source => ?_
      cases source with
      | error error => exact Idles.throw _
      | ok source =>
          dsimp only
          split
          · exact (quiet_idles rfl).bind fun _ => deleteMessage_idles _
          · exact Idles.throw _

theorem refreshFolder_idles (folderId : Nat) :
    Idles ownMonitor desk (refreshFolder account folderId) :=
  (quiet_idles rfl).bind fun _ => quiet_idles rfl

theorem refreshViewed_idles (viewed : Int) :
    Idles ownMonitor desk (refreshViewed account viewed) := by
  refine (quiet_idles rfl).attempt.bind fun folder => ?_
  cases folder with
  | error error => exact Idles.pure _
  | ok folder =>
      dsimp only
      split
      · exact (refreshFolder_idles _).ignore
      · exact Idles.pure _

theorem refreshSent_idles (sent : Option Folder) :
    Idles ownMonitor desk (refreshSent account sent) := by
  cases sent with
  | none => exact Idles.pure _
  | some folder => exact (refreshFolder_idles folder.id).ignore

theorem refreshAfterSend_idles (viewed : Int) :
    Idles ownMonitor desk (refreshAfterSend account viewed) := by
  refine (quiet_idles rfl).attempt.bind fun known => ?_
  refine (refreshSent_idles _).bind fun _ => ?_
  split
  · exact refreshViewed_idles viewed
  · exact Idles.pure _

theorem fileSent_idles (mine : desk.found = some account.id)
    (sent : PreparedSend) (viewed : Int) :
    Idles ownMonitor desk (fileSent account sent viewed) := by
  refine (saveSentCopy_idles mine sent.raw).ignore.bind fun _ => ?_
  split
  · exact (removeSourceDraft_idles _).ignore.bind fun _ =>
      refreshAfterSend_idles viewed
  · exact refreshAfterSend_idles viewed

end Found

/-! ## Finding the account -/

/-- The process is the one it was, whatever its step has found. -/
def Steady (desk reached : Desk) : Prop :=
  reached.captured = desk.captured ∧ reached.prepared = desk.prepared

/-- A step that succeeds has found an account, which its result names. -/
def FoundBy {α : Type} (names : α → Nat → Prop) (desk : Desk)
    (result : Except String α) (reached : Desk) : Prop :=
  Steady desk reached ∧
    ∀ value, result = .ok value →
      ∃ mine, reached.found = some mine ∧ names value mine

/-- A lookup that finds no account leaves the desk as it is. -/
def Located (desk : Desk) : Except String Account → Desk → Prop
  | .ok account, reached => reached = desk.find account.id
  | .error _, reached => reached = desk

section Locate

variable {desk : Desk}

theorem firstAccount_keeps :
    Keeps ownMonitor firstAccount desk (Located desk) := by
  unfold firstAccount
  rw [keeps_perform_bind]
  refine ⟨trivial, fun listed => ?_, fun _ => rfl⟩
  cases first : listed.head? with
  | none =>
      rw [keeps_throw]
      simp [Located, Desk.next, first]
  | some account =>
      rw [keeps_pure]
      simp [Located, Desk.next, first]

theorem resolveAccount_keeps {wanted : Int}
    (mine : wanted = desk.captured ∨
      ∃ accountId, desk.prepared = some accountId ∧ wanted = accountId) :
    Keeps ownMonitor (resolveAccount wanted) desk (Located desk) := by
  unfold resolveAccount
  split
  · rw [keeps_attempt_bind, keeps_perform]
    refine ⟨.inr mine, fun reply => ?_⟩
    cases reply with
    | ok account => exact rfl
    | error error => exact firstAccount_keeps
  · exact firstAccount_keeps

theorem jobAccount_keeps {captured : Int}
    (mine : captured = desk.captured ∨
      ∃ accountId, desk.prepared = some accountId ∧ captured = accountId) :
    Keeps ownMonitor (jobAccount captured) desk (Located desk) := by
  unfold jobAccount
  split
  · exact resolveAccount_keeps mine
  · rw [keeps_attempt_bind, keeps_perform]
    refine ⟨.inr mine, fun reply => ?_⟩
    cases reply with
    | ok account => exact rfl
    | error error => exact rfl

/-- A step that works on under the account it has found. -/
theorem Located.followed {α : Type} {locate : ComposeProgram Account}
    {work : Account → ComposeProgram α} {names : α → Nat → Prop}
    (fresh : desk.found = none)
    (located : Keeps ownMonitor locate desk (Located desk))
    (works : ∀ account reached, reached.found = some account.id →
      Keeps ownMonitor (work account) reached fun result after =>
        after = reached ∧ ∀ value, result = .ok value → names value account.id) :
    Keeps ownMonitor (locate >>= work) desk (FoundBy names desk) := by
  refine located.bind ?_ ?_
  · rintro account _ rfl
    have mine : (desk.find account.id).found = some account.id := by
      simp [Desk.find, fresh]
    refine (works account _ mine).mono ?_
    rintro result _ ⟨rfl, named⟩
    exact ⟨⟨rfl, rfl⟩, fun value ok => ⟨account.id, mine, named value ok⟩⟩
  · rintro error _ rfl
    exact ⟨⟨rfl, rfl⟩, nofun⟩

/-- A program that leaves the desk and ends with a value made from what it
read. -/
theorem idles_then_pure {α β : Type} {program : ComposeProgram α}
    (idles : Idles ownMonitor desk program) (make : α → β)
    {claim : β → Prop} (made : ∀ value, claim (make value)) :
    Keeps ownMonitor (do let value ← program; pure (make value)) desk
      fun result after =>
        after = desk ∧ ∀ value, result = .ok value → claim value := by
  refine idles.followed (fun value => ⟨rfl, ?_⟩) fun error => ⟨rfl, nofun⟩
  rintro _ ⟨⟩
  exact made value

/-! ## The steps -/

theorem enqueueSendAt_idles {account : Account}
    (mine : desk.found = some account.id) (form : ComposeForm)
    (sendAt : Option String) :
    Idles ownMonitor desk (enqueueSendAt account form sendAt) := by
  refine (quiet_idles rfl).bind fun built => ?_
  exact ((stores_idles mine).1 built sendAt).bind fun _ => Idles.pure _

theorem prepareSend_keeps (fresh : desk.found = none)
    {accountId : Int} (mine : accountId = desk.captured)
    (form : ComposeForm) :
    Keeps ownMonitor (prepareSend accountId form) desk
      (FoundBy (fun prepared mine => prepared.accountId = mine) desk) := by
  unfold prepareSend
  cases form.requireRecipient with
  | error error => exact ⟨⟨rfl, rfl⟩, nofun⟩
  | ok _ =>
      refine Located.followed fresh (resolveAccount_keeps (.inl mine)) ?_
      intro account reached found
      exact idles_then_pure (enqueueSendAt_idles found form none) _
        fun _ => rfl

theorem prepareScheduled_keeps (fresh : desk.found = none)
    {accountId : Int} (mine : accountId = desk.captured)
    (form : ComposeForm) (sendAt : String) :
    Keeps ownMonitor (prepareScheduled accountId form sendAt) desk
      (FoundBy (fun _ _ => True) desk) := by
  unfold prepareScheduled
  cases form.requireRecipient with
  | error error => exact ⟨⟨rfl, rfl⟩, nofun⟩
  | ok _ =>
      refine (quiet_idles rfl).followed (fun sendAt => ?_)
        fun error => ⟨⟨rfl, rfl⟩, nofun⟩
      refine Located.followed fresh (resolveAccount_keeps (.inl mine)) ?_
      intro account reached found
      exact idles_then_pure (enqueueSendAt_idles found form (some sendAt)) _
        fun _ => trivial

theorem saveDraft_keeps (fresh : desk.found = none)
    {accountId : Int} (mine : accountId = desk.captured)
    (form : ComposeForm) :
    Keeps ownMonitor (saveDraft accountId form) desk
      (FoundBy (fun _ _ => True) desk) := by
  refine Located.followed fresh (jobAccount_keeps (.inl mine)) ?_
  intro account reached found
  refine Keeps.mono (Idles.bind (draftsOrCreate_idles found) fun drafts => ?_)
    fun result after same => ⟨same, fun _ _ => trivial⟩
  refine (sourceDraft_idles drafts form).bind fun source => ?_
  refine (quiet_idles rfl).bind fun raw => ?_
  refine (quiet_idles rfl).bind fun _ => ?_
  refine ((stores_idles found).2.2.2 _ _ _).bind fun _ => ?_
  refine (removePrevious_idles source).bind fun _ => ?_
  exact (quiet_idles rfl).bind fun _ => Idles.pure _

theorem deleteDraft_keeps (fresh : desk.found = none)
    {accountId : Int} (mine : accountId = desk.captured) (uid : Nat) :
    Keeps ownMonitor (deleteDraft accountId uid) desk
      (FoundBy (fun _ _ => True) desk) := by
  refine Located.followed fresh (jobAccount_keeps (.inl mine)) ?_
  intro account reached found
  refine Keeps.mono (Idles.bind (draftsFolder_idles account.id)
    fun drafts => ?_) fun result after same => ⟨same, fun _ _ => trivial⟩
  cases drafts with
  | none => exact Idles.throw _
  | some drafts =>
      refine (openDraft_idles _ _).bind fun message => ?_
      refine (quiet_idles rfl).bind fun _ => ?_
      exact (deleteMessage_idles _).bind fun _ => Idles.pure _

/-- A failed send fails. -/
theorem fail_keeps {α : Type} (names : α → Nat → Prop) {before : Desk}
    (steady : Steady before desk) (sent : PreparedSend) (error : String) :
    Keeps ownMonitor (sent.fail error : ComposeProgram α) desk
      (FoundBy names before) :=
  (quiet_idles rfl).ignore.followed (fun _ => ⟨steady, nofun⟩)
    fun _ => ⟨steady, nofun⟩

/-- A failed delivery has found its account, or none. -/
theorem deliveryAccount_keeps {accountId : Nat}
    (mine : desk.prepared = some accountId) :
    Keeps ownMonitor (deliveryAccount accountId) desk
      fun result reached =>
        match result with
        | .ok account => reached = desk.find account.id
        | .error _ => Steady desk reached := by
  refine (jobAccount_keeps (.inr ⟨accountId, mine, rfl⟩)).bind ?_ ?_
  · rintro account _ rfl
    refine (quiet_idles rfl).attempt.followed (fun secrets => ?_)
      fun error => ⟨rfl, rfl⟩
    cases secrets with
    | ok _ => exact rfl
    | error error => exact ⟨rfl, rfl⟩
  · rintro error _ rfl
    exact ⟨rfl, rfl⟩

theorem deliver_keeps (fresh : desk.found = none) {sent : PreparedSend}
    (mine : desk.prepared = some sent.accountId) (viewed : Int) :
    Keeps ownMonitor (deliver sent viewed) desk
      (FoundBy (fun _ _ => True) desk) := by
  unfold deliver
  rw [keeps_attempt_bind]
  refine (deliveryAccount_keeps mine).mono ?_
  rintro (error | account) reached located
  · exact fail_keeps _ located sent error
  · subst located
    have found : (desk.find account.id).found = some account.id := by
      simp [Desk.find, fresh]
    refine (submitClaimed_idles found sent.queueId).attempt.followed
      (fun submitted => ?_) fun error => ⟨⟨rfl, rfl⟩, nofun⟩
    cases submitted with
    | error error => exact fail_keeps _ ⟨rfl, rfl⟩ sent error
    | ok _ =>
        refine (fileSent_idles found sent viewed).followed
          (fun _ => ⟨⟨rfl, rfl⟩, fun _ _ => ⟨account.id, found, trivial⟩⟩)
          fun error => ⟨⟨rfl, rfl⟩, nofun⟩

/-- A reported step leaves the desk ready for the next one. -/
theorem reported_keeps {α : Type} {program : ComposeProgram α}
    {names : α → Nat → Prop} (step : Step)
    (keeps : Keeps ownMonitor program desk (FoundBy names desk)) :
    Keeps ownMonitor (reported step program) desk fun result reached =>
      reached.captured = desk.captured ∧ reached.found = none ∧
        ∀ value, result = .ok value → step = .prepareSend →
          ∃ mine, reached.prepared = some mine ∧ names value mine := by
  unfold reported
  rw [keeps_attempt_bind]
  refine keeps.mono ?_
  rintro (error | value) reached ⟨⟨captured, prepared⟩, found⟩
  · rw [keeps_perform_bind]
    exact ⟨trivial, fun _ => ⟨captured, rfl, nofun⟩,
      fun _ => ⟨captured, rfl, nofun⟩⟩
  · obtain ⟨mine, found, named⟩ := found value rfl
    rw [keeps_perform_bind]
    refine ⟨by simp [Desk.allows, found], fun _ => ⟨captured, rfl, ?_⟩,
      fun _ => ⟨captured, rfl, nofun⟩⟩
    rintro _ ⟨⟩ rfl
    exact ⟨mine, by simp [Desk.next, Desk.report, found], named⟩

theorem sendMail_keeps (fresh : desk.found = none) {accountId : Int}
    (mine : accountId = desk.captured) (form : ComposeForm) (viewed : Int) :
    Keeps ownMonitor (sendMail accountId form viewed) desk
      fun _ _ => True := by
  unfold sendMail
  refine Keeps.bind (reported_keeps .prepareSend
    (prepareSend_keeps fresh mine form)) ?_ fun _ _ _ => trivial
  intro prepared reached ready
  obtain ⟨-, fresh, named⟩ := ready
  obtain ⟨_, prepares, same⟩ := named prepared rfl rfl
  rw [← same] at prepares
  exact (reported_keeps .deliver (deliver_keeps fresh prepares viewed)).mono
    fun _ _ _ => trivial

theorem scheduleMail_keeps (fresh : desk.found = none) {accountId : Int}
    (mine : accountId = desk.captured) (form : ComposeForm)
    (sendAt : String) :
    Keeps ownMonitor (scheduleMail accountId form sendAt) desk
      fun _ _ => True := by
  unfold scheduleMail
  refine Keeps.bind (reported_keeps .prepareScheduled
    (prepareScheduled_keeps fresh mine form sendAt)) ?_ fun _ _ _ => trivial
  intro held reached ready
  obtain ⟨captured, fresh, -⟩ := ready
  cases held.draftUid with
  | none => exact trivial
  | some uid =>
      dsimp only
      rw [keeps_ignore]
      exact (reported_keeps .deleteDraft (deleteDraft_keeps fresh
        (mine.trans captured.symm) uid)).mono fun _ _ _ => trivial

/-- Every process keeps to the account it was started under. -/
theorem program_obeys (job : Job) :
    job.program.Obeys ownMonitor { captured := job.captured }
      fun _ _ => True := by
  cases job with
  | send accountId form viewed =>
      exact obeys_runOnly (@sendMail_keeps { captured := accountId } rfl
        accountId rfl form viewed)
  | schedule accountId form sendAt =>
      exact obeys_runOnly (@scheduleMail_keeps { captured := accountId } rfl
        accountId rfl form sendAt)
  | saveDraft accountId form =>
      exact obeys_runOnly (reported_keeps .saveDraft
        (@saveDraft_keeps { captured := accountId } rfl accountId rfl form))
  | deleteDraft accountId uid =>
      exact obeys_runOnly (reported_keeps .deleteDraft
        (@deleteDraft_keeps { captured := accountId } rfl accountId rfl uid))
  | deleteAccount id =>
      exact obeys_runOnly (@quiet_idles { captured := -1 } (.accountDelete id)
        rfl)

end Locate

end Compose
end Mailcore
