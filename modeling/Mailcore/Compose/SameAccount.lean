import Mailcore.Compose.Own

/-!
# Mail leaves from the account it was composed under

In a run in which the fallback of `resolve_account` picks no other account,
everything a process stores or sends is under the account it was started
under, and only a step that found this account stores anything or succeeds.
-/

namespace Mailcore
namespace Compose

open Relational Concurrent

variable {ι : Type} [DecidableEq ι]

/-- The accounts the current step of a process has found. -/
def vouched (who : ι) : List (Deed ι) → List Nat
  | [] => []
  | .lookedUp other found :: earlier =>
      if other = who then found.toList ++ vouched who earlier
      else vouched who earlier
  | .storedUnder _ _ :: earlier => vouched who earlier
  | .reported other _ :: earlier =>
      if other = who then [] else vouched who earlier

/-- Whatever a process stored or sent is under the account it was started
under, in a step that found this account; and only such a step succeeded. -/
def OwnAccountOnly (captured : ι → Int) : List (Deed ι) → Prop
  | [] => True
  | .lookedUp _ _ :: earlier => OwnAccountOnly captured earlier
  | .storedUnder who accountId :: earlier =>
      (0 ≤ captured who → (accountId : Int) = captured who ∧
        accountId ∈ vouched who earlier) ∧ OwnAccountOnly captured earlier
  | .reported who succeeded :: earlier =>
      (0 ≤ captured who → succeeded = true →
        ∃ accountId ∈ vouched who earlier,
          (accountId : Int) = captured who) ∧ OwnAccountOnly captured earlier

/-- The process a deed is by. -/
def Deed.who : Deed ι → ι
  | .lookedUp who _ => who
  | .storedUnder who _ => who
  | .reported who _ => who

/-- What holds of the desks throughout a run. -/
structure Own (captured : ι → Int) (world : World ι) (desks : ι → Desk) :
    Prop where
  same : ∀ who, (desks who).captured = captured who
  found : ∀ who mine, (desks who).found = some mine →
    mine ∈ vouched who world.history ∧
      (0 ≤ captured who → (mine : Int) = captured who)
  prepared : ∀ who mine, (desks who).prepared = some mine →
    0 ≤ captured who → (mine : Int) = captured who
  clean : OwnAccountOnly captured world.history

/-- What one process does tells nothing of another's step. -/
theorem vouched_cons_of_ne {who : ι} {deed : Deed ι} (other : deed.who ≠ who)
    (earlier : List (Deed ι)) :
    vouched who (deed :: earlier) = vouched who earlier := by
  cases deed with
  | lookedUp author found => exact if_neg other
  | storedUnder author accountId => rfl
  | reported author succeeded => exact if_neg other

section Turn

variable {captured : ι → Int} {world after : World ι} {desks : ι → Desk}
  {who : ι} {desk : Desk}

/-- A turn that leaves the history and the desk leaves everything. -/
theorem Own.quiet (own : Own captured world desks)
    (history : after.history = world.history) (stays : desk = desks who) :
    Own captured after (Function.update desks who desk) := by
  subst stays
  rw [Function.update_eq_self]
  obtain ⟨same, found, prepared, clean⟩ := own
  rw [← history] at found clean
  exact ⟨same, found, prepared, clean⟩

/-- A turn with a deed, which may move the desk of its own process. -/
theorem Own.extend (own : Own captured world desks) {deed : Deed ι}
    (history : after.history = deed :: world.history) (byWho : deed.who = who)
    (same : desk.captured = captured who)
    (found : ∀ mine, desk.found = some mine →
      mine ∈ vouched who (deed :: world.history) ∧
        (0 ≤ captured who → (mine : Int) = captured who))
    (prepared : ∀ mine, desk.prepared = some mine →
      0 ≤ captured who → (mine : Int) = captured who)
    (clean : OwnAccountOnly captured (deed :: world.history)) :
    Own captured after (Function.update desks who desk) where
  same other := by
    by_cases mine : other = who
    · subst mine
      rw [Function.update_self, same]
    · rw [Function.update_of_ne mine, own.same]
  found other := by
    rw [history]
    by_cases mine : other = who
    · subst mine
      rw [Function.update_self]
      exact found
    · rw [Function.update_of_ne mine,
        vouched_cons_of_ne (byWho ▸ Ne.symm mine)]
      exact own.found other
  prepared other := by
    by_cases mine : other = who
    · subst mine
      rw [Function.update_self]
      exact prepared
    · rw [Function.update_of_ne mine]
      exact own.prepared other
  clean := history ▸ clean

/-- A lookup that found an account. -/
theorem Own.lookUp (own : Own captured world desks) {mine : Nat}
    (history : after.history = .lookedUp who (some mine) :: world.history)
    (fresh : (desks who).found = none → 0 ≤ captured who →
      (mine : Int) = captured who) :
    Own captured after (Function.update desks who ((desks who).find mine)) := by
  refine own.extend history rfl (own.same who) ?_ (own.prepared who) own.clean
  intro found finds
  have vouches : vouched who (.lookedUp who (some mine) :: world.history) =
      mine :: vouched who world.history := if_pos rfl
  rw [vouches]
  cases before : (desks who).found with
  | none =>
      obtain rfl : mine = found := by simpa [Desk.find, before] using finds
      exact ⟨List.mem_cons_self, fresh before⟩
  | some earlier =>
      obtain rfl : earlier = found := by simpa [Desk.find, before] using finds
      obtain ⟨member, eq⟩ := own.found who earlier before
      exact ⟨List.mem_cons_of_mem _ member, eq⟩

/-- A lookup that found none. -/
theorem Own.lookUpNone (own : Own captured world desks)
    (history : after.history = .lookedUp who none :: world.history)
    (stays : desk = desks who) :
    Own captured after (Function.update desks who desk) := by
  subst stays
  refine own.extend history rfl (own.same who) ?_ (own.prepared who) own.clean
  intro found finds
  have vouches : vouched who (.lookedUp who none :: world.history) =
      vouched who world.history := if_pos rfl
  rw [vouches]
  exact own.found who found finds

/-- Something stored under the account of the step. -/
theorem Own.store (own : Own captured world desks) {mine : Nat}
    (found : (desks who).found = some mine)
    (history : after.history = .storedUnder who mine :: world.history)
    (stays : desk = desks who) :
    Own captured after (Function.update desks who desk) := by
  subst stays
  obtain ⟨member, eq⟩ := own.found who mine found
  exact own.extend history rfl (own.same who) (own.found who)
    (own.prepared who) ⟨fun named => ⟨eq named, member⟩, own.clean⟩

/-- The end of a step. -/
theorem Own.report (own : Own captured world desks) {step : Step}
    {succeeded : Bool}
    (found : succeeded = true → (desks who).found.isSome = true)
    (history : after.history = .reported who succeeded :: world.history) :
    Own captured after
      (Function.update desks who ((desks who).report step succeeded)) := by
  refine own.extend history rfl (own.same who) (by simp [Desk.report]) ?_
    ⟨fun named success => ?_, own.clean⟩
  · intro mine prepares named
    simp only [Desk.report] at prepares
    split at prepares
    · exact (own.found who mine prepares).2 named
    · exact own.prepared who mine prepares named
  · obtain ⟨mine, finds⟩ := Option.isSome_iff_exists.mp (found success)
    obtain ⟨member, eq⟩ := own.found who mine finds
    exact ⟨mine, member, eq named⟩

omit [DecidableEq ι] in
theorem history_command {α : Type} (accountId : Nat) (path : String)
    (value : α) (change : Mailbox → Mailbox) (fate : Fate) :
    (world.command accountId path value change fate).2.history =
      world.history := by
  unfold World.command
  split
  · rfl
  · split
    · rfl
    · dsimp only
      split <;> rfl

omit [DecidableEq ι] in
theorem history_register (accountId : Nat) (path delimiter : String)
    (role : FolderRole) :
    (world.register accountId path delimiter role).history =
      world.history := by
  unfold World.register
  split <;> rfl

omit [DecidableEq ι] in
/-- Once the server has created the folder, something is stored. -/
theorem history_createFolderPath (account : Account) (path delimiter : String)
    (answer : Answer) :
    let call := Call.createFolderPath account path delimiter
    (respond who call answer world).2.history = world.history ∨
      (respond who call answer world).2.history =
        .storedUnder who account.id :: world.history := by
  simp only [respond, Call.isStatement, Bool.false_eq_true, if_false, carryOut]
  split
  · exact .inl rfl
  · right
    have created : ((if (world.server account.id path).isSome then world
        else world.withMailbox account.id path ⟨1, []⟩).record
          (.storedUnder who account.id)).history =
        .storedUnder who account.id :: world.history := by
      split <;> rfl
    split
    · dsimp only
      split
      · split
        · rw [history_register, created]
        · exact created
      · exact created
    · dsimp only
      split
      · rw [history_register, created]
      · exact created

omit [DecidableEq ι] in
/-- A quiet call is a deed of nobody. -/
theorem history_of_quiet {call : Call} (quiet : call.isQuiet = true)
    (answer : Answer) :
    (respond who call answer world).2.history = world.history := by
  have carried : (carryOut who call answer world).2.history =
      world.history := by
    cases call with
    | select account path => exact history_command _ _ _ _ _
    | storeDeleted account path uid => exact history_command _ _ _ _ _
    | expunge account path uid => exact history_command _ _ _ _ _
    | checkout account =>
        simp only [carryOut]
        split <;> rfl
    | syncFolderWindow account folderId =>
        simp only [carryOut]
        split
        · rfl
        · split
          · rfl
          · split <;> rfl
    | accountsGet id => exact absurd quiet Bool.false_ne_true
    | accountsList => exact absurd quiet Bool.false_ne_true
    | enqueue accountId built sendAt => exact absurd quiet Bool.false_ne_true
    | submitRaw account row => exact absurd quiet Bool.false_ne_true
    | createFolderPath account path delimiter =>
        exact absurd quiet Bool.false_ne_true
    | append account path raw draft => exact absurd quiet Bool.false_ne_true
    | report step succeeded => exact absurd quiet Bool.false_ne_true
    | _ => rfl
  unfold respond
  split
  · split
    · cases call <;> first
        | rfl
        | exact absurd quiet Bool.false_ne_true
    · exact carried
  · exact carried

theorem next_of_quiet {call : Call} (quiet : call.isQuiet = true)
    (reply : Except String call.Value) :
    desk.next call reply = desk := by
  cases call <;> first
    | rfl
    | exact absurd quiet Bool.false_ne_true

/-- The fallback of `resolve_account` finds no account but the process's
own. -/
def Unsubstituted (ι : Type) :
    Condition signature ownMonitor ι (World ι) Answer :=
  fun world desks who call answer =>
    call = .accountsList → answer.refused = none →
      0 ≤ (desks who).captured →
        ∀ account ∈ world.accountsByName.head?,
          (account.id : Int) = (desks who).captured

omit [DecidableEq ι] in
theorem id_of_account {id : Int} {account : Account}
    (found : world.account id = some account) : (account.id : Int) = id := by
  unfold World.account at found
  split at found
  · next named =>
      have key : account.id = id.toNat := (Table.mem_of_find? found).2
      omega
  · cases found

/-- What a turn of a process may do under the condition. -/
theorem Own.turn (own : Own captured world desks) {call : Call}
    {answer : Answer} (allowed : (desks who).allows call)
    (unsubstituted : Unsubstituted ι world desks who call answer) :
    Own captured (respond who call answer world).2
      (Function.update desks who
        ((desks who).next call (respond who call answer world).1)) := by
  cases call with
  | accountsGet id =>
      unfold respond
      simp only [Call.isStatement, if_true]
      cases answer.refused with
      | some text => exact own.lookUpNone rfl rfl
      | none =>
          cases looked : world.account id with
          | none =>
              simp only [carryOut, looked, Desk.next]
              exact own.lookUpNone rfl rfl
          | some account =>
              simp only [carryOut, looked, Desk.next]
              refine own.lookUp rfl ?_
              intro noneYet named
              rw [id_of_account looked]
              rcases allowed with finds | same | ⟨prepared, prepares, same⟩
              · simp [noneYet] at finds
              · rw [same, own.same who]
              · rw [same]
                exact own.prepared who prepared prepares named
  | accountsList =>
      cases refusal : answer.refused with
      | some text =>
          simp only [respond, Call.isStatement, if_true, refusal, refuse,
            Desk.next]
          exact own.lookUpNone rfl rfl
      | none =>
          simp only [respond, Call.isStatement, if_true, refusal, carryOut,
            Desk.next]
          cases first : world.accountsByName.head? with
          | none => exact own.lookUpNone rfl rfl
          | some account =>
              refine own.lookUp rfl ?_
              intro noneYet named
              rw [← own.same who] at named ⊢
              exact unsubstituted rfl refusal named account (by simp [first])
  | enqueue accountId built sendAt =>
      unfold respond
      simp only [Call.isStatement, if_true]
      cases answer.refused with
      | some text => exact own.quiet rfl rfl
      | none =>
          simp only [carryOut]
          split
          · exact own.store allowed rfl rfl
          · exact own.quiet rfl rfl
  | submitRaw account row =>
      simp only [respond, Call.isStatement, Bool.false_eq_true, if_false,
        carryOut]
      split
      · exact own.store allowed rfl rfl
      · exact own.quiet rfl rfl
      · exact own.store allowed rfl rfl
  | createFolderPath account path delimiter =>
      rcases @history_createFolderPath ι world who account path delimiter
        answer with same | stored
      · exact own.quiet same rfl
      · exact own.store allowed stored rfl
  | append account path raw draft =>
      refine own.store allowed ?_ rfl
      simp only [respond, Call.isStatement, Bool.false_eq_true, if_false,
        carryOut]
      exact history_command _ _ _ _ _
  | report step succeeded =>
      refine own.report ?_ rfl
      intro success
      subst success
      exact allowed
  | _ =>
      refine own.quiet (history_of_quiet rfl answer) ?_
      exact next_of_quiet rfl _

omit [DecidableEq ι] in
/-- A turn adds at most one deed, of its own process. -/
theorem history_respond (call : Call) (answer : Answer) :
    (respond who call answer world).2.history = world.history ∨
      ∃ deed : Deed ι, deed.who = who ∧
        (respond who call answer world).2.history = deed :: world.history := by
  cases call with
  | accountsGet id =>
      right
      simp only [respond, Call.isStatement, if_true]
      split
      · exact ⟨.lookedUp who none, rfl, rfl⟩
      · exact ⟨.lookedUp who _, rfl, rfl⟩
  | accountsList =>
      right
      simp only [respond, Call.isStatement, if_true]
      split
      · exact ⟨.lookedUp who none, rfl, rfl⟩
      · exact ⟨.lookedUp who _, rfl, rfl⟩
  | enqueue accountId built sendAt =>
      simp only [respond, Call.isStatement, if_true]
      split
      · exact .inl rfl
      · simp only [carryOut]
        split
        · exact .inr ⟨.storedUnder who accountId, rfl, rfl⟩
        · exact .inl rfl
  | submitRaw account row =>
      simp only [respond, Call.isStatement, Bool.false_eq_true, if_false,
        carryOut]
      split
      · exact .inr ⟨.storedUnder who account.id, rfl, rfl⟩
      · exact .inl rfl
      · exact .inr ⟨.storedUnder who account.id, rfl, rfl⟩
  | createFolderPath account path delimiter =>
      exact (@history_createFolderPath ι world who account path delimiter
        answer).imp_right fun stored =>
          ⟨.storedUnder who account.id, rfl, stored⟩
  | append account path raw draft =>
      refine .inr ⟨.storedUnder who account.id, rfl, ?_⟩
      simp only [respond, Call.isStatement, Bool.false_eq_true, if_false,
        carryOut]
      exact history_command _ _ _ _ _
  | report step succeeded =>
      exact .inr ⟨.reported who succeeded, rfl, rfl⟩
  | _ => exact .inl (history_of_quiet rfl answer)

omit [DecidableEq ι] in
theorem accounts_command {α : Type} (accountId : Nat) (path : String)
    (value : α) (change : Mailbox → Mailbox) (fate : Fate) :
    (world.command accountId path value change fate).2.accounts =
      world.accounts := by
  unfold World.command
  split
  · rfl
  · split
    · rfl
    · dsimp only
      split <;> rfl

omit [DecidableEq ι] in
theorem accounts_register (accountId : Nat) (path delimiter : String)
    (role : FolderRole) :
    (world.register accountId path delimiter role).accounts =
      world.accounts := by
  unfold World.register
  split <;> rfl

omit [DecidableEq ι] in
theorem accounts_createFolderPath (account : Account)
    (path delimiter : String) (answer : Answer) :
    (carryOut who (.createFolderPath account path delimiter) answer
      world).2.accounts = world.accounts := by
  have created : ((if (world.server account.id path).isSome then world
      else world.withMailbox account.id path ⟨1, []⟩).record
        (.storedUnder who account.id)).accounts = world.accounts := by
    split <;> rfl
  simp only [carryOut]
  split
  · rfl
  · split
    · dsimp only
      split
      · split
        · rw [accounts_register, created]
        · exact created
      · exact created
    · dsimp only
      split
      · rw [accounts_register, created]
      · exact created

omit [DecidableEq ι] in
/-- No turn adds an account. -/
theorem accounts_respond (call : Call) (answer : Answer) :
    (respond who call answer world).2.accounts = world.accounts ∨
      ∃ filter, (respond who call answer world).2.accounts =
        world.accounts.delete filter := by
  have carried : (carryOut who call answer world).2.accounts =
      world.accounts ∨ ∃ filter, (carryOut who call answer world).2.accounts =
        world.accounts.delete filter := by
    cases call with
    | accountDelete id => exact .inr ⟨_, rfl⟩
    | select account path => exact .inl (accounts_command _ _ _ _ _)
    | storeDeleted account path uid =>
        exact .inl (accounts_command _ _ _ _ _)
    | expunge account path uid => exact .inl (accounts_command _ _ _ _ _)
    | append account path raw draft =>
        exact .inl (accounts_command _ _ _ _ _)
    | createFolderPath account path delimiter =>
        exact .inl (accounts_createFolderPath account path delimiter answer)
    | checkout account =>
        left
        simp only [carryOut]
        split <;> rfl
    | submitRaw account row =>
        left
        simp only [carryOut]
        split <;> rfl
    | enqueue accountId built sendAt =>
        left
        simp only [carryOut]
        split <;> rfl
    | syncFolderWindow account folderId =>
        left
        simp only [carryOut]
        split
        · rfl
        · split
          · rfl
          · split <;> rfl
    | _ => exact .inl rfl
  unfold respond
  split
  · split
    · left
      cases call <;> rfl
    · exact carried
  · exact carried

/-! ## A process whose account is gone -/

/-- A process stored or sent something, or reported success. -/
def achieves (who : ι) : Deed ι → Bool
  | .lookedUp _ _ => false
  | .storedUnder other _ => other = who
  | .reported other succeeded => other = who && succeeded

/-- The account a process was started under was there once and is gone, and
the process has found none since its last step. -/
structure Gone (captured : ι → Int) (who : ι) (achieved : Nat)
    (world : World ι) (desks : ι → Desk) : Prop where
  own : Own captured world desks
  named : 0 ≤ captured who
  absent : world.account (captured who) = none
  once : captured who ≤ world.accounts.last
  unfound : (desks who).found = none
  achieved : world.history.countP (achieves who) = achieved

theorem achieves_of_ne {deed : Deed ι} (other : deed.who ≠ who) :
    achieves who deed = false := by
  cases deed with
  | lookedUp author found => rfl
  | storedUnder author accountId => exact decide_eq_false other
  | reported author succeeded =>
      have different : author ≠ who := other
      simp [achieves, different]

omit [DecidableEq ι] in
/-- An account that is gone stays gone. -/
theorem absent_of_respond {id : Int} (absent : world.account id = none)
    (call : Call) (answer : Answer) (actor : ι) :
    (respond actor call answer world).2.account id = none := by
  unfold World.account at absent ⊢
  split
  · next named =>
      rw [if_pos named] at absent
      rcases @accounts_respond ι world actor call answer
        with same | ⟨filter, deleted⟩
      · rw [same, absent]
      · rw [deleted, Table.find?_delete, absent]
        rfl
  · rfl

/-- The process itself can neither find an account nor achieve anything. -/
theorem Gone.idle {achieved : Nat} {call : Call} {answer : Answer}
    (gone : Gone captured who achieved world desks)
    (allowed : (desks who).allows call)
    (unsubstituted : Unsubstituted ι world desks who call answer) :
    ((desks who).next call (respond who call answer world).1).found = none ∧
      (respond who call answer world).2.history.countP (achieves who) =
        achieved := by
  obtain ⟨own, named, absent, once, unfound, counted⟩ := gone
  cases call with
  | accountsGet id =>
      have mine : id = captured who := by
        rcases allowed with finds | same | ⟨prepared, prepares, same⟩
        · simp [unfound] at finds
        · rw [same, own.same who]
        · rw [same]
          exact own.prepared who prepared prepares named
      rw [mine]
      unfold respond
      simp only [Call.isStatement, if_true]
      cases answer.refused with
      | some text => exact ⟨unfound, counted⟩
      | none =>
          simp only [carryOut, absent]
          exact ⟨unfound, counted⟩
  | accountsList =>
      cases refusal : answer.refused with
      | some text =>
          simp only [respond, Call.isStatement, if_true, refusal]
          exact ⟨unfound, counted⟩
      | none =>
          simp only [respond, Call.isStatement, if_true, refusal, carryOut,
            Desk.next]
          cases first : world.accountsByName.head? with
          | none => exact ⟨unfound, counted⟩
          | some account =>
              have eq : (account.id : Int) = captured who := by
                rw [← own.same who] at named ⊢
                exact unsubstituted rfl refusal named account (by simp [first])
              have stored : account ∈ world.accounts.rows :=
                List.mem_mergeSort.mp (List.mem_of_mem_head? first)
              have present : world.accounts.find? account.id = some account :=
                Table.find?_of_mem stored
              rw [World.account, if_pos named, ← eq, Int.toNat_natCast,
                present] at absent
              cases absent
  | enqueue accountId built sendAt =>
      cases unfound.symm.trans allowed
  | submitRaw account row => cases unfound.symm.trans allowed
  | createFolderPath account path delimiter =>
      cases unfound.symm.trans allowed
  | append account path raw draft => cases unfound.symm.trans allowed
  | report step succeeded =>
      refine ⟨rfl, ?_⟩
      cases succeeded with
      | true => simp [Desk.allows, unfound] at allowed
      | false =>
          have failed : achieves who (.reported who false) = false := by
            simp [achieves]
          exact (List.countP_cons_of_neg (by simp [failed])).trans counted
  | _ =>
      refine ⟨?_, ?_⟩
      · rw [next_of_quiet rfl]
        exact unfound
      · rw [history_of_quiet rfl]
        exact counted

/-- Whoever takes a turn, an account that is gone stays gone, and its process
achieves nothing. -/
theorem Gone.turn {achieved : Nat} {actor : ι} {call : Call} {answer : Answer}
    (gone : Gone captured who achieved world desks)
    (allowed : (desks actor).allows call)
    (unsubstituted : Unsubstituted ι world desks actor call answer) :
    Gone captured who achieved (respond actor call answer world).2
      (Function.update desks actor
        ((desks actor).next call (respond actor call answer world).1)) where
  own := gone.own.turn allowed unsubstituted
  named := gone.named
  absent := absent_of_respond gone.absent call answer actor
  once := by
    rcases @accounts_respond ι world actor call answer with
      same | ⟨filter, deleted⟩
    · rw [same]
      exact gone.once
    · rw [deleted]
      exact gone.once
  unfound := by
    by_cases mine : who = actor
    · subst mine
      rw [Function.update_self]
      exact (gone.idle allowed unsubstituted).1
    · rw [Function.update_of_ne mine]
      exact gone.unfound
  achieved := by
    by_cases mine : who = actor
    · subst mine
      exact (gone.idle allowed unsubstituted).2
    · rcases @history_respond ι world actor call answer with
        same | ⟨deed, byActor, extended⟩
      · rw [same]
        exact gone.achieved
      · have others : achieves who deed = false :=
          achieves_of_ne (byActor ▸ Ne.symm mine)
        rw [extended, List.countP_cons_of_neg (by simp [others])]
        exact gone.achieved

/-- A new account takes no id that was used before. -/
theorem Gone.disturb {achieved : Nat}
    (gone : Gone captured who achieved world desks) (account : Account) :
    Gone captured who achieved ((system ι).disturb account world) desks where
  own := ⟨gone.own.same, gone.own.found, gone.own.prepared, gone.own.clean⟩
  named := gone.named
  absent := by
    have absent := gone.absent
    have once := gone.once
    have named := gone.named
    unfold World.account at absent ⊢
    rw [if_pos named] at absent ⊢
    have older : (captured who).toNat ≠ world.accounts.last + 1 := by omega
    simp only [system, Table.find?_insert, if_neg older]
    exact absent
  once := by
    have once := gone.once
    simp only [system, Table.last_insert]
    omega
  unfound := gone.unfound
  achieved := gone.achieved

end Turn

/-! ## Runs -/

/-- Every process before its first call. -/
def start (jobs : ι → Job) (world : World ι) :
    Config signature ownMonitor ι (World ι) where
  shared := world
  thread who := (jobs who).program
  seen who := { captured := (jobs who).captured }

/-- A process whose account is gone achieves nothing from there on, unless its
step had found the account before. -/
def NothingForGone (jobs : ι → Job) (world : World ι)
    (events : List (Event ι Answer Account)) : Prop :=
  ∀ before after, before ++ after = events →
    let config := (start jobs world).run (system ι) before
    ∀ who, 0 ≤ (jobs who).captured →
      config.shared.account (jobs who).captured = none →
      (jobs who).captured ≤ config.shared.accounts.last →
      (config.seen who).found = none →
        (config.run (system ι) after).shared.history.countP (achieves who) =
          config.shared.history.countP (achieves who)

/-- As long as the fallback picks no other account, mail is stored and sent
under the account it was composed under only, and a step whose account is gone
fails and stores nothing. -/
theorem own_account_of_unsubstituted (jobs : ι → Job) (world : World ι)
    (fresh : world.history = [])
    (events : List (Event ι Answer Account))
    (meets : Config.RunMeets (system ι) (Unsubstituted ι) (start jobs world)
      events) :
    OwnAccountOnly (fun who => (jobs who).captured)
        ((start jobs world).run (system ι) events).shared.history ∧
      NothingForGone jobs world events := by
  have obedient : (start jobs world).Obedient :=
    fun who => program_obeys (jobs who)
  have initial : Own (fun who => (jobs who).captured) world
      (start jobs world).seen := by
    refine ⟨fun _ => rfl, nofun, nofun, ?_⟩
    rw [fresh]
    trivial
  have owns : ∀ events, Config.RunMeets (system ι) (Unsubstituted ι)
      (start jobs world) events →
        Own (fun who => (jobs who).captured)
          ((start jobs world).run (system ι) events).shared
          ((start jobs world).run (system ι) events).seen :=
    Config.run_invariant (Own fun who => (jobs who).captured)
      (fun _ _ _ _ _ own allowed unsubstituted =>
        own.turn allowed unsubstituted)
      (fun _ _ _ own => ⟨own.same, own.found, own.prepared, own.clean⟩)
      obedient initial
  refine ⟨(owns events meets).clean, ?_⟩
  intro before after split config who named absent once unfound
  rw [← split, Config.runMeets_append] at meets
  have gone := Config.run_invariant
    (Gone (fun who => (jobs who).captured) who
      (config.shared.history.countP (achieves who)))
    (fun _ _ _ _ _ gone allowed unsubstituted =>
      gone.turn allowed unsubstituted)
    (fun _ _ account gone => gone.disturb account)
    (obedient.run before)
    ⟨owns before meets.1, named, absent, once, unfound, rfl⟩ after meets.2
  exact gone.achieved

section Decidable

instance decidableOwnAccountOnly (captured : ι → Int) :
    (history : List (Deed ι)) → Decidable (OwnAccountOnly captured history)
  | [] => isTrue trivial
  | .lookedUp _ _ :: earlier => decidableOwnAccountOnly captured earlier
  | .storedUnder _ _ :: earlier =>
      haveI := decidableOwnAccountOnly captured earlier
      inferInstanceAs (Decidable (_ ∧ _))
  | .reported _ _ :: earlier =>
      haveI := decidableOwnAccountOnly captured earlier
      inferInstanceAs (Decidable (_ ∧ _))

instance (world : World ι) (desks : ι → Desk) (who : ι) (call : Call)
    (answer : Answer) :
    Decidable (Unsubstituted ι world desks who call answer) := by
  unfold Unsubstituted
  infer_instance

end Decidable

/-! ## A send and the deletion of its account -/

namespace Sample

/-- Two accounts, and nothing else yet. -/
def twoAccounts : World (Fin 2) where
  accounts :=
    (Table.empty.insert fun id => ⟨id, "Home", "me@home.example", "k1", false⟩).insert
      fun id => ⟨id, "Work", "me@work.example", "k2", false⟩
  queue := Table.empty
  folders := Table.empty
  messages := Table.empty
  server _ _ := none
  history := []

/-- One process sends under the first account, the other one deletes it. -/
def sendAndDelete (who : Fin 2) : Job :=
  if who = 0 then .send 1 { toAddrs := ["you@example.org"] } (-1)
  else .deleteAccount 1

/-- Some turns of the send, in which the message is assembled. -/
def sendTurns (count : Nat) : List (Event (Fin 2) Answer Account) :=
  List.replicate count (.turn 0 { built := .ok ⟨[65], "me@home.example", []⟩ })

/-- The account is deleted before the send is prepared. -/
def deletedFirst : List (Event (Fin 2) Answer Account) :=
  .turn 1 {} :: sendTurns 12

/-- The mail composed under the first account is queued and submitted under
the other one. -/
theorem deletedFirst_sends_elsewhere :
    .storedUnder 0 2 ∈ ((start sendAndDelete twoAccounts).run (system (Fin 2))
      deletedFirst).shared.history ∧
      ¬OwnAccountOnly (fun who => (sendAndDelete who).captured)
        ((start sendAndDelete twoAccounts).run (system (Fin 2))
          deletedFirst).shared.history := by
  decide +kernel

/-- The account is deleted between the preparation and the delivery. -/
def deletedBetween : List (Event (Fin 2) Answer Account) :=
  sendTurns 4 ++ .turn 1 {} :: sendTurns 8

theorem deletedBetween_keeps_account :
    OwnAccountOnly (fun who => (sendAndDelete who).captured)
        ((start sendAndDelete twoAccounts).run (system (Fin 2))
          deletedBetween).shared.history ∧
      NothingForGone sendAndDelete twoAccounts deletedBetween :=
  own_account_of_unsubstituted sendAndDelete twoAccounts rfl deletedBetween
    (by decide +kernel)

end Sample

end Compose
end Mailcore
