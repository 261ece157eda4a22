import Mailcore.Accounts.Tested

/-!
# A refused save

What a save that fails leaves behind.  Every step is undone except for two: the
last one, after which nothing is, and the update of a row whose previous secrets
could not be read.
-/

namespace Mailcore
namespace Accounts

open Store

/-- Both stores are as they were, as far as an account refers to them. -/
structure Unchanged (payload : Payload) (before after : Stores) : Prop where
  rows : after.accounts.rows = before.accounts.rows
  secrets : ∀ row ∈ before.accounts.rows,
    loadStoredSecrets payload after.vault row.authVaultKey =
      loadStoredSecrets payload before.vault row.authVaultKey
  noOrphan : ∀ vaultKey, (after.vault vaultKey).isSome → (before.vault vaultKey).isSome ∨
    ∃ row ∈ after.accounts.rows, row.authVaultKey = vaultKey

/-- A key that nothing is stored under and no account has. -/
def FreshKey (freshKey : String) (stores : Stores) : Prop :=
  stores.vault freshKey = none ∧ ∀ row ∈ stores.accounts.rows, row.authVaultKey ≠ freshKey

/-- The edit leaves the row and the secrets as they are. -/
def ChangesNothing (payload : Payload) (now : String) (existing : Account) (draft : NewAccount)
    (password smtpPassword : List Char) (stores : Stores) : Prop :=
  existing.connected draft now = existing ∧
    ((password = [] ∧ smtpPassword = []) ∨
      ∃ stored, loadStoredSecrets payload stores.vault existing.authVaultKey = .ok stored ∧
        orElse password stored.imapPassword = stored.imapPassword ∧
        orElse smtpPassword stored.smtpPassword = stored.smtpPassword)

/-- What the refused step of an accepted form must not be. -/
def RecoverableForm (payload : Payload) (now : String) (refused : Option Step) (stores : Stores)
    (v : Form) (existing : Option Account) (draft : NewAccount) : Prop :=
  match existing with
  | none => refused ≠ some .setLastActive
  | some existing =>
      (refused = some .updateConnection → v.raw "password" ≠ [] →
        (loadStoredSecrets payload stores.vault existing.authVaultKey).isOk = true) ∧
      (refused = some .setLastActive → v.raw "password" ≠ [] ∨ v.raw "smtp_password" = [] ∨
        (loadStoredSecrets payload stores.vault existing.authVaultKey).isOk = true →
          ChangesNothing payload now existing draft (v.raw "password") (v.raw "smtp_password")
            stores)

/-- What the refused step must not be. -/
def Recoverable (payload : Payload) (now : String) (refused : Option Step) (form : Option Form)
    (stores : Stores) : Prop :=
  ∀ v existing draft, acceptedForm refused form stores = .ok (v, existing, draft) →
    RecoverableForm payload now refused stores v existing draft

theorem Unchanged.refl (payload : Payload) (stores : Stores) : Unchanged payload stores stores :=
  ⟨rfl, fun _ _ => rfl, fun _ some_ => .inl some_⟩

section Refused

variable {payload : Payload} {now freshKey : String} {refused : Option Step} {stores : Stores}
  {v : Form} {draft : NewAccount}

theorem finish_error {e : StoreError} {changed : Stores} :
    finish refused (.error e, changed) = (.error e, changed) :=
  rfl

theorem finish_eq (works : refused ≠ some .setLastActive) (id : Nat) (changed : Stores) :
    finish refused (.ok id, changed) = (.ok id, { changed with lastActive := some id }) := by
  rw [finish, setLastActive, if_neg works]

theorem finish_refused (id : Nat) (changed : Stores) :
    finish (some .setLastActive) (.ok id, changed) = (.error (.sql "refused"), changed) :=
  rfl

/-- Creating an account is undone unless its last step is refused. -/
theorem unchanged_of_create {password smtpPassword : List Char} (fresh : FreshKey freshKey stores)
    (alone : ∀ other ∈ stores.accounts.rows,
      ¬sameAddress other.emailAddress draft.emailAddress)
    (works : refused ≠ some .setLastActive) {e : StoreError}
    (fails : (finish refused (createNew payload refused now freshKey draft password smtpPassword
      stores)).1 = .error e) :
    Unchanged payload stores (finish refused (createNew payload refused now freshKey draft password
      smtpPassword stores)).2 := by
  unfold createNew at fails ⊢
  by_cases typed : password = []
  · rw [if_pos typed]
    exact .refl payload stores
  · rw [if_neg typed] at fails ⊢
    by_cases stored : refused = some .saveSecrets
    · rw [saveSecrets, if_pos stored]
      exact .refl payload stores
    · rw [saveSecrets_of_ne payload stored] at fails ⊢
      dsimp only at fails ⊢
      by_cases created : refused = some .createAccount
      · subst created
        rw [createAccount_refused, deleteSecrets, if_neg (by decide)]
        have same : Function.update (Function.update stores.vault freshKey
            (some (payload.write password smtpPassword))) freshKey none = stores.vault := by
          rw [Function.update_idem, ← fresh.1, Function.update_eq_self]
        dsimp only [undone, finish]
        rw [same]
        exact .refl payload stores
      · obtain ⟨id, changed, creates, -, -⟩ := createAccount_ok now
          { draft with authVaultKey := freshKey } { stores with
            vault := Function.update stores.vault freshKey
              (some (payload.write password smtpPassword)) } created alone
        rw [creates] at fails
        dsimp only at fails
        rw [finish_eq works] at fails
        cases fails

/-! ## Edits -/

section Edit

variable {existing : Account} (member : existing ∈ stores.accounts.rows)
  (alone : ∀ other ∈ stores.accounts.rows, other.id ≠ existing.id →
    ¬sameAddress other.emailAddress draft.emailAddress)

/-- Writing what was stored for an account changes nothing. -/
theorem unchanged_of_secrets {after : Stores} (member : existing ∈ stores.accounts.rows)
    (rows : after.accounts.rows = stores.accounts.rows)
    (others : ∀ vaultKey, vaultKey ≠ existing.authVaultKey →
      after.vault vaultKey = stores.vault vaultKey)
    (same : loadStoredSecrets payload after.vault existing.authVaultKey =
      loadStoredSecrets payload stores.vault existing.authVaultKey) :
    Unchanged payload stores after where
  rows := rows
  secrets row _ := by
    by_cases here : row.authVaultKey = existing.authVaultKey
    · rw [here, same]
    · rw [loadStoredSecrets, loadStoredSecrets, others _ here]
  noOrphan vaultKey some_ := by
    by_cases here : vaultKey = existing.authVaultKey
    · exact .inr ⟨existing, rows ▸ member, here.symm⟩
    · rw [others _ here] at some_
      exact .inl some_

/-- The secrets that an edit writes. -/
theorem editedImap_ok {stored : AccountSecrets} (password : List Char) :
    editedImap (.ok stored) password = .ok (orElse password stored.imapPassword) := by
  unfold editedImap orElse
  split_ifs <;> rfl

theorem editedSmtp_ok {stored : AccountSecrets} (smtpPassword : List Char) :
    editedSmtp (.ok stored) smtpPassword = orElse smtpPassword stored.smtpPassword := by
  unfold editedSmtp orElse
  split_ifs <;> rfl

theorem isOk_iff {result : Except StoreError AccountSecrets} :
    result.isOk = true ↔ ∃ stored, result = .ok stored := by
  cases result with
  | error e => exact iff_of_false Bool.false_ne_true nofun
  | ok stored => exact iff_of_true rfl ⟨stored, rfl⟩

/-- A refused update is undone where the secrets before it are known. -/
theorem saveEdit_of_refused {password smtpPassword imap : List Char}
    (typed : ¬(password = [] ∧ smtpPassword = []))
    (edited : editedImap (loadStoredSecrets payload stores.vault existing.authVaultKey) password =
      .ok imap) :
    saveEdit payload (some .updateConnection) now existing draft password smtpPassword stores =
      (.error (.sql "refused"), { stores with
        vault := Function.update stores.vault existing.authVaultKey (some
          (match loadStoredSecrets payload stores.vault existing.authVaultKey with
            | .ok old => payload.write old.imapPassword old.smtpPassword
            | .error _ => payload.write imap (editedSmtp
                (loadStoredSecrets payload stores.vault existing.authVaultKey) smtpPassword))) }) := by
  have before : storedBefore payload (some .updateConnection) existing stores =
      loadStoredSecrets payload stores.vault existing.authVaultKey := if_neg (by decide)
  rw [saveEdit, replaceSecrets_of_typed payload typed (before ▸ edited) (by decide), before]
  dsimp only
  rw [updateConnection_refused]
  cases loadStoredSecrets payload stores.vault existing.authVaultKey with
  | error e => rfl
  | ok old =>
      dsimp only [Except.toOption]
      rw [saveSecrets_of_ne payload (by decide)]
      dsimp only [undone]
      rw [Function.update_idem]

include member in
theorem unchanged_of_refused_update {password smtpPassword : List Char}
    (readable : password ≠ [] →
      (loadStoredSecrets payload stores.vault existing.authVaultKey).isOk = true) :
    Unchanged payload stores (saveEdit payload (some .updateConnection) now existing draft password
      smtpPassword stores).2 := by
  have before : storedBefore payload (some .updateConnection) existing stores =
      loadStoredSecrets payload stores.vault existing.authVaultKey := if_neg (by decide)
  by_cases blank : password = [] ∧ smtpPassword = []
  · rw [blank.1, blank.2, saveEdit, replaceSecrets_of_blank]
    dsimp only
    rw [updateConnection_refused]
    exact .refl payload stores
  · cases edited : editedImap (loadStoredSecrets payload stores.vault existing.authVaultKey)
        password with
    | error e =>
        obtain ⟨refusal, fails⟩ := replaceSecrets_error payload blank (.inr ⟨e, before ▸ edited⟩)
        rw [saveEdit, fails]
        exact .refl payload stores
    | ok imap =>
        have known : ∃ old, loadStoredSecrets payload stores.vault existing.authVaultKey =
            .ok old := by
          by_cases typed : password = []
          · unfold editedImap at edited
            rw [if_pos typed] at edited
            cases loaded : loadStoredSecrets payload stores.vault existing.authVaultKey with
            | error e => simp [loaded] at edited
            | ok old => exact ⟨old, rfl⟩
          · exact isOk_iff.mp (readable typed)
        obtain ⟨old, loaded⟩ := known
        rw [saveEdit_of_refused blank edited, loaded]
        refine unchanged_of_secrets member rfl (fun key apart => ?_) ?_
        · exact Function.update_of_ne apart _ _
        · rw [loaded, loadStoredSecrets_update payload _ _
            (imap_ne_nil_of_loadStoredSecrets payload loaded)]

include member alone in
/-- Editing an account is undone unless its last step is refused. -/
theorem unchanged_of_edit {password smtpPassword : List Char}
    (readable : refused = some .updateConnection → password ≠ [] →
      (loadStoredSecrets payload stores.vault existing.authVaultKey).isOk = true)
    {e : StoreError}
    (fails : (saveEdit payload refused now existing draft password smtpPassword stores).1 =
      .error e) :
    Unchanged payload stores
      (saveEdit payload refused now existing draft password smtpPassword stores).2 := by
  by_cases update : refused = some .updateConnection
  · subst update
    exact unchanged_of_refused_update member (readable rfl)
  · by_cases blank : password = [] ∧ smtpPassword = []
    · obtain ⟨rfl, rfl⟩ := blank
      obtain ⟨updated, same, -⟩ := saveEdit_of_blank payload now member alone update
      rw [same] at fails
      cases fails
    · by_cases refuses : refused = some .saveSecrets ∨ ∃ e,
          editedImap (storedBefore payload refused existing stores) password = .error e
      · obtain ⟨refusal, early⟩ := replaceSecrets_error payload blank refuses
        rw [saveEdit, early]
        exact .refl payload stores
      · rw [not_or] at refuses
        cases edited : editedImap (storedBefore payload refused existing stores) password with
        | error e => exact absurd ⟨e, edited⟩ refuses.2
        | ok imap =>
            obtain ⟨updated, same, -⟩ :=
              saveEdit_of_typed payload now member alone update blank edited refuses.1
            rw [same] at fails
            cases fails

/-- The last step comes after an edit that went through, or none that did
anything. -/
theorem saveEdit_before_last (payload : Payload) (now : String)
    {password smtpPassword : List Char}
    (member : existing ∈ stores.accounts.rows)
    (alone : ∀ other ∈ stores.accounts.rows, other.id ≠ existing.id →
      ¬sameAddress other.emailAddress draft.emailAddress) :
    ((∃ updated, saveEdit payload (some .setLastActive) now existing draft password smtpPassword
        stores = (.ok (), updated) ∧
          (Unchanged payload stores updated ↔
            ChangesNothing payload now existing draft password smtpPassword stores)) ∧
      (password ≠ [] ∨ smtpPassword = [] ∨
        (loadStoredSecrets payload stores.vault existing.authVaultKey).isOk = true)) ∨
    ((∃ e, saveEdit payload (some .setLastActive) now existing draft password smtpPassword stores =
        (.error e, stores)) ∧
      ¬(password ≠ [] ∨ smtpPassword = [] ∨
        (loadStoredSecrets payload stores.vault existing.authVaultKey).isOk = true)) := by
  have before : storedBefore payload (some .setLastActive) existing stores =
      loadStoredSecrets payload stores.vault existing.authVaultKey := if_neg (by decide)
  have rowsSame : editedRows now existing draft stores = stores.accounts.rows ↔
      existing.connected draft now = existing := by
    constructor
    · intro same
      have inside : existing.connected draft now ∈ stores.accounts.rows :=
        same ▸ mem_editedRows member
      exact eq_of_id inside member rfl
    · intro same
      conv_rhs => rw [← List.map_id stores.accounts.rows]
      refine List.map_congr_left fun row inside => ?_
      by_cases here : row.id = existing.id
      · rw [if_pos here, eq_of_id inside member here, same]
        rfl
      · exact if_neg here
  by_cases blank : password = [] ∧ smtpPassword = []
  · obtain ⟨rfl, rfl⟩ := blank
    obtain ⟨updated, same, rows, vault⟩ :=
      saveEdit_of_blank payload now member alone
        (by decide : some Step.setLastActive ≠ some .updateConnection)
    refine .inl ⟨⟨updated, same, ?_⟩, .inr (.inl rfl)⟩
    rw [ChangesNothing, ← rowsSame, ← rows]
    constructor
    · exact fun unchanged => ⟨unchanged.rows, .inl ⟨rfl, rfl⟩⟩
    · exact fun nothing => unchanged_of_secrets member nothing.1 (fun key _ => by rw [vault])
        (by rw [vault])
  · cases loaded : loadStoredSecrets payload stores.vault existing.authVaultKey with
    | error e =>
        by_cases typed : password = []
        · refine .inr ⟨?_, ?_⟩
          · have early : editedImap (storedBefore payload (some .setLastActive) existing stores)
                password = .error (.invalidInput
                  "enter the IMAP password too: the stored one cannot be read") := by
              unfold editedImap
              rw [if_pos typed, before, loaded]
            obtain ⟨refusal, fails⟩ := replaceSecrets_error payload blank (.inr ⟨_, early⟩)
            exact ⟨refusal, by rw [saveEdit, fails]⟩
          · rintro (some_ | noSmtp | readable)
            · exact some_ typed
            · exact blank ⟨typed, noSmtp⟩
            · exact Bool.false_ne_true readable
        · refine .inl ⟨?_, .inl typed⟩
          have edited : editedImap (storedBefore payload (some .setLastActive) existing stores)
              password = .ok password := by
            unfold editedImap
            exact if_neg typed
          obtain ⟨updated, same, rows, vault⟩ :=
            saveEdit_of_typed payload now member alone (by decide) blank edited (by decide)
          refine ⟨updated, same, iff_of_false ?_ ?_⟩
          · intro unchanged
            have secrets := unchanged.secrets existing member
            rw [vault, loadStoredSecrets_update payload _ _ typed, loaded] at secrets
            cases secrets
          · rintro ⟨-, both | ⟨stored, readable, -⟩⟩
            · exact blank both
            · rw [loaded] at readable
              cases readable
    | ok stored =>
        refine .inl ⟨?_, .inr (.inr rfl)⟩
        have edited : editedImap (storedBefore payload (some .setLastActive) existing stores)
            password = .ok (orElse password stored.imapPassword) := by
          rw [before, loaded, editedImap_ok]
        have some_ := editedImap_ne_nil payload edited
        obtain ⟨updated, same, rows, vault⟩ :=
          saveEdit_of_typed payload now member alone (by decide) blank edited (by decide)
        rw [before, loaded, editedSmtp_ok] at vault
        refine ⟨updated, same, ?_⟩
        have after : loadStoredSecrets payload updated.vault existing.authVaultKey =
            .ok ⟨orElse password stored.imapPassword, orElse smtpPassword stored.smtpPassword⟩ := by
          rw [vault, loadStoredSecrets_update payload _ _ some_]
        rw [ChangesNothing, ← rowsSame, ← rows]
        constructor
        · intro unchanged
          have secrets := unchanged.secrets existing member
          rw [after, loaded] at secrets
          refine ⟨unchanged.rows, .inr ⟨stored, loaded, ?_⟩⟩
          exact ⟨congrArg AccountSecrets.imapPassword (Except.ok.inj secrets),
            congrArg AccountSecrets.smtpPassword (Except.ok.inj secrets)⟩
        · rintro ⟨unchanged, both | ⟨other, readable, imap, smtp⟩⟩
          · exact absurd both blank
          · rw [loaded] at readable
            obtain rfl := Except.ok.inj readable
            refine unchanged_of_secrets member unchanged (fun key apart => ?_) ?_
            · rw [vault, Function.update_of_ne apart]
            · rw [after, loaded, imap, smtp]

end Edit

end Refused

/-! ## Saving -/

section Save

variable {payload : Payload} {now freshKey : String} {refused : Option Step} {form : Option Form}
  {stores : Stores} {v : Form} {draft : NewAccount}

theorem save_of_new (accepted : acceptedForm refused form stores = .ok (v, none, draft)) :
    save payload refused now freshKey form stores = finish refused (createNew payload refused now
      freshKey draft (v.raw "password") (v.raw "smtp_password") stores) := by
  rw [save, accepted]

theorem save_of_edit {existing : Account}
    (accepted : acceptedForm refused form stores = .ok (v, some existing, draft)) :
    save payload refused now freshKey form stores =
      finish refused (((saveEdit payload refused now existing draft (v.raw "password")
        (v.raw "smtp_password") stores).1.map fun _ => existing.id),
          (saveEdit payload refused now existing draft (v.raw "password") (v.raw "smtp_password")
            stores).2) := by
  rw [save, accepted]

theorem save_iff_of_new (fresh : FreshKey freshKey stores)
    (accepted : acceptedForm refused form stores = .ok (v, none, draft)) :
    (∀ e, (save payload refused now freshKey form stores).1 = .error e →
      Unchanged payload stores (save payload refused now freshKey form stores).2) ↔
    refused ≠ some .setLastActive := by
  obtain ⟨passed, edits, -⟩ := acceptedForm_ok accepted
  have new : v.editId = none := edits.symm
  have alone : ∀ other ∈ stores.accounts.rows,
      ¬sameAddress other.emailAddress draft.emailAddress :=
    fun other member => passed.alone other member (by rw [new]; exact nofun)
  rw [save_of_new accepted]
  constructor
  · rintro unchanged rfl
    obtain ⟨id, created, creates, rows, -⟩ := createAccount_ok now
      { draft with authVaultKey := freshKey } { stores with
        vault := Function.update stores.vault freshKey
          (some (payload.write (v.raw "password") (v.raw "smtp_password"))) }
      (by decide : some Step.setLastActive ≠ some .createAccount) alone
    rw [createNew, if_neg (password_of_new passed new),
      saveSecrets_of_ne payload (by decide)] at unchanged
    dsimp only at unchanged
    rw [creates] at unchanged
    have same := (unchanged _ rfl).rows
    rw [finish_refused] at same
    dsimp only at same
    rw [rows] at same
    have length := congrArg List.length same
    simp at length
  · exact fun works e fails => unchanged_of_create fresh alone works fails

theorem save_iff_of_edit {existing : Account}
    (accepted : acceptedForm refused form stores = .ok (v, some existing, draft)) :
    (∀ e, (save payload refused now freshKey form stores).1 = .error e →
      Unchanged payload stores (save payload refused now freshKey form stores).2) ↔
    RecoverableForm payload now refused stores v (some existing) draft := by
  obtain ⟨passed, edits, known⟩ := acceptedForm_ok accepted
  have member := known existing rfl
  have alone : ∀ other ∈ stores.accounts.rows, other.id ≠ existing.id →
      ¬sameAddress other.emailAddress draft.emailAddress := by
    intro other inside apart
    refine passed.alone other inside fun same => apart ?_
    rw [← edits, Option.map_some] at same
    exact Option.some.inj same
  rw [save_of_edit accepted]
  by_cases last : refused = some .setLastActive
  · subst last
    have condition : RecoverableForm payload now (some .setLastActive) stores v (some existing)
        draft ↔ (v.raw "password" ≠ [] ∨ v.raw "smtp_password" = [] ∨
          (loadStoredSecrets payload stores.vault existing.authVaultKey).isOk = true →
            ChangesNothing payload now existing draft (v.raw "password") (v.raw "smtp_password")
              stores) :=
      ⟨fun holds => holds.2 rfl, fun holds => ⟨nofun, fun _ => holds⟩⟩
    rw [condition]
    rcases saveEdit_before_last payload now member alone with
      ⟨⟨updated, same, exactly⟩, reached⟩ | ⟨⟨refusal, same⟩, unreached⟩
    · rw [same]
      change (∀ e, (finish (some .setLastActive) (.ok existing.id, updated)).1 = .error e →
        Unchanged payload stores (finish (some .setLastActive) (.ok existing.id, updated)).2) ↔ _
      rw [finish_refused, exactly]
      exact ⟨fun nothing _ => nothing _ rfl, fun nothing _ _ => nothing reached⟩
    · rw [same]
      exact iff_of_true (fun _ _ => .refl payload stores) fun reached => absurd reached unreached
  · constructor
    · intro unchanged
      refine ⟨?_, fun same => absurd same last⟩
      rintro rfl typed
      by_contra unreadable
      have blank : ¬(v.raw "password" = [] ∧ v.raw "smtp_password" = []) := fun both => typed both.1
      have edited : editedImap (loadStoredSecrets payload stores.vault existing.authVaultKey)
          (v.raw "password") = .ok (v.raw "password") := by
        unfold editedImap
        exact if_neg typed
      rw [saveEdit_of_refused blank edited] at unchanged
      cases loaded : loadStoredSecrets payload stores.vault existing.authVaultKey with
      | ok old => exact unreadable (by rw [loaded]; rfl)
      | error e =>
          rw [loaded] at unchanged
          have secrets := (unchanged _ rfl).secrets existing member
          rw [loaded] at secrets
          have written := loadStoredSecrets_update payload stores.vault existing.authVaultKey typed
            (editedSmtp (.error e) (v.raw "smtp_password"))
          exact absurd (secrets.symm.trans written) nofun
    · intro condition e fails
      cases result : (saveEdit payload refused now existing draft (v.raw "password")
          (v.raw "smtp_password") stores).1 with
      | ok done =>
          rw [result] at fails
          change (finish refused (.ok existing.id, _)).1 = _ at fails
          rw [finish_eq last] at fails
          cases fails
      | error refusal => exact unchanged_of_edit member alone condition.1 result

end Save

/-- A refused save leaves everything as it was exactly where the refused step is
one that the code recovers from. -/
theorem save_iff {payload : Payload} {now freshKey : String} {refused : Option Step}
    {form : Option Form} {stores : Stores} (fresh : FreshKey freshKey stores) :
    (∀ e, (save payload refused now freshKey form stores).1 = .error e →
      Unchanged payload stores (save payload refused now freshKey form stores).2) ↔
    Recoverable payload now refused form stores := by
  cases accepted : acceptedForm refused form stores with
  | error e =>
      refine iff_of_true (fun _ _ => ?_) fun v existing draft same => ?_
      · rw [save, accepted]
        exact .refl payload stores
      · rw [accepted] at same
        cases same
  | ok found =>
      obtain ⟨v, existing, draft⟩ := found
      have condition : Recoverable payload now refused form stores ↔
          RecoverableForm payload now refused stores v existing draft := by
        constructor
        · exact fun holds => holds v existing draft accepted
        · intro holds v' existing' draft' same
          rw [accepted] at same
          cases same
          exact holds
      rw [condition]
      cases existing with
      | none => exact save_iff_of_new fresh accepted
      | some existing => exact save_iff_of_edit accepted

namespace Sample

/-- The secrets of the account were removed from the keyring. -/
def withoutSecrets : Stores :=
  { stores with vault := fun _ => none }

/-- A refused last step leaves the new password, and so does a refused update of
a row whose secrets cannot be read. -/
theorem new_password_stays :
    (¬∀ e, (save payload (some .setLastActive) now "mailclient:2" (some (edit "new" "")) stores).1 =
        .error e → Unchanged payload stores
          (save payload (some .setLastActive) now "mailclient:2" (some (edit "new" "")) stores).2) ∧
      ¬∀ e, (save payload (some .updateConnection) now "mailclient:2" (some (edit "new" ""))
        withoutSecrets).1 = .error e → Unchanged payload withoutSecrets
          (save payload (some .updateConnection) now "mailclient:2" (some (edit "new" ""))
            withoutSecrets).2 := by
  constructor
  · intro undone_
    have secrets := (undone_ (.sql "refused") (by decide)).secrets account (List.mem_singleton_self _)
    revert secrets
    decide
  · intro undone_
    have secrets := (undone_ (.sql "refused") (by decide)).secrets account (List.mem_singleton_self _)
    revert secrets
    decide

/-- A refused update of a row whose secrets can be read is undone. -/
theorem refused_update_undone :
    (∀ e, (save payload (some .updateConnection) now "mailclient:2" (some (edit "new" "smtp2"))
        stores).1 = .error e → Unchanged payload stores
          (save payload (some .updateConnection) now "mailclient:2" (some (edit "new" "smtp2"))
            stores).2) ↔
      Recoverable payload now (some .updateConnection) (some (edit "new" "smtp2")) stores :=
  save_iff ⟨by decide, by decide⟩

end Sample

end Accounts
end Mailcore
