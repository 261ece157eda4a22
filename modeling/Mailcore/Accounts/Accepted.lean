import Mailcore.Accounts.Save

/-!
# What an accepted form leads to

What the checks in front of a save promise, and what each of its steps then
does.
-/

namespace Mailcore
namespace Accounts

open Relational
open Store

/-- A bind that succeeds. -/
theorem bind_eq_ok {ε α β : Type} {first : Except ε α} {next : α → Except ε β} {result : β} :
    first >>= next = .ok result ↔ ∃ value, first = .ok value ∧ next value = .ok result := by
  cases first with
  | error e => exact iff_of_false nofun nofun
  | ok value =>
      constructor
      · exact fun same => ⟨value, rfl, same⟩
      · rintro ⟨other, same, rest⟩
        cases same
        exact rest

section Accepted

variable {payload : Payload} {refused : Option Step} {form : Option Form} {stores : Stores}
  {v : Form} {draft : NewAccount}

/-- What every accepted form has passed. -/
structure Passed (refused : Option Step) (form : Option Form) (stores : Stores) (v : Form)
    (draft : NewAccount) : Prop where
  parsed : form = some v
  checked : (check v v.editId.isSome).errors = []
  read : v.draft = .ok draft
  listed : refused ≠ some .listAccounts
  alone : ∀ other ∈ stores.accounts.rows, some other.id ≠ v.editId →
    ¬sameAddress other.emailAddress draft.emailAddress

theorem acceptedForm_ok {existing : Option Account}
    (accepted : acceptedForm refused form stores = .ok (v, existing, draft)) :
    Passed refused form stores v draft ∧
      existing.map Account.id = v.editId ∧ ∀ row ∈ existing, row ∈ stores.accounts.rows := by
  unfold acceptedForm at accepted
  obtain ⟨parsed, isForm, accepted⟩ := bind_eq_ok.mp accepted
  obtain ⟨⟨⟩, passes, accepted⟩ := bind_eq_ok.mp accepted
  obtain ⟨read, isDraft, accepted⟩ := bind_eq_ok.mp accepted
  obtain ⟨all, lists, accepted⟩ := bind_eq_ok.mp accepted
  obtain ⟨⟨⟩, single, accepted⟩ := bind_eq_ok.mp accepted
  obtain ⟨edited, finds, accepted⟩ := bind_eq_ok.mp accepted
  cases accepted
  have listed : refused ≠ some .listAccounts ∧ all = stores.accounts.rows := by
    unfold listAccounts at lists
    split_ifs at lists with no
    exact ⟨no, (Except.ok.inj lists).symm⟩
  obtain ⟨listed, rfl⟩ := listed
  refine ⟨⟨?_, ?_, isDraft, listed, ?_⟩, ?_⟩
  · unfold parseForm at isForm
    split at isForm
    · rw [Except.ok.inj isForm]
    · cases isForm
  · unfold passCheck at passes
    split at passes
    · cases passes
    · next none_ => exact List.head?_eq_none_iff.mp none_
  · intro other member apart same
    unfold refuseDuplicate at single
    split at single
    · cases single
    · next none_ =>
      have unused := List.find?_eq_none.mp none_ other member
      simp [same, apart] at unused
  · unfold editedAccount at finds
    split at finds
    · next id isEdit =>
      split at finds
      · next found =>
        cases finds
        have member := List.mem_of_find?_eq_some found
        have same := List.find?_some found
        rw [decide_eq_true_eq] at same
        refine ⟨by rw [isEdit, Option.map_some, same], ?_⟩
        rintro row ⟨⟩
        exact member
      · cases finds
    · next isNew =>
      cases finds
      exact ⟨isNew.symm, nofun⟩

/-- A form without an account to edit has a password. -/
theorem password_of_new (passed : Passed refused form stores v draft) (new : v.editId = none) :
    v.raw "password" ≠ [] := by
  intro blank
  have checked := passed.checked
  rw [new] at checked
  simp [check, blank] at checked

end Accepted

/-! ## The steps -/

section Steps

variable (payload : Payload)

theorem saveSecrets_of_ne {refused : Option Step} {step : Step} (works : refused ≠ some step)
    (vaultKey : String) (imap smtp : List Char) (stores : Stores) :
    saveSecrets payload refused step vaultKey imap smtp stores = .ok { stores with
      vault := Function.update stores.vault vaultKey (some (payload.write imap smtp)) } :=
  if_neg works

/-- What was stored is loaded again. -/
theorem loadStoredSecrets_update (vault : Vault) (vaultKey : String) {imap : List Char}
    (typed : imap ≠ []) (smtp : List Char) :
    loadStoredSecrets payload (Function.update vault vaultKey (some (payload.write imap smtp)))
      vaultKey = .ok ⟨imap, smtp⟩ := by
  rw [loadStoredSecrets, Function.update_self]
  dsimp only
  rw [payload.read_write]
  exact if_neg typed

theorem loadStoredSecrets_of_ne {vault : Vault} {vaultKey other : String} (apart : other ≠ vaultKey)
    (entry : Option (List Char)) :
    loadStoredSecrets payload (Function.update vault vaultKey entry) other =
      loadStoredSecrets payload vault other := by
  rw [loadStoredSecrets, loadStoredSecrets, Function.update_of_ne apart]

theorem imap_ne_nil_of_loadStoredSecrets {vault : Vault} {vaultKey : String}
    {stored : AccountSecrets} (loaded : loadStoredSecrets payload vault vaultKey = .ok stored) :
    stored.imapPassword ≠ [] := by
  unfold loadStoredSecrets at loaded
  split at loaded
  · cases loaded
  · dsimp only at loaded
    split_ifs at loaded with blank
    cases loaded
    exact blank

/-- The IMAP password of an edit is there. -/
theorem editedImap_ne_nil {refused : Option Step} {existing : Account} {stores : Stores}
    {password imap : List Char}
    (edited : editedImap (storedBefore payload refused existing stores) password = .ok imap) :
    imap ≠ [] := by
  unfold editedImap at edited
  by_cases blank : password = []
  · rw [if_pos blank] at edited
    cases stored : storedBefore payload refused existing stores with
    | error e => simp [stored] at edited
    | ok s =>
        rw [stored] at edited
        cases edited
        unfold storedBefore at stored
        split_ifs at stored
        exact imap_ne_nil_of_loadStoredSecrets payload stored
  · rw [if_neg blank] at edited
    cases edited
    exact blank

theorem replaceSecrets_of_blank (refused : Option Step) (existing : Account) (stores : Stores) :
    replaceSecrets payload refused existing [] [] stores = .ok (none, false, stores) :=
  if_pos ⟨rfl, rfl⟩

/-- An edit with a typed password writes both secrets at once. -/
theorem replaceSecrets_of_typed {refused : Option Step} {existing : Account} {stores : Stores}
    {password smtpPassword imap : List Char} (typed : ¬(password = [] ∧ smtpPassword = []))
    (edited : editedImap (storedBefore payload refused existing stores) password = .ok imap)
    (works : refused ≠ some .saveSecrets) :
    replaceSecrets payload refused existing password smtpPassword stores =
      .ok ((storedBefore payload refused existing stores).toOption, true, { stores with
        vault := Function.update stores.vault existing.authVaultKey (some (payload.write imap
          (editedSmtp (storedBefore payload refused existing stores) smtpPassword))) }) := by
  rw [replaceSecrets, if_neg typed]
  exact bind_eq_ok.mpr ⟨imap, edited,
    bind_eq_ok.mpr ⟨_, saveSecrets_of_ne payload works _ _ _ _, rfl⟩⟩

/-- Where an edit's secrets are refused, nothing has been written. -/
theorem replaceSecrets_error {refused : Option Step} {existing : Account} {stores : Stores}
    {password smtpPassword : List Char} (typed : ¬(password = [] ∧ smtpPassword = []))
    (fails : refused = some .saveSecrets ∨ ∃ e,
      editedImap (storedBefore payload refused existing stores) password = .error e) :
    ∃ e, replaceSecrets payload refused existing password smtpPassword stores = .error e := by
  rw [replaceSecrets, if_neg typed]
  dsimp only
  cases edited : editedImap (storedBefore payload refused existing stores) password with
  | error e => exact ⟨e, rfl⟩
  | ok imap =>
      rcases fails with no | ⟨e, same⟩
      · refine ⟨.keyring "store failed", ?_⟩
        change (saveSecrets payload refused .saveSecrets existing.authVaultKey imap
          (editedSmtp (storedBefore payload refused existing stores) smtpPassword) stores >>= _) = _
        rw [saveSecrets, if_pos no]
        rfl
      · rw [edited] at same
        cases same

end Steps

section Rows

variable {refused : Option Step} (now : String) (draft : NewAccount) (stores : Stores)

theorem updateConnection_ok {existing : Account} (works : refused ≠ some .updateConnection)
    (member : existing ∈ stores.accounts.rows)
    (alone : ∀ other ∈ stores.accounts.rows, other.id ≠ existing.id →
      ¬sameAddress other.emailAddress draft.emailAddress) :
    ∃ updated, updateConnection refused now existing.id draft stores = .ok updated ∧
      (updated.accounts.rows = stores.accounts.rows.map fun row =>
        if row.id = existing.id then row.connected draft now else row) ∧
      updated.vault = stores.vault := by
  have there : ¬∀ row ∈ stores.accounts.rows, row.id ≠ existing.id :=
    fun none_ => none_ existing member rfl
  rw [updateConnection, if_neg works, dif_pos alone, if_neg there]
  refine ⟨_, rfl, ?_, rfl⟩
  refine List.map_congr_left fun row _ => ?_
  simp only [decide_eq_true_eq]

theorem updateConnection_refused (id : Nat) :
    updateConnection (some .updateConnection) now id draft stores = .error (.sql "refused") :=
  if_pos rfl

theorem createAccount_ok (works : refused ≠ some .createAccount)
    (alone : ∀ other ∈ stores.accounts.rows,
      ¬sameAddress other.emailAddress draft.emailAddress) :
    ∃ id created, createAccount refused now draft stores = .ok (id, created) ∧
      (created.accounts.rows = stores.accounts.rows ++
        [{ toNewAccount := draft, id, createdAt := now, updatedAt := now }]) ∧
      created.vault = stores.vault := by
  rw [createAccount, if_neg works, dif_pos alone]
  exact ⟨_, _, rfl, rfl, rfl⟩

theorem createAccount_refused :
    createAccount (some .createAccount) now draft stores = .error (.sql "refused") :=
  if_pos rfl

end Rows

/-! ## An edit that goes through -/

section Edit

variable {payload : Payload} {refused : Option Step} {now : String} {existing : Account}
  {draft : NewAccount} {stores : Stores}

/-- The rows after an edit. -/
def editedRows (now : String) (existing : Account) (draft : NewAccount) (stores : Stores) :
    List Account :=
  stores.accounts.rows.map fun row =>
    if row.id = existing.id then row.connected draft now else row

theorem eq_of_id {first second : Account} (here : first ∈ stores.accounts.rows)
    (there : second ∈ stores.accounts.rows) (same : first.id = second.id) : first = second := by
  have firstFound : stores.accounts.toTable.find? first.id = some first := Table.find?_of_mem here
  have secondFound : stores.accounts.toTable.find? second.id = some second :=
    Table.find?_of_mem there
  rw [same, secondFound] at firstFound
  exact (Option.some.inj firstFound).symm

/-- The edited account after an edit is the one it was, with its vault key. -/
theorem eq_of_mem_editedRows {row : Account} (member : existing ∈ stores.accounts.rows)
    (edited : row ∈ editedRows now existing draft stores) (same : row.id = existing.id) :
    row = existing.connected draft now := by
  obtain ⟨old, inside, rfl⟩ := List.mem_map.mp edited
  by_cases here : old.id = existing.id
  · rw [if_pos here, eq_of_id inside member here]
  · rw [if_neg here] at same
    exact absurd same here

theorem mem_editedRows (member : existing ∈ stores.accounts.rows) :
    existing.connected draft now ∈ editedRows now existing draft stores :=
  List.mem_map.mpr ⟨existing, member, if_pos rfl⟩

variable (payload now) (member : existing ∈ stores.accounts.rows)
  (alone : ∀ other ∈ stores.accounts.rows, other.id ≠ existing.id →
    ¬sameAddress other.emailAddress draft.emailAddress)
  (works : refused ≠ some .updateConnection)

include member alone works

theorem saveEdit_of_blank : ∃ updated,
    saveEdit payload refused now existing draft [] [] stores = (.ok (), updated) ∧
      updated.accounts.rows = editedRows now existing draft stores ∧
        updated.vault = stores.vault := by
  obtain ⟨updated, same, rows, vault⟩ := updateConnection_ok now draft stores works member alone
  refine ⟨updated, ?_, rows, vault⟩
  rw [saveEdit, replaceSecrets_of_blank]
  dsimp only
  rw [same]

theorem saveEdit_of_typed {password smtpPassword imap : List Char}
    (typed : ¬(password = [] ∧ smtpPassword = []))
    (edited : editedImap (storedBefore payload refused existing stores) password = .ok imap)
    (stored : refused ≠ some .saveSecrets) : ∃ updated,
    saveEdit payload refused now existing draft password smtpPassword stores = (.ok (), updated) ∧
      updated.accounts.rows = editedRows now existing draft stores ∧
        updated.vault = Function.update stores.vault existing.authVaultKey (some (payload.write imap
          (editedSmtp (storedBefore payload refused existing stores) smtpPassword))) := by
  obtain ⟨updated, same, rows, vault⟩ := updateConnection_ok now draft { stores with
    vault := Function.update stores.vault existing.authVaultKey (some (payload.write imap
      (editedSmtp (storedBefore payload refused existing stores) smtpPassword))) } works member alone
  refine ⟨updated, ?_, rows, vault⟩
  rw [saveEdit, replaceSecrets_of_typed payload typed edited stored]
  dsimp only
  rw [same]

end Edit

end Accounts
end Mailcore
