import Mailcore.Accounts.Accepted

/-!
# The connection test

The setup form is tested before it is saved.  Hosts, ports, security and user
names of the test are those of the saved account; the passwords are too, except
where only one of them is typed and the stored SMTP password is another one.
-/

namespace Mailcore
namespace Accounts

open Store

/-- A parsed connection test: the transient account, whose id, vault key and
times are placeholders, and the passwords to probe it with. -/
structure ConnectionTestSetup where
  account : NewAccount
  imapPassword : List Char
  smtpPassword : List Char

def Form.testPort (form : Form) (k : String) (protocol : Protocol) (security : String) :
    Except String Nat :=
  match portValue (form k) with
  | .ok p => .ok (p.getD (defaultPort protocol security))
  | .error () => .error "a port must be a number from 1 to 65535"

/-- The passwords to test with. -/
def testPasswords (payload : Payload) (v : Form) (stores : Stores) :
    Except String (List Char × List Char) :=
  let password := v.raw "password"
  let smtpPassword := v.raw "smtp_password"
  if password ≠ [] then
    .ok (password, if smtpPassword = [] then password else smtpPassword)
  else
    match v.editId with
    | some id =>
        match stores.accounts.toTable.find? id with
        | none => .error "this account no longer exists"
        | some existing =>
            match loadAccountSecrets payload stores.vault existing.authVaultKey with
            | .ok stored => .ok (stored.imapPassword, stored.smtpPassword)
            | .error _ => .error "enter the IMAP password too: the stored one cannot be read"
    | none => .error "a password is required for a new account"

/-- The account that the test reads from a form. -/
def Form.tested (v : Form) : Except String NewAccount := do
  let imapSecurity := normalizeSecurity (v.raw "imap_sec")
  let smtpSecurity := normalizeSecurity (v.raw "smtp_sec")
  let imapPort ← v.testPort "imap_port" .imap imapSecurity
  let smtpPort ← v.testPort "smtp_port" .smtp smtpSecurity
  return {
    name := orElse (v.text "name") (v.text "email")
    emailAddress := v.text "email"
    fromName := v.text "from_name"
    imapHost := v.text "imap_host"
    imapPort
    imapSecurity
    imapUsername := v.imapUser
    smtpHost := v.text "smtp_host"
    smtpPort
    smtpSecurity
    smtpUsername := orElse (v.text "smtp_user") v.imapUser
    authVaultKey := ""
    checkIntervalSecs := 300 }

def parseTest (form : Option Form) : Except String Form :=
  match form with
  | some v => .ok v
  | none => .error "invalid account form"

def passTestCheck (v : Form) : Except String Unit :=
  match (check v v.editId.isSome).errors.head? with
  | some (_, msg) => .error msg
  | none => .ok ()

/-- Parse the form into a transient account plus resolved passwords. -/
def prepareConnectionTest (payload : Payload) (form : Option Form) (stores : Stores) :
    Except String ConnectionTestSetup := do
  let v ← parseTest form
  passTestCheck v
  let passwords ← testPasswords payload v stores
  let account ← v.tested
  return ⟨account, passwords.1, passwords.2⟩

/-! ## The test and the saved account -/

/-- The same servers with the same security, ports and users. -/
structure SameConnection (tested saved : NewAccount) : Prop where
  imapHost : saved.imapHost = tested.imapHost
  imapPort : saved.imapPort = tested.imapPort
  imapSecurity : saved.imapSecurity = tested.imapSecurity
  imapUsername : saved.imapUsername = tested.imapUsername
  smtpHost : saved.smtpHost = tested.smtpHost
  smtpPort : saved.smtpPort = tested.smtpPort
  smtpSecurity : saved.smtpSecurity = tested.smtpSecurity
  smtpUsername : saved.smtpUsername = tested.smtpUsername

/-- The saved account and its secrets are what was tested. -/
def TestedAccount (payload : Payload) (setup : ConnectionTestSetup) (id : Nat) (after : Stores) :
    Prop :=
  ∃ row ∈ after.accounts.rows, row.id = id ∧ SameConnection setup.account row.toNewAccount ∧
    loadAccountSecrets payload after.vault row.authVaultKey =
      .ok ⟨setup.imapPassword, setup.smtpPassword⟩

/-- No stored SMTP password stands against the one typed password of an edit. -/
def NoOtherSmtp (payload : Payload) (form : Option Form) (stores : Stores) : Prop :=
  ∀ v ∈ form, ∀ existing ∈ stores.accounts.rows, v.editId = some existing.id →
    ∀ stored, loadStoredSecrets payload stores.vault existing.authVaultKey = .ok stored →
      (v.raw "password" ≠ [] → v.raw "smtp_password" = [] →
        stored.smtpPassword = [] ∨ stored.smtpPassword = v.raw "password") ∧
      (v.raw "password" = [] → v.raw "smtp_password" ≠ [] →
        v.raw "smtp_password" = resolveSmtp stored.imapPassword stored.smtpPassword)

theorem tested_of_draft {v : Form} {draft : NewAccount} (read : v.draft = .ok draft) :
    v.tested = .ok draft := by
  unfold Form.draft at read
  obtain ⟨imapPort, imap, read⟩ := bind_eq_ok.mp read
  obtain ⟨smtpPort, smtp, read⟩ := bind_eq_ok.mp read
  have same : ∀ {k protocol security port}, v.port k protocol security = .ok port →
      v.testPort k protocol security = .ok port := by
    intro k protocol security port found
    unfold Form.port at found
    unfold Form.testPort
    cases value : portValue (v k) with
    | ok p =>
        rw [value] at found
        cases found
        rfl
    | error =>
        rw [value] at found
        cases found
  cases read
  exact bind_eq_ok.mpr ⟨imapPort, same imap, bind_eq_ok.mpr ⟨smtpPort, same smtp, rfl⟩⟩

theorem sameConnection_connected (row : Account) (draft : NewAccount) (now : String) :
    SameConnection draft (row.connected draft now).toNewAccount :=
  ⟨rfl, rfl, rfl, rfl, rfl, rfl, rfl, rfl⟩

theorem prepareConnectionTest_ok {payload : Payload} {form : Option Form} {stores : Stores}
    {setup : ConnectionTestSetup}
    (prepared : prepareConnectionTest payload form stores = .ok setup) :
    ∃ v, form = some v ∧ v.tested = .ok setup.account ∧
      testPasswords payload v stores = .ok (setup.imapPassword, setup.smtpPassword) := by
  unfold prepareConnectionTest at prepared
  obtain ⟨v, parsed, prepared⟩ := bind_eq_ok.mp prepared
  obtain ⟨⟨⟩, -, prepared⟩ := bind_eq_ok.mp prepared
  obtain ⟨passwords, typed, prepared⟩ := bind_eq_ok.mp prepared
  obtain ⟨account, read, prepared⟩ := bind_eq_ok.mp prepared
  cases prepared
  refine ⟨v, ?_, read, typed⟩
  unfold parseTest at parsed
  split at parsed
  · rw [Except.ok.inj parsed]
  · cases parsed

/-- What is loaded of the entry that a save wrote. -/
theorem loadAccountSecrets_update (payload : Payload) (vault : Vault) (vaultKey : String)
    {imap : List Char} (typed : imap ≠ []) (smtp : List Char) :
    loadAccountSecrets payload
      (Function.update vault vaultKey (some (payload.write imap smtp))) vaultKey =
        .ok ⟨imap, resolveSmtp imap smtp⟩ :=
  bind_eq_ok.mpr ⟨_, loadStoredSecrets_update payload vault vaultKey typed smtp, rfl⟩

section Saved

variable {payload : Payload} {now freshKey : String} {form : Option Form} {stores after : Stores}
  {setup : ConnectionTestSetup} {id : Nat}

theorem save_ok (saved : save payload none now freshKey form stores = (.ok id, after)) :
    ∃ v existing draft, acceptedForm none form stores = .ok (v, existing, draft) := by
  unfold save at saved
  cases accepted : acceptedForm none form stores with
  | error e =>
      rw [accepted] at saved
      cases saved
  | ok found => exact ⟨found.1, found.2.1, found.2.2, rfl⟩

theorem finish_ok {saved : Except StoreError Nat × Stores}
    (finished : finish none saved = (.ok id, after)) :
    saved.1 = .ok id ∧ after.accounts = saved.2.accounts ∧ after.vault = saved.2.vault := by
  obtain ⟨result, changed⟩ := saved
  cases result with
  | error e => cases finished
  | ok found =>
      cases finished
      exact ⟨rfl, rfl, rfl⟩

/-- A new account is what was tested. -/
theorem testedAccount_of_new {v : Form} {draft : NewAccount}
    (prepared : prepareConnectionTest payload form stores = .ok setup)
    (accepted : acceptedForm none form stores = .ok (v, none, draft))
    (saved : save payload none now freshKey form stores = (.ok id, after)) :
    TestedAccount payload setup id after := by
  obtain ⟨passed, edits, -⟩ := acceptedForm_ok accepted
  have new : v.editId = none := edits.symm
  have typed := password_of_new passed new
  obtain ⟨w, isForm, read, passwords⟩ := prepareConnectionTest_ok prepared
  obtain rfl := Option.some.inj (passed.parsed.symm.trans isForm)
  obtain rfl := Except.ok.inj ((tested_of_draft passed.read).symm.trans read)
  have alone : ∀ other ∈ stores.accounts.rows,
      ¬sameAddress other.emailAddress setup.account.emailAddress :=
    fun other member => passed.alone other member (by rw [new]; exact nofun)
  obtain ⟨newId, created, creates, rows, vault⟩ := createAccount_ok now
    { setup.account with authVaultKey := freshKey }
    { stores with
      vault := Function.update stores.vault freshKey
        (some (payload.write (v.raw "password") (v.raw "smtp_password"))) }
    (Option.some_ne_none Step.createAccount).symm alone
  have result : createNew payload none now freshKey setup.account (v.raw "password")
      (v.raw "smtp_password") stores = (.ok newId, created) := by
    rw [createNew, if_neg typed, saveSecrets_of_ne payload (by decide)]
    dsimp only
    rw [creates]
  rw [save, accepted] at saved
  dsimp only at saved
  rw [result] at saved
  obtain ⟨same, accounts, kept⟩ := finish_ok saved
  obtain rfl := Except.ok.inj same
  refine ⟨{ toNewAccount := { setup.account with authVaultKey := freshKey }
            id := newId, createdAt := now, updatedAt := now },
    ?_, rfl, ⟨rfl, rfl, rfl, rfl, rfl, rfl, rfl, rfl⟩, ?_⟩
  · rw [accounts, rows]
    exact List.mem_append_right _ (List.mem_singleton_self _)
  · rw [kept, vault, loadAccountSecrets_update payload _ _ typed]
    unfold testPasswords at passwords
    dsimp only at passwords
    rw [if_pos typed] at passwords
    obtain ⟨imap, smtp⟩ := Prod.mk.inj (Except.ok.inj passwords)
    rw [← imap, ← smtp]
    rfl

/-- The secrets that the account of an edit has afterwards. -/
theorem secrets_of_edit {v : Form} {draft : NewAccount} {existing : Account}
    (accepted : acceptedForm none form stores = .ok (v, some existing, draft))
    (saved : save payload none now freshKey form stores = (.ok id, after)) :
    id = existing.id ∧ after.accounts.rows = editedRows now existing draft stores ∧
      (v.raw "password" = [] → v.raw "smtp_password" = [] → after.vault = stores.vault) ∧
      (¬(v.raw "password" = [] ∧ v.raw "smtp_password" = []) →
        ∃ imap, editedImap (loadStoredSecrets payload stores.vault existing.authVaultKey)
            (v.raw "password") = .ok imap ∧
          imap ≠ [] ∧ after.vault = Function.update stores.vault existing.authVaultKey
            (some (payload.write imap (editedSmtp
              (loadStoredSecrets payload stores.vault existing.authVaultKey)
                (v.raw "smtp_password"))))) := by
  obtain ⟨passed, edits, known⟩ := acceptedForm_ok accepted
  have member := known existing rfl
  have alone : ∀ other ∈ stores.accounts.rows, other.id ≠ existing.id →
      ¬sameAddress other.emailAddress draft.emailAddress := by
    intro other inside apart
    refine passed.alone other inside fun same => apart ?_
    rw [← edits, Option.map_some] at same
    exact Option.some.inj same
  have before : storedBefore payload none existing stores =
      loadStoredSecrets payload stores.vault existing.authVaultKey := if_neg nofun
  have works : ∀ step : Step, none ≠ some step := fun _ => nofun
  rw [save, accepted] at saved
  dsimp only at saved
  by_cases blank : v.raw "password" = [] ∧ v.raw "smtp_password" = []
  · obtain ⟨updated, same, rows, vault⟩ := saveEdit_of_blank payload now member alone
      (works _)
    rw [blank.1, blank.2, same] at saved
    obtain ⟨result, accounts, kept⟩ := finish_ok saved
    refine ⟨(Except.ok.inj result).symm, by rw [accounts, rows], fun _ _ => by rw [kept, vault], ?_⟩
    exact fun typed => absurd blank typed
  · cases edited : editedImap (storedBefore payload none existing stores) (v.raw "password") with
    | error e =>
        obtain ⟨refusal, fails⟩ := replaceSecrets_error payload blank (.inr ⟨e, edited⟩)
        rw [saveEdit, fails] at saved
        cases saved
    | ok imap =>
        obtain ⟨updated, same, rows, vault⟩ := saveEdit_of_typed payload now member alone
          (works _) blank edited (works _)
        rw [same] at saved
        obtain ⟨result, accounts, kept⟩ := finish_ok saved
        refine ⟨(Except.ok.inj result).symm, by rw [accounts, rows], ?_, fun _ => ?_⟩
        · exact fun noImap noSmtp => absurd ⟨noImap, noSmtp⟩ blank
        · refine ⟨imap, before ▸ edited, editedImap_ne_nil payload edited, ?_⟩
          rw [kept, vault, before]

end Saved

/-- Without a typed IMAP password the stored secrets are tested. -/
theorem testPasswords_of_blank {payload : Payload} {stores : Stores} {v : Form} {existing : Account}
    {imap smtp : List Char} (blank : v.raw "password" = [])
    (member : existing ∈ stores.accounts.rows) (edit : v.editId = some existing.id)
    (typed : testPasswords payload v stores = .ok (imap, smtp)) :
    ∃ stored, loadStoredSecrets payload stores.vault existing.authVaultKey = .ok stored ∧
      imap = stored.imapPassword ∧ smtp = resolveSmtp stored.imapPassword stored.smtpPassword := by
  have found : stores.accounts.toTable.find? existing.id = some existing :=
    Relational.Table.find?_of_mem member
  unfold testPasswords at typed
  dsimp only at typed
  rw [if_neg (not_not_intro blank), edit] at typed
  dsimp only at typed
  rw [found] at typed
  dsimp only at typed
  cases loaded : loadAccountSecrets payload stores.vault existing.authVaultKey with
  | error e =>
      rw [loaded] at typed
      cases typed
  | ok both =>
      rw [loaded] at typed
      cases typed
      obtain ⟨stored, before, same⟩ := bind_eq_ok.mp loaded
      cases same
      exact ⟨stored, before, rfl, rfl⟩

/-- The saved account is the tested one exactly where an edit with one typed
password has no other SMTP password stored. -/
theorem tested_iff {payload : Payload} {now freshKey : String} {form : Option Form}
    {stores after : Stores} {setup : ConnectionTestSetup} {id : Nat}
    (prepared : prepareConnectionTest payload form stores = .ok setup)
    (saved : save payload none now freshKey form stores = (.ok id, after)) :
    TestedAccount payload setup id after ↔ NoOtherSmtp payload form stores := by
  obtain ⟨v, existing, draft, accepted⟩ := save_ok saved
  obtain ⟨passed, edits, known⟩ := acceptedForm_ok accepted
  cases existing with
  | none =>
      refine iff_of_true (testedAccount_of_new prepared accepted saved) ?_
      intro w isForm row member edit
      obtain rfl := Option.some.inj (passed.parsed.symm.trans isForm)
      rw [← edits] at edit
      cases edit
  | some existing =>
      have member := known existing rfl
      obtain ⟨w, isForm, read, passwords⟩ := prepareConnectionTest_ok prepared
      obtain rfl := Option.some.inj (passed.parsed.symm.trans isForm)
      obtain rfl := Except.ok.inj ((tested_of_draft passed.read).symm.trans read)
      obtain ⟨rfl, rows, keeps, writes⟩ := secrets_of_edit accepted saved
      have tested : TestedAccount payload setup existing.id after ↔
          loadAccountSecrets payload after.vault existing.authVaultKey =
            .ok ⟨setup.imapPassword, setup.smtpPassword⟩ := by
        constructor
        · rintro ⟨row, inside, same, -, loaded⟩
          rw [rows] at inside
          rwa [eq_of_mem_editedRows member inside same] at loaded
        · intro loaded
          refine ⟨existing.connected setup.account now, ?_, rfl,
            sameConnection_connected existing setup.account now, loaded⟩
          rw [rows]
          exact mem_editedRows member
      have condition : NoOtherSmtp payload form stores ↔ ∀ stored,
          loadStoredSecrets payload stores.vault existing.authVaultKey = .ok stored →
            (v.raw "password" ≠ [] → v.raw "smtp_password" = [] →
              stored.smtpPassword = [] ∨ stored.smtpPassword = v.raw "password") ∧
            (v.raw "password" = [] → v.raw "smtp_password" ≠ [] →
              v.raw "smtp_password" = resolveSmtp stored.imapPassword stored.smtpPassword) := by
        constructor
        · exact fun holds => holds v isForm existing member edits.symm
        · intro holds w isForm row inside edit
          obtain rfl := Option.some.inj (passed.parsed.symm.trans isForm)
          rw [← edits, Option.map_some] at edit
          rw [eq_of_id inside member (Option.some.inj edit).symm]
          exact holds
      rw [tested, condition]
      by_cases blank : v.raw "password" = []
      · obtain ⟨stored, loaded, imap, smtp⟩ := testPasswords_of_blank blank member edits.symm passwords
        by_cases blankSmtp : v.raw "smtp_password" = []
        · rw [keeps blank blankSmtp, imap, smtp]
          refine iff_of_true (bind_eq_ok.mpr ⟨stored, loaded, rfl⟩) fun other _ => ?_
          exact ⟨fun typed => absurd blank typed, fun _ typed => absurd blankSmtp typed⟩
        · obtain ⟨written, same, some_, vault⟩ := writes fun both => blankSmtp both.2
          unfold editedImap at same
          rw [if_pos blank, loaded] at same
          obtain rfl := Except.ok.inj same
          rw [vault, loadAccountSecrets_update payload _ _ some_, loaded, editedSmtp,
            if_neg blankSmtp, imap, smtp, resolveSmtp, if_neg blankSmtp]
          simp [blank, blankSmtp]
      · obtain ⟨written, same, some_, vault⟩ := writes fun both => blank both.1
        unfold editedImap at same
        rw [if_neg blank] at same
        obtain rfl := Except.ok.inj same
        unfold testPasswords at passwords
        dsimp only at passwords
        rw [if_pos blank] at passwords
        obtain ⟨imap, smtp⟩ := Prod.mk.inj (Except.ok.inj passwords)
        rw [vault, loadAccountSecrets_update payload _ _ some_, ← imap, ← smtp]
        by_cases blankSmtp : v.raw "smtp_password" = []
        · cases stored : loadStoredSecrets payload stores.vault existing.authVaultKey with
          | error e => simp [editedSmtp, blankSmtp, resolveSmtp]
          | ok s =>
              by_cases separate : s.smtpPassword = [] <;>
                simp [editedSmtp, blankSmtp, resolveSmtp, blank, separate]
        · simp [editedSmtp, blankSmtp, resolveSmtp, blank]

namespace Sample

def escape : Char → List Char
  | '"' => ['\\', '"']
  | '\\' => ['\\', '\\']
  | char => [char]

/-- The text up to the closing quote, and what follows. -/
def unquote : List Char → Option (List Char × List Char)
  | [] => none
  | '"' :: rest => some ([], rest)
  | '\\' :: char :: rest => (unquote rest).map fun cut => (char :: cut.1, cut.2)
  | char :: rest => (unquote rest).map fun cut => (char :: cut.1, cut.2)

theorem unquote_escapeChar (char : Char) (rest : List Char) :
    unquote (escape char ++ rest) = (unquote rest).map fun cut => (char :: cut.1, cut.2) := by
  unfold escape
  split
  · rfl
  · rfl
  · next quote slash =>
    rw [List.cons_append, List.nil_append, unquote]
    · exact quote
    · exact fun _ _ same => absurd same slash

theorem unquote_escape (text rest : List Char) :
    unquote (text.flatMap escape ++ '"' :: rest) = some (text, rest) := by
  induction text with
  | nil => rfl
  | cons char text inductionHypothesis =>
      rw [List.flatMap_cons, List.append_assoc, unquote_escapeChar, inductionHypothesis]
      rfl

/-- Two texts as JSON members. -/
def payload : Payload where
  write imap smtp := "\x7b\"imap\":\"".toList ++ (imap.flatMap escape ++
    '"' :: (",\"smtp\":\"".toList ++ (smtp.flatMap escape ++ '"' :: "\x7d".toList)))
  read raw := do
    let (imap, rest) ← unquote (raw.drop 9)
    let (smtp, _) ← unquote (rest.drop 9)
    return (imap, smtp)
  read_write imap smtp := by
    have front (rest : List Char) : ("\x7b\"imap\":\"".toList ++ rest).drop 9 = rest :=
      List.drop_left' (by decide)
    have middle (rest : List Char) : (",\"smtp\":\"".toList ++ rest).drop 9 = rest :=
      List.drop_left' (by decide)
    rw [front, unquote_escape]
    change (unquote (List.drop 9 (",\"smtp\":\"".toList ++ _)) >>= _) = _
    rw [middle, unquote_escape]
    rfl

/-- An account with an SMTP password of its own. -/
def account : Account where
  name := "Work".toList
  emailAddress := "user@example.com".toList
  fromName := []
  imapHost := "imap.example.com".toList
  imapPort := 993
  imapSecurity := "tls"
  imapUsername := "user@example.com".toList
  smtpHost := "smtp.example.com".toList
  smtpPort := 465
  smtpSecurity := "tls"
  smtpUsername := "user@example.com".toList
  authVaultKey := "mailclient:1"
  checkIntervalSecs := 300
  id := 1
  createdAt := "2026-01-01T00:00:00Z"
  updatedAt := "2026-01-01T00:00:00Z"

def stores : Stores where
  accounts :=
    { rows := [account]
      last := 1
      ascending := by simp
      bounded := by decide
      oneMailbox := by simp }
  vault key := if key = "mailclient:1" then some (payload.write "old".toList "smtp1".toList) else none
  lastActive := some 1

/-- The edit form with these passwords. -/
def edit (password smtpPassword : String) : Form := fun key =>
  if key = "id" then some (.number 1)
  else if key = "email" then some (.text "user@example.com".toList)
  else if key = "imap_host" then some (.text "imap.example.com".toList)
  else if key = "smtp_host" then some (.text "smtp.example.com".toList)
  else if key = "password" then some (.text password.toList)
  else if key = "smtp_password" then some (.text smtpPassword.toList)
  else none

/-- The test of the edit with these passwords. -/
def setup (imapPassword smtpPassword : String) : ConnectionTestSetup where
  account :=
    { account.toNewAccount with
      name := "user@example.com".toList
      authVaultKey := "" }
  imapPassword := imapPassword.toList
  smtpPassword := smtpPassword.toList

def now : String :=
  "2026-02-01T00:00:00Z"

/-- Only the IMAP password is typed: the test takes it for SMTP too, and the
saved account logs in there with the old one. -/
theorem one_password_typed :
    prepareConnectionTest payload (some (edit "new" "")) stores = .ok (setup "new" "new") ∧
      ∃ after, save payload none now "mailclient:2" (some (edit "new" "")) stores = (.ok 1, after) ∧
        ¬TestedAccount payload (setup "new" "new") 1 after := by
  refine ⟨rfl, (save payload none now "mailclient:2" (some (edit "new" "")) stores).2,
    Prod.ext (by decide) rfl, ?_⟩
  rintro ⟨row, member, -, -, loaded⟩
  have rows : (save payload none now "mailclient:2" (some (edit "new" "")) stores).2.accounts.rows.map
      (fun row => row.authVaultKey) = ["mailclient:1"] := by decide
  have same : row.authVaultKey = "mailclient:1" := by
    have listed := List.mem_map_of_mem (f := fun row : Account => row.authVaultKey) member
    rw [rows] at listed
    exact List.mem_singleton.mp listed
  rw [same] at loaded
  revert loaded
  decide

/-- With both passwords typed the saved account is the tested one. -/
theorem both_passwords_typed :
    TestedAccount payload (setup "new" "smtp2") 1
        (save payload none now "mailclient:2" (some (edit "new" "smtp2")) stores).2 ↔
      NoOtherSmtp payload (some (edit "new" "smtp2")) stores := by
  have saved : save payload none now "mailclient:2" (some (edit "new" "smtp2")) stores =
      (.ok 1, (save payload none now "mailclient:2" (some (edit "new" "smtp2")) stores).2) :=
    Prod.ext (by decide) rfl
  exact tested_iff rfl saved

end Sample

end Accounts
end Mailcore
