import Mailcore.Html.Urls
import Mailcore.Store.Error
import Mailcore.Text.LowerCase
import Mailcore.Text.Numeral

/-!
# The setup form

What the setup forms send, how it is checked, and the account it describes.
-/

namespace Mailcore
namespace Accounts

open Html (trim)
open Store
open Text (asciiLower parseUnsigned splitOnceAt)

/-- A value of the form's JSON, as far as the form is read. -/
inductive Value
  | null
  | number (value : Int)
  | text (chars : List Char)
  | other
  deriving DecidableEq, Repr

namespace Value

def asStr : Value → Option (List Char)
  | text chars => some chars
  | _ => none

def asI64 : Value → Option Int
  | number value => if -2 ^ 63 ≤ value ∧ value < 2 ^ 63 then some value else none
  | _ => none

def asU64 : Value → Option Nat
  | number value => if 0 ≤ value ∧ value < 2 ^ 64 then some value.toNat else none
  | _ => none

end Value

/-- A parsed form by its keys. -/
abbrev Form := String → Option Value

namespace Form

def raw (form : Form) (k : String) : List Char :=
  ((form k).bind Value.asStr).getD []

def text (form : Form) (k : String) : List Char :=
  trim (form.raw k)

/-- The account that is edited. -/
def editId (form : Form) : Option Nat :=
  (((form "id").bind Value.asI64).filter (0 ≤ ·)).map Int.toNat

end Form

/-- Which server a port or security setting belongs to. -/
inductive Protocol
  | imap
  | smtp
  deriving DecidableEq, Repr

/-- The stored security value for whatever an older build or a hand edit
left. -/
def normalizeSecurity (raw : List Char) : String :=
  let security := asciiLower (trim raw)
  if security = "starttls".toList then "starttls"
  else if security = "none".toList ∨ security = "plain".toList then "none"
  else "tls"

/-- Whether `security` sends password and mail unencrypted. -/
def isPlaintext (security : List Char) : Bool :=
  normalizeSecurity security = "none"

/-- The usual port for a protocol under a security setting. -/
def defaultPort (protocol : Protocol) (security : String) : Nat :=
  match protocol, decide (normalizeSecurity security.toList = "tls") with
  | .imap, true => 993
  | .imap, false => 143
  | .smtp, true => 465
  | .smtp, false => 587

/-- A port field: a text or a number, blank meaning the default. -/
def portValue : Option Value → Except Unit (Option Nat)
  | none => .ok none
  | some .null => .ok none
  | some value =>
      if value.asStr.any fun s => trim s = [] then .ok none
      else
        let port := (value.asStr.bind fun s => parseUnsigned 10 (2 ^ 16) (trim s)).or
          (value.asU64.filter (· < 2 ^ 16))
        match port.filter (0 < ·) with
        | some p => .ok (some p)
        | none => .error ()

/-- Per-field problems with a form, as the forms show them inline. -/
structure FormCheck where
  errors : List (String × String)
  warnings : List (String × String)

/-- Check a form the way `save` will.  `editing` relaxes the password. -/
def check (form : Form) (editing : Bool) : FormCheck where
  errors :=
    (if form.text "email" = [] then [("email", "Enter the email address")]
      else if !((splitOnceAt ['@'] (form.text "email")).any fun sides =>
        sides.1 ≠ [] && sides.2 ≠ []) then [("email", "Enter a full email address")]
      else []) ++
    ([("imap_host", "IMAP"), ("smtp_host", "SMTP")].filter fun field =>
      form.text field.1 = []).map (fun field =>
        (field.1, "Enter the " ++ field.2 ++ " server")) ++
    (["imap_port", "smtp_port"].filter fun key => !(portValue (form key)).isOk).map
      (fun key => (key, "A port is a number from 1 to 65535")) ++
    (if !editing && form.raw "password" = [] then [("password", "Enter the password")] else [])
  warnings :=
    ([("imap_sec", "Incoming"), ("smtp_sec", "Outgoing")].filter fun field =>
      isPlaintext (form.text field.1)).map fun field =>
        (field.1, field.2 ++ " mail is not encrypted: your password and messages " ++
          "travel in plain text. Use only on a network you trust.")

/-! ## Accounts -/

/-- What the setup form says of an account. -/
structure NewAccount where
  name : List Char
  emailAddress : List Char
  fromName : List Char
  imapHost : List Char
  imapPort : Nat
  imapSecurity : String
  imapUsername : List Char
  smtpHost : List Char
  smtpPort : Nat
  smtpSecurity : String
  smtpUsername : List Char
  authVaultKey : String
  checkIntervalSecs : Nat
  deriving DecidableEq, Repr

/-- A blank text is replaced. -/
def orElse (text default : List Char) : List Char :=
  if text = [] then default else text

def Form.imapUser (form : Form) : List Char :=
  orElse (form.text "imap_user") (form.text "email")

def Form.port (form : Form) (k : String) (protocol : Protocol) (security : String) :
    Except StoreError Nat :=
  match portValue (form k) with
  | .ok p => .ok (p.getD (defaultPort protocol security))
  | .error () => .error (.invalidInput "a port must be a number from 1 to 65535")

/-- The account that `save` reads from a form. -/
def Form.draft (form : Form) : Except StoreError NewAccount := do
  let imapSecurity := normalizeSecurity (form.raw "imap_sec")
  let smtpSecurity := normalizeSecurity (form.raw "smtp_sec")
  let imapPort ← form.port "imap_port" .imap imapSecurity
  let smtpPort ← form.port "smtp_port" .smtp smtpSecurity
  return {
    name := orElse (form.text "name") (form.text "email")
    emailAddress := form.text "email"
    fromName := form.text "from_name"
    imapHost := form.text "imap_host"
    imapPort
    imapSecurity
    imapUsername := form.imapUser
    smtpHost := form.text "smtp_host"
    smtpPort
    smtpSecurity
    smtpUsername := orElse (form.text "smtp_user") form.imapUser
    authVaultKey := ""
    checkIntervalSecs := 300 }

end Accounts
end Mailcore
