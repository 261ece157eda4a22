/-!
# Errors

The error type every fallible operation returns, and the text a caller logs
or stores for it.
-/

namespace Mailcore
namespace Store

/-- All errors produced by mailcore.  Errors of other crates are kept as
their own text; for SMTP the code also asks whether the server's refusal is
permanent. -/
inductive StoreError
  | sql (text : String)
  | json (text : String)
  | notFound (text : String)
  | invalidInput (text : String)
  | keyring (text : String)
  | time (text : String)
  | imap (text : String)
  | network (text : String)
  | tls (text : String)
  | smtp (permanent : Bool) (text : String)
  | address (text : String)
  | lettre (text : String)
  | io (text : String)
  deriving DecidableEq, Repr

/-- The error's `Display` text. -/
def StoreError.toString : StoreError → String
  | .sql text => "database error: " ++ text
  | .json text => "json error: " ++ text
  | .notFound text => "not found: " ++ text
  | .invalidInput text => "invalid input: " ++ text
  | .keyring text => "keyring: " ++ text
  | .time text => "time error: " ++ text
  | .imap text => "imap error: " ++ text
  | .network text => "network error: " ++ text
  | .tls text => "tls error: " ++ text
  | .smtp _ text => "smtp error: " ++ text
  | .address text => "address error: " ++ text
  | .lettre text => "message build error: " ++ text
  | .io text => "io error: " ++ text

/-- `matches!(e, StoreError::Smtp(s) if s.is_permanent())`. -/
def StoreError.isPermanent : StoreError → Bool
  | .smtp permanent _ => permanent
  | _ => false

end Store
end Mailcore
