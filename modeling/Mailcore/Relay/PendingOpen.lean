import Mailcore.Concurrent.Run
import Mailcore.Outbox.Row
import Mailcore.Text.Decimal

/-!
# Jump requests

A click on a notification asks the window to open a folder.  The request waits
in two rows of the settings until a window takes it.  A request is written in
one transaction; it is taken by four statements, between which any other
process may run.

The settings keep the number of the last request and what every process has
read; no program looks at either.
-/

namespace Mailcore
namespace Relay

open Concurrent Text

/-- A 64-bit integer. -/
abbrev I64 := { value : Int // InI64 value }

/-- `PENDING_OPEN_ACCOUNT_ID` and `PENDING_OPEN_FOLDER`. -/
inductive Key
  | account
  | folder
  deriving DecidableEq, Repr

/-- An account's id and the path of a folder. -/
abbrev Request := Int × String

/-- The statements, and a request that reaches the window. -/
inductive Call
  /-- The transaction that writes both rows. -/
  | setBoth (account folder : String)
  /-- Read a row; a statement that fails reads nothing. -/
  | get (key : Key)
  | set (key : Key) (value : String)
  | opened (request : Option Request)
  deriving DecidableEq, Repr

@[reducible] def Call.Reply : Call → Type
  | .get _ => Option String
  | _ => Unit

@[reducible] def signature : Signature := ⟨Call, Call.Reply⟩

/-! ## The programs -/

/-- The id a request is stored with. -/
def storedId (accountId : I64) : Int := max accountId.val 0

/-- `set_pending_open`. -/
def setPendingOpen (accountId : I64) (folder : String) : Program signature Unit :=
  @Program.perform signature
    (.setBoth (storedId accountId).repr (Outbox.trim folder))

/-- The id a row holds, if it is one. -/
def idOf (row : Option String) : Option Int :=
  (row.bind fun value => parseI64 (Outbox.trim value)).filter fun id =>
    decide (0 < id)

/-- `take_pending_open`. -/
def takePendingOpen : Program signature (Option Request) :=
  .call (.get .account) fun row =>
    match idOf row with
    | none => .done none
    | some id =>
        .call (.get .folder) fun folder =>
          .call (.set .account "0") fun _ =>
            .call (.set .folder "") fun _ =>
              .done (some (id, folder.getD ""))

/-- `consume_pending_open`: what was taken opens. -/
def consumePendingOpen : Program signature Unit := do
  let request ← takePendingOpen
  @Program.perform signature (.opened request)

/-- What a process does with requests. -/
inductive Job
  | set (accountId : I64) (folder : String)
  | take

def Job.program : Job → Program signature Unit
  | .set accountId folder => setPendingOpen accountId folder
  | .take => consumePendingOpen

/-- One job after the other. -/
def programOf : List Job → Program signature Unit
  | [] => pure ()
  | job :: jobs => do
      job.program
      programOf jobs

/-! ## The settings -/

/-- What happens, the latest first. -/
inductive Deed (ι : Type)
  /-- The request of this number is written. -/
  | stored (number : Nat) (request : Request)
  /-- A take begins. -/
  | looked (who : ι)
  /-- A take returns; the number is that of the request whose account it
  read. -/
  | opened (who : ι) (number : Nat) (request : Option Request)
  deriving DecidableEq, Repr

structure Settings (ι : Type) where
  row : Key → Option String
  /-- How many requests have been written. -/
  number : Nat
  /-- The number of the request each process read last. -/
  read : ι → Nat
  history : List (Deed ι)

section System

variable {ι : Type} [DecidableEq ι]

/-- The request two rows hold. -/
def requestOf (account folder : String) : Request :=
  ((idOf (some account)).getD 0, folder)

/-- Carry out a statement that does not fail. -/
def carryOut (who : ι) : (call : Call) → Settings ι →
    call.Reply × Settings ι
  | .setBoth account folder, settings =>
      ((), { settings with
        row := fun key => some (match key with
          | .account => account
          | .folder => folder)
        number := settings.number + 1
        history := .stored (settings.number + 1) (requestOf account folder) ::
          settings.history })
  | .get .account, settings =>
      (settings.row .account, { settings with
        read := Function.update settings.read who settings.number
        history := .looked who :: settings.history })
  | .get .folder, settings => (settings.row .folder, settings)
  | .set key value, settings =>
      ((), { settings with
        row := Function.update settings.row key (some value) })
  | .opened request, settings =>
      ((), { settings with
        history := .opened who (settings.read who) request ::
          settings.history })

/-- What a statement that fails replies. -/
def Call.failed : (call : Call) → call.Reply
  | .get _ => none
  | .setBoth _ _ | .set _ _ | .opened _ => ()

/-- A failed statement changes nothing; a result always reaches its caller. -/
def respond (who : ι) (call : Call) (refused : Bool) (settings : Settings ι) :
    call.Reply × Settings ι :=
  match call with
  | .opened request => carryOut who (.opened request) settings
  | call => if refused then (call.failed, settings) else carryOut who call settings

/-- The settings shared by the processes. -/
def system (ι : Type) [DecidableEq ι] :
    System signature ι (Settings ι) Bool Empty where
  respond := respond
  disturb change := nomatch change

/-- Settings without a request. -/
def Settings.fresh : Settings ι where
  row _ := none
  number := 0
  read _ := 0
  history := []

end System

/-! ## One click, one jump -/

section Once

variable {ι : Type} [DecidableEq ι]

/-- The request that waits for the next take: written last, and not looked at
since. -/
def waiting : List (Deed ι) → Option Request
  | [] => none
  | .stored _ request :: _ => if 0 < request.1 then some request else none
  | .looked _ :: _ => none
  | .opened _ _ _ :: earlier => waiting earlier

/-- The request that waited when the process began its take. -/
def due (who : ι) : List (Deed ι) → Option Request
  | [] => none
  | .stored _ _ :: earlier => due who earlier
  | .looked other :: earlier =>
      if other = who then waiting earlier else due who earlier
  | .opened other _ _ :: earlier => if other = who then none else due who earlier

/-- The numbers of the requests that opened. -/
def openedNumbers (history : List (Deed ι)) : List Nat :=
  history.filterMap fun
    | .opened _ number (some _) => some number
    | _ => none

/-- A click opens its mail once. -/
structure OpensOnce (history : List (Deed ι)) : Prop where
  /-- What opens was stored by one set. -/
  whole : ∀ who number request, .opened who number (some request) ∈ history →
    .stored number request ∈ history
  /-- No request opens twice. -/
  once : (openedNumbers history).Nodup
  /-- A waiting request is what the next take returns. -/
  next : ∀ later earlier who number result request,
    history = later ++ .opened who number result :: earlier →
    due who earlier = some request → result = some request

end Once

end Relay
end Mailcore
