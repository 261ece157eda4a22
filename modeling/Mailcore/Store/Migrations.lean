import Mailcore.Html.Urls
import Mathlib.Data.List.Range
import Mathlib.Tactic.IntervalCases

/-!
# Migrations

Opening a database brings it to the current schema, step by step.  Every step and
its stamp are one savepoint: whenever an open fails or the process dies, the
database is left behind a whole number of steps, and the next open goes on from
there.
-/

namespace Mailcore
namespace Migrations

open Html (trim containsText)
open Text (asciiLower parseUnsigned)

/-! ## The engine -/

/-- Why a sound statement can fail. -/
inductive Trouble
  | locked
  | full
  | io

def Trouble.text : Trouble → String
  | locked => "database is locked"
  | full => "database or disk is full"
  | io => "disk I/O error"

/-- What befalls a statement: nothing, a trouble that undoes it alone, or the end of
the process before or after it takes effect. -/
inductive Fault
  | none
  | trouble (why : Trouble)
  | death (after : Bool)

/-- The repairs that are no plain statements. -/
inductive Job
  | seedContacts
  | folderPathsUtf7
  | dropGeneratedHtml
  | backfillFromNames
  | cidInlineAttachments
  | backfillSentCounts

/-- What SQLite makes of a statement, with the parameters the code binds, and what a
job makes of the database inside a savepoint. -/
structure Engine (Content : Type) where
  exec : String → Content → Except String Content
  work : Job → Content → Except String Content
  /-- The statements of `schema.sql`. -/
  schemaFull : List String

inductive Failure
  | sql (text : String)
  /-- The stamp is no version; nothing is migrated. -/
  | unreadable (raw : List Char)
  /-- The stamp is above what this build supports. -/
  | newer (current : Nat)

/-- How something ends. -/
inductive Ending
  | ok
  | err (failure : Failure)
  | dead

/-- What is left behind: the state, the faults still to come, and the warnings
logged. -/
structure Turn (State : Type) where
  ending : Ending
  state : State
  faults : List Fault
  warnings : List String

/-- Go on unless it is over. -/
def Turn.next {State : Type} (turn : Turn State) (rest : State → List Fault → Turn State) :
    Turn State :=
  match turn.ending with
  | .ok =>
      let more := rest turn.state turn.faults
      { more with warnings := turn.warnings ++ more.warnings }
  | _ => turn

/-- One statement, under the next fault. -/
def command {State : Type} (effect : State → Except String State) (state : State)
    (faults : List Fault) : Turn State :=
  match faults.head? with
  | some (.trouble why) => ⟨.err (.sql why.text), state, faults.tail, []⟩
  | some (.death false) => ⟨.dead, state, faults.tail, []⟩
  | some (.death true) => ⟨.dead, (effect state).toOption.getD state, faults.tail, []⟩
  | _ =>
      match effect state with
      | .ok state => ⟨.ok, state, faults.tail, []⟩
      | .error text => ⟨.err (.sql text), state, faults.tail, []⟩

section Run

variable {Content : Type} (engine : Engine Content)

/-- `execute_batch`. -/
def batch : List String → Content → List Fault → Turn Content
  | [], content, faults => ⟨.ok, content, faults, []⟩
  | statement :: statements, content, faults =>
      (command (engine.exec statement) content faults).next (batch statements)

/-- Columns that are there already are no error. -/
def tolerated (text : String) : Bool :=
  let msg := asciiLower text.toList
  containsText msg "duplicate column" || containsText msg "already exists"

def addColumns : List String → Content → List Fault → Turn Content
  | [], content, faults => ⟨.ok, content, faults, []⟩
  | statement :: statements, content, faults =>
      let turn := command (engine.exec statement) content faults
      match turn.ending with
      | .err (.sql text) =>
          if tolerated text then addColumns statements turn.state turn.faults else turn
      | _ => turn.next (addColumns statements)

/-- What a repair runs. -/
inductive Repair
  | statement (text : String)
  | job (job : Job)

/-- A part of a step. -/
inductive Action
  | batch (statements : List String)
  | addColumns (statements : List String)
  | repair (what : String) (repair : Repair)
  /-- Go on with the statements where the attempt does not fail. -/
  | attempt (what statement : String) (statements : List String)

def Repair.effect : Repair → Content → Except String Content
  | .statement text => engine.exec text
  | .job named => engine.work named

/-- Roll back what a repair wrote when it fails. -/
def runRepair (what : String) (repair : Repair) (content : Content) (faults : List Fault) :
    Turn Content :=
  let outcome := (command .ok content faults).next (command (repair.effect engine))
  match outcome.ending with
  | .dead => outcome
  | .err _ => ⟨.ok, content, outcome.faults, [what]⟩
  | .ok =>
      let released := command .ok outcome.state outcome.faults
      match released.ending with
      | .err _ => ⟨.ok, outcome.state, released.faults, [what]⟩
      | _ => released

def Action.run : Action → Content → List Fault → Turn Content
  | .batch statements, content, faults => Migrations.batch engine statements content faults
  | .addColumns statements, content, faults =>
      Migrations.addColumns engine statements content faults
  | .repair what fix, content, faults => runRepair engine what fix content faults
  | .attempt what statement statements, content, faults =>
      let tried := command (engine.exec statement) content faults
      match tried.ending with
      | .err _ => ⟨.ok, tried.state, tried.faults, [what]⟩
      | _ => tried.next (Migrations.batch engine statements)

/-- The body of a step. -/
def runBody : List Action → Content → List Fault → Turn Content
  | [], content, faults => ⟨.ok, content, faults, []⟩
  | action :: actions, content, faults =>
      (action.run engine content faults).next (runBody actions)

/-! ## The ladder -/

def SCHEMA_VERSION : Nat := 26

/-- The database: the version in `schema_meta`, if there is one, and all else. -/
structure Disk (Content : Type) where
  stamp : Option (List Char)
  content : Content

def versionText (version : Nat) : List Char :=
  Nat.toDigits 10 version

/-- The stamped schema version. -/
def storedVersion (stamp : Option (List Char)) : Except Failure (Option Nat) :=
  match stamp with
  | none => .ok none
  | some raw =>
      match (parseUnsigned 10 (2 ^ 32) (trim raw)).filter (0 < ·) with
      | some version => .ok (some version)
      | none => .error (.unreadable raw)

/-- A migration and its stamp in one savepoint: what is not released is rolled
back. -/
def step (version : Nat) (body : List Action) (disk : Disk Content) (faults : List Fault) :
    Turn (Disk Content) :=
  let worked := ((command .ok disk.content faults).next (runBody engine body)).next
    (command .ok)
  match worked.ending with
  | .ok =>
      let released := command (fun _ => .ok ⟨some (versionText version), worked.state⟩) disk
        worked.faults
      { released with warnings := worked.warnings ++ released.warnings }
  | ending => ⟨ending, disk, worked.faults, worked.warnings⟩

/-- The steps above the version that was read. -/
def climb (current : Nat) : List (Nat × List Action) → Disk Content → List Fault →
    Turn (Disk Content)
  | [], disk, faults => ⟨.ok, disk, faults, []⟩
  | (version, body) :: later, disk, faults =>
      if current < version then (step engine version body disk faults).next (climb current later)
      else climb current later disk faults

/-- A fresh database, one statement after the other. -/
def install (disk : Disk Content) (faults : List Fault) : Turn (Disk Content) :=
  let made := batch engine engine.schemaFull disk.content faults
  let left : Turn (Disk Content) :=
    ⟨made.ending, { disk with content := made.state }, made.faults, made.warnings⟩
  left.next (command fun disk => .ok { disk with stamp := some (versionText SCHEMA_VERSION) })

end Run

/-- The steps, in order. -/
def migrations : List (Nat × List Action) :=
  [(2,
      [.batch
        ["create table if not exists settings ( key text primary key, value text not null )"]]),
   (3, [.addColumns ["alter table messages add column flags_dirty integer not null default 0"]]),
   (4,
      [.addColumns ["alter table attachments add column data blob",
        "alter table attachments add column is_inline integer not null default 0"]]),
   (5, [.addColumns ["alter table accounts add column from_name text not null default ''"]]),
   (6, [.addColumns ["alter table messages add column raw_headers text"]]),
   (7, [.addColumns ["alter table folders add column server_total integer"]]),
   (8,
      [.addColumns ["alter table contacts add column alias text"],
       .repair "migration v8: alias backfill"
        (.statement "update contacts set alias = name where alias is null and name is not null"),
       .repair "migration v8: contact seeding" (.job .seedContacts)]),
   (9,
      [.addColumns ["alter table send_queue add column raw_mime blob",
        "alter table send_queue add column envelope_from text",
        "alter table send_queue add column envelope_to text not null default '[]'"]]),
   (10,
      [.addColumns ["alter table folders add column highest_modseq integer not null default 0"]]),
   (11,
      [.batch ["drop trigger if exists trg_messages_au",
        "create trigger trg_messages_au after update on messages when old.subject is not " ++
          "new.subject or old.from_addr is not new.from_addr or old.body_text is not " ++
          "new.body_text begin insert into messages_fts (messages_fts, rowid, subject, " ++
          "from_addr, body_text) values ('delete', old.id, old.subject, old.from_addr, " ++
          "old.body_text); insert into messages_fts (rowid, subject, from_addr, body_text) " ++
          "values (new.id, new.subject, new.from_addr, new.body_text); end"]]),
   (12, [.repair "migration v12: folder UTF-7 rename" (.job .folderPathsUtf7)]),
   (13,
      [.attempt "migration v13: accounts differ only by case, kept index"
        ("create unique index if not exists idx_accounts_email_nocase on accounts " ++
          "(email_address collate nocase)")
        ["drop index if exists idx_accounts_email"]]),
   (14, [.repair "migration v14: generated html cleanup" (.job .dropGeneratedHtml)]),
   (15,
      [.batch
        ["create table if not exists pending_moves ( message_id integer primary key references " ++
          "messages (id) on delete cascade, batch text not null, action text not null, " ++
          "dest_folder_id integer references folders (id) on delete cascade, due_at text not " ++
          "null, attempts integer not null default 0, created_at text not null, updated_at text " ++
          "not null )",
        "create index if not exists idx_pending_moves_batch on pending_moves (batch)",
        "create index if not exists idx_pending_moves_due on pending_moves (due_at)"]]),
   (16,
      [.addColumns ["alter table messages add column from_name text"],
       .repair "migration v16: sender-name backfill" (.job .backfillFromNames)]),
   (17,
      [.batch
        ["create table if not exists account_settings ( account_id integer not null references " ++
          "accounts (id) on delete cascade, key text not null, value text not null, created_at " ++
          "text not null, updated_at text not null, primary key (account_id, key) )"]]),
   (18,
      [.batch ["update accounts set smtp_security = 'starttls', updated_at = ?1 where " ++
          "lower(trim(smtp_security)) in ('none', 'plain')"]]),
   (19,
      [.batch ["drop trigger if exists trg_messages_ai",
        "drop trigger if exists trg_messages_ad",
        "drop trigger if exists trg_messages_au",
        "drop table if exists messages_fts",
        "create virtual table messages_fts using fts5 ( subject, from_addr, from_name, " ++
          "to_addrs, cc_addrs, bcc_addrs, body_text, content = 'messages', content_rowid = 'id' " ++
          ")",
        "create trigger trg_messages_ai after insert on messages begin insert into " ++
          "messages_fts (rowid, subject, from_addr, from_name, to_addrs, cc_addrs, bcc_addrs, " ++
          "body_text) values (new.id, new.subject, new.from_addr, new.from_name, new.to_addrs, " ++
          "new.cc_addrs, new.bcc_addrs, new.body_text); end",
        "create trigger trg_messages_ad after delete on messages begin insert into " ++
          "messages_fts (messages_fts, rowid, subject, from_addr, from_name, to_addrs, " ++
          "cc_addrs, bcc_addrs, body_text) values ('delete', old.id, old.subject, " ++
          "old.from_addr, old.from_name, old.to_addrs, old.cc_addrs, old.bcc_addrs, " ++
          "old.body_text); end",
        "create trigger trg_messages_au after update on messages when old.subject is not " ++
          "new.subject or old.from_addr is not new.from_addr or old.from_name is not " ++
          "new.from_name or old.to_addrs is not new.to_addrs or old.cc_addrs is not " ++
          "new.cc_addrs or old.bcc_addrs is not new.bcc_addrs or old.body_text is not " ++
          "new.body_text begin insert into messages_fts (messages_fts, rowid, subject, " ++
          "from_addr, from_name, to_addrs, cc_addrs, bcc_addrs, body_text) values ('delete', " ++
          "old.id, old.subject, old.from_addr, old.from_name, old.to_addrs, old.cc_addrs, " ++
          "old.bcc_addrs, old.body_text); insert into messages_fts (rowid, subject, from_addr, " ++
          "from_name, to_addrs, cc_addrs, bcc_addrs, body_text) values (new.id, new.subject, " ++
          "new.from_addr, new.from_name, new.to_addrs, new.cc_addrs, new.bcc_addrs, " ++
          "new.body_text); end",
        "insert into messages_fts (messages_fts) values ('rebuild')"]]),
   (20, [.repair "migration v20: inline attachment repair" (.job .cidInlineAttachments)]),
   (21,
      [.addColumns ["alter table contacts add column sent_count integer not null default 0"],
       .repair "migration v21: sent-count backfill" (.job .backfillSentCounts)]),
   (22,
      [.batch ["create index if not exists idx_messages_account_msgid on messages (account_id, " ++
          "message_id_header)"]]),
   (23,
      [.addColumns ["alter table send_queue add column request_dsn integer not null default 0"]]),
   (24,
      [.addColumns ["alter table send_queue add column send_at text"],
       .batch
        ["create index if not exists idx_send_queue_send_at on send_queue (status, send_at)"]]),
   (25,
      [.addColumns ["alter table send_queue add column notify_self integer not null default 0"]]),
   (26,
      [.addColumns ["alter table send_queue add column next_attempt_at text",
        "alter table send_queue add column failure_noticed integer not null default 0"]])]

section Open

variable {Content : Type} (engine : Engine Content)

/-- Create or upgrade the database. -/
def ensureSchema (disk : Disk Content) (faults : List Fault) : Turn (Disk Content) :=
  (command .ok disk faults).next fun disk faults =>
    match storedVersion disk.stamp with
    | .error failure => ⟨.err failure, disk, faults, []⟩
    | .ok stored =>
        let current := stored.getD 0
        if SCHEMA_VERSION < current then ⟨.err (.newer current), disk, faults, []⟩
        else if current = 0 then install engine disk faults
        else
          let climbed := climb engine current migrations disk faults
          if current = SCHEMA_VERSION then climbed
          else climbed.next (command fun disk =>
            .ok { disk with stamp := disk.stamp.map fun _ => versionText SCHEMA_VERSION })

/-- Opens one after the other, whatever befalls each, and the warnings of all. -/
inductive Opens : Disk Content → Disk Content → List String → Prop
  | none (disk : Disk Content) : Opens disk disk []
  | more {first disk : Disk Content} {warnings : List String} (earlier : Opens first disk warnings)
      (faults : List Fault) :
      Opens first (ensureSchema engine disk faults).state
        (warnings ++ (ensureSchema engine disk faults).warnings)

end Open

/-! ## Undisturbed runs -/

section Settles

variable {State : Type}

/-- What goes through without a warning leaves what it leaves undisturbed. -/
def Settles (run : State → List Fault → Turn State) : Prop :=
  ∀ state faults, (run state faults).ending = .ok → (run state faults).warnings = [] →
    run state [] = ⟨.ok, (run state faults).state, [], []⟩

theorem Turn.next_ok {turn : Turn State} {rest : State → List Fault → Turn State}
    (through : (turn.next rest).ending = .ok) :
    turn.ending = .ok ∧ (rest turn.state turn.faults).ending = .ok ∧
      (turn.next rest).state = (rest turn.state turn.faults).state ∧
      (turn.next rest).warnings = turn.warnings ++ (rest turn.state turn.faults).warnings := by
  unfold Turn.next at through ⊢
  cases here : turn.ending with
  | ok =>
      rw [here] at through
      exact ⟨rfl, through, rfl, rfl⟩
  | err failure =>
      rw [here] at through
      dsimp only at through
      rw [here] at through
      cases through
  | dead =>
      rw [here] at through
      dsimp only at through
      rw [here] at through
      cases through

theorem Turn.next_done (state : State) (rest : State → List Fault → Turn State) :
    (Turn.mk .ok state [] []).next rest = rest state [] :=
  rfl

theorem settles_next {run rest : State → List Fault → Turn State} (first : Settles run)
    (second : Settles rest) : Settles fun state faults => (run state faults).next rest := by
  intro state faults through quiet
  obtain ⟨here, later, left, logged⟩ := Turn.next_ok through
  rw [logged, List.append_eq_nil_iff] at quiet
  dsimp only
  rw [first state faults here quiet.1, Turn.next_done, left]
  exact second _ _ later quiet.2

theorem settles_done : Settles fun (state : State) faults => ⟨.ok, state, faults, []⟩ :=
  fun _ _ _ _ => rfl

variable {effect : State → Except String State} {state : State} {faults : List Fault}

/-- What a statement can do. -/
inductive Done (effect : State → Except String State) (state : State) (faults : List Fault) :
    Turn State → Prop
  | sound {after : State} (took : effect state = .ok after) :
      Done effect state faults ⟨.ok, after, faults.tail, []⟩
  | refused {text : String} (failed : effect state = .error text) :
      Done effect state faults ⟨.err (.sql text), state, faults.tail, []⟩
  | troubled (why : Trouble) :
      Done effect state faults ⟨.err (.sql why.text), state, faults.tail, []⟩
  | died {after : State} (left : after = state ∨ effect state = .ok after) :
      Done effect state faults ⟨.dead, after, faults.tail, []⟩

theorem command_done (effect : State → Except String State) (state : State)
    (faults : List Fault) : Done effect state faults (command effect state faults) := by
  unfold command
  split
  · exact .troubled _
  · exact .died (.inl rfl)
  · refine .died ?_
    cases took : effect state with
    | ok after => exact .inr rfl
    | error text => exact .inl rfl
  · split
    · next took => exact .sound took
    · next failed => exact .refused failed

theorem command_of_ok {after : State} (sound : effect state = .ok after) :
    command effect state [] = ⟨.ok, after, [], []⟩ := by
  rw [command, List.head?_nil]
  dsimp only
  rw [sound]
  rfl

theorem command_of_error {text : String} (failed : effect state = .error text) :
    command effect state [] = ⟨.err (.sql text), state, [], []⟩ := by
  rw [command, List.head?_nil]
  dsimp only
  rw [failed]
  rfl

/-- A statement that goes through has its effect. -/
theorem effect_of_command (through : (command effect state faults).ending = .ok) :
    effect state = .ok (command effect state faults).state := by
  have done := command_done effect state faults
  generalize command effect state faults = turn at done through ⊢
  cases done with
  | sound took => exact took
  | refused | troubled | died => cases through

theorem settles_command (effect : State → Except String State) : Settles (command effect) :=
  fun _ _ through _ => command_of_ok (effect_of_command through)

end Settles

section Parts

variable {Content : Type} (engine : Engine Content)

theorem settles_batch (statements : List String) : Settles (batch engine statements) := by
  induction statements with
  | nil => exact settles_done
  | cons statement statements inductionHypothesis =>
      exact settles_next (settles_command _) inductionHypothesis

/-- No trouble is taken for a column that is there. -/
theorem not_tolerated_text (why : Trouble) : tolerated why.text = false := by
  cases why <;> decide

theorem settles_addColumns (statements : List String) :
    Settles (addColumns engine statements) := by
  induction statements with
  | nil => exact settles_done
  | cons statement statements inductionHypothesis =>
      intro content faults through quiet
      have done := command_done (engine.exec statement) content faults
      simp only [addColumns] at through quiet ⊢
      generalize command (engine.exec statement) content faults = turn at done through quiet ⊢
      cases done with
      | sound took =>
          rw [command_of_ok took]
          exact inductionHypothesis _ _ through quiet
      | refused failed =>
          rw [command_of_error failed]
          dsimp only at through quiet ⊢
          split_ifs at through quiet ⊢
          exact inductionHypothesis _ _ through quiet
      | troubled why =>
          dsimp only at through
          rw [not_tolerated_text, if_neg Bool.false_ne_true] at through
          cases through
      | died left => cases through

/-- What a repair that is over has left: its whole effect or nothing of it. -/
theorem runRepair_cases {what : String} {fix : Repair} {content : Content} {faults : List Fault}
    (through : (runRepair engine what fix content faults).ending = .ok) :
    let turn := runRepair engine what fix content faults
    (fix.effect engine content = .ok turn.state) ∨
      (turn.state = content ∧ turn.warnings = [what]) := by
  unfold runRepair at through ⊢
  dsimp only at through ⊢
  have outcome (ends : ((command Except.ok content faults).next
      (command (fix.effect engine))).ending = .ok) :
      fix.effect engine content = .ok ((command Except.ok content faults).next
        (command (fix.effect engine))).state := by
    obtain ⟨opened, done, left, -⟩ := Turn.next_ok ends
    have same := Except.ok.inj (effect_of_command opened)
    rw [left, ← effect_of_command done, ← same]
  generalize (command Except.ok content faults).next (command (fix.effect engine)) = turn
    at through outcome ⊢
  cases ends : turn.ending with
  | dead =>
      rw [ends] at through
      dsimp only at through
      rw [ends] at through
      cases through
  | err failure => exact .inr ⟨rfl, rfl⟩
  | ok =>
      rw [ends] at through
      dsimp only at through ⊢
      rw [outcome ends]
      have done := command_done Except.ok turn.state turn.faults
      generalize command Except.ok turn.state turn.faults = released at done through ⊢
      cases done with
      | sound took => exact .inl (congrArg _ (Except.ok.inj took))
      | refused failed => cases failed
      | troubled why => exact .inl rfl
      | died left => cases through

theorem runRepair_of_effect {fix : Repair} {content after : Content}
    (took : fix.effect engine content = .ok after) (what : String) :
    runRepair engine what fix content [] = ⟨.ok, after, [], []⟩ := by
  have opened : command Except.ok content [] = ⟨.ok, content, [], []⟩ := command_of_ok rfl
  have released : command Except.ok after [] = ⟨.ok, after, [], []⟩ := command_of_ok rfl
  rw [runRepair, opened, Turn.next_done, command_of_ok took]
  dsimp only
  rw [released]

theorem settles_runRepair (what : String) (fix : Repair) :
    Settles (runRepair engine what fix) := by
  intro content faults through quiet
  rcases runRepair_cases engine through with took | ⟨-, warned⟩
  · exact runRepair_of_effect engine took what
  · rw [quiet] at warned
    cases warned

theorem settles_attempt (what statement : String) (statements : List String) :
    Settles ((Action.attempt what statement statements).run engine) := by
  intro content faults through quiet
  have done := command_done (engine.exec statement) content faults
  unfold Action.run at through quiet ⊢
  dsimp only at through quiet ⊢
  generalize command (engine.exec statement) content faults = turn at done through quiet ⊢
  cases done with
  | sound took =>
      rw [command_of_ok took]
      exact settles_batch engine statements _ _ through quiet
  | refused | troubled => cases quiet
  | died => cases through

theorem settles_action (action : Action) : Settles (action.run engine) := by
  cases action with
  | batch statements => exact settles_batch engine statements
  | addColumns statements => exact settles_addColumns engine statements
  | repair what fix => exact settles_runRepair engine what fix
  | attempt what statement statements => exact settles_attempt engine what statement statements

theorem settles_runBody (body : List Action) : Settles (runBody engine body) := by
  induction body with
  | nil => exact settles_done
  | cons action body inductionHypothesis =>
      exact settles_next (settles_action engine action) inductionHypothesis

end Parts

/-! ## Whole steps -/

section Steps

variable {Content : Type} (engine : Engine Content)

/-- What a part of a step may leave: its whole effect, or nothing where the code goes
on without it. -/
inductive Effect : Action → Content → Content → Prop
  | whole {action : Action} {content after : Content}
      (done : action.run engine content [] = ⟨.ok, after, [], []⟩) : Effect action content after
  | unrepaired (what : String) (fix : Repair) (content : Content) :
      Effect (.repair what fix) content content
  | kept (what statement : String) (statements : List String) (content : Content) :
      Effect (.attempt what statement statements) content content

/-- What a body leaves, part by part. -/
inductive Effects : List Action → Content → Content → Prop
  | nil (content : Content) : Effects [] content content
  | cons {action : Action} {body : List Action} {content between after : Content}
      (here : Effect engine action content between) (later : Effects body between after) :
      Effects (action :: body) content after

variable {engine}

theorem warnings_batch (statements : List String) (content : Content) (faults : List Fault) :
    (batch engine statements content faults).warnings = [] := by
  induction statements generalizing content faults with
  | nil => rfl
  | cons statement statements inductionHypothesis =>
      have done := command_done (engine.exec statement) content faults
      rw [batch]
      generalize command (engine.exec statement) content faults = turn at done ⊢
      cases done with
      | sound took => exact inductionHypothesis _ _
      | refused | troubled | died => rfl

theorem warnings_addColumns (statements : List String) (content : Content)
    (faults : List Fault) : (addColumns engine statements content faults).warnings = [] := by
  induction statements generalizing content faults with
  | nil => rfl
  | cons statement statements inductionHypothesis =>
      have done := command_done (engine.exec statement) content faults
      rw [addColumns]
      generalize command (engine.exec statement) content faults = turn at done ⊢
      cases done with
      | sound took => exact inductionHypothesis _ _
      | refused | troubled =>
          dsimp only
          split_ifs
          · exact inductionHypothesis _ _
          · rfl
      | died left => rfl

theorem effect_of_action {action : Action} {content : Content} {faults : List Fault}
    (through : (action.run engine content faults).ending = .ok) :
    Effect engine action content (action.run engine content faults).state := by
  by_cases quiet : (action.run engine content faults).warnings = []
  · exact .whole (settles_action engine action content faults through quiet)
  · cases action with
    | batch statements => exact absurd (warnings_batch statements content faults) quiet
    | addColumns statements => exact absurd (warnings_addColumns statements content faults) quiet
    | repair what fix =>
        rcases runRepair_cases engine through with took | ⟨back, -⟩
        · exact .whole (runRepair_of_effect engine took what)
        · unfold Action.run
          rw [back]
          exact .unrepaired what fix content
    | attempt what statement statements =>
        have done := command_done (engine.exec statement) content faults
        unfold Action.run at through quiet ⊢
        dsimp only at through quiet ⊢
        generalize command (engine.exec statement) content faults = turn
          at done through quiet ⊢
        cases done with
        | sound took => exact absurd (warnings_batch statements _ _) quiet
        | refused | troubled => exact .kept what statement statements content
        | died => cases through

theorem effects_of_runBody {body : List Action} {content : Content} {faults : List Fault}
    (through : (runBody engine body content faults).ending = .ok) :
    Effects engine body content (runBody engine body content faults).state := by
  induction body generalizing content faults with
  | nil => exact .nil content
  | cons action body inductionHypothesis =>
      obtain ⟨here, later, left, -⟩ := Turn.next_ok through
      rw [runBody, left]
      exact .cons (effect_of_action here) (inductionHypothesis later)

/-- A step is taken as a whole, with its stamp, or not at all. -/
theorem step_cases (version : Nat) (body : List Action) (disk : Disk Content)
    (faults : List Fault) :
    let turn := step engine version body disk faults
    (turn.state = disk ∧ turn.ending ≠ .ok) ∨
      ∃ after, turn.state = ⟨some (versionText version), after⟩ ∧
        Effects engine body disk.content after ∧
        (turn.warnings = [] → runBody engine body disk.content [] = ⟨.ok, after, [], []⟩) := by
  unfold step
  dsimp only
  have worked (ends : (((command Except.ok disk.content faults).next
      (runBody engine body)).next (command Except.ok)).ending = .ok) :
      let turn := ((command Except.ok disk.content faults).next (runBody engine body)).next
        (command Except.ok)
      Effects engine body disk.content turn.state ∧
        (turn.warnings = [] →
          runBody engine body disk.content [] = ⟨.ok, turn.state, [], []⟩) := by
    obtain ⟨first, stamped, last, loggedLast⟩ := Turn.next_ok ends
    obtain ⟨opened, through, left, logged⟩ := Turn.next_ok first
    have same := Except.ok.inj (effect_of_command opened)
    have kept := Except.ok.inj (effect_of_command stamped)
    dsimp only
    rw [last, ← kept, left, loggedLast, logged]
    rw [← same] at through ⊢
    refine ⟨effects_of_runBody through, fun quiet => ?_⟩
    have silent := (List.append_eq_nil_iff.mp (List.append_eq_nil_iff.mp quiet).1).2
    exact settles_runBody engine body _ _ through silent
  generalize ((command Except.ok disk.content faults).next (runBody engine body)).next
    (command Except.ok) = turn at worked ⊢
  cases ends : turn.ending with
  | err failure => exact .inl ⟨rfl, by simp⟩
  | dead => exact .inl ⟨rfl, by simp⟩
  | ok =>
      obtain ⟨effects, quiet⟩ := worked ends
      dsimp only
      have done := command_done (fun _ : Disk Content =>
        Except.ok ⟨some (versionText version), turn.state⟩) disk turn.faults
      generalize command (fun _ : Disk Content =>
        Except.ok ⟨some (versionText version), turn.state⟩) disk turn.faults = released at done ⊢
      have taken : ∃ after, (⟨some (versionText version), turn.state⟩ : Disk Content) =
          ⟨some (versionText version), after⟩ ∧ Effects engine body disk.content after ∧
          (turn.warnings ++ [] = [] →
            runBody engine body disk.content [] = ⟨.ok, after, [], []⟩) := by
        refine ⟨turn.state, rfl, effects, ?_⟩
        rwa [List.append_nil]
      cases done with
      | sound took =>
          obtain rfl := Except.ok.inj took
          exact .inr taken
      | refused failed => cases failed
      | troubled why => exact .inl ⟨rfl, by simp⟩
      | died left =>
          rcases left with rfl | took
          · exact .inl ⟨rfl, by simp⟩
          · obtain rfl := Except.ok.inj took
            exact .inr taken

end Steps

/-! ## From version to version -/

section Climbing

variable {Content : Type} {engine : Engine Content}

/-- What steps leave that are taken one after the other. -/
inductive Path (engine : Engine Content) : List (Nat × List Action) → Content → Content → Prop
  | nil (content : Content) : Path engine [] content content
  | cons {version : Nat} {body : List Action} {steps : List (Nat × List Action)}
      {content between after : Content} (here : Effects engine body content between)
      (later : Path engine steps between after) :
      Path engine ((version, body) :: steps) content after

theorem Path.append {first second : List (Nat × List Action)} {content between after : Content}
    (here : Path engine first content between) (later : Path engine second between after) :
    Path engine (first ++ second) content after := by
  induction here with
  | nil => exact later
  | cons effects _ inductionHypothesis => exact .cons effects (inductionHypothesis later)

/-- What the steps leave when nothing befalls them and no repair fails. -/
def finish (engine : Engine Content) : List (Nat × List Action) → Content → Option Content
  | [], content => some content
  | (_, body) :: later, content =>
      match runBody engine body content [] with
      | ⟨.ok, after, _, []⟩ => finish engine later after
      | _ => none

theorem finish_cons {version : Nat} {body : List Action} {content after : Content}
    (through : runBody engine body content [] = ⟨.ok, after, [], []⟩)
    (later : List (Nat × List Action)) :
    finish engine ((version, body) :: later) content = finish engine later after := by
  rw [finish, through]

/-- Consecutive versions, from the one behind `version` on. -/
def Follow (version : Nat) (steps : List (Nat × List Action)) : Prop :=
  steps.map Prod.fst = List.range' (version + 1) steps.length

theorem Follow.cons {version number : Nat} {body : List Action}
    {steps : List (Nat × List Action)} (follow : Follow version ((number, body) :: steps)) :
    number = version + 1 ∧ Follow (version + 1) steps := by
  rw [Follow, List.map_cons, List.length_cons, List.range'_succ, List.cons.injEq] at follow
  exact follow

/-- How far steps have been taken. -/
structure Climbed (engine : Engine Content) (version : Nat) (steps : List (Nat × List Action))
    (disk : Disk Content) (turn : Turn (Disk Content)) (taken : Nat) : Prop where
  within : taken ≤ steps.length
  stands : (taken = 0 ∧ turn.state = disk) ∨
    (0 < taken ∧ turn.state.stamp = some (versionText (version + taken)))
  path : Path engine (steps.take taken) disk.content turn.state.content
  finish : turn.warnings = [] → Migrations.finish engine steps disk.content =
    Migrations.finish engine (steps.drop taken) turn.state.content
  through : turn.ending = .ok → taken = steps.length

theorem climb_climbed {current version : Nat} {steps : List (Nat × List Action)}
    (follow : Follow version steps) (below : current ≤ version) (disk : Disk Content)
    (faults : List Fault) :
    ∃ taken, Climbed engine version steps disk (climb engine current steps disk faults) taken := by
  induction steps generalizing version disk faults with
  | nil => exact ⟨0, le_rfl, .inl ⟨rfl, rfl⟩, .nil _, fun _ => rfl, fun _ => rfl⟩
  | cons head steps inductionHypothesis =>
      obtain ⟨number, body⟩ := head
      obtain ⟨rfl, rest⟩ := follow.cons
      have cases_ := @step_cases Content engine (version + 1) body disk faults
      rw [climb, if_pos (by omega)]
      generalize step engine (version + 1) body disk faults = turn at cases_ ⊢
      dsimp only at cases_
      rcases cases_ with ⟨same, settled⟩ | ⟨after, state, effects, quiet⟩
      · have stops : turn.next (climb engine current steps) = turn := by
          unfold Turn.next
          cases ends : turn.ending with
          | ok => exact absurd ends settled
          | err | dead => rfl
        rw [stops]
        refine ⟨0, Nat.zero_le _, .inl ⟨rfl, same⟩, ?_, fun _ => ?_,
          fun ends => absurd ends settled⟩
        · rw [same]
          exact .nil _
        · rw [same, List.drop_zero]
      · cases ends : turn.ending with
        | ok =>
            obtain ⟨taken, climbed⟩ := inductionHypothesis rest (by omega) turn.state turn.faults
            have whole : turn.next (climb engine current steps) =
                { climb engine current steps turn.state turn.faults with
                  warnings := turn.warnings ++
                    (climb engine current steps turn.state turn.faults).warnings } := by
              unfold Turn.next
              rw [ends]
            rw [whole]
            generalize climb engine current steps turn.state turn.faults = more at climbed ⊢
            refine ⟨taken + 1, Nat.succ_le_succ climbed.within, .inr ⟨Nat.succ_pos _, ?_⟩, ?_,
              fun silent => ?_, fun through => congrArg _ (climbed.through through)⟩
            · rcases climbed.stands with ⟨rfl, stays⟩ | ⟨-, stamped⟩
              · dsimp only
                rw [stays, state]
              · dsimp only
                rw [stamped, Nat.add_assoc, Nat.add_comm 1]
            · rw [List.take_succ_cons]
              refine .cons effects ?_
              have path := climbed.path
              rwa [state] at path
            · obtain ⟨first, second⟩ := List.append_eq_nil_iff.mp silent
              have finished := climbed.finish second
              rw [state] at finished
              rw [finish_cons (quiet first), finished, List.drop_succ_cons]
        | err | dead =>
            have stops : turn.next (climb engine current steps) = turn := by
              unfold Turn.next
              rw [ends]
            rw [stops]
            refine ⟨1, Nat.succ_le_succ (Nat.zero_le _), .inr ⟨Nat.one_pos, ?_⟩, ?_,
              fun silent => ?_, fun through => by rw [ends] at through; cases through⟩
            · rw [state]
            · rw [List.take_succ_cons, List.take_zero, state]
              exact .cons effects (.nil _)
            · rw [finish_cons (quiet silent), List.drop_succ_cons, List.drop_zero, state]

/-- The steps up to the version that was read are passed over. -/
theorem climb_append {current : Nat} {front : List (Nat × List Action)}
    (passed : ∀ step ∈ front, step.1 ≤ current) (steps : List (Nat × List Action))
    (disk : Disk Content) (faults : List Fault) :
    climb engine current (front ++ steps) disk faults =
      climb engine current steps disk faults := by
  induction front with
  | nil => rfl
  | cons head front inductionHypothesis =>
      obtain ⟨version, body⟩ := head
      obtain ⟨here, later⟩ := List.forall_mem_cons.mp passed
      rw [List.cons_append, climb, if_neg (Nat.not_lt.mpr here), inductionHypothesis later]

/-- The steps that lie between two versions. -/
def between (version other : Nat) : List (Nat × List Action) :=
  (migrations.drop (version - 1)).take (other - version)

theorem keys_migrations : migrations.map Prod.fst = List.range' 2 25 :=
  rfl

theorem length_migrations : migrations.length = 25 :=
  rfl

/-- Every version between the two has its step, in order. -/
theorem keys_between {version other : Nat} (positive : 0 < version) (le : other ≤ SCHEMA_VERSION) :
    (between version other).map Prod.fst = List.range' (version + 1) (other - version) := by
  have short : other ≤ 26 := le
  rw [between, List.map_take, List.map_drop, keys_migrations, List.drop_range',
    List.take_range'_of_length_ge (by omega)]
  congr 1
  omega

theorem between_self (version : Nat) : between version version = [] := by
  rw [between, Nat.sub_self, List.take_zero]

theorem between_append {version middle other : Nat} (positive : 0 < version)
    (first : version ≤ middle) (second : middle ≤ other) :
    between version middle ++ between middle other = between version other := by
  have span : other - version = (middle - version) + (other - middle) := by omega
  have start : middle - 1 = (version - 1) + (middle - version) := by omega
  rw [between, between, between, span, List.take_add, start, List.drop_drop]

/-- All steps above a version. -/
theorem drop_migrations {version : Nat} (positive : 0 < version) :
    migrations.drop (version - 1) = between version SCHEMA_VERSION := by
  rw [between, List.take_of_length_le]
  rw [List.length_drop, length_migrations, SCHEMA_VERSION]
  omega

theorem length_between {version other : Nat} (positive : 0 < version)
    (le : other ≤ SCHEMA_VERSION) : (between version other).length = other - version := by
  rw [← List.length_map (f := Prod.fst), keys_between positive le, List.length_range']

theorem follow_between {version other : Nat} (positive : 0 < version)
    (le : other ≤ SCHEMA_VERSION) : Follow version (between version other) := by
  rw [Follow, keys_between positive le, length_between positive le]

theorem take_between (version other taken : Nat) (within : taken ≤ other - version) :
    (between version other).take taken = between version (version + taken) := by
  rw [between, between, List.take_take, Nat.min_eq_left within, Nat.add_sub_cancel_left]

theorem drop_between {version taken : Nat} (positive : 0 < version) :
    (between version SCHEMA_VERSION).drop taken = between (version + taken) SCHEMA_VERSION := by
  rw [← drop_migrations positive, ← drop_migrations (by omega), List.drop_drop]
  congr 1
  omega

theorem climb_migrations {version : Nat} (positive : 0 < version) (le : version ≤ SCHEMA_VERSION)
    (disk : Disk Content) (faults : List Fault) :
    climb engine version migrations disk faults =
      climb engine version (between version SCHEMA_VERSION) disk faults := by
  have passed : ∀ step ∈ migrations.take (version - 1), step.1 ≤ version := by
    intro step member
    have key := List.mem_map_of_mem (f := Prod.fst) member
    rw [List.map_take, keys_migrations] at key
    have short : version ≤ 26 := le
    rw [List.take_range'_of_length_ge (by omega), List.mem_range'_1] at key
    omega
  have whole : climb engine version _ disk faults = _ :=
    climb_append passed (migrations.drop (version - 1)) disk faults
  rw [List.take_append_drop, drop_migrations positive] at whole
  exact whole

theorem storedVersion_versionText {version : Nat} (positive : 0 < version)
    (le : version ≤ SCHEMA_VERSION) :
    storedVersion (some (versionText version)) = .ok (some version) := by
  have short : version ≤ 26 := le
  interval_cases version <;> rfl

/-! ## Opens -/

/-- Where a database stands that was at `version` first. -/
structure Stands (engine : Engine Content) (first : Disk Content) (version : Nat)
    (disk : Disk Content) (warnings : List String) (now : Nat) : Prop where
  above : version ≤ now
  within : now ≤ SCHEMA_VERSION
  known : storedVersion disk.stamp = .ok (some now)
  stays : (now = version ∧ disk = first) ∨
    (version < now ∧ disk.stamp = some (versionText now))
  path : Path engine (between version now) first.content disk.content
  finish : warnings = [] →
    Migrations.finish engine (between version SCHEMA_VERSION) first.content =
      Migrations.finish engine (between now SCHEMA_VERSION) disk.content

/-- Reading the version is one statement, and the ladder what follows. -/
theorem ensureSchema_cases {disk : Disk Content} {now : Nat} (positive : 0 < now)
    (within : now ≤ SCHEMA_VERSION) (known : storedVersion disk.stamp = .ok (some now))
    (faults : List Fault) :
    let turn := ensureSchema engine disk faults
    (turn.state = disk ∧ turn.ending ≠ .ok) ∨
      ∃ later, turn =
        let climbed := climb engine now (between now SCHEMA_VERSION) disk later
        if now = SCHEMA_VERSION then climbed
        else climbed.next (command fun disk =>
          .ok { disk with stamp := disk.stamp.map fun _ => versionText SCHEMA_VERSION }) := by
  have ladder (later : List Fault) :
      climb engine now migrations disk later = _ := climb_migrations positive within disk later
  have done := command_done Except.ok disk faults
  rw [ensureSchema]
  dsimp only
  generalize command Except.ok disk faults = turn at done ⊢
  cases done with
  | sound took =>
      obtain rfl := Except.ok.inj took
      refine .inr ⟨faults.tail, ?_⟩
      rw [Turn.next]
      dsimp only
      rw [known]
      dsimp only [Option.getD_some]
      rw [if_neg (Nat.not_lt.mpr within), if_neg (Nat.ne_of_gt positive), ladder]
      rfl
  | refused failed => cases failed
  | troubled why => exact .inl ⟨rfl, by simp [Turn.next]⟩
  | died left =>
      refine .inl ⟨?_, by simp [Turn.next]⟩
      rcases left with rfl | took
      · rfl
      · obtain rfl := Except.ok.inj took
        rfl

/-- Stamping the current version again changes nothing. -/
theorem restamp {turn : Turn (Disk Content)}
    (stamped : turn.ending = .ok → turn.state.stamp = some (versionText SCHEMA_VERSION)) :
    let last := turn.next (command fun disk =>
      .ok { disk with stamp := disk.stamp.map fun _ => versionText SCHEMA_VERSION })
    last.state = turn.state ∧ last.warnings = turn.warnings ∧
      (last.ending = .ok → turn.ending = .ok) := by
  dsimp only
  cases ends : turn.ending with
  | err | dead =>
      rw [Turn.next, ends]
      exact ⟨rfl, rfl, fun through => by rw [ends] at through; cases through⟩
  | ok =>
      have same : ({ turn.state with
          stamp := turn.state.stamp.map fun _ => versionText SCHEMA_VERSION } : Disk Content) =
          turn.state := by
        rw [stamped ends, Option.map_some, ← stamped ends]
      rw [Turn.next, ends]
      dsimp only
      have done := command_done (fun disk : Disk Content => Except.ok
        { disk with stamp := disk.stamp.map fun _ => versionText SCHEMA_VERSION })
        turn.state turn.faults
      generalize command (fun disk : Disk Content => Except.ok
        { disk with stamp := disk.stamp.map fun _ => versionText SCHEMA_VERSION })
        turn.state turn.faults = last at done ⊢
      cases done with
      | sound took =>
          have left := Except.ok.inj took
          rw [same] at left
          exact ⟨left.symm, List.append_nil _, fun _ => rfl⟩
      | refused failed => cases failed
      | troubled why => exact ⟨rfl, List.append_nil _, fun _ => rfl⟩
      | died left =>
          refine ⟨?_, List.append_nil _, fun _ => rfl⟩
          rcases left with rfl | took
          · rfl
          · have left := Except.ok.inj took
            rw [same] at left
            exact left.symm

/-- One open, from wherever the ones before have come. -/
theorem stands_ensureSchema {first disk : Disk Content} {version now : Nat}
    {warnings : List String} (positive : 0 < version)
    (stands : Stands engine first version disk warnings now) (faults : List Fault) :
    ∃ later, Stands engine first version (ensureSchema engine disk faults).state
        (warnings ++ (ensureSchema engine disk faults).warnings) later ∧
      ((ensureSchema engine disk faults).ending = .ok → later = SCHEMA_VERSION) := by
  have some_ : 0 < now := Nat.lt_of_lt_of_le positive stands.above
  have turned := @ensureSchema_cases Content engine disk now some_ stands.within stands.known faults
  generalize ensureSchema engine disk faults = turn at turned ⊢
  rcases turned with ⟨same, settled⟩ | ⟨later, shape⟩
  · refine ⟨now, ?_, fun through => absurd through settled⟩
    rw [same]
    refine ⟨stands.above, stands.within, stands.known, stands.stays, stands.path,
      fun silent => ?_⟩
    exact stands.finish (List.append_eq_nil_iff.mp silent).1
  · obtain ⟨taken, climbed⟩ := @climb_climbed Content engine now now
      (between now SCHEMA_VERSION) (follow_between some_ le_rfl) le_rfl disk later
    have ends : turn.state = (climb engine now (between now SCHEMA_VERSION) disk later).state ∧
        turn.warnings = (climb engine now (between now SCHEMA_VERSION) disk later).warnings ∧
        (turn.ending = .ok →
          (climb engine now (between now SCHEMA_VERSION) disk later).ending = .ok) := by
      rw [shape]
      dsimp only
      split_ifs with current
      · exact ⟨rfl, rfl, id⟩
      · refine restamp fun through => ?_
        have all := climbed.through through
        rw [length_between some_ le_rfl] at all
        have short := stands.within
        rcases climbed.stands with ⟨none_, -⟩ | ⟨-, stamped⟩
        · omega
        · rw [stamped, all]
          congr 2
          omega
    have most := climbed.within
    rw [length_between some_ le_rfl] at most
    have short := stands.within
    refine ⟨now + taken, ?_, fun through => ?_⟩
    · rw [ends.1, ends.2.1]
      generalize climb engine now (between now SCHEMA_VERSION) disk later = left at climbed
      have onward := climbed.path
      rw [take_between now SCHEMA_VERSION taken most] at onward
      have above := stands.above
      refine ⟨by omega, by omega, ?_, ?_, ?_, fun silent => ?_⟩
      · rcases climbed.stands with ⟨rfl, same⟩ | ⟨-, stamped⟩
        · rw [same]
          exact stands.known
        · rw [stamped]
          exact storedVersion_versionText (by omega) (by omega)
      · rcases climbed.stands with ⟨rfl, same⟩ | ⟨more, stamped⟩
        · rw [same]
          exact stands.stays
        · exact .inr ⟨by omega, stamped⟩
      · rw [← between_append positive above (Nat.le_add_right now taken)]
        exact stands.path.append onward
      · obtain ⟨before, here⟩ := List.append_eq_nil_iff.mp silent
        rw [stands.finish before, climbed.finish here, drop_between some_]
    · have all := climbed.through (ends.2.2 through)
      rw [length_between some_ le_rfl] at all
      omega

theorem stands_of_opens {first disk : Disk Content} {version : Nat} {warnings : List String}
    (positive : 0 < version) (supported : version ≤ SCHEMA_VERSION)
    (known : storedVersion first.stamp = .ok (some version))
    (opens : Opens engine first disk warnings) :
    ∃ now, Stands engine first version disk warnings now := by
  induction opens with
  | none =>
      refine ⟨version, le_rfl, supported, known, .inl ⟨rfl, rfl⟩, ?_, fun _ => rfl⟩
      rw [between_self]
      exact .nil _
  | more earlier faults inductionHypothesis =>
      obtain ⟨now, stands⟩ := inductionHypothesis
      obtain ⟨later, onward, -⟩ := stands_ensureSchema positive stands faults
      exact ⟨later, onward⟩

/-- Steps that finish undisturbed are climbed without a fault. -/
theorem climb_of_finish {current version : Nat} {steps : List (Nat × List Action)}
    (follow : Follow version steps) (below : current ≤ version) {disk : Disk Content}
    {after : Content} (finished : finish engine steps disk.content = some after) :
    climb engine current steps disk [] =
      ⟨.ok, ⟨if steps = [] then disk.stamp else some (versionText (version + steps.length)), after⟩,
        [], []⟩ := by
  induction steps generalizing version disk with
  | nil =>
      obtain rfl := Option.some.inj finished
      rfl
  | cons head steps inductionHypothesis =>
      obtain ⟨number, body⟩ := head
      obtain ⟨rfl, rest⟩ := follow.cons
      rw [finish] at finished
      split at finished
      · next between faults through =>
          have opened : command Except.ok disk.content [] = ⟨.ok, disk.content, [], []⟩ :=
            command_of_ok rfl
          have quiet := settles_runBody engine body disk.content [] (by rw [through])
            (by rw [through])
          rw [through] at quiet
          have stamped : command Except.ok between [] = ⟨.ok, between, [], []⟩ := command_of_ok rfl
          let stood : Disk Content := ⟨some (versionText (version + 1)), between⟩
          have released : command (fun _ : Disk Content => Except.ok stood) disk [] =
              ⟨.ok, stood, [], []⟩ := command_of_ok rfl
          have taken : step engine (version + 1) body disk [] = ⟨.ok, stood, [], []⟩ := by
            rw [step, opened, Turn.next_done, through, quiet, Turn.next_done, stamped]
            dsimp only
            rw [released]
            rfl
          have onward := @inductionHypothesis (version + 1) rest (by omega) stood finished
          rw [climb, if_pos (by omega), taken, Turn.next_done, onward,
            if_neg (List.cons_ne_nil _ _), List.length_cons]
          split_ifs with last
          · rw [last]
            rfl
          · rw [Nat.add_assoc, Nat.add_comm 1]
      · cases finished

/-- Migrations are atomic and restartable: whatever befalls the opens of a database,
the version only rises, every step up to it was taken once, in order and as a whole,
and where no repair was given up the end is that of one undisturbed open. -/
theorem migrations_restartable {first disk : Disk Content} {version : Nat}
    {warnings : List String} (known : storedVersion first.stamp = .ok (some version))
    (supported : version ≤ SCHEMA_VERSION) (opens : Opens engine first disk warnings) :
    ∃ now, version ≤ now ∧ now ≤ SCHEMA_VERSION ∧
      storedVersion disk.stamp = .ok (some now) ∧
      Path engine (between version now) first.content disk.content ∧
      (warnings = [] → now = SCHEMA_VERSION →
        ensureSchema engine first [] = ⟨.ok, disk, [], []⟩) ∧
      ∀ faults, (ensureSchema engine disk faults).ending = .ok →
        storedVersion (ensureSchema engine disk faults).state.stamp =
          .ok (some SCHEMA_VERSION) := by
  have positive : 0 < version := by
    unfold storedVersion at known
    split at known
    · cases known
    · split at known
      · next read =>
          obtain rfl := Option.some.inj (Except.ok.inj known)
          exact of_decide_eq_true (Option.filter_eq_some_iff.mp read).2
      · cases known
  obtain ⟨now, stands⟩ := stands_of_opens positive supported known opens
  refine ⟨now, stands.above, stands.within, stands.known, stands.path, fun silent top => ?_,
    fun faults through => ?_⟩
  case refine_2 =>
    obtain ⟨later, onward, ends⟩ := stands_ensureSchema positive stands faults
    rw [onward.known, ends through]
  obtain rfl := top
  have finished := stands.finish silent
  rw [between_self] at finished
  have climbed := climb_of_finish (follow_between positive le_rfl) le_rfl finished
  have opened : command Except.ok first [] = ⟨.ok, first, [], []⟩ := command_of_ok rfl
  have ladder : climb engine version migrations first [] = _ :=
    climb_migrations positive supported first []
  rw [ensureSchema, opened, Turn.next_done, known]
  dsimp only [Option.getD_some]
  rw [if_neg (Nat.not_lt.mpr supported), if_neg (Nat.ne_of_gt positive), ladder, climbed]
  rcases stands.stays with ⟨same, stays⟩ | ⟨rises, stamped⟩
  · rw [if_pos same.symm, stays, ← same, between_self, if_pos rfl]
  · have count := @length_between version SCHEMA_VERSION positive le_rfl
    have some_ : between version SCHEMA_VERSION ≠ [] := by
      intro none_
      rw [none_, List.length_nil] at count
      omega
    have top : version + (between version SCHEMA_VERSION).length = SCHEMA_VERSION := by omega
    have whole : (⟨some (versionText SCHEMA_VERSION), disk.content⟩ : Disk Content) = disk := by
      rw [← stamped]
    have again : command (fun disk : Disk Content => Except.ok
        { disk with stamp := disk.stamp.map fun _ => versionText SCHEMA_VERSION }) disk [] =
        ⟨.ok, disk, [], []⟩ := by
      refine command_of_ok (congrArg Except.ok ?_)
      rw [stamped, Option.map_some, ← stamped]
    rw [if_neg (Nat.ne_of_lt rises), if_neg some_, top, whole, Turn.next_done, again]


/-- An engine that notes what it is told, and refuses a column twice. -/
def Sample.notebook : Engine (List String) where
  exec statement content :=
    if statement ∈ content then .error "duplicate column name" else .ok (content ++ [statement])
  work _ content := .ok content
  schemaFull := []

def Sample.first : Disk (List String) :=
  ⟨some "24".toList, ["alter table send_queue add column next_attempt_at text"]⟩

/-- The process dies while a step is stamped. -/
def Sample.cut : Disk (List String) :=
  (ensureSchema Sample.notebook Sample.first [.none, .none, .none, .death true]).state

/-- Then it dies right behind the release. -/
def Sample.again : Disk (List String) :=
  (ensureSchema Sample.notebook Sample.cut [.none, .none, .none, .none, .death true]).state

def Sample.last : Disk (List String) :=
  (ensureSchema Sample.notebook Sample.again []).state

theorem migrations_restartable_sample :
    ∃ now, 24 ≤ now ∧ now ≤ SCHEMA_VERSION ∧
      storedVersion Sample.last.stamp = .ok (some now) ∧
      Path Sample.notebook (between 24 now) Sample.first.content Sample.last.content ∧
      (([] : List String) = [] → now = SCHEMA_VERSION →
        ensureSchema Sample.notebook Sample.first [] = ⟨.ok, Sample.last, [], []⟩) ∧
      ∀ faults, (ensureSchema Sample.notebook Sample.last faults).ending = .ok →
        storedVersion (ensureSchema Sample.notebook Sample.last faults).state.stamp =
          .ok (some SCHEMA_VERSION) :=
  migrations_restartable rfl (by decide)
    (.more (.more (.more (.none Sample.first) [.none, .none, .none, .death true])
      [.none, .none, .none, .none, .death true]) [])

/-- A database that is not known is left as it is. -/
theorem opens_refused {first disk : Disk Content} {warnings : List String}
    (unknown : (∃ failure, storedVersion first.stamp = .error failure) ∨
      ∃ version, storedVersion first.stamp = .ok (some version) ∧ SCHEMA_VERSION < version)
    (opens : Opens engine first disk warnings) : disk = first := by
  induction opens with
  | none => rfl
  | @more disk warnings earlier faults inductionHypothesis =>
      rw [inductionHypothesis]
      have done := command_done Except.ok first faults
      rw [ensureSchema]
      generalize command Except.ok first faults = turn at done ⊢
      cases done with
      | sound took =>
          obtain rfl := Except.ok.inj took
          rw [Turn.next]
          dsimp only
          rcases unknown with ⟨failure, broken⟩ | ⟨version, known, above⟩
          · rw [broken]
          · rw [known]
            dsimp only [Option.getD_some]
            rw [if_pos above]
      | refused failed => cases failed
      | troubled why => rfl
      | died left => exact left.elim id fun took => (Except.ok.inj took).symm

/-- A fresh database is stamped behind a whole pass of the schema. -/
theorem opens_fresh {first disk : Disk Content} {warnings : List String}
    (fresh : first.stamp = none) (opens : Opens engine first disk warnings) :
    disk.stamp = none ∨ disk.stamp = some (versionText SCHEMA_VERSION) ∧
      ∃ content, batch engine engine.schemaFull content [] = ⟨.ok, disk.content, [], []⟩ := by
  induction opens with
  | none => exact .inl fresh
  | @more disk warnings earlier faults inductionHypothesis =>
      rcases inductionHypothesis with bare | ⟨stamped, pass⟩
      · have done := command_done Except.ok disk faults
        rw [ensureSchema]
        generalize command Except.ok disk faults = turn at done ⊢
        cases done with
        | sound took =>
            obtain rfl := Except.ok.inj took
            have unset : storedVersion disk.stamp = .ok none := by rw [bare]; rfl
            rw [Turn.next]
            dsimp only
            rw [unset]
            dsimp only [Option.getD_none]
            rw [if_neg (Nat.not_lt_zero _), if_pos rfl, install]
            have whole := settles_batch engine engine.schemaFull disk.content faults.tail
            have quiet : (batch engine engine.schemaFull disk.content faults.tail).warnings = [] :=
              warnings_batch _ _ _
            generalize batch engine engine.schemaFull disk.content faults.tail = made
              at whole quiet ⊢
            rw [Turn.next]
            dsimp only
            cases ends : made.ending with
            | err | dead => exact .inl bare
            | ok =>
                have stamped := command_done (fun disk : Disk Content => Except.ok
                  { disk with stamp := some (versionText SCHEMA_VERSION) })
                  { disk with content := made.state } made.faults
                dsimp only
                generalize command (fun disk : Disk Content => Except.ok
                  { disk with stamp := some (versionText SCHEMA_VERSION) })
                  { disk with content := made.state } made.faults = last at stamped ⊢
                cases stamped with
                | sound took =>
                    obtain rfl := Except.ok.inj took
                    exact .inr ⟨rfl, disk.content, whole ends quiet⟩
                | refused failed => cases failed
                | troubled why => exact .inl bare
                | died left =>
                    rcases left with rfl | took
                    · exact .inl bare
                    · obtain rfl := Except.ok.inj took
                      exact .inr ⟨rfl, disk.content, whole ends quiet⟩
        | refused failed => cases failed
        | troubled why => exact .inl bare
        | died left => exact .inl (left.elim (fun same => same ▸ bare)
            fun took => Except.ok.inj took ▸ bare)
      · have known : storedVersion disk.stamp = .ok (some SCHEMA_VERSION) := by
          rw [stamped]
          exact storedVersion_versionText (by decide) le_rfl
        have once : Opens engine disk _ _ := .more (.none disk) faults
        obtain ⟨now, stands⟩ := stands_of_opens (by decide) le_rfl known once
        rcases stands.stays with ⟨-, same⟩ | ⟨rises, -⟩
        · rw [same]
          exact .inr ⟨stamped, pass⟩
        · exact absurd stands.within (Nat.not_le.mpr rises)

end Climbing

end Migrations
end Mailcore
