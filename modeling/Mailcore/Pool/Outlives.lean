import Mailcore.Pool.Client

/-!
# Sessions and edits

A session keeps what its job read, so it is as new as the row the job held and
the password it found.  The generation tells a check-in whether an edit was
over since the checkout began; it cannot tell what was read before.
-/

namespace Mailcore
namespace Pool

open Concurrent

variable {ι κ : Type}

/-- What is stored now is not older than an edit. -/
structure Known (accounts : Accounts) (change : Change) : Prop where
  row_lt : change.row < accounts.clock
  row_le : ∀ row, accounts.row change.accountId = some row → change.row ≤ row
  secret_lt : ∀ secret, change.secret = some secret → secret < accounts.clock
  secret_le : ∀ secret, change.secret = some secret →
    ∀ stored, accounts.secret change.accountId = some stored → secret ≤ stored

/-- An edit under way wrote what is stored now or what is older. -/
def EditorSafe (accounts : Accounts) : Editor → Prop
  | .idle => True
  | .begun _ accountId secret =>
      ∀ own, secret = some own → own < accounts.clock ∧
        ∀ stored, accounts.secret accountId = some stored → own ≤ stored
  | .written change => Known accounts change

/-- A row is not older than any edit of its account that is over. -/
def RowFollows (client : Client ι κ) (accountId : Int) (row : Nat) : Prop :=
  ∀ change ∈ client.evicted, change.accountId = accountId → change.row ≤ row

/-- A session outlives no edit of its account that is over. -/
def SessionFollows (client : Client ι κ) (accountId : Int) (session : Session) : Prop :=
  ∀ change ∈ client.evicted, change.accountId = accountId → ¬change.Outlived session

/-- What a job took is up to date, or its generation is not. -/
def JobSafe (client : Client ι κ) : Job → Prop
  | .probing accountId row generation session =>
      RowFollows client accountId row ∧ SessionFollows client accountId session ∧
        generation ≤ client.generation accountId
  | .connecting accountId row generation secret =>
      RowFollows client accountId row ∧
        (∀ loaded, secret = some loaded → SessionFollows client accountId
          { row, secret := loaded, connected := true }) ∧
          generation ≤ client.generation accountId
  | .working _ lease =>
      lease.generation ≤ client.generation lease.accountId ∧
        (lease.generation = client.generation lease.accountId →
          SessionFollows client lease.accountId lease.session)
  | _ => True

/-- The invariant of the pool. -/
structure Inv (client : Client ι κ) : Prop where
  known : ∀ change ∈ client.evicted, Known client.accounts change
  editor : ∀ who, EditorSafe client.accounts (client.editor who)
  job : ∀ who, JobSafe client (client.job who)
  pooled : ∀ accountId session, client.pooled accountId = some session →
    SessionFollows client accountId session
  handedOut : ∀ handed ∈ client.handedOut, ∀ change ∈ handed.evicted,
    change.accountId = handed.accountId → ¬change.Outlived handed.session

theorem inv_initial (accounts : List Int) :
    Inv (Client.initial accounts : Client ι κ) where
  known change gone := absurd gone List.not_mem_nil
  editor who := trivial
  job who := trivial
  pooled accountId session pooled := by cases pooled
  handedOut handed member := absurd member List.not_mem_nil

theorem Inv.noneOutlives {client : Client ι κ} (inv : Inv client) :
    NoneOutlives client :=
  ⟨inv.handedOut, inv.pooled⟩

section
variable {client next : Client ι κ} {accounts : Accounts}

/-- A step that leaves the edits and lowers no generation leaves a job safe. -/
theorem JobSafe.congr
    {job : Job}
    (safe : JobSafe client job)
    (evicted : next.evicted = client.evicted)
    (generation : next.generation = client.generation) :
    JobSafe next job := by
  cases job with
  | idle => trivial
  | holding accountId row => trivial
  | probing accountId row number session =>
      simpa only [JobSafe, RowFollows, SessionFollows, evicted, generation] using safe
  | connecting accountId row number secret =>
      simpa only [JobSafe, RowFollows, SessionFollows, evicted, generation] using safe
  | working row lease =>
      simpa only [JobSafe, SessionFollows, evicted, generation] using safe

/-- A session connected with a row and a password that both follow. -/
theorem sessionFollows_of_stored
    (inv : Inv client)
    {accountId : Int} {row secret : Nat} {connected : Bool}
    (rowFollows : RowFollows client accountId row)
    (stored : client.accounts.secret accountId = some secret) :
    SessionFollows client accountId { row, secret, connected } := by
  rintro change gone rfl (older | ⟨own, changed, older⟩)
  · exact absurd (rowFollows change gone rfl) (Nat.not_le.mpr older)
  · have := (inv.known change gone).secret_le own changed secret stored
    dsimp only at older
    omega

/-- A step of one job. -/
theorem Inv.setJob
    [DecidableEq ι]
    (inv : Inv client)
    {who : ι} {job : Job}
    (safe : JobSafe client job) :
    Inv (client.setJob who job) := by
  refine ⟨inv.known, inv.editor, ?_, inv.pooled, inv.handedOut⟩
  intro other
  rw [Client.setJob_job]
  split
  · exact safe.congr rfl rfl
  · exact (inv.job other).congr rfl rfl

theorem Inv.setEditor
    [DecidableEq κ]
    (inv : Inv client)
    {who : κ} {editor : Editor}
    (safe : EditorSafe client.accounts editor) :
    Inv (client.setEditor who editor) := by
  refine ⟨inv.known, ?_, inv.job, inv.pooled, inv.handedOut⟩
  intro other
  rw [Client.setEditor_editor]
  split
  · exact safe
  · exact inv.editor other

/-- A lease is handed out with a session that follows. -/
theorem Inv.handOut
    [DecidableEq ι]
    (inv : Inv client)
    {who : ι} {row : Nat} {lease : SessionLease}
    (follows : SessionFollows client lease.accountId lease.session)
    (generation : lease.generation ≤ client.generation lease.accountId) :
    Inv (client.handOut who row lease) := by
  have safe : JobSafe client (.working row lease) := ⟨generation, fun _ => follows⟩
  have logged : Inv { client with
      handedOut := ⟨lease.accountId, lease.session, client.evicted⟩ ::
        client.handedOut } := by
    refine ⟨inv.known, inv.editor, fun other => (inv.job other).congr rfl rfl,
      inv.pooled, ?_⟩
    intro handed member
    rcases List.mem_cons.mp member with rfl | earlier
    · exact follows
    · exact inv.handedOut handed earlier
  exact logged.setJob (safe.congr rfl rfl)

/-- Sessions leave the pool, or one comes in that follows. -/
theorem Inv.withPooled
    (inv : Inv client)
    {pooled : Int → Option Session}
    (follow : ∀ accountId session, pooled accountId = some session →
      SessionFollows client accountId session) :
    Inv { client with pooled } :=
  ⟨inv.known, inv.editor, inv.job, follow, inv.handedOut⟩

/-- A new row under a number of its own. -/
theorem Known.storeRow
    {change : Change}
    (known : Known accounts change)
    (accountId : Int)
    (kind : Kind) :
    Known (accounts.storeRow accountId kind) change := by
  refine ⟨Nat.lt_succ_of_lt known.row_lt, ?_, ?_, known.secret_le⟩
  · intro row stored
    rw [Accounts.storeRow_row] at stored
    split at stored
    · split at stored
      · cases stored
        exact Nat.le_of_lt known.row_lt
      · cases stored
    · exact known.row_le row stored
  · exact fun secret changed => Nat.lt_succ_of_lt (known.secret_lt secret changed)

theorem storedSecret_cases
    {accountId other : Int} {kind : Kind} {stored : Nat}
    (found : (accounts.storeSecret accountId kind).secret other = some stored) :
    stored = accounts.clock ∨ accounts.secret other = some stored := by
  rw [Accounts.storeSecret_secret] at found
  split at found
  · split at found
    · cases found
      exact Or.inl rfl
    · cases found
  · exact Or.inr found

theorem Known.storeSecret
    {change : Change}
    (known : Known accounts change)
    (accountId : Int)
    (kind : Kind) :
    Known (accounts.storeSecret accountId kind) change := by
  refine ⟨Nat.lt_succ_of_lt known.row_lt, known.row_le, ?_, ?_⟩
  · exact fun secret changed => Nat.lt_succ_of_lt (known.secret_lt secret changed)
  · intro secret changed stored found
    rcases storedSecret_cases found with rfl | before
    · exact Nat.le_of_lt (known.secret_lt secret changed)
    · exact known.secret_le secret changed stored before

theorem EditorSafe.storeRow
    {editor : Editor}
    (safe : EditorSafe accounts editor)
    (accountId : Int)
    (kind : Kind) :
    EditorSafe (accounts.storeRow accountId kind) editor := by
  cases editor with
  | idle => trivial
  | begun own other secret =>
      intro number named
      obtain ⟨less, before⟩ := safe number named
      exact ⟨Nat.lt_succ_of_lt less, before⟩
  | written change => exact Known.storeRow safe accountId kind

theorem EditorSafe.storeSecret
    {editor : Editor}
    (safe : EditorSafe accounts editor)
    (accountId : Int)
    (kind : Kind) :
    EditorSafe (accounts.storeSecret accountId kind) editor := by
  cases editor with
  | idle => trivial
  | begun own other secret =>
      intro number named
      obtain ⟨less, before⟩ := safe number named
      refine ⟨Nat.lt_succ_of_lt less, ?_⟩
      intro stored found
      rcases storedSecret_cases found with rfl | earlier
      · exact Nat.le_of_lt less
      · exact before stored earlier
  | written change => exact Known.storeSecret safe accountId kind

theorem Inv.storeRow
    (inv : Inv client)
    (accountId : Int)
    (kind : Kind) :
    Inv { client with accounts := client.accounts.storeRow accountId kind } where
  known change gone := (inv.known change gone).storeRow accountId kind
  editor who := (inv.editor who).storeRow accountId kind
  job who := (inv.job who).congr rfl rfl
  pooled := inv.pooled
  handedOut := inv.handedOut

theorem Inv.storeSecret
    (inv : Inv client)
    (accountId : Int)
    (kind : Kind) :
    Inv { client with accounts := client.accounts.storeSecret accountId kind } where
  known change gone := (inv.known change gone).storeSecret accountId kind
  editor who := (inv.editor who).storeSecret accountId kind
  job who := (inv.job who).congr rfl rfl
  pooled := inv.pooled
  handedOut := inv.handedOut

/-- A raised generation disowns the leases of the account. -/
theorem Inv.evictSession
    (inv : Inv client)
    (accountId : Int) :
    Inv (client.evictSession accountId) := by
  have raised : ∀ other, client.generation other ≤
      (client.evictSession accountId).generation other := by
    intro other
    rw [Client.evictSession_generation]
    split
    next same => exact same ▸ Nat.le_succ _
    · exact Nat.le_refl _
  refine ⟨inv.known, inv.editor, ?_, ?_, inv.handedOut⟩
  · intro who
    have safe := inv.job who
    change JobSafe _ (client.job who)
    cases job : client.job who with
    | idle => trivial
    | holding other row => trivial
    | probing other row generation session =>
        rw [job] at safe
        exact ⟨safe.1, safe.2.1, Nat.le_trans safe.2.2 (raised _)⟩
    | connecting other row generation secret =>
        rw [job] at safe
        exact ⟨safe.1, safe.2.1, Nat.le_trans safe.2.2 (raised _)⟩
    | working row lease =>
        rw [job] at safe
        refine ⟨Nat.le_trans safe.1 (raised _), fun current => ?_⟩
        by_cases same : lease.accountId = accountId
        · subst same
          rw [Client.evictSession_generation, if_pos rfl] at current
          have := safe.1
          omega
        · rw [Client.evictSession_generation, if_neg same] at current
          exact safe.2 current
  · intro other session pooled
    rw [Client.evictSession_pooled] at pooled
    split at pooled
    · cases pooled
    · exact inv.pooled other session pooled

/-- An edit is over when no checkout under way started before it. -/
theorem Inv.evict
    (inv : Inv client)
    {change : Change}
    (known : Known client.accounts change)
    (follows : ∀ other, (client.job other).Follows change) :
    Inv { client.evictSession change.accountId with
      evicted := change :: client.evicted } := by
  have evicted := inv.evictSession change.accountId
  refine ⟨?_, evicted.editor, ?_, ?_, inv.handedOut⟩
  · intro other member
    rcases List.mem_cons.mp member with rfl | earlier
    · exact known
    · exact inv.known other earlier
  · intro who
    have before := inv.job who
    have safe := evicted.job who
    have follow := follows who
    change JobSafe client (client.job who) at before
    change JobSafe _ (client.job who) at safe
    change JobSafe _ (client.job who)
    cases job : client.job who with
    | idle => trivial
    | holding other row => trivial
    | probing other row generation session =>
        rw [job] at safe follow
        refine ⟨?_, ?_, safe.2.2⟩
        · intro one member same
          rcases List.mem_cons.mp member with rfl | earlier
          · exact (follow same).1
          · exact safe.1 one earlier same
        · intro one member same
          rcases List.mem_cons.mp member with rfl | earlier
          · exact (follow same).2
          · exact safe.2.1 one earlier same
    | connecting other row generation secret =>
        rw [job] at safe follow
        refine ⟨?_, ?_, safe.2.2⟩
        · intro one member same
          rcases List.mem_cons.mp member with rfl | earlier
          · exact (follow same).1
          · exact safe.1 one earlier same
        · intro loaded found one member same
          rcases List.mem_cons.mp member with rfl | earlier
          · rintro (older | ⟨stored, changed, older⟩)
            · exact absurd (follow same).1 (Nat.not_le.mpr older)
            · exact absurd ((follow same).2 loaded found stored changed)
                (Nat.not_le.mpr older)
          · exact safe.2.1 loaded found one earlier same
    | working row lease =>
        rw [job] at before safe
        refine ⟨safe.1, fun current => ?_⟩
        intro one member same
        rcases List.mem_cons.mp member with rfl | earlier
        · change lease.generation = (client.evictSession _).generation _ at current
          rw [Client.evictSession_generation, if_pos same.symm, same] at current
          have := before.1
          omega
        · exact safe.2 current one earlier same
  · intro accountId session pooled one member same
    rcases List.mem_cons.mp member with rfl | earlier
    · change (client.evictSession _).pooled accountId = some session at pooled
      rw [Client.evictSession_pooled, if_pos same.symm] at pooled
      cases pooled
    · exact evicted.pooled accountId session pooled one earlier same

theorem Inv.checkout
    [DecidableEq ι]
    (inv : Inv client)
    {who : ι} {accountId : Int} {row : Nat}
    (follows : RowFollows client accountId row) :
    Inv (client.checkout who accountId row) := by
  unfold Client.checkout
  dsimp only
  cases pooled : client.pooled accountId with
  | none => exact inv.setJob ⟨follows, nofun, Nat.le_refl _⟩
  | some session =>
      have taken : Inv { client with
          pooled := Function.update client.pooled accountId none } := by
        refine inv.withPooled fun other kept found => ?_
        rw [Function.update_apply] at found
        split at found
        · cases found
        · exact inv.pooled other kept found
      have safe : JobSafe client
          (.probing accountId row (client.generation accountId) session) :=
        ⟨follows, inv.pooled accountId session pooled, Nat.le_refl _⟩
      exact taken.setJob (safe.congr rfl rfl)

/-- A check-in under the generation of the checkout returns a session that
follows. -/
theorem Inv.checkin
    (inv : Inv client)
    {row : Nat} {lease : SessionLease}
    (safe : JobSafe client (.working row lease)) :
    Inv (client.checkin lease) := by
  unfold Client.checkin
  split
  · exact inv
  next current =>
      split
      · refine inv.withPooled fun other kept found => ?_
        rw [Function.update_apply] at found
        split at found
        next same =>
            cases found
            exact same ▸ safe.2 (not_not.mp current).symm
        · exact inv.pooled other kept found
      · exact inv

end

section
variable [DecidableEq ι] [DecidableEq κ] {client next : Client ι κ}

theorem Inv.move
    (inv : Inv client)
    {step : Step ι κ}
    (inTime : ReadsInTime step client)
    (moved : step.move client = some next) :
    Inv next := by
  cases step with
  | readRow who accountId =>
      simp only [Step.move] at moved
      split at moved
      · cases moved
        exact inv.setJob trivial
      · cases moved
  | checkout who =>
      simp only [Step.move] at moved
      split at moved
      next accountId row job =>
          cases moved
          simp only [ReadsInTime, job] at inTime
          exact inv.checkout inTime
      · cases moved
  | probe who healthy =>
      simp only [Step.move] at moved
      split at moved
      next accountId row generation session job =>
          have safe := inv.job who
          rw [job] at safe
          split at moved
          · cases moved
            exact inv.handOut safe.2.1 safe.2.2
          · cases moved
            exact inv.setJob ⟨safe.1, nofun, safe.2.2⟩
      · cases moved
  | loadSecrets who refused =>
      simp only [Step.move] at moved
      split at moved
      next accountId row generation job =>
          have safe := inv.job who
          rw [job] at safe
          split at moved
          next secret stored =>
              split at moved
              · cases moved
                exact inv.setJob trivial
              · cases moved
                refine inv.setJob ⟨safe.1, ?_, safe.2.2⟩
                rintro loaded ⟨⟩
                exact sessionFollows_of_stored inv safe.1 stored
          · cases moved
            exact inv.setJob trivial
      · cases moved
  | connect who succeeds =>
      simp only [Step.move] at moved
      split at moved
      next accountId row generation secret job =>
          have safe := inv.job who
          rw [job] at safe
          split at moved
          · cases moved
            exact inv.handOut (safe.2.1 secret rfl) safe.2.2
          · cases moved
            exact inv.setJob trivial
      · cases moved
  | work who leaves =>
      simp only [Step.move] at moved
      split at moved
      next row lease job =>
          have safe := inv.job who
          rw [job] at safe
          split at moved
          · cases moved
            exact inv
          · cases moved
            exact inv.setJob safe
          next secret =>
              split at moved
              next stored =>
                  cases moved
                  refine inv.setJob ⟨safe.1, fun current => ?_⟩
                  rintro change gone same (older | ⟨own, changed, older⟩)
                  · exact safe.2 current change gone same (Or.inl older)
                  · have := (inv.known change gone).secret_le own changed secret
                      (same ▸ stored)
                    dsimp only at older
                    omega
              · cases moved
      · cases moved
  | checkin who =>
      simp only [Step.move] at moved
      split at moved
      next row lease job =>
          have safe := inv.job who
          rw [job] at safe
          cases moved
          exact (inv.checkin safe).setJob trivial
      · cases moved
  | drop who =>
      simp only [Step.move] at moved
      split at moved
      · cases moved
        exact inv.setJob trivial
      · cases moved
  | finish who =>
      simp only [Step.move] at moved
      split at moved
      · cases moved
        exact inv.setJob trivial
      · cases moved
  | begin who kind accountId =>
      simp only [Step.move] at moved
      split at moved
      · cases moved
        exact inv.setEditor nofun
      · cases moved
  | storeSecrets who =>
      simp only [Step.move] at moved
      split at moved
      next kind accountId editor =>
          cases moved
          refine (inv.storeSecret accountId kind).setEditor ?_
          rintro own ⟨⟩
          refine ⟨Nat.lt_succ_self _, fun stored found => ?_⟩
          rw [Accounts.storeSecret_secret, if_pos rfl] at found
          split at found
          · cases found
            exact Nat.le_refl _
          · cases found
      · cases moved
  | storeRow who =>
      simp only [Step.move] at moved
      split at moved
      next kind accountId secret editor =>
          have safe := (inv.editor who).storeRow accountId kind
          rw [editor] at safe
          split at moved
          · cases moved
            refine (inv.storeRow accountId kind).setEditor ⟨Nat.lt_succ_self _, ?_, ?_, ?_⟩
            · intro row found
              rw [Accounts.storeRow_row, if_pos rfl] at found
              split at found
              · cases found
                exact Nat.le_refl _
              · cases found
            · exact fun own changed => (safe own changed).1
            · exact fun own changed => (safe own changed).2
          · cases moved
      · cases moved
  | giveUp who restores =>
      simp only [Step.move] at moved
      split at moved
      · split at moved
        · cases moved
          exact (inv.storeSecret _ .save).setEditor trivial
        · cases moved
          exact inv.setEditor trivial
      · cases moved
  | evict who =>
      simp only [Step.move] at moved
      split at moved
      next change editor =>
          have safe := inv.editor who
          rw [editor] at safe
          cases moved
          simp only [ReadsInTime, editor] at inTime
          exact (inv.evict safe inTime).setEditor trivial
      · cases moved
  | create accountId =>
      simp only [Step.move] at moved
      split at moved
      · cases moved
        exact (inv.storeSecret accountId .save).storeRow accountId .save
      · cases moved
  | evictOnly accountId =>
      cases moved
      exact inv.evictSession accountId
  | dropAll =>
      cases moved
      exact inv.withPooled nofun

/-- No session outlives an edit, however jobs and edits interleave, as long as
the row of every checkout is read after the edits before it and no edit is over
in the midst of a checkout. -/
theorem noneOutlives_of_readsInTime
    (accounts : List Int)
    (steps : List (Step ι κ))
    (inTime : Guarded.RunMeets Step.move ReadsInTime (Client.initial accounts) steps) :
    NoneOutlives (Guarded.run Step.move (Client.initial accounts) steps) :=
  (Guarded.run_invariant Inv (fun _ _ _ inv meets moved => inv.move meets moved)
    (inv_initial accounts) steps inTime).noneOutlives

end

namespace Sample

/-- A job connects and works while its account is edited, and its session is
dropped; the next one connects with the new row and password. -/
def editWhileWorking : List (Step Unit Unit) :=
  [.readRow () 1, .checkout (), .loadSecrets () false, .connect () true,
    .begin () .save 1, .storeSecrets (), .storeRow (), .evict (), .checkin (),
    .finish (), .readRow () 1, .checkout (), .loadSecrets () false,
    .connect () true, .checkin ()]

theorem editWhileWorking_noneOutlives :
    NoneOutlives (Guarded.run Step.move (Client.initial [1]) editWhileWorking) :=
  noneOutlives_of_readsInTime [1] editWhileWorking (by decide)

/-- A job reads its account's row, the account is edited, and the job checks
out. -/
def editAfterRead : List (Step Unit Unit) :=
  [.readRow () 1, .begin () .save 1, .storeSecrets (), .storeRow (), .evict (),
    .checkout (), .loadSecrets () false, .connect () true, .checkin ()]

/-- The pool then holds a session of the old host and user. -/
theorem old_row_pooled :
    ¬NoneOutlives (Guarded.run Step.move (Client.initial [1]) editAfterRead) := by
  intro none
  have pooled : (Guarded.run Step.move (Client.initial [1]) editAfterRead).pooled 1 =
      some { row := 0, secret := 1, connected := true } := by decide
  have gone : { accountId := 1, row := 2, secret := some 1 } ∈
      (Guarded.run Step.move (Client.initial [1]) editAfterRead).evicted := by decide
  exact none.pooled 1 _ pooled _ gone rfl (by decide)

end Sample

end Pool
end Mailcore
