import Mailcore.Relay.PendingOpen
import Mathlib.Data.Fintype.Basic

/-!
# When a click opens its mail once

No request is mixed with another, lost or opened twice in a run whose takes are
left alone: from the first statement of a take to its last no other process
writes a request, and until the take has cleared the account no other take
begins.
-/

namespace Mailcore
namespace Relay

open Concurrent

/-- Where a process is with its take. -/
inductive Stage
  | outside
  /-- It has read the account. -/
  | looked (id : Int)
  /-- It has read both rows. -/
  | readBoth (request : Request)
  /-- It has cleared the account. -/
  | cleared (request : Request)
  | returning (request : Option Request)
  deriving DecidableEq

namespace Stage

/-- It has read the account and not cleared it yet. -/
def holds : Stage → Bool
  | .looked _ | .readBoth _ => true
  | _ => false

/-- It has statements of its take to run. -/
def inside : Stage → Bool
  | .looked _ | .readBoth _ | .cleared _ => true
  | _ => false

/-- The request it has taken and not returned yet. -/
def taken : Stage → Option Request
  | .cleared request => some request
  | .returning request => request
  | _ => none

end Stage

/-- Follows the statements of a process. -/
@[reducible] def monitor : Monitor signature where
  State := Stage
  allows
    | .outside, .setBoth _ _ => True
    | .outside, .get .account => True
    | .looked _, .get .folder => True
    | .readBoth _, .set .account value => value = "0"
    | .cleared _, .set .folder value => value = ""
    | .returning request, .opened result => result = request
    | _, _ => False
  next
    | .outside, .get .account, row =>
        match idOf row with
        | none => .returning none
        | some id => .looked id
    | .looked id, .get .folder, row => .readBoth (id, row.getD "")
    | .readBoth request, .set .account _, _ => .cleared request
    | .cleared request, .set .folder _, _ => .returning (some request)
    | .returning _, .opened _, _ => .outside
    | stage, _, _ => stage

theorem consumePendingOpen_obeys :
    consumePendingOpen.Obeys monitor .outside fun _ stage => stage = .outside := by
  unfold consumePendingOpen takePendingOpen
  rw [Program.call_bind]
  refine ⟨trivial, fun row => ?_⟩
  cases found : idOf row with
  | none =>
      simp only [monitor, found]
      exact ⟨rfl, fun _ => rfl⟩
  | some id =>
      simp only [monitor, found]
      exact ⟨trivial, fun folder => ⟨rfl, fun _ => ⟨rfl, fun _ =>
        ⟨rfl, fun _ => rfl⟩⟩⟩⟩

theorem programOf_obeys (jobs : List Job) :
    (programOf jobs).Obeys monitor .outside fun _ _ => True := by
  induction jobs with
  | nil => trivial
  | cons job jobs inductionHypothesis =>
      unfold programOf
      rw [Program.obeys_bind]
      cases job with
      | set accountId folder => exact ⟨trivial, fun _ => inductionHypothesis⟩
      | take =>
          refine consumePendingOpen_obeys.mono ?_
          rintro _ _ rfl
          exact inductionHypothesis

/-! ## What holds throughout -/

section Invariant

variable {ι : Type} [DecidableEq ι]

/-- Nobody comes between the statements of a take, and they succeed: no request
is written while another process is inside its take, none begins a take before
another has cleared the account, and what is read and cleared there is. -/
def LeftAlone (_ : Settings ι) (seen : ι → Stage) (who : ι) :
    Call → Bool → Prop
  | .setBoth _ _, refused =>
      refused = false → ∀ other, other ≠ who → (seen other).inside = false
  | .get .account, refused =>
      refused = false ∧ ∀ other, other ≠ who → (seen other).holds = false
  | .get .folder, refused => refused = false
  | .set .account _, refused => refused = false
  | .set .folder _, _ => True
  | .opened _, _ => True

/-- The account the rows hold. -/
def Settings.id (settings : Settings ι) : Option Int :=
  idOf (settings.row .account)

/-- The folder the rows hold. -/
def Settings.folder (settings : Settings ι) : String :=
  (settings.row .folder).getD ""

/-- A process has taken this request, and no one else opens it. -/
structure Taken (settings : Settings ι) (who : ι) (request : Request) :
    Prop where
  stored : .stored (settings.read who) request ∈ settings.history
  le_number : settings.read who ≤ settings.number
  gone : settings.id ≠ none → settings.read who ≠ settings.number
  unopened : settings.read who ∉ openedNumbers settings.history

/-- What a process knows where it is. -/
def Fits (settings : Settings ι) (who : ι) : Stage → Prop
  | .outside => due who settings.history = none
  | .looked id =>
      settings.id = some id ∧ settings.read who = settings.number ∧
        ∀ request, due who settings.history = some request →
          request = (id, settings.folder)
  | .readBoth request =>
      settings.id = some request.1 ∧ settings.folder = request.2 ∧
        settings.read who = settings.number ∧
        ∀ other, due who settings.history = some other → other = request
  | .cleared request =>
      settings.id = none ∧ Taken settings who request ∧
        ∀ other, due who settings.history = some other → other = request
  | .returning (some request) => Taken settings who request ∧
        ∀ other, due who settings.history = some other → other = request
  | .returning none => due who settings.history = none

structure Invariant (settings : Settings ι) (seen : ι → Stage) : Prop where
  fits : ∀ who, Fits settings who (seen who)
  /-- The two rows hold one request. -/
  whole : ∀ id, settings.id = some id →
    .stored settings.number (id, settings.folder) ∈ settings.history
  /-- One process at a time is between reading and clearing the account. -/
  apart : ∀ who other, (seen who).holds = true → (seen other).holds = true →
    who = other
  /-- Two processes have not taken the same request. -/
  distinct : ∀ who other, (seen who).taken.isSome → (seen other).taken.isSome →
    settings.read who = settings.read other → who = other
  /-- The request in the rows has not opened. -/
  ahead : ∀ number ∈ openedNumbers settings.history,
    number ≤ settings.number ∧ (settings.id ≠ none → number ≠ settings.number)
  /-- A request that waits is in the rows, and nobody is inside a take. -/
  waits : ∀ request, waiting settings.history = some request →
    settings.id = some request.1 ∧ settings.folder = request.2 ∧
      ∀ who, (seen who).inside = false
  once : OpensOnce settings.history

theorem invariant_fresh : Invariant (Settings.fresh : Settings ι) fun _ =>
    .outside where
  fits _ := rfl
  whole _ held := nomatch held
  apart _ _ held := nomatch held
  distinct _ _ taken := nomatch taken
  ahead _ opened := nomatch opened
  waits _ waits := nomatch waits
  once := ⟨by simp [Settings.fresh], List.nodup_nil, by
    intro later earlier who number result request split
    cases later <;> cases split⟩

/-! ## One deed more -/

section Deeds

variable {history : List (Deed ι)}

theorem OpensOnce.stored
    (once : OpensOnce history) (number : Nat) (request : Request) :
    OpensOnce (.stored number request :: history) where
  whole who opened asked member := by
    rcases List.mem_cons.mp member with same | earlier
    · cases same
    · exact List.mem_cons_of_mem _ (once.whole who opened asked earlier)
  once := once.once
  next later earlier who opened result asked split := by
    cases later with
    | nil => cases split
    | cons _ later =>
        exact once.next later earlier who opened result asked
          (List.cons.inj split).2

theorem OpensOnce.looked (once : OpensOnce history) (who : ι) :
    OpensOnce (.looked who :: history) where
  whole who opened asked member := by
    rcases List.mem_cons.mp member with same | earlier
    · cases same
    · exact List.mem_cons_of_mem _ (once.whole who opened asked earlier)
  once := once.once
  next later earlier who opened result asked split := by
    cases later with
    | nil => cases split
    | cons _ later =>
        exact once.next later earlier who opened result asked
          (List.cons.inj split).2

theorem OpensOnce.opened
    (once : OpensOnce history) {who : ι} {number : Nat} {result : Option Request}
    (whole : ∀ request, result = some request →
      .stored number request ∈ history)
    (unopened : result.isSome → number ∉ openedNumbers history)
    (owed : ∀ request, due who history = some request → result = some request) :
    OpensOnce (.opened who number result :: history) where
  whole other opened asked member := by
    rcases List.mem_cons.mp member with same | earlier
    · cases same
      exact List.mem_cons_of_mem _ (whole asked rfl)
    · exact List.mem_cons_of_mem _ (once.whole other opened asked earlier)
  once := by
    cases result with
    | none => exact once.once
    | some request => exact List.nodup_cons.mpr ⟨unopened rfl, once.once⟩
  next later earlier other opened returned asked split := by
    cases later with
    | nil =>
        cases split
        exact owed asked
    | cons _ later =>
        exact once.next later earlier other opened returned asked
          (List.cons.inj split).2

end Deeds

/-! ## One statement -/

section Turn

variable {settings : Settings ι} {seen : ι → Stage} {who : ι}

/-- A request is written. -/
theorem Invariant.setBoth
    (invariant : Invariant settings seen)
    (outside : seen who = .outside)
    (alone : ∀ other, other ≠ who → (seen other).inside = false)
    (account folder : String) :
    Invariant (carryOut who (.setBoth account folder) settings).2 seen := by
  have nobody : ∀ other, (seen other).inside = false := by
    intro other
    by_cases same : other = who
    · rw [same, outside]
      rfl
    · exact alone other same
  have taken : ∀ other request, Taken settings other request →
      Taken (carryOut who (.setBoth account folder) settings).2 other request := by
    intro other request taken
    exact ⟨List.mem_cons_of_mem _ taken.stored, Nat.le_succ_of_le taken.le_number,
      fun _ => Nat.ne_of_lt (Nat.lt_succ_of_le taken.le_number), taken.unopened⟩
  refine ⟨?_, ?_, invariant.apart, invariant.distinct, ?_, ?_,
    invariant.once.stored _ _⟩
  · intro other
    have fits := invariant.fits other
    have away := nobody other
    cases stage : seen other with
    | outside =>
        rw [stage] at fits
        exact fits
    | returning request =>
        rw [stage] at fits
        cases request with
        | none => exact fits
        | some request => exact ⟨taken other request fits.1, fits.2⟩
    | _ =>
        rw [stage] at away
        cases away
  · intro id held
    change idOf (some account) = some id at held
    change _ ∈ Deed.stored (settings.number + 1) (requestOf account folder) :: _
    rw [requestOf, held]
    exact List.mem_cons_self
  · intro number opened
    have bound := (invariant.ahead number opened).1
    exact ⟨Nat.le_succ_of_le bound, fun _ => Nat.ne_of_lt (Nat.lt_succ_of_le bound)⟩
  · intro request waits
    change (if 0 < (requestOf account folder).1 then
      some (requestOf account folder) else none) = some request at waits
    split at waits
    · next positive =>
      cases waits
      refine ⟨?_, rfl, nobody⟩
      change idOf (some account) = _
      unfold requestOf at positive ⊢
      cases held : idOf (some account) with
      | none => simp [held] at positive
      | some id => rfl
    · cases waits

/-- A property of every process, when one moves to another stage. -/
theorem forall_update {property : ι → Stage → Prop} {stage : Stage}
    (own : property who stage)
    (others : ∀ other, other ≠ who → property other (seen other)) :
    ∀ other, property other (Function.update seen who stage other) := by
  intro other
  by_cases same : other = who
  · rw [same, Function.update_self]
    exact own
  · rw [Function.update_of_ne same]
    exact others other same

theorem seen_of_update (property : Stage → Bool) {stage : Stage} {other : ι}
    (holds : property (Function.update seen who stage other) = true)
    (not : property stage = false) :
    other ≠ who ∧ property (seen other) = true := by
  by_cases same : other = who
  · rw [same, Function.update_self, not] at holds
    cases holds
  · rw [Function.update_of_ne same] at holds
    exact ⟨same, holds⟩

/-- A take begins. -/
theorem Invariant.look
    (invariant : Invariant settings seen)
    (alone : ∀ other, other ≠ who → (seen other).holds = false) :
    Invariant (carryOut who (.get .account) settings).2
      (Function.update seen who
        (monitor.next .outside (.get .account) (settings.row .account))) := by
  have read : ∀ other, other ≠ who →
      (carryOut who (.get .account) settings).2.read other =
        settings.read other := fun other different =>
    Function.update_of_ne different _ _
  have owed : ∀ other, other ≠ who → due other
      (carryOut who (.get .account) settings).2.history =
        due other settings.history := fun other different =>
    if_neg (Ne.symm different)
  have ownDue : due who (carryOut who (.get .account) settings).2.history =
      waiting settings.history := if_pos rfl
  have taken : ∀ other request, other ≠ who → Taken settings other request →
      Taken (carryOut who (.get .account) settings).2 other request := by
    intro other request different taken
    refine ⟨?_, ?_, ?_, ?_⟩
    · rw [read other different]
      exact List.mem_cons_of_mem _ taken.stored
    · rw [read other different]
      exact taken.le_number
    · rw [read other different]
      exact taken.gone
    · rw [read other different]
      exact taken.unopened
  have others : ∀ other, other ≠ who →
      Fits (carryOut who (.get .account) settings).2 other (seen other) := by
    intro other different
    have fits := invariant.fits other
    have away := alone other different
    cases stage : seen other with
    | outside =>
        rw [stage] at fits
        exact (owed other different).trans fits
    | cleared request =>
        rw [stage] at fits
        obtain ⟨gone, held, own⟩ := fits
        refine ⟨gone, taken other request different held, ?_⟩
        rw [owed other different]
        exact own
    | returning request =>
        rw [stage] at fits
        cases request with
        | none => exact (owed other different).trans fits
        | some request =>
            refine ⟨taken other request different fits.1, ?_⟩
            rw [owed other different]
            exact fits.2
    | _ =>
        rw [stage] at away
        cases away
  generalize next : monitor.next .outside (.get .account) (settings.row .account)
    = stage
  have notTaken : stage.taken = none := by
    rw [← next]
    cases found : idOf (settings.row .account) <;> simp [found, Stage.taken]
  refine ⟨forall_update ?_ others, ?_, ?_, ?_, invariant.ahead, nofun,
    invariant.once.looked who⟩
  · rw [← next]
    cases found : idOf (settings.row .account) with
    | none =>
        simp only [found]
        refine ownDue.trans ?_
        cases waits : waiting settings.history with
        | none => rfl
        | some request =>
            have held := (invariant.waits request waits).1
            exact absurd (found.symm.trans held) nofun
    | some id =>
        simp only [found]
        refine ⟨found, Function.update_self _ _ _, ?_⟩
        intro request waits
        obtain ⟨held, folder, -⟩ := invariant.waits request (ownDue.symm.trans waits)
        exact Prod.ext (Option.some.inj (held.symm.trans found)) folder.symm
  · intro id held
    exact List.mem_cons_of_mem _ (invariant.whole id held)
  · intro first second firstHolds secondHolds
    have same : ∀ other, (Function.update seen who stage other).holds = true →
        other = who := by
      intro other holds
      by_contra different
      rw [Function.update_of_ne different, alone other different] at holds
      cases holds
    rw [same first firstHolds, same second secondHolds]
  · intro first second firstTaken secondTaken sameRead
    obtain ⟨firstOther, firstSeen⟩ := seen_of_update
      (fun stage => stage.taken.isSome) firstTaken (by simp [notTaken])
    obtain ⟨secondOther, secondSeen⟩ := seen_of_update
      (fun stage => stage.taken.isSome) secondTaken (by simp [notTaken])
    rw [read first firstOther, read second secondOther] at sameRead
    exact invariant.distinct first second firstSeen secondSeen sameRead

/-- A process learns something and changes nothing. -/
theorem Invariant.move
    (invariant : Invariant settings seen) {stage : Stage}
    (fits : Fits settings who stage)
    (holds : stage.holds = true → (seen who).holds = true)
    (inside : stage.inside = true → (seen who).inside = true)
    (taken : stage.taken.isSome → (seen who).taken.isSome) :
    Invariant settings (Function.update seen who stage) := by
  have before : ∀ property : Stage → Bool,
      (property stage = true → property (seen who) = true) → ∀ other,
        property (Function.update seen who stage other) = true →
          property (seen other) = true := by
    intro property own other held
    by_cases same : other = who
    · subst same
      rw [Function.update_self] at held
      exact own held
    · rwa [Function.update_of_ne same] at held
  refine ⟨forall_update fits fun other _ => invariant.fits other,
    invariant.whole, ?_, ?_, invariant.ahead, ?_, invariant.once⟩
  · exact fun first second firstHolds secondHolds => invariant.apart first second
      (before _ holds first firstHolds) (before _ holds second secondHolds)
  · exact fun first second firstTaken secondTaken => invariant.distinct first
      second (before (fun stage => stage.taken.isSome) taken first firstTaken)
      (before (fun stage => stage.taken.isSome) taken second secondTaken)
  · intro request waits
    obtain ⟨held, folder, nobody⟩ := invariant.waits request waits
    refine ⟨held, folder, fun other => ?_⟩
    by_contra still
    rw [Bool.not_eq_false] at still
    have earlier := before _ inside other still
    rw [nobody other] at earlier
    cases earlier

theorem id_cleared :
    (carryOut who (.set .account "0") settings).2.id = none := by
  change idOf (Function.update settings.row .account (some "0") .account) = none
  rw [Function.update_self]
  decide

theorem Fits.readBoth {request : Request}
    (fits : ∀ other, Fits settings other (seen other))
    (stage : seen who = .readBoth request) :
    settings.id = some request.1 ∧ settings.folder = request.2 ∧
      settings.read who = settings.number ∧
      ∀ other, due who settings.history = some other → other = request := by
  have own := fits who
  rw [stage] at own
  exact own

/-- The account is cleared: the process has taken the request. -/
theorem Invariant.clearAccount
    (invariant : Invariant settings seen) {request : Request}
    (stage : seen who = .readBoth request) :
    Invariant (carryOut who (.set .account "0") settings).2
      (Function.update seen who (.cleared request)) := by
  obtain ⟨held, folder, number, own⟩ := Fits.readBoth invariant.fits stage
  have nonempty : settings.id ≠ none := by simp [held]
  have gone : (carryOut who (.set .account "0") settings).2.id = none :=
    id_cleared
  have taken : ∀ other asked, Taken settings other asked →
      Taken (carryOut who (.set .account "0") settings).2 other asked :=
    fun other asked taken => ⟨taken.stored, taken.le_number,
      fun still => absurd gone still, taken.unopened⟩
  have notInside : ∀ other, other ≠ who → (seen other).holds = false := by
    intro other different
    by_contra holds
    rw [Bool.not_eq_false] at holds
    exact different (invariant.apart other who holds (by rw [stage]; rfl))
  -- Nobody who has taken a request before took the one in the rows.
  have other_ne : ∀ other, (seen other).taken.isSome →
      settings.read other ≠ settings.number := by
    intro other isTaken
    have fits := invariant.fits other
    cases otherStage : seen other with
    | cleared asked =>
        rw [otherStage] at fits
        exact absurd fits.1 nonempty
    | returning asked =>
        rw [otherStage] at fits isTaken
        cases asked with
        | none => cases isTaken
        | some asked => exact fits.1.gone nonempty
    | _ =>
        rw [otherStage] at isTaken
        cases isTaken
  refine ⟨forall_update ?_ ?_, ?_, ?_, ?_, ?_, ?_, invariant.once⟩
  · refine ⟨gone, ⟨?_, Nat.le_of_eq number, fun still => absurd gone still, ?_⟩, own⟩
    · change .stored (settings.read who) request ∈ settings.history
      have whole := invariant.whole request.1 held
      rw [folder, ← number] at whole
      exact whole
    · intro opened
      exact (invariant.ahead _ opened).2 nonempty number
  · intro other different
    have fits := invariant.fits other
    have away := notInside other different
    cases otherStage : seen other with
    | outside =>
        rw [otherStage] at fits
        exact fits
    | cleared asked =>
        rw [otherStage] at fits
        exact ⟨gone, taken other asked fits.2.1, fits.2.2⟩
    | returning asked =>
        rw [otherStage] at fits
        cases asked with
        | none => exact fits
        | some asked => exact ⟨taken other asked fits.1, fits.2⟩
    | _ =>
        rw [otherStage] at away
        cases away
  · intro id still
    rw [gone] at still
    cases still
  · intro first second firstHolds
    obtain ⟨different, holds⟩ := seen_of_update Stage.holds firstHolds rfl
    rw [notInside first different] at holds
    cases holds
  · intro first second firstTaken secondTaken sameRead
    change settings.read first = settings.read second at sameRead
    by_cases firstOwn : first = who
    · by_cases secondOwn : second = who
      · rw [firstOwn, secondOwn]
      · rw [Function.update_of_ne secondOwn] at secondTaken
        rw [firstOwn, number] at sameRead
        exact absurd sameRead.symm (other_ne second secondTaken)
    · rw [Function.update_of_ne firstOwn] at firstTaken
      by_cases secondOwn : second = who
      · rw [secondOwn, number] at sameRead
        exact absurd sameRead (other_ne first firstTaken)
      · rw [Function.update_of_ne secondOwn] at secondTaken
        exact invariant.distinct first second firstTaken secondTaken sameRead
  · exact fun opened member =>
      ⟨(invariant.ahead opened member).1, fun still => absurd gone still⟩
  · intro asked waits
    have nobody := (invariant.waits asked waits).2.2 who
    rw [stage] at nobody
    cases nobody

/-- The folder is cleared. -/
theorem Invariant.clearFolder
    (invariant : Invariant settings seen) {request : Request}
    (stage : seen who = .cleared request) :
    Invariant (carryOut who (.set .folder "") settings).2
      (Function.update seen who (.returning (some request))) := by
  have fits := invariant.fits who
  rw [stage] at fits
  obtain ⟨gone, own, owed⟩ := fits
  have moved : Invariant settings
      (Function.update seen who (.returning (some request))) :=
    invariant.move ⟨own, owed⟩ nofun nofun fun _ => by rw [stage]; rfl
  have taken : ∀ other asked, Taken settings other asked →
      Taken (carryOut who (.set .folder "") settings).2 other asked :=
    fun _ _ taken => ⟨taken.stored, taken.le_number, taken.gone, taken.unopened⟩
  refine ⟨?_, ?_, moved.apart, moved.distinct, moved.ahead, ?_, moved.once⟩
  · intro other
    have fits := moved.fits other
    cases otherStage : Function.update seen who (.returning (some request)) other
      with
    | outside =>
        rw [otherStage] at fits
        exact fits
    | looked id =>
        rw [otherStage] at fits
        exact absurd (gone.symm.trans fits.1) nofun
    | readBoth asked =>
        rw [otherStage] at fits
        exact absurd (gone.symm.trans fits.1) nofun
    | cleared asked =>
        rw [otherStage] at fits
        exact ⟨fits.1, taken other asked fits.2.1, fits.2.2⟩
    | returning asked =>
        rw [otherStage] at fits
        cases asked with
        | none => exact fits
        | some asked => exact ⟨taken other asked fits.1, fits.2⟩
  · intro id still
    exact absurd (gone.symm.trans still) nofun
  · intro asked waits
    exact absurd (gone.symm.trans (moved.waits asked waits).1) nofun

/-- What was taken opens. -/
theorem Invariant.opened
    (invariant : Invariant settings seen) {request : Option Request}
    (stage : seen who = .returning request) :
    Invariant (carryOut who (.opened request) settings).2
      (Function.update seen who .outside) := by
  have own := invariant.fits who
  rw [stage] at own
  have owed : ∀ other, other ≠ who → due other
      (carryOut who (.opened request) settings).2.history =
        due other settings.history := fun other different =>
    if_neg (Ne.symm different)
  have numbers : ∀ number,
      number ∈ openedNumbers (carryOut who (.opened request) settings).2.history →
      (request.isSome ∧ number = settings.read who) ∨
        number ∈ openedNumbers settings.history := by
    intro number member
    cases request with
    | none => exact .inr member
    | some asked =>
        rcases List.mem_cons.mp member with same | earlier
        · exact .inl ⟨rfl, same⟩
        · exact .inr earlier
  have taken : ∀ other asked, other ≠ who → (seen other).taken.isSome →
      Taken settings other asked →
      Taken (carryOut who (.opened request) settings).2 other asked := by
    intro other asked different isTaken taken
    refine ⟨List.mem_cons_of_mem _ taken.stored, taken.le_number, taken.gone, ?_⟩
    intro opened
    rcases numbers _ opened with ⟨some, same⟩ | earlier
    · refine different (invariant.distinct other who isTaken ?_ same)
      rw [stage]
      exact some
    · exact taken.unopened earlier
  refine ⟨forall_update (if_pos rfl) ?_, ?_, ?_, ?_, ?_, ?_, ?_⟩
  · intro other different
    have fits := invariant.fits other
    have keeps := taken other
    cases otherStage : seen other with
    | outside =>
        rw [otherStage] at fits
        exact (owed other different).trans fits
    | looked id =>
        rw [otherStage] at fits
        refine ⟨fits.1, fits.2.1, ?_⟩
        rw [owed other different]
        exact fits.2.2
    | readBoth asked =>
        rw [otherStage] at fits
        refine ⟨fits.1, fits.2.1, fits.2.2.1, ?_⟩
        rw [owed other different]
        exact fits.2.2.2
    | cleared asked =>
        rw [otherStage] at fits keeps
        refine ⟨fits.1, keeps asked different rfl fits.2.1, ?_⟩
        rw [owed other different]
        exact fits.2.2
    | returning asked =>
        rw [otherStage] at fits keeps
        cases asked with
        | none => exact (owed other different).trans fits
        | some asked =>
            refine ⟨keeps asked different rfl fits.1, ?_⟩
            rw [owed other different]
            exact fits.2
  · exact fun id held => List.mem_cons_of_mem _ (invariant.whole id held)
  · intro first second firstHolds secondHolds
    exact invariant.apart first second
      (seen_of_update Stage.holds firstHolds rfl).2
      (seen_of_update Stage.holds secondHolds rfl).2
  · intro first second firstTaken secondTaken
    exact invariant.distinct first second
      (seen_of_update (fun stage => stage.taken.isSome) firstTaken rfl).2
      (seen_of_update (fun stage => stage.taken.isSome) secondTaken rfl).2
  · intro number opened
    rcases numbers number opened with ⟨some, rfl⟩ | earlier
    · cases request with
      | none => cases some
      | some asked => exact ⟨own.1.le_number, own.1.gone⟩
    · exact invariant.ahead number earlier
  · intro asked waits
    obtain ⟨held, folder, nobody⟩ := invariant.waits asked waits
    refine ⟨held, folder, fun other => ?_⟩
    by_contra still
    rw [Bool.not_eq_false] at still
    obtain ⟨-, earlier⟩ := seen_of_update Stage.inside still rfl
    rw [nobody other] at earlier
    cases earlier
  · cases request with
    | none =>
        refine invariant.once.opened nofun nofun fun asked owes => ?_
        exact absurd (own.symm.trans owes) nofun
    | some asked =>
        refine invariant.once.opened ?_ (fun _ => own.1.unopened) ?_
        · rintro _ ⟨⟩
          exact own.1.stored
        · intro other owes
          rw [own.2 other owes]

theorem Invariant.turn
    (invariant : Invariant settings seen) {call : Call} {refused : Bool}
    (allowed : monitor.allows (seen who) call)
    (alone : LeftAlone settings seen who call refused) :
    Invariant (respond who call refused settings).2
      (Function.update seen who (monitor.next (seen who) call
        (respond who call refused settings).1)) := by
  cases stage : seen who with
  | outside =>
      rw [stage] at allowed
      cases call with
      | setBoth account folder =>
          have same : Function.update seen who .outside = seen := by
            rw [← stage, Function.update_eq_self]
          cases refused with
          | true =>
              change Invariant settings (Function.update seen who .outside)
              rwa [same]
          | false =>
              change Invariant _ (Function.update seen who .outside)
              rw [same]
              exact invariant.setBoth stage (alone rfl) account folder
      | get key =>
          cases key with
          | folder => cases allowed
          | account =>
              obtain ⟨rfl, alone⟩ := alone
              exact invariant.look alone
      | set => cases allowed
      | opened => cases allowed
  | looked id =>
      rw [stage] at allowed
      cases call with
      | get key =>
          cases key with
          | account => cases allowed
          | folder =>
              cases alone
              have fits := invariant.fits who
              rw [stage] at fits
              obtain ⟨held, number, owed⟩ := fits
              exact invariant.move ⟨held, rfl, number, owed⟩
                (fun _ => by rw [stage]; rfl) (fun _ => by rw [stage]; rfl) nofun
      | _ => cases allowed
  | readBoth request =>
      rw [stage] at allowed
      cases call with
      | set key value =>
          cases key with
          | folder => cases allowed
          | account =>
              cases allowed
              cases alone
              exact invariant.clearAccount stage
      | _ => cases allowed
  | cleared request =>
      rw [stage] at allowed
      cases call with
      | set key value =>
          cases key with
          | account => cases allowed
          | folder =>
              cases allowed
              cases refused with
              | false => exact invariant.clearFolder stage
              | true =>
                  have fits := invariant.fits who
                  rw [stage] at fits
                  exact invariant.move ⟨fits.2.1, fits.2.2⟩ nofun nofun
                    fun _ => by rw [stage]; rfl
      | _ => cases allowed
  | returning request =>
      rw [stage] at allowed
      cases call with
      | opened result =>
          cases allowed
          exact invariant.opened stage
      | _ => cases allowed

end Turn

/-- The processes before their first job. -/
def start (jobs : ι → List Job) : Config signature monitor ι (Settings ι) where
  shared := .fresh
  thread who := programOf (jobs who)
  seen _ := .outside

/-- In every run whose takes are left alone, a click opens its mail once. -/
theorem opensOnce_of_leftAlone
    (jobs : ι → List Job)
    (events : List (Event ι Bool Empty))
    (alone : (start jobs).RunMeets (system ι) LeftAlone events) :
    OpensOnce ((start jobs).run (system ι) events).shared.history := by
  have obedient : (start jobs).Obedient := fun who => programOf_obeys (jobs who)
  refine (Config.run_invariant Invariant ?_ ?_ obedient ?_ events alone).once
  · intro settings seen who call refused invariant allowed alone
    exact invariant.turn allowed alone
  · intro settings seen change
    cases change
  · exact invariant_fresh

instance [Fintype ι] (settings : Settings ι) (seen : ι → Stage) (who : ι) :
    (call : Call) → (refused : Bool) →
      Decidable (LeftAlone settings seen who call refused)
  | .setBoth _ _, refused =>
      inferInstanceAs (Decidable (refused = false → ∀ other, other ≠ who →
        (seen other).inside = false))
  | .get .account, refused =>
      inferInstanceAs (Decidable (refused = false ∧ ∀ other, other ≠ who →
        (seen other).holds = false))
  | .get .folder, refused => inferInstanceAs (Decidable (refused = false))
  | .set .account _, refused => inferInstanceAs (Decidable (refused = false))
  | .set .folder _, _ => isTrue trivial
  | .opened _, _ => isTrue trivial

end Invariant

namespace Sample

local instance threeParties : NeZero 3 := ⟨by decide⟩

/-- A window, and two clicks on mail of two accounts. -/
def jobs : Fin 3 → List Job
  | 0 => [.take]
  | 1 => [.set ⟨1, by decide⟩ "INBOX"]
  | 2 => [.set ⟨2, by decide⟩ "Work"]

/-- The second click comes between the two reads of the take. -/
def clickBetween : List (Event (Fin 3) Bool Empty) :=
  [.turn 1 false, .turn 0 false, .turn 2 false, .turn 0 false, .turn 0 false,
    .turn 0 false, .turn 0 false]

/-- The window opens the first account at the second one's folder. -/
theorem requests_mixed :
    ¬OpensOnce ((start jobs).run (system (Fin 3)) clickBetween).shared.history := by
  have history : ((start jobs).run (system (Fin 3)) clickBetween).shared.history =
      [.opened 0 1 (some (1, "Work")), .stored 2 (2, "Work"), .looked 0,
        .stored 1 (1, "INBOX")] := by decide +kernel
  rw [history]
  intro once
  have stored := once.whole 0 1 (1, "Work") List.mem_cons_self
  revert stored
  decide

/-- The second click comes after the take. -/
def clickAfter : List (Event (Fin 3) Bool Empty) :=
  [.turn 1 false, .turn 0 false, .turn 0 false, .turn 0 false, .turn 0 false,
    .turn 0 false, .turn 2 false]

theorem clickAfter_opensOnce :
    (start jobs).RunMeets (system (Fin 3)) LeftAlone clickAfter ∧
      OpensOnce ((start jobs).run (system (Fin 3)) clickAfter).shared.history :=
  have alone : (start jobs).RunMeets (system (Fin 3)) LeftAlone clickAfter := by
    decide +kernel
  ⟨alone, opensOnce_of_leftAlone jobs clickAfter alone⟩

end Sample

end Relay
end Mailcore
