import Mailcore.Bridge.Worker
import Mathlib.Data.List.Nodup

/-!
# The latch of a job's kind

A job is under way from the call that accepts it until the GUI thread has
reported its result: in the channel, on the background thread, or posted back.
Its kind is latched for as long, provided the job is not lost on the way.
-/

namespace Mailcore
namespace Bridge

open Concurrent

variable {φ : Type}

/-- The ticket of a closure, where it has one. -/
def JobFn.ticket : JobFn → Option Ticket
  | .job ticket _ => some ticket
  | .push _ => none

def Running.ticket : Running → Option Ticket
  | .running job => job.ticket
  | .building ticket _ _ _ => some ticket

namespace Worker

/-- The jobs under way. -/
def tickets (worker : Worker φ) : List Ticket :=
  worker.posted.map (·.ticket) ++ (worker.running.bind Running.ticket).toList ++
    worker.channel.filterMap JobFn.ticket

/-- The jobs whose results were reported. -/
def reported (worker : Worker φ) : List Ticket :=
  worker.finished.map (·.ticket)

end Worker

/-- A kind is latched exactly while a job of it is under way, every accepted
job is under way or has reported one result, and what is under way goes on. -/
structure Sound (worker : Worker φ) : Prop where
  latched : ∀ kind, kind ∈ worker.bridge.busyKinds ↔
    ∃ ticket ∈ worker.tickets, ticket.kind = kind
  busy : worker.bridge.busy = true ↔ worker.bridge.busyKinds ≠ ∅
  oneResult : ∀ number kind, worker.accepted[number]? = some kind →
    (worker.reported ++ worker.tickets).count { number, kind } = 1
  goesOn : worker.tickets ≠ [] →
    ∃ step : Step φ, step.isService ∧ (step.move worker).isSome

/-- A step loses a job: it is accepted by a thread that has ended, or waits for
a runtime that cannot be built, or its feeds panic. -/
def Loses (step : Step φ) (worker : Worker φ) : Prop :=
  match step with
  | .spawnJob kind _ =>
      worker.thread = .ended ∧ kind ∉ worker.bridge.busyKinds
  | .buildRuntime built =>
      built = false ∧ worker.thread = .starting ∧
        ∃ job ∈ worker.channel, job.ticket ≠ none
  | .post built =>
      match built, worker.running with
      | .panicked, some (.building _ _ done _) => done.refresh ≠ none
      | _, _ => False
  | _ => False

/-- What a step does to the jobs under way, if it loses none. -/
inductive Effect (worker next : Worker φ) : Prop
  | stays
      (busyKinds : next.bridge.busyKinds = worker.bridge.busyKinds)
      (busy : next.bridge.busy = worker.bridge.busy)
      (tickets : next.tickets = worker.tickets)
      (accepted : next.accepted = worker.accepted)
      (finished : next.reported = worker.reported)
  | accepts
      (kind : String)
      (free : kind ∉ worker.bridge.busyKinds)
      (busyKinds : next.bridge.busyKinds = insert kind worker.bridge.busyKinds)
      (busy : next.bridge.busy = true)
      (tickets : next.tickets = worker.tickets ++ [⟨worker.accepted.length, kind⟩])
      (accepted : next.accepted = worker.accepted ++ [kind])
      (finished : next.reported = worker.reported)
  | reports
      (ticket : Ticket)
      (busyKinds : next.bridge.busyKinds = worker.bridge.busyKinds.erase ticket.kind)
      (busy : next.bridge.busy = !decide (next.bridge.busyKinds = ∅))
      (tickets : worker.tickets = ticket :: next.tickets)
      (accepted : next.accepted = worker.accepted)
      (finished : next.reported = worker.reported ++ [ticket])

/-- Where the background thread is, its callers and its channel fit. -/
structure Placed (worker : Worker φ) : Prop where
  ready : worker.net = some .ready ↔ worker.thread ≠ .absent
  empty : worker.thread = .absent ∨ worker.thread = .ended → worker.channel = []

section
variable {worker : Worker φ}

/-- Starting the thread leaves everything else. -/
theorem startNet_eq (worker : Worker φ) (spawned : Except String Unit) :
    (worker.startNet spawned).2 =
      { worker with
        net := (worker.startNet spawned).2.net
        thread := (worker.startNet spawned).2.thread } := by
  unfold Worker.startNet
  split
  · rfl
  · split <;> rfl

theorem startNet_net (worker : Worker φ) (spawned : Except String Unit) :
    (worker.startNet spawned).2.net = some (worker.startNet spawned).1 := by
  unfold Worker.startNet
  split
  next found => exact found
  · split <;> rfl

theorem startNet_ended
    {spawned : Except String Unit}
    (ended : (worker.startNet spawned).2.thread = .ended) :
    worker.thread = .ended := by
  unfold Worker.startNet at ended
  split at ended
  · exact ended
  · split at ended
    · cases ended
    · exact ended

theorem Placed.startNet
    (placed : Placed worker)
    (spawned : Except String Unit) :
    Placed (worker.startNet spawned).2 := by
  unfold Worker.startNet
  split
  · exact placed
  next unknown =>
      split
      · refine ⟨⟨fun _ => nofun, fun _ => rfl⟩, ?_⟩
        rintro (gone | gone) <;> cases gone
      · refine ⟨⟨nofun, fun started => ?_⟩, placed.empty⟩
        have ready := placed.ready.mpr started
        rw [unknown] at ready
        cases ready

theorem Placed.send
    (placed : Placed worker)
    (ready : worker.net = some .ready)
    (job : JobFn) :
    Placed (worker.send job) := by
  unfold Worker.send
  split
  · exact placed
  next serves =>
      refine ⟨placed.ready, ?_⟩
      rintro (gone | gone)
      · exact absurd gone (placed.ready.mp ready)
      · exact absurd gone serves

/-- Steps that keep the thread and fill no empty channel. -/
theorem Placed.congr
    (placed : Placed worker)
    {next : Worker φ}
    (net : next.net = worker.net)
    (thread : next.thread = worker.thread)
    (channel : worker.channel = [] → next.channel = []) :
    Placed next := by
  refine ⟨?_, fun gone => channel (placed.empty (thread ▸ gone))⟩
  rw [net, thread]
  exact placed.ready

theorem entryGate_ok
    {busyKinds : Finset String} {kind : String} {net : Net}
    (passed : entryGate busyKinds kind net = .ok ()) :
    kind ∉ busyKinds ∧ net = .ready := by
  unfold entryGate at passed
  split at passed
  · cases passed
  next free =>
      cases net with
      | ready => exact ⟨free, rfl⟩
      | failed reason => cases passed

/-- An accepted job is sent with its kind latched. -/
theorem spawnJob_snd (worker : Worker φ) (kind : String)
    (spawned : Except String Unit) :
    (worker.spawnJob kind spawned).2 = (worker.startNet spawned).2 ∨
      kind ∉ worker.bridge.busyKinds ∧
        (worker.startNet spawned).2.net = some .ready ∧
          (worker.spawnJob kind spawned).2 =
            ((worker.startNet spawned).2.accept kind).send
              (.job ⟨worker.accepted.length, kind⟩ worker.bridge.shown) := by
  have started := startNet_eq worker spawned
  have net := startNet_net worker spawned
  unfold Worker.spawnJob
  cases result : worker.startNet spawned with
  | mk known next =>
      rw [result] at started net
      dsimp only at started net ⊢
      cases gate : entryGate next.bridge.busyKinds kind known with
      | error message => exact Or.inl rfl
      | ok passed =>
          obtain ⟨free, rfl⟩ := entryGate_ok gate
          rw [started] at free
          refine Or.inr ⟨free, net, ?_⟩
          rw [started]

theorem placed_move
    (placed : Placed worker)
    {step : Step φ} {next : Worker φ}
    (moved : step.move worker = some next) :
    Placed next := by
  cases step with
  | spawnJob kind spawned =>
      cases moved
      have started := placed.startNet spawned
      rcases spawnJob_snd worker kind spawned with refused | ⟨-, ready, sent⟩
      · rw [refused]
        exact started
      · rw [sent]
        exact Placed.send (@Placed.congr _ _ started ((worker.startNet spawned).2.accept kind)
          rfl rfl id) ready _
  | spawnFlagPush accountId spawned =>
      cases moved
      have started := placed.startNet spawned
      have named := startNet_net worker spawned
      unfold Worker.spawnFlagPush
      split
      next refused =>
          rw [refused] at started
          exact started
      next ready =>
          rw [ready] at started named
          exact started.send named _
  | «show» feeds =>
      cases moved
      exact placed.congr rfl rfl id
  | buildRuntime built =>
      simp only [Step.move, Option.ite_none_right_eq_some, Option.some.injEq] at moved
      obtain ⟨starting, rfl⟩ := moved
      have ready : worker.net = some .ready :=
        placed.ready.mpr (by rw [starting]; exact NetThread.noConfusion)
      cases built with
      | true =>
          refine ⟨⟨fun _ => nofun, fun _ => ready⟩, ?_⟩
          rintro (gone | gone) <;> cases gone
      | false => exact ⟨⟨fun _ => nofun, fun _ => ready⟩, fun _ => rfl⟩
  | receive =>
      simp only [Step.move] at moved
      split at moved
      next job channel serving idle waiting =>
          cases moved
          refine placed.congr rfl rfl fun none => ?_
          rw [waiting] at none
          cases none
      · cases moved
  | finish result =>
      simp only [Step.move] at moved
      split at moved
      · cases moved
        exact placed.congr rfl rfl id
      · cases moved
        exact placed.congr rfl rfl id
      · cases moved
  | post built =>
      simp only [Step.move] at moved
      split at moved
      · cases moved
        unfold Worker.post
        dsimp only
        split <;> exact placed.congr rfl rfl id
      · cases moved
  | deliver fresh =>
      simp only [Step.move] at moved
      split at moved
      · cases moved
        exact placed.congr rfl rfl id
      · cases moved

/-- What a thread that still runs is sent waits in the channel. -/
theorem tickets_send
    (runs : worker.thread ≠ .ended)
    (job : JobFn) :
    (worker.send job).tickets = worker.tickets ++ job.ticket.toList := by
  rw [Worker.send, if_neg runs]
  simp only [Worker.tickets, List.filterMap_append, List.append_assoc]
  cases job <;> rfl

theorem effect_spawnJob
    {kind : String} {spawned : Except String Unit}
    (kept : ¬Loses (.spawnJob kind spawned) worker) :
    Effect worker (worker.spawnJob kind spawned).2 := by
  have started := startNet_eq worker spawned
  rcases spawnJob_snd worker kind spawned with refused | ⟨free, -, sent⟩
  · rw [refused, started]
    exact .stays rfl rfl rfl rfl rfl
  · have runs : ((worker.startNet spawned).2.accept kind).thread ≠ .ended :=
      fun ended => kept ⟨startNet_ended ended, free⟩
    have tickets := tickets_send runs
      (.job ⟨worker.accepted.length, kind⟩ worker.bridge.shown)
    rw [sent]
    have unsent : ∀ job, (((worker.startNet spawned).2.accept kind).send job) =
        { (worker.startNet spawned).2.accept kind with
          channel := (worker.startNet spawned).2.channel ++ [job] } :=
      fun job => if_neg runs
    refine .accepts kind free ?_ ?_ ?_ ?_ ?_
    all_goals first | rw [tickets] | rw [unsent]
    all_goals
      rw [started]
      rfl

theorem effect_spawnFlagPush (accountId : Int) (spawned : Except String Unit) :
    Effect worker (worker.spawnFlagPush accountId spawned) := by
  have started := startNet_eq worker spawned
  unfold Worker.spawnFlagPush
  split
  next result =>
      rw [result] at started
      dsimp only at started
      rw [started]
      exact .stays rfl rfl rfl rfl rfl
  next result =>
      rw [result] at started
      dsimp only at started
      rw [started]
      unfold Worker.send
      split
      · exact .stays rfl rfl rfl rfl rfl
      · refine .stays rfl rfl ?_ rfl rfl
        simp [Worker.tickets, JobFn.ticket]

theorem effect_complete
    {completion : Completion φ} {posted : List (Completion φ)}
    (waiting : worker.posted = completion :: posted)
    (fresh : Option φ) :
    Effect worker ({ worker with posted }.complete completion fresh) := by
  refine .reports completion.ticket ?_ rfl ?_ rfl ?_
  · exact congrArg (Finset.erase · completion.ticket.kind)
      (BridgeRust.refresh_busyKinds worker.bridge completion fresh)
  · unfold Worker.tickets
    rw [waiting]
    rfl
  · simp [Worker.reported, Worker.complete]

/-- Every step that loses no job leaves the jobs under way, accepts one or
reports one. -/
theorem effect_move
    {step : Step φ} {next : Worker φ}
    (kept : ¬Loses step worker)
    (moved : step.move worker = some next) :
    Effect worker next := by
  cases step with
  | spawnJob kind spawned =>
      cases moved
      exact effect_spawnJob kept
  | spawnFlagPush accountId spawned =>
      cases moved
      exact effect_spawnFlagPush accountId spawned
  | «show» feeds =>
      cases moved
      exact .stays rfl rfl rfl rfl rfl
  | buildRuntime built =>
      simp only [Step.move, Option.ite_none_right_eq_some, Option.some.injEq] at moved
      obtain ⟨starting, rfl⟩ := moved
      cases built with
      | true => exact .stays rfl rfl rfl rfl rfl
      | false =>
          refine .stays rfl rfl ?_ rfl rfl
          have pushes : worker.channel.filterMap JobFn.ticket = [] := by
            rw [List.filterMap_eq_nil_iff]
            intro job member
            by_contra ticket
            exact kept ⟨rfl, starting, job, member, ticket⟩
          simp only [Worker.tickets, pushes]
          rfl
  | receive =>
      simp only [Step.move] at moved
      split at moved
      next job channel serving idle waiting =>
          cases moved
          refine .stays rfl rfl ?_ rfl rfl
          simp only [Worker.tickets, idle, waiting]
          cases job <;> simp [Running.ticket, JobFn.ticket, List.filterMap_cons]
      · cases moved
  | finish result =>
      simp only [Step.move] at moved
      split at moved
      next ticket started running =>
          cases moved
          refine .stays rfl rfl ?_ rfl rfl
          simp only [Worker.tickets, running]
          rfl
      next accountId running =>
          cases moved
          refine .stays rfl rfl ?_ rfl rfl
          simp only [Worker.tickets, running]
          rfl
      · cases moved
  | post built =>
      simp only [Step.move] at moved
      split at moved
      next ticket started done epoch running =>
          cases moved
          have posting : ∀ prebuilt : Option (Nat × Feeds φ), Effect worker
              { worker with
                running := none
                posted := worker.posted ++ [{ ticket, started, done, prebuilt }] } := by
            intro prebuilt
            refine .stays rfl rfl ?_ rfl rfl
            simp [Worker.tickets, running, Running.ticket]
          unfold Worker.post
          dsimp only
          split
          · exact posting _
          · exact posting _
          · exact posting _
          next refresh asked =>
              refine absurd ?_ kept
              simp [Loses, running, asked]
      · cases moved
  | deliver fresh =>
      simp only [Step.move] at moved
      split at moved
      next completion posted waiting =>
          cases moved
          exact effect_complete waiting fresh
      · cases moved

/-- The jobs under way, the latches and the results fit together. -/
structure Inv (worker : Worker φ) : Prop where
  placed : Placed worker
  latched : ∀ kind, kind ∈ worker.bridge.busyKinds ↔
    kind ∈ worker.tickets.map (·.kind)
  single : (worker.tickets.map (·.kind)).Nodup
  busy : worker.bridge.busy = !decide (worker.bridge.busyKinds = ∅)
  oneResult : ∀ number kind, worker.accepted[number]? = some kind →
    (worker.reported ++ worker.tickets).count { number, kind } = 1
  numbered : ∀ ticket ∈ worker.reported ++ worker.tickets,
    worker.accepted[ticket.number]? = some ticket.kind

theorem inv_initial : Inv ({} : Worker φ) where
  placed := ⟨⟨nofun, fun started => absurd rfl started⟩, fun _ => rfl⟩
  latched kind := by simp [Worker.tickets]
  single := List.nodup_nil
  busy := rfl
  oneResult number kind accepted := by cases accepted
  numbered ticket member := absurd member List.not_mem_nil

theorem Inv.effect
    (inv : Inv worker)
    {next : Worker φ}
    (placed : Placed next)
    (effect : Effect worker next) :
    Inv next := by
  cases effect with
  | stays busyKinds busy tickets accepted finished =>
      refine ⟨placed, ?_, ?_, ?_, ?_, ?_⟩
      · rw [busyKinds, tickets]
        exact inv.latched
      · rw [tickets]
        exact inv.single
      · rw [busy, busyKinds]
        exact inv.busy
      · rw [accepted, finished, tickets]
        exact inv.oneResult
      · rw [accepted, finished, tickets]
        exact inv.numbered
  | accepts kind free busyKinds busy tickets accepted finished =>
      have fresh : (⟨worker.accepted.length, kind⟩ : Ticket) ∉
          worker.reported ++ worker.tickets := by
        intro member
        have named := inv.numbered _ member
        rw [List.getElem?_eq_none (le_refl _)] at named
        cases named
      refine ⟨placed, ?_, ?_, ?_, ?_, ?_⟩
      · intro other
        rw [busyKinds, tickets, Finset.mem_insert, inv.latched, List.map_append,
          List.mem_append, List.map_singleton, List.mem_singleton, or_comm]
      · rw [tickets, List.map_append, List.nodup_append]
        refine ⟨inv.single, List.nodup_singleton _, ?_⟩
        intro one member other otherMember same
        rw [List.map_singleton, List.mem_singleton] at otherMember
        rw [same, otherMember] at member
        exact free ((inv.latched kind).mpr member)
      · rw [busy, busyKinds, decide_eq_false (Finset.insert_ne_empty _ _)]
        rfl
      · intro number other named
        rw [finished, tickets, ← List.append_assoc, List.count_append,
          List.count_singleton]
        rw [accepted, List.getElem?_append] at named
        split at named
        next earlier =>
            have different : ((⟨worker.accepted.length, kind⟩ : Ticket) ==
                ⟨number, other⟩) = false := by
              rw [beq_eq_false_iff_ne]
              intro same
              have := congrArg Ticket.number same
              dsimp only at this
              omega
            rw [different, inv.oneResult number other named]
            rfl
        next last =>
            rw [List.getElem?_singleton] at named
            split at named
            next first =>
                cases named
                have number : number = worker.accepted.length := by omega
                subst number
                rw [List.count_eq_zero.mpr fresh, beq_self_eq_true]
                rfl
            · cases named
      · intro ticket member
        rw [finished, tickets, ← List.append_assoc, List.mem_append,
          List.mem_singleton] at member
        rw [accepted]
        rcases member with earlier | rfl
        · have named := inv.numbered ticket earlier
          rw [List.getElem?_append_left (List.getElem?_eq_some_iff.mp named).1]
          exact named
        · rw [List.getElem?_append_right (le_refl _), Nat.sub_self]
          rfl
  | reports ticket busyKinds busy tickets accepted finished =>
      have single := inv.single
      rw [tickets, List.map_cons, List.nodup_cons] at single
      have same : (next.reported ++ next.tickets).Perm
          (worker.reported ++ worker.tickets) := by
        rw [finished, tickets, List.append_assoc]
        exact List.Perm.refl _
      refine ⟨placed, ?_, single.2, busy, ?_, ?_⟩
      · intro kind
        rw [busyKinds, Finset.mem_erase, inv.latched, tickets, List.map_cons,
          List.mem_cons]
        constructor
        · rintro ⟨different, here | later⟩
          · exact absurd here different
          · exact later
        · intro later
          refine ⟨?_, Or.inr later⟩
          rintro rfl
          exact single.1 later
      · intro number kind named
        rw [same.count_eq]
        exact inv.oneResult number kind (accepted ▸ named)
      · intro other member
        rw [accepted]
        exact inv.numbered other (same.mem_iff.mp member)

theorem Inv.move
    (inv : Inv worker)
    {step : Step φ} {next : Worker φ}
    (kept : ¬Loses step worker)
    (moved : step.move worker = some next) :
    Inv next :=
  inv.effect (placed_move inv.placed moved) (effect_move kept moved)

/-- As long as anything is under way, the background thread or the GUI thread
has its next step. -/
theorem exists_service
    (placed : Placed worker)
    (underWay : worker.tickets ≠ []) :
    ∃ step : Step φ, step.isService ∧ (step.move worker).isSome := by
  cases posted : worker.posted with
  | cons completion later =>
      refine ⟨.deliver none, rfl, ?_⟩
      simp [Step.move, posted]
  | nil =>
      cases running : worker.running with
      | some stage =>
          cases stage with
          | running job =>
              refine ⟨.finish (.error ""), rfl, ?_⟩
              cases job <;> simp [Step.move, running]
          | building ticket started done epoch =>
              refine ⟨.post .unavailable, rfl, ?_⟩
              simp [Step.move, running]
      | none =>
          cases channel : worker.channel with
          | nil =>
              refine absurd ?_ underWay
              simp [Worker.tickets, posted, running, channel]
          | cons job later =>
              cases thread : worker.thread with
              | absent =>
                  have none := placed.empty (Or.inl thread)
                  rw [channel] at none
                  cases none
              | ended =>
                  have none := placed.empty (Or.inr thread)
                  rw [channel] at none
                  cases none
              | starting =>
                  refine ⟨.buildRuntime true, rfl, ?_⟩
                  simp [Step.move, thread]
              | serving =>
                  refine ⟨.receive, rfl, ?_⟩
                  simp [Step.move, thread, running, channel]

theorem Inv.sound (inv : Inv worker) : Sound worker where
  latched kind := by
    rw [inv.latched, List.mem_map]
  busy := by
    rw [inv.busy]
    simp
  oneResult := inv.oneResult
  goesOn := exists_service inv.placed

/-- A job that was under way and is gone without a result. -/
theorem not_sound_of_gone
    {next : Worker φ}
    {ticket : Ticket}
    (accepted : next.accepted[ticket.number]? = some ticket.kind)
    (gone : ticket ∉ next.reported ++ next.tickets) :
    ¬Sound next := by
  intro sound
  have one := sound.oneResult ticket.number ticket.kind accepted
  rw [List.count_eq_zero.mpr gone] at one
  cases one

/-- A job under way is under way once and has reported nothing. -/
theorem Inv.underWay
    (inv : Inv worker)
    {ticket : Ticket}
    (member : ticket ∈ worker.tickets) :
    ticket ∉ worker.reported ∧ worker.tickets.count ticket = 1 := by
  have one : (worker.reported ++ worker.tickets).count ticket = 1 :=
    inv.oneResult ticket.number ticket.kind
      (inv.numbered ticket (List.mem_append_right _ member))
  have some := List.count_pos_iff.mpr member
  rw [List.count_append] at one
  have none : worker.reported.count ticket = 0 := by omega
  exact ⟨List.count_eq_zero.mp none, by omega⟩

/-- A lost job has no result and never gets one. -/
theorem not_sound_of_loses
    (inv : Inv worker)
    {step : Step φ}
    (loses : Loses step worker) :
    ¬Sound (Guarded.step Step.move worker step) := by
  cases step with
  | spawnJob kind spawned =>
      obtain ⟨ended, free⟩ := loses
      have ready : worker.net = some .ready :=
        inv.placed.ready.mpr (by rw [ended]; exact nofun)
      have accepted : (worker.spawnJob kind spawned).2 = worker.accept kind := by
        unfold Worker.spawnJob Worker.startNet
        rw [ready]
        dsimp only
        rw [entryGate, if_neg free]
        exact if_pos ended
      have moved : (Step.spawnJob kind spawned : Step φ).move worker =
          some (worker.accept kind) := congrArg some accepted
      rw [Guarded.step_of_some moved]
      refine @not_sound_of_gone _ _ ⟨worker.accepted.length, kind⟩ ?_ ?_
      · exact List.getElem?_concat_length
      · intro member
        have named := inv.numbered _ member
        rw [List.getElem?_eq_none (le_refl _)] at named
        cases named
  | buildRuntime built =>
      obtain ⟨rfl, starting, job, member, isJob⟩ := loses
      obtain ⟨ticket, ticketed⟩ := Option.ne_none_iff_exists'.mp isJob
      have waiting : ticket ∈ worker.channel.filterMap JobFn.ticket :=
        List.mem_filterMap.mpr ⟨job, member, ticketed⟩
      have underWay : ticket ∈ worker.tickets := List.mem_append_right _ waiting
      obtain ⟨silent, once⟩ := inv.underWay underWay
      have moved : (Step.buildRuntime false : Step φ).move worker =
          some (worker.buildRuntime false) := if_pos starting
      rw [Guarded.step_of_some moved]
      refine @not_sound_of_gone _ _ ticket
        (inv.numbered ticket (List.mem_append_right _ underWay)) ?_
      rw [List.mem_append, not_or]
      refine ⟨silent, fun still => ?_⟩
      have elsewhere : ticket ∈ worker.posted.map (·.ticket) ++
          (worker.running.bind Running.ticket).toList ++ [] := still
      rw [List.append_nil] at elsewhere
      rw [Worker.tickets, List.count_append] at once
      have one := List.count_pos_iff.mpr elsewhere
      have other := List.count_pos_iff.mpr waiting
      omega
  | post built =>
      cases built with
      | feeds content => exact loses.elim
      | unavailable => exact loses.elim
      | panicked =>
          unfold Loses at loses
          dsimp only at loses
          split at loses
          next ticket started done epoch _ running =>
              obtain ⟨refresh, asked⟩ := Option.ne_none_iff_exists'.mp loses
              have underWay : ticket ∈ worker.tickets := by
                simp [Worker.tickets, running, Running.ticket]
              obtain ⟨silent, once⟩ := inv.underWay underWay
              have moved : (Step.post .panicked : Step φ).move worker =
                  some { worker with running := none } := by
                simp [Step.move, running, Worker.post, asked]
              rw [Guarded.step_of_some moved]
              refine @not_sound_of_gone _ _ ticket
                (inv.numbered ticket (List.mem_append_right _ underWay)) ?_
              rw [List.mem_append, not_or]
              refine ⟨silent, fun still => ?_⟩
              have elsewhere := List.count_pos_iff.mpr still
              simp only [Worker.tickets, running, Option.bind_some, Running.ticket,
                Option.toList_some, List.count_append, List.count_singleton_self,
                Option.bind_none, Option.toList_none, List.count_nil] at once elsewhere
              omega
          · exact loses.elim
  | spawnFlagPush accountId spawned => exact loses.elim
  | «show» feeds => exact loses.elim
  | receive => exact loses.elim
  | finish result => exact loses.elim
  | deliver fresh => exact loses.elim

end

/-- Throughout a run a kind is latched exactly while a job of it is under way,
and every job reports once, if and only if no step of the run loses a job. -/
theorem latched_while_underWay_iff (steps : List (Step φ)) :
    (∀ before, before <+: steps → Sound (Guarded.run Step.move {} before)) ↔
      Guarded.RunMeets Step.move (fun step worker => ¬Loses step worker) {} steps :=
  Guarded.run_holds_iff Inv Sound
    (fun _ _ _ inv kept moved => inv.move kept moved)
    (fun _ inv => inv.sound)
    (fun _ _ inv lost => not_sound_of_loses inv (not_not.mp lost))
    inv_initial steps

/-- The steps of the background thread and of the GUI thread that what is under
way still takes. -/
def Worker.remaining (worker : Worker φ) : Nat :=
  4 * worker.channel.length + worker.posted.length +
    (match worker.running with
    | some (.running _) => 3
    | some (.building ..) => 2
    | none => 0) +
    if worker.thread = .starting then 1 else 0

theorem remaining_lt
    {worker next : Worker φ} {step : Step φ}
    (service : step.isService)
    (moved : step.move worker = some next) :
    next.remaining + 1 ≤ worker.remaining := by
  cases step with
  | spawnJob kind spawned => cases service
  | spawnFlagPush accountId spawned => cases service
  | «show» feeds => cases service
  | buildRuntime built =>
      simp only [Step.move, Option.ite_none_right_eq_some, Option.some.injEq] at moved
      obtain ⟨starting, rfl⟩ := moved
      cases built <;> simp [Worker.remaining, Worker.buildRuntime, starting]
  | receive =>
      simp only [Step.move] at moved
      split at moved
      next job channel serving idle waiting =>
          cases moved
          simp [Worker.remaining, serving, idle, waiting]
          omega
      · cases moved
  | finish result =>
      simp only [Step.move] at moved
      split at moved
      next ticket started running =>
          cases moved
          unfold Worker.remaining Worker.finish
          rw [running]
          dsimp only
          omega
      next accountId running =>
          cases moved
          unfold Worker.remaining
          rw [running]
          dsimp only
          omega
      · cases moved
  | post built =>
      simp only [Step.move] at moved
      split at moved
      next ticket started done epoch running =>
          cases moved
          unfold Worker.post
          dsimp only
          split <;> simp [Worker.remaining, running] <;> omega
      · cases moved
  | deliver fresh =>
      simp only [Step.move] at moved
      split at moved
      next completion posted waiting =>
          cases moved
          unfold Worker.remaining Worker.complete
          rw [waiting, List.length_cons]
          dsimp only
          omega
      · cases moved

/-- Once nothing new is asked for, the two threads take no more steps than
remain, whatever they are. -/
theorem service_le_remaining
    (worker : Worker φ)
    (steps : List (Step φ))
    (service : ∀ step ∈ steps, step.isService) :
    Guarded.turns Step.move (fun step _ => step.isService) worker steps ≤
      worker.remaining := by
  have meets : Guarded.RunMeets Step.move
      (fun (step : Step φ) _ => step.isService = true) worker steps := by
    rw [Guarded.runMeets_iff]
    rintro before step rest rfl
    exact service step (List.mem_append_right _ List.mem_cons_self)
  have bound := Guarded.turns_add_le (fun _ => True) Worker.remaining
    (fun step _ => step.isService) (fun _ _ _ _ _ _ => trivial)
    (fun _ step _ _ isService moved => by
      rw [if_pos isService]
      exact remaining_lt isService moved)
    trivial steps meets
  omega

namespace Sample

/-- The thread starts, its runtime cannot be built, and a job is asked for. -/
def brokenRuntime : List (Step Unit) :=
  [.spawnFlagPush 1 (.ok ()), .buildRuntime false, .spawnJob "Sync" (.ok ())]

/-- The job is accepted and its kind latched, and nothing will release it. -/
theorem sync_stays_busy :
    ¬∀ before, before <+: brokenRuntime →
      Sound (Guarded.run Step.move {} before) := by
  intro sound
  have last := (sound brokenRuntime List.prefix_rfl).latched "Sync"
  have latched : "Sync" ∈
      (Guarded.run Step.move {} brokenRuntime).bridge.busyKinds := by decide
  obtain ⟨ticket, underWay, -⟩ := last.mp latched
  exact absurd underWay List.not_mem_nil

end Sample

end Bridge
end Mailcore
