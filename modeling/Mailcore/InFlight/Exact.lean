import Mailcore.InFlight.Worker

/-!
# Runs of the in-flight table

As long as the network thread and its runtime start, the table is exactly the
jobs that are accepted and not over, between any two steps, and the host ends
with it whatever order its snapshots arrive in.
-/

namespace Mailcore
namespace InFlight

open Concurrent (Guarded.run Guarded.RunMeets Guarded.run_invariant)

/-- A snapshot is handed to the host or held by the one who took it. -/
def State.seen (s : State) (busy : BusySnapshot) : Prop :=
  busy ∈ s.published ∨ s.held busy

/-- What every step keeps. -/
structure Inv (s : State) : Prop where
  jobs : s.pending = (s.table.jobs : Multiset Job)
  keys : (s.table.jobs.map Job.key).Nodup
  known : ∀ busy, s.seen busy → busy.generation ≤ s.table.generation ∧
    (busy.generation = s.table.generation → busy = snapshotOf s.table)
  current : s.table = .empty ∨ s.seen (snapshotOf s.table) ∨ ∃ job, s.net = .cleared job
  alive : s.net ≠ .dead
  undelivered : ∀ key, .undelivered key ∉ s.calls
  unstarted : s.sender = false → s.net = .absent

theorem inv_initial : Inv .initial where
  jobs := rfl
  keys := List.nodup_nil
  known := by
    rintro busy (published | ⟨call, member, -⟩ | none_)
    · cases published
    · exact absurd member (Multiset.notMem_zero call)
    · cases none_
  current := .inl rfl
  alive := by
    intro dead
    cases dead
  undelivered := fun key => Multiset.notMem_zero _
  unstarted := fun _ => rfl

section Steps

variable {s next : State}

/-- A step that leaves the table: who has a job or a snapshot may change. -/
theorem Inv.of_same (inv : Inv s) (table : next.table = s.table)
    (pending : next.pending = s.pending)
    (known : ∀ busy, next.seen busy → s.seen busy ∨ busy = snapshotOf s.table)
    (kept : s.seen (snapshotOf s.table) → next.seen (snapshotOf s.table))
    (cleared : ∀ job, s.net = .cleared job →
      next.seen (snapshotOf s.table) ∨ ∃ job, next.net = .cleared job)
    (alive : next.net ≠ .dead) (undelivered : ∀ key, .undelivered key ∉ next.calls)
    (unstarted : next.sender = false → next.net = .absent) : Inv next where
  jobs := by rw [pending, table, inv.jobs]
  keys := by rw [table]; exact inv.keys
  known := by
    intro busy seen
    rw [table]
    rcases known busy seen with earlier | rfl
    · exact inv.known busy earlier
    · exact ⟨le_rfl, fun _ => rfl⟩
  current := by
    rw [table]
    rcases inv.current with empty | seen | ⟨job, isCleared⟩
    · exact .inl empty
    · exact .inr (.inl (kept seen))
    · exact .inr (cleared job isCleared)
  alive := alive
  undelivered := undelivered
  unstarted := unstarted

/-- A step that changes the table: the snapshots seen before are older. -/
theorem Inv.of_changed (inv : Inv s) (generation : next.table.generation = s.table.generation + 1)
    (jobs : next.pending = (next.table.jobs : Multiset Job))
    (keys : (next.table.jobs.map Job.key).Nodup)
    (known : ∀ busy, next.seen busy → s.seen busy ∨ busy = snapshotOf next.table)
    (current : next.seen (snapshotOf next.table) ∨ ∃ job, next.net = .cleared job)
    (alive : next.net ≠ .dead) (undelivered : ∀ key, .undelivered key ∉ next.calls)
    (unstarted : next.sender = false → next.net = .absent) : Inv next where
  jobs := jobs
  keys := keys
  known := by
    intro busy seen
    rcases known busy seen with earlier | rfl
    · have older := (inv.known busy earlier).1
      exact ⟨by omega, fun same => by omega⟩
    · exact ⟨le_rfl, fun _ => rfl⟩
  current := .inr current
  alive := alive
  undelivered := undelivered
  unstarted := unstarted

/-- A call goes on with the job and the snapshot it has. -/
theorem Inv.goes_on {call later : Call} {rest : Multiset Call} (inv : Inv s)
    (calls : s.calls = call ::ₘ rest) (job : later.job = call.job) (busy : later.busy = call.busy)
    (delivered : ∀ key, later ≠ .undelivered key) (sender : Bool) (net : NetThread)
    (netJob : net.job = s.net.job) (netBusy : net.busy = s.net.busy)
    (cleared : ∀ job, s.net = .cleared job → net = .cleared job)
    (alive : net ≠ .dead) (unstarted : sender = false → net = .absent) :
    Inv { s with sender, net, calls := later ::ₘ rest } := by
  have held : ∀ busy, State.held { s with sender, net, calls := later ::ₘ rest } busy ↔
      s.held busy := by
    intro other
    rw [State.held, State.held, calls, netBusy]
    simp only [Multiset.mem_cons, exists_eq_or_imp, busy]
  have seen : ∀ busy, State.seen { s with sender, net, calls := later ::ₘ rest } busy ↔
      s.seen busy := fun busy => or_congr Iff.rfl (held busy)
  refine inv.of_same rfl ?_ (fun busy here => .inl ((seen busy).mp here))
    (fun here => (seen _).mpr here) (fun job here => .inr ⟨job, cleared job here⟩) alive ?_ unstarted
  · rw [State.pending, State.pending, calls, netJob]
    simp only [Multiset.filterMap_cons, job]
  · intro key member
    rcases Multiset.mem_cons.mp member with same | inside
    · exact delivered key same.symm
    · exact inv.undelivered key (calls ▸ Multiset.mem_cons_of_mem inside)

/-- A job enters the table with its call. -/
theorem Inv.spawn (inv : Inv s) {job : Job} (free : ¬s.table.containsKey job.key = true) :
    Inv { s with
      table := s.table.insert job
      calls := .inserted job (snapshotOf (s.table.insert job)) ::ₘ s.calls } := by
  refine inv.of_changed rfl ?_ ?_ ?_ ?_ inv.alive ?_ inv.unstarted
  · have before := inv.jobs
    rw [State.pending] at before ⊢
    rw [Multiset.filterMap_cons_some Call.job _ s.calls rfl, Multiset.cons_add, before]
    rfl
  · rw [Inflight.insert, List.map_cons, List.nodup_cons]
    rw [containsKey_iff] at free
    exact ⟨free, inv.keys⟩
  · rintro busy (published | ⟨call, member, held⟩ | held)
    · exact .inl (.inl published)
    · rcases Multiset.mem_cons.mp member with rfl | inside
      · exact .inr (Option.some.inj held).symm
      · exact .inl (.inr (.inl ⟨call, inside, held⟩))
    · exact .inl (.inr (.inr held))
  · exact .inl (.inr (.inl ⟨_, Multiset.mem_cons_self _ _, rfl⟩))
  · intro key member
    rcases Multiset.mem_cons.mp member with same | inside
    · cases same
    · exact inv.undelivered key inside

theorem Inv.pushFlags (inv : Inv s) : Inv { s with calls := .flagPush ::ₘ s.calls } := by
  have seen : ∀ busy, State.seen { s with calls := .flagPush ::ₘ s.calls } busy ↔ s.seen busy := by
    intro busy
    simp only [State.seen, State.held, Multiset.mem_cons, exists_eq_or_imp, Call.busy,
      reduceCtorEq, false_or]
  have pending : State.pending { s with calls := .flagPush ::ₘ s.calls } = s.pending := by
    rw [State.pending, State.pending, Multiset.filterMap_cons_none _ s.calls rfl]
  refine inv.of_same rfl pending (fun busy here => .inl ((seen busy).mp here))
    (fun here => (seen _).mpr here) (fun job here => .inr ⟨job, here⟩) inv.alive ?_ inv.unstarted
  intro key member
  rcases Multiset.mem_cons.mp member with same | inside
  · cases same
  · exact inv.undelivered key inside

/-- A closure is sent, and the call goes on to tell the host, or is over. -/
theorem Inv.sends {call : Call} {closure : JobFn} {rest : Multiset Call} (inv : Inv s)
    (calls : s.calls = call ::ₘ rest) (closes : call.closure = some closure) :
    Inv { s with queue := s.queue ++ [closure], calls := call.onDelivered + rest } := by
  have seen : ∀ busy, State.seen
      { s with queue := s.queue ++ [closure], calls := call.onDelivered + rest } busy ↔
        s.seen busy := by
    intro busy
    refine or_congr Iff.rfl (or_congr ?_ Iff.rfl)
    rw [calls]
    cases call with
    | ready job queued =>
        simp [Call.onDelivered, Call.busy, or_and_right, exists_or]
    | flagReady => simp [Call.onDelivered, Call.busy, or_and_right, exists_or]
    | _ => cases closes
  refine inv.of_same rfl ?_ (fun busy here => .inl ((seen busy).mp here))
    (fun here => (seen _).mpr here) (fun job here => .inr ⟨job, here⟩) inv.alive ?_ inv.unstarted
  · rw [State.pending, State.pending, calls]
    cases call with
    | ready job queued =>
        obtain rfl := Option.some.inj closes
        rw [Call.onDelivered, Multiset.singleton_add, Multiset.filterMap_cons_none _ rest rfl,
          Multiset.filterMap_cons_some Call.job _ rest rfl, List.filterMap_append,
          Multiset.cons_add, ← Multiset.add_cons, Multiset.cons_coe]
        refine congrArg _ (Multiset.coe_eq_coe.mpr ?_)
        rw [List.append_assoc]
        exact List.perm_middle
    | flagReady =>
        obtain rfl := Option.some.inj closes
        have over_ : Call.flagReady.onDelivered = 0 := rfl
        have apart : [JobFn.flagPush].filterMap JobFn.job? = [] := rfl
        rw [over_, Multiset.zero_add, Multiset.filterMap_cons_none _ rest rfl,
          List.filterMap_append, apart, List.append_nil]
    | _ => cases closes
  · intro key member
    rcases Multiset.mem_add.mp member with here | inside
    · cases call with
      | ready job queued => cases Multiset.mem_singleton.mp here
      | _ => exact absurd here (Multiset.notMem_zero _)
    · exact inv.undelivered key (calls ▸ Multiset.mem_cons_of_mem inside)

/-- A call has told the host. -/
theorem Inv.forwards {job : Job} {queued : BusySnapshot} {rest : Multiset Call} (inv : Inv s)
    (calls : s.calls = .delivered job queued ::ₘ rest) :
    Inv { s with published := s.published ++ [queued], calls := rest } := by
  have seen : ∀ busy, State.seen
      { s with published := s.published ++ [queued], calls := rest } busy ↔ s.seen busy := by
    intro busy
    have own : (∃ call ∈ s.calls, call.busy = some busy) ↔
        busy = queued ∨ ∃ call ∈ rest, call.busy = some busy := by
      rw [calls]
      simp only [Multiset.mem_cons, exists_eq_or_imp, Call.busy, Option.some.injEq, eq_comm]
    rw [State.seen, State.seen, State.held, State.held, own, List.mem_append,
      List.mem_singleton, or_assoc, or_assoc]
  have pending : State.pending { s with published := s.published ++ [queued], calls := rest } =
      s.pending := by
    rw [State.pending, State.pending, calls, Multiset.filterMap_cons_none _ rest rfl]
  refine inv.of_same rfl pending (fun busy here => .inl ((seen busy).mp here))
    (fun here => (seen _).mpr here) (fun job here => .inr ⟨job, here⟩) inv.alive ?_ inv.unstarted
  exact fun key inside => inv.undelivered key (calls ▸ Multiset.mem_cons_of_mem inside)

theorem Inv.reads (inv : Inv s) :
    Inv { s with published := s.published ++ [snapshotOf s.table] } := by
  refine inv.of_same rfl rfl ?_ ?_ (fun job here => .inr ⟨job, here⟩) inv.alive inv.undelivered
    inv.unstarted
  · rintro busy (published | held)
    · rcases List.mem_append.mp published with earlier | here
      · exact .inl (.inl earlier)
      · exact .inr (List.mem_singleton.mp here)
    · exact .inl (.inr held)
  · intro _
    exact .inl (List.mem_append_right _ (List.mem_singleton_self _))

theorem withSender_keeps {call later : Call} (goes : call.withSender = some later) :
    later.job = call.job ∧ later.busy = call.busy ∧ ∀ key, later ≠ .undelivered key := by
  cases call with
  | inserted job queued =>
      obtain rfl := Option.some.inj goes
      exact ⟨rfl, rfl, by rintro _ ⟨⟩⟩
  | flagPush =>
      obtain rfl := Option.some.inj goes
      exact ⟨rfl, rfl, by rintro _ ⟨⟩⟩
  | _ => cases goes

/-- A step of a caller. -/
theorem Inv.callerMove {event : Event} (inv : Inv s) (starts : Starts event s)
    (moved : callerMove event s = some next) : Inv next := by
  cases event with
  | spawn job =>
      rw [InFlight.callerMove] at moved
      split_ifs at moved with taken
      obtain rfl := Option.some.inj moved
      exact inv.spawn taken
  | pushFlags =>
      obtain rfl := Option.some.inj moved
      exact inv.pushFlags
  | netTx call started =>
      rw [InFlight.callerMove] at moved
      cases goes : call.withSender with
      | none =>
          rw [goes] at moved
          cases moved
      | some later =>
          rw [goes] at moved
          dsimp only at moved
          obtain ⟨job, busy, delivered⟩ := withSender_keeps goes
          split_ifs at moved with here known start
          all_goals obtain rfl := Option.some.inj moved
          all_goals obtain ⟨rest, calls⟩ := Multiset.exists_cons_of_mem here
          all_goals have left : s.calls.erase call = rest := by rw [calls, Multiset.erase_cons_head]
          all_goals rw [left]
          · exact inv.goes_on calls job busy delivered s.sender s.net rfl rfl (fun _ same => same)
              inv.alive inv.unstarted
          · have absent := inv.unstarted (by simpa using known)
            refine inv.goes_on calls job busy delivered true .starting ?_ ?_ ?_ ?_ ?_
            · rw [absent]
              rfl
            · rw [absent]
              rfl
            · intro job cleared
              rw [absent] at cleared
              cases cleared
            · rintro ⟨⟩
            · rintro ⟨⟩
          · exact absurd starts (by simp [Starts, known, start])
  | send call =>
      rw [InFlight.callerMove] at moved
      cases closes : call.closure with
      | none =>
          rw [closes] at moved
          cases moved
      | some closure =>
          rw [closes] at moved
          dsimp only at moved
          split_ifs at moved with here gone
          · exact absurd gone inv.alive
          · obtain rfl := Option.some.inj moved
            obtain ⟨rest, calls⟩ := Multiset.exists_cons_of_mem here
            have left : s.calls.erase call = rest := by
              rw [calls, Multiset.erase_cons_head]
            rw [left]
            exact inv.sends calls closes
  | undo key =>
      rw [InFlight.callerMove] at moved
      split_ifs at moved with here
      exact absurd here (inv.undelivered key)
  | forward job queued =>
      rw [InFlight.callerMove] at moved
      split_ifs at moved with here
      obtain rfl := Option.some.inj moved
      obtain ⟨rest, calls⟩ := Multiset.exists_cons_of_mem here
      have left : s.calls.erase (.delivered job queued) = rest := by
        rw [calls, Multiset.erase_cons_head]
      rw [left]
      exact inv.forwards calls
  | read =>
      obtain rfl := Option.some.inj moved
      exact inv.reads
  | _ => cases moved

/-- The thread goes on, with the table left as it is. -/
theorem Inv.thread (inv : Inv s) (net : NetThread) (queue : List JobFn)
    (published : List BusySnapshot) (started : s.net ≠ .absent)
    (jobs : ((queue.filterMap JobFn.job? ++ net.job.toList : List Job) : Multiset Job) =
      ((s.queue.filterMap JobFn.job? ++ s.net.job.toList : List Job) : Multiset Job))
    (known : ∀ busy, busy ∈ published ∨ net.busy = some busy →
      (busy ∈ s.published ∨ s.net.busy = some busy) ∨ busy = snapshotOf s.table)
    (kept : ∀ busy, busy ∈ s.published ∨ s.net.busy = some busy →
      busy ∈ published ∨ net.busy = some busy)
    (cleared : ∀ job, s.net = .cleared job → net.busy = some (snapshotOf s.table))
    (alive : net ≠ .dead) : Inv { s with net, queue, published } := by
  refine inv.of_same rfl ?_ ?_ ?_ ?_ alive inv.undelivered ?_
  · rw [State.pending, State.pending, jobs]
  · rintro busy (here | called | here)
    · rcases known busy (.inl here) with (earlier | earlier) | fresh
      · exact .inl (.inl earlier)
      · exact .inl (.inr (.inr earlier))
      · exact .inr fresh
    · exact .inl (.inr (.inl called))
    · rcases known busy (.inr here) with (earlier | earlier) | fresh
      · exact .inl (.inl earlier)
      · exact .inl (.inr (.inr earlier))
      · exact .inr fresh
  · rintro (here | called | here)
    · rcases kept _ (.inl here) with later | later
      · exact .inl later
      · exact .inr (.inr later)
    · exact .inr (.inl called)
    · rcases kept _ (.inr here) with later | later
      · exact .inl later
      · exact .inr (.inr later)
  · intro job isCleared
    exact .inl (.inr (.inr (cleared job isCleared)))
  · intro unknown
    exact absurd (inv.unstarted unknown) started

/-- The job is taken off the table. -/
theorem Inv.clears (inv : Inv s) {job : Job} (ended : s.net = .ended job) :
    Inv { s with net := .cleared job, table := s.table.remove job.key } := by
  have shape : (s.table.jobs : Multiset Job) =
      job ::ₘ (s.calls.filterMap Call.job + (s.queue.filterMap JobFn.job? : List Job)) := by
    rw [← inv.jobs, State.pending, ended, ← Multiset.add_cons, Multiset.cons_coe]
    exact congrArg _ (Multiset.coe_eq_coe.mpr (List.perm_append_singleton _ _))
  obtain ⟨jobs, keys, generation⟩ := remove_jobs shape inv.keys
  refine inv.of_changed generation ?_ keys ?_ (.inr ⟨job, rfl⟩) ?_ inv.undelivered ?_
  · rw [jobs, State.pending]
    exact congrArg _ (congrArg _ (List.append_nil _))
  · rintro busy (published | called | held)
    · exact .inl (.inl published)
    · exact .inl (.inr (.inl called))
    · cases held
  · rintro ⟨⟩
  · intro unknown
    rw [inv.unstarted unknown] at ended
    cases ended

/-- The thread takes a closure. -/
theorem Inv.takes (inv : Inv s) (idle : s.net = .idle) (taken : takeClosure s = some next) :
    Inv next := by
  have started : s.net ≠ .absent := by
    rw [idle]
    rintro ⟨⟩
  have notCleared : ∀ job, s.net ≠ .cleared job := by
    rw [idle]
    rintro _ ⟨⟩
  unfold takeClosure at taken
  split at taken
  · cases taken
  · rename_i job later queue
    obtain rfl := Option.some.inj taken
    refine inv.thread (.running job) later s.published started ?_ ?_ ?_
      (fun job cleared => absurd cleared (notCleared job)) (by rintro ⟨⟩)
    · have before : (JobFn.job job :: later).filterMap JobFn.job? ++ NetThread.idle.job.toList =
          job :: later.filterMap JobFn.job? := List.append_nil _
      rw [queue, idle, before]
      exact Multiset.coe_eq_coe.mpr (List.perm_append_singleton _ _)
    · rintro busy (here | held)
      · exact .inl (.inl here)
      · cases held
    · rintro busy (here | held)
      · exact .inl here
      · rw [idle] at held
        cases held
  · rename_i later queue
    obtain rfl := Option.some.inj taken
    refine inv.thread .pushing later s.published started ?_ ?_ ?_
      (fun job cleared => absurd cleared (notCleared job)) (by rintro ⟨⟩)
    · rw [queue, idle]
      rfl
    · rintro busy (here | held)
      · exact .inl (.inl here)
      · cases held
    · rintro busy (here | held)
      · exact .inl here
      · rw [idle] at held
        cases held

/-- The thread goes on with its job, its snapshot and the channel as they are. -/
theorem Inv.turns (inv : Inv s) (net : NetThread) (started : s.net ≠ .absent)
    (job : net.job = s.net.job) (busy : net.busy = s.net.busy)
    (notCleared : ∀ job, s.net ≠ .cleared job) (alive : net ≠ .dead) :
    Inv { s with net } := by
  refine inv.thread net s.queue s.published started (by rw [job]) ?_ ?_
    (fun job cleared => absurd cleared (notCleared job)) alive
  · intro other here
    rw [busy] at here
    exact .inl here
  · intro other here
    rw [busy]
    exact here

/-- The thread takes a snapshot of the table. -/
theorem Inv.looks (inv : Inv s) {net : NetThread} (started : s.net ≠ .absent)
    (job : net.job = s.net.job) (busy : net.busy = some (snapshotOf s.table))
    (none_ : s.net.busy = none) (alive : net ≠ .dead) : Inv { s with net } := by
  refine inv.thread net s.queue s.published started (by rw [job]) ?_ ?_ (fun _ _ => busy) alive
  · rintro other (here | held)
    · exact .inl (.inl here)
    · rw [busy] at held
      exact .inr (Option.some.inj held).symm
  · rintro other (here | held)
    · exact .inl here
    · rw [none_] at held
      cases held

/-- The thread hands its snapshot to the host. -/
theorem Inv.tells (inv : Inv s) {net : NetThread} {busy : BusySnapshot}
    (started : s.net ≠ .absent) (job : net.job = s.net.job) (held : s.net.busy = some busy)
    (none_ : net.busy = none) (notCleared : ∀ job, s.net ≠ .cleared job) (alive : net ≠ .dead) :
    Inv { s with net, published := s.published ++ [busy] } := by
  refine inv.thread net s.queue (s.published ++ [busy]) started (by rw [job]) ?_ ?_
    (fun job cleared => absurd cleared (notCleared job)) alive
  · rintro other (here | here)
    · rcases List.mem_append.mp here with earlier | last
      · exact .inl (.inl earlier)
      · rw [List.mem_singleton.mp last]
        exact .inl (.inr held)
    · rw [none_] at here
      cases here
  · rintro other (here | here)
    · exact .inl (List.mem_append_left _ here)
    · rw [held] at here
      rw [Option.some.inj here]
      exact .inl (List.mem_append_right _ (List.mem_singleton_self _))

/-- A step of the network thread. -/
theorem Inv.netMove {event : Event} (inv : Inv s) (starts : Starts event s)
    (moved : netMove event s = some next) : Inv next := by
  unfold InFlight.netMove at moved
  split at moved
  case h_1 net =>
    obtain rfl := Option.some.inj moved
    exact inv.turns .idle (by rw [net]; rintro ⟨⟩) (by rw [net]; rfl) (by rw [net]; rfl)
      (by rw [net]; rintro _ ⟨⟩) (by rintro ⟨⟩)
  case h_2 net => cases starts
  case h_3 net => exact inv.takes net moved
  case h_4 job net =>
    obtain rfl := Option.some.inj moved
    exact inv.looks (by rw [net]; rintro ⟨⟩) (by rw [net]; rfl) rfl (by rw [net]; rfl)
      (by rintro ⟨⟩)
  case h_5 job busy net =>
    obtain rfl := Option.some.inj moved
    exact inv.tells (by rw [net]; rintro ⟨⟩) (by rw [net]; rfl) (by rw [net]; rfl) rfl
      (by rw [net]; rintro _ ⟨⟩) (by rintro ⟨⟩)
  case h_6 outcome job net =>
    obtain rfl := Option.some.inj moved
    exact inv.turns (.ended job) (by rw [net]; rintro ⟨⟩) (by rw [net]; rfl) (by rw [net]; rfl)
      (by rw [net]; rintro _ ⟨⟩) (by rintro ⟨⟩)
  case h_7 outcome net =>
    obtain rfl := Option.some.inj moved
    exact inv.turns .idle (by rw [net]; rintro ⟨⟩) (by rw [net]; rfl) (by rw [net]; rfl)
      (by rw [net]; rintro _ ⟨⟩) (by rintro ⟨⟩)
  case h_8 job net =>
    obtain rfl := Option.some.inj moved
    exact inv.clears net
  case h_9 job net =>
    obtain rfl := Option.some.inj moved
    exact inv.looks (by rw [net]; rintro ⟨⟩) (by rw [net]; rfl) rfl (by rw [net]; rfl)
      (by rintro ⟨⟩)
  case h_10 job busy net =>
    obtain rfl := Option.some.inj moved
    exact inv.tells (by rw [net]; rintro ⟨⟩) (by rw [net]; rfl) (by rw [net]; rfl) rfl
      (by rw [net]; rintro _ ⟨⟩) (by rintro ⟨⟩)
  case h_11 => cases moved

end Steps

/-- A step of a run in which the thread and its runtime start. -/
theorem Inv.move {s next : State} {event : Event} (inv : Inv s) (starts : Starts event s)
    (moved : move event s = some next) : Inv next := by
  rcases Option.or_eq_some_iff.mp moved with caller | ⟨-, thread⟩
  · exact inv.callerMove starts caller
  · exact inv.netMove starts thread

theorem inv_run (events : List Event) (starts : Guarded.RunMeets move Starts .initial events) :
    Inv (Guarded.run move .initial events) :=
  Guarded.run_invariant Inv (fun _ _ _ inv starts moved => inv.move starts moved) inv_initial
    events starts

/-- The table is exact: one job of a key is pending at most, the table holds the
pending jobs, every change has a larger generation than all snapshots before it
and is told the host, and once nobody has anything to tell, the host has the
table whatever order the snapshots arrive in. -/
structure Exact (s : State) : Prop where
  once : (s.pending.map Job.key).Nodup
  runs : ∀ job, s.net.runs = some job → job ∈ s.pending
  table : ∀ job, job ∈ s.table.jobs ↔ job ∈ s.pending
  changes : ∀ event next, move event s = some next → next.table ≠ s.table →
    (∀ busy, s.seen busy → busy.generation < next.table.generation) ∧
      (next.seen (snapshotOf next.table) ∨ ∃ job, next.net = .cleared job)
  known : ∀ busy ∈ s.published, busy.generation ≤ s.table.generation
  told : s.Settled → ∀ arrived : List BusySnapshot, arrived.Perm s.published →
    (applied arrived).getD (snapshotOf .empty) = snapshotOf s.table

/-- A caller changes the table with a new job, or takes back one that it could
not send. -/
theorem callerMove_table {s next : State} {event : Event}
    (moved : callerMove event s = some next) :
    next.table = s.table ∨
      (∃ job, next.table = s.table.insert job ∧ next.seen (snapshotOf next.table)) ∨
      ∃ key, .undelivered key ∈ s.calls := by
  cases event with
  | spawn job =>
      rw [InFlight.callerMove] at moved
      split_ifs at moved with taken
      obtain rfl := Option.some.inj moved
      exact .inr (.inl ⟨job, rfl, .inr (.inl ⟨_, Multiset.mem_cons_self _ _, rfl⟩)⟩)
  | pushFlags =>
      obtain rfl := Option.some.inj moved
      exact .inl rfl
  | netTx call started =>
      rw [InFlight.callerMove] at moved
      cases goes : call.withSender with
      | none =>
          rw [goes] at moved
          cases moved
      | some later =>
          rw [goes] at moved
          dsimp only at moved
          split_ifs at moved <;> obtain rfl := Option.some.inj moved <;> exact .inl rfl
  | send call =>
      rw [InFlight.callerMove] at moved
      cases closes : call.closure with
      | none =>
          rw [closes] at moved
          cases moved
      | some closure =>
          rw [closes] at moved
          dsimp only at moved
          split_ifs at moved <;> obtain rfl := Option.some.inj moved <;> exact .inl rfl
  | undo key =>
      rw [InFlight.callerMove] at moved
      split_ifs at moved with here
      exact .inr (.inr ⟨key, here⟩)
  | forward job queued =>
      rw [InFlight.callerMove] at moved
      split_ifs at moved
      obtain rfl := Option.some.inj moved
      exact .inl rfl
  | read =>
      obtain rfl := Option.some.inj moved
      exact .inl rfl
  | _ => cases moved

/-- The thread changes the table when a job is over. -/
theorem netMove_table {s next : State} {event : Event} (moved : netMove event s = some next) :
    next.table = s.table ∨
      ∃ job, s.net = .ended job ∧ next.table = s.table.remove job.key ∧ next.net = .cleared job := by
  unfold InFlight.netMove at moved
  split at moved
  case h_3 net =>
    unfold takeClosure at moved
    split at moved
    · cases moved
    · obtain rfl := Option.some.inj moved
      exact .inl rfl
    · obtain rfl := Option.some.inj moved
      exact .inl rfl
  case h_8 job net =>
    obtain rfl := Option.some.inj moved
    exact .inr ⟨job, net, rfl, rfl⟩
  case h_11 => cases moved
  all_goals
    obtain rfl := Option.some.inj moved
    exact .inl rfl

/-- Only a new job and the end of one change the table, and the change is about
to be told. -/
theorem changed_table {s next : State} {event : Event} (inv : Inv s)
    (moved : move event s = some next) (changed : next.table ≠ s.table) :
    next.table.generation = s.table.generation + 1 ∧
      (next.seen (snapshotOf next.table) ∨ ∃ job, next.net = .cleared job) := by
  rcases Option.or_eq_some_iff.mp moved with caller | ⟨-, thread⟩
  · rcases callerMove_table caller with same | ⟨job, inserted, seen⟩ | ⟨key, undelivered⟩
    · exact absurd same changed
    · exact ⟨congrArg Inflight.generation inserted, .inl seen⟩
    · exact absurd undelivered (inv.undelivered key)
  · rcases netMove_table thread with same | ⟨job, ended, removed, cleared⟩
    · exact absurd same changed
    · refine ⟨?_, .inr ⟨job, cleared⟩⟩
      have member : job ∈ s.table.jobs := by
        rw [← Multiset.mem_coe, ← inv.jobs, State.pending, ended]
        exact Multiset.mem_add.mpr (.inr (List.mem_append_right _ (List.mem_singleton_self job)))
      have contained : s.table.containsKey job.key = true :=
        (containsKey_iff _ _).mpr (List.mem_map_of_mem member)
      rw [removed, Inflight.remove, if_pos contained]

/-- A host that every snapshot has reached has the table, once nobody has
anything to tell. -/
theorem applied_of_settled {s : State} (inv : Inv s) (settled : s.Settled)
    {arrived : List BusySnapshot} (order : arrived.Perm s.published) :
    (applied arrived).getD (snapshotOf .empty) = snapshotOf s.table := by
  obtain ⟨nothing, notCleared⟩ := settled
  have newest : snapshotOf s.table ∈ arrived → applied arrived = some (snapshotOf s.table) := by
    intro member
    exact applied_of_newest member fun busy here =>
      inv.known busy (.inl (order.mem_iff.mp here))
  rcases inv.current with empty | (published | held) | ⟨job, cleared⟩
  · by_cases none_ : arrived = []
    · rw [none_, empty]
      rfl
    · obtain ⟨busy, here⟩ := List.exists_mem_of_ne_nil arrived none_
      obtain ⟨bound, same⟩ := inv.known busy (.inl (order.mem_iff.mp here))
      have zero : busy.generation = s.table.generation := by
        rw [empty] at bound ⊢
        exact Nat.le_zero.mp bound
      rw [newest (same zero ▸ here)]
      rfl
  · rw [newest (order.mem_iff.mpr published)]
    rfl
  · exact absurd held (nothing _)
  · exact absurd cleared (notCleared job)

theorem exact_of_inv {s : State} (inv : Inv s) : Exact s where
  once := by
    rw [inv.jobs]
    exact Multiset.coe_nodup.mpr inv.keys
  runs := by
    intro job runs
    have held : s.net.job = some job := by
      cases net : s.net with
      | running other => rw [net] at runs; exact runs
      | milestone other busy => rw [net] at runs; exact runs
      | _ => rw [net] at runs; cases runs
    rw [State.pending, held]
    exact Multiset.mem_add.mpr (.inr (List.mem_append_right _ (List.mem_singleton_self job)))
  table := by
    intro job
    rw [inv.jobs, Multiset.mem_coe]
  changes := by
    intro event next moved changed
    obtain ⟨generation, told⟩ := changed_table inv moved changed
    refine ⟨fun busy here => ?_, told⟩
    rw [generation]
    exact Nat.lt_succ_of_le (inv.known busy here).1
  known := fun busy published => (inv.known busy (.inl published)).1
  told := fun settled _ order => applied_of_settled inv settled order

/-- In every run in which the network thread and its runtime start, the table is
exact in every state. -/
theorem exact_run (events : List Event)
    (starts : Guarded.RunMeets move Starts .initial events) :
    Exact (Guarded.run move .initial events) :=
  exact_of_inv (inv_run events starts)

namespace Sample

def sync : Job :=
  ⟨"sync:1", "Sync"⟩

/-- The snapshot with the job in it. -/
def queued : BusySnapshot :=
  snapshotOf (Inflight.empty.insert sync)

/-- A job from its call to its end. -/
def wholeJob : List Event :=
  [.spawn sync, .netTx (.inserted sync queued) true, .send (.ready sync queued), .runtime true,
    .recv, .forward sync queued, .report, .deliver, .finish .panicked, .clear, .look, .emit]

theorem exact_wholeJob : Exact (Guarded.run move .initial wholeJob) :=
  exact_run wholeJob
    ⟨trivial, .inr rfl, trivial, rfl, trivial, trivial, trivial, trivial, trivial, trivial,
      trivial, trivial, trivial⟩

/-- The runtime is not built: the job is sent and never runs. -/
def noRuntime : List Event :=
  [.spawn sync, .netTx (.inserted sync queued) true, .send (.ready sync queued),
    .forward sync queued, .runtime false]

/-- The job is in the table and pending nowhere, so its key is refused from then
on. -/
theorem not_exact_noRuntime :
    sync ∈ (Guarded.run move .initial noRuntime).table.jobs ∧
      (Guarded.run move .initial noRuntime).pending = 0 ∧
      ¬Exact (Guarded.run move .initial noRuntime) := by
  have kept : sync ∈ (Guarded.run move .initial noRuntime).table.jobs := by decide +kernel
  have nowhere : (Guarded.run move .initial noRuntime).pending = 0 := by decide +kernel
  refine ⟨kept, nowhere, fun exact_ => ?_⟩
  have pending := (exact_.table sync).mp kept
  rw [nowhere] at pending
  exact Multiset.notMem_zero sync pending

end Sample

end InFlight
end Mailcore
