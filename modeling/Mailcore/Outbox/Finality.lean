import Mailcore.Outbox.Terminal

/-!
# A reported failure is final

A composer that fails marks its row failed, drops the bytes and tells the user
that the message was not sent.  Between the mark and the drop the row can be
claimed like any failed row.  As long as nobody claims a row whose composer
has not finished with it, and the database does not refuse the drop, nobody
but the composer ever handed the message to SMTP.
-/

namespace Mailcore
namespace Outbox

open Store Relational Concurrent
open Concurrent.Lease (Phase)

variable {chrono : Chrono} {crates : Crates} {ι : Type}

/-! ## What a turn tells of one row -/

/-- A submitter in this phase has read the bytes. -/
def HoldsBytes (phase : Phase) : Prop := phase ≠ .idle ∧ phase ≠ .claimed

/-- The table has bytes of the row. -/
def Filled (row : Option SendRow) : Prop :=
  ∃ stored, row = some stored ∧ stored.hasBytes

/-- The row is created. -/
def Created (id : Nat) (before after : Spot) : Prop :=
  before.last < id ∧ id ≤ after.last

section Turn

variable {who : ι} {clock : chrono.Clock} {id : Nat} {call : Call}
  {before after : Spot} {deeds : List (Deed chrono ι)}

theorem created_of_fresh {last : Nat} {row next : Option SendRow}
    {phase reached : Phase} {composing composed : Composition}
    (fresh : id = last + 1) :
    Created id ⟨last, row, phase, composing⟩
      ⟨last + 1, next, reached, composed⟩ := by
  subst fresh
  exact ⟨Nat.lt_succ_self _, le_refl _⟩

theorem grows_of_turn
    (turn : Turn crates who clock id call before after deeds) :
    before.last ≤ after.last := by
  cases turn with
  | elsewhere grows stillUnborn others => exact grows
  | born fresh => exact Nat.le_succ _
  | held fresh => exact Nat.le_succ _
  | _ => exact le_refl _

/-- A submitter hands over what it read. -/
theorem loaded_of_handed
    (turn : Turn crates who clock id call before after deeds)
    {submitter : ι} {instant : chrono.Clock} {accepted : Bool}
    (handed : .handed submitter id instant accepted ∈ deeds) :
    submitter = who ∧ before.phase = .loaded := by
  cases turn with
  | elsewhere grows stillUnborn others =>
      exact absurd rfl (others _ handed)
  | accepted | refused =>
      rw [List.mem_singleton] at handed
      cases handed
      exact ⟨rfl, rfl⟩
  | _ => simp at handed

/-- Only a composer that dropped the bytes reports its message. -/
theorem disposed_of_reported
    (turn : Turn crates who clock id call before after deeds)
    {composer : ι} (reported : .reportedUnsent composer id ∈ deeds) :
    composer = who ∧ after.composing = .none ∧
      (before.composing = .discarded ∨ before.composing = .undisposed) ∧
      after.row = before.row ∧ after.phase = before.phase := by
  cases turn with
  | elsewhere grows stillUnborn others =>
      exact absurd rfl (others _ reported)
  | reported disposed =>
      rw [List.mem_singleton] at reported
      cases reported
      exact ⟨rfl, rfl, disposed, rfl, rfl⟩
  | _ => simp at reported

/-- A process gets hold of a row by creating or claiming it. -/
theorem owner_of_turn
    (turn : Turn crates who clock id call before after deeds)
    (owns : after.phase ≠ .idle) :
    before.phase ≠ .idle ∨ Created id before after ∨
      call = .claim id ∧
        ∃ row, before.row = some row ∧ row.claimable := by
  cases turn with
  | born fresh => exact Or.inr (Or.inl (created_of_fresh fresh))
  | claimed claimable => exact Or.inr (Or.inr ⟨rfl, _, rfl, claimable⟩)
  | _ => first
    | exact Or.inl owns
    | exact absurd rfl owns
    | exact Or.inl Phase.noConfusion

/-- A submitter reads the bytes the table has. -/
theorem filled_of_turn
    (turn : Turn crates who clock id call before after deeds)
    (holds : HoldsBytes after.phase) :
    HoldsBytes before.phase ∨ Filled before.row := by
  cases turn with
  | loaded bytes => exact Or.inr ⟨_, rfl, bytes⟩
  | born | claimed => exact absurd rfl holds.2
  | accepted | refused | unsendable =>
      exact Or.inl ⟨Phase.noConfusion, Phase.noConfusion⟩
  | _ => first
    | exact Or.inl holds
    | exact absurd rfl holds.1

/-- Bytes come from the creator of a row, or from a submitter that holds
them. -/
theorem filled_before_of_turn
    (turn : Turn crates who clock id call before after deeds)
    (filled : Filled after.row) :
    Filled before.row ∨ before.phase = .loaded ∨
      Created id before after := by
  obtain ⟨row, stored, bytes⟩ := filled
  cases turn with
  | born fresh => exact Or.inr (Or.inr (created_of_fresh fresh))
  | held fresh => exact Or.inr (Or.inr (created_of_fresh fresh))
  | rewritten => exact Or.inr (Or.inl rfl)
  | markedSent | stripped | discarded =>
      cases stored
      simp [SendRow.hasBytes] at bytes
  | pruned | dismissed | deleted | accountDeleted => cases stored
  | claimed | requeued | orphaned | promoted | markedFailed | charged
  | rescheduled | hurried | noticed =>
      cases stored
      exact Or.inl ⟨_, rfl, bytes⟩
  | _ => exact Or.inl ⟨row, stored, bytes⟩

/-- How far a composer can get with its row in one turn. -/
theorem composing_of_turn
    (turn : Turn crates who clock id call before after deeds) :
    after.composing = before.composing ∨ after.composing = .none ∨
      Created id before after ∧ after.composing = .unfinished ∨
      before.composing = .unfinished ∧
        ((∃ error, call = .failAndDiscard id error) ∧
            after.composing = .undisposed ∨
          after.composing = .discarded ∧ after.phase = .idle ∧
            ¬Filled after.row) := by
  cases turn with
  | born fresh =>
      exact Or.inr (Or.inr (Or.inl ⟨created_of_fresh fresh, rfl⟩))
  | undisposed unaccepted =>
      exact Or.inr (Or.inr (Or.inr ⟨rfl, Or.inl ⟨⟨_, rfl⟩, rfl⟩⟩))
  | discarded unaccepted =>
      refine Or.inr (Or.inr (Or.inr ⟨rfl, Or.inr ⟨rfl, rfl, ?_⟩⟩))
      rintro ⟨row, ⟨⟩, bytes⟩
      simp [SendRow.hasBytes] at bytes
  | discardedNothing unaccepted =>
      exact Or.inr (Or.inr (Or.inr ⟨rfl, Or.inr ⟨rfl, rfl, by simp [Filled]⟩⟩))
  | _ => first
    | exact Or.inl rfl
    | exact Or.inr (Or.inl rfl)

end Turn

/-! ## The invariant -/

/-- Only this process handed the row's bytes over. -/
def OnlyBy (history : List (Deed chrono ι)) (id : Nat) (who : ι) : Prop :=
  ∀ submitter clock accepted,
    .handed submitter id clock accepted ∈ history → submitter = who

/-- There are no bytes of the row left to hand over. -/
structure Spent (row : Option SendRow) (phase : ι → Phase) : Prop where
  emptied : ¬Filled row
  unread : ∀ who, ¬HoldsBytes (phase who)

theorem Spent.not_loaded {row : Option SendRow} {phase : ι → Phase}
    (spent : Spent row phase) (who : ι) : phase who ≠ .loaded := by
  intro loaded
  have unread := spent.unread who
  rw [loaded] at unread
  exact unread ⟨Phase.noConfusion, Phase.noConfusion⟩

/-- What a run keeps of a row and its composer. -/
structure Final (last : Nat) (row : Option SendRow) (phase : ι → Phase)
    (composing : ι → Composition) (history : List (Deed chrono ι))
    (id : Nat) : Prop where
  stored : ∀ found, row = some found → id ≤ last
  unborn : last < id →
    (∀ who, phase who = .idle ∧ composing who = .none) ∧
      ∀ who, .reportedUnsent who id ∉ history ∧ OnlyBy history id who
  author : ∀ who other, composing who ≠ .none → composing other ≠ .none →
    who = other
  disposed : ∀ who, composing who ≠ .undisposed
  unfinished : ∀ who, composing who = .unfinished →
    (∀ other, other ≠ who → phase other = .idle) ∧ OnlyBy history id who
  discarded : ∀ who, composing who = .discarded →
    Spent row phase ∧ OnlyBy history id who
  reported : ∀ who, .reportedUnsent who id ∈ history →
    Spent row phase ∧ OnlyBy history id who ∧
      ∀ other, composing other = .none

section Handed

variable {who author : ι} {clock : chrono.Clock} {id : Nat} {call : Call}
  {before after : Spot} {deeds history : List (Deed chrono ι)}

theorem onlyBy_append
    (only : OnlyBy history id who)
    (turn : Turn crates who clock id call before after deeds) :
    OnlyBy (deeds ++ history) id who := by
  intro submitter instant accepted handed
  rcases List.mem_append.mp handed with now | earlier
  · exact (loaded_of_handed turn now).1
  · exact only submitter instant accepted earlier

theorem onlyBy_append_of_not_loaded
    (only : OnlyBy history id author)
    (turn : Turn crates who clock id call before after deeds)
    (unread : before.phase ≠ .loaded) :
    OnlyBy (deeds ++ history) id author := by
  intro submitter instant accepted handed
  rcases List.mem_append.mp handed with now | earlier
  · exact absurd (loaded_of_handed turn now).2 unread
  · exact only submitter instant accepted earlier

end Handed

section Step

variable [DecidableEq ι] {who : ι} {clock : chrono.Clock} {id : Nat}
  {call : Call} {before after : Spot} {deeds history : List (Deed chrono ι)}
  {phase : ι → Phase} {composing : ι → Composition}

/-- Bytes that are gone stay gone, and nobody hands them over. -/
theorem Spent.turn
    (spent : Spent before.row phase)
    (turn : Turn crates who clock id call before after deeds)
    (here : before.phase = phase who)
    (born : id ≤ before.last) :
    Spent after.row (Function.update phase who after.phase) := by
  have unread : ¬HoldsBytes before.phase := here ▸ spent.unread who
  constructor
  · intro filled
    rcases filled_before_of_turn turn filled with stored | loaded | created
    · exact spent.emptied stored
    · exact spent.not_loaded who (here.symm.trans loaded)
    · exact absurd created.1 (not_lt.mpr born)
  · intro other
    rcases eq_or_ne other who with rfl | different
    · rw [Function.update_self]
      intro holds
      rcases filled_of_turn turn holds with already | filled
      · exact unread already
      · exact spent.emptied filled
    · rw [Function.update_of_ne different]
      exact spent.unread other

variable
  (final : Final before.last before.row phase composing history id)
  (touch : Turn crates who clock id call before after deeds)
  (hereSubmits : before.phase = phase who)
  (hereComposes : before.composing = composing who)

include final in
omit [DecidableEq ι] in
theorem Final.born
    (other : ι) (composed : composing other ≠ .none) : id ≤ before.last := by
  by_contra unborn
  exact composed ((final.unborn (not_le.mp unborn)).1 other).2

include touch hereComposes in
omit [DecidableEq ι] in
/-- A process composes a row after its turn if it did before or creates it. -/
theorem composing_before
    (composed : after.composing ≠ .none) :
    composing who ≠ .none ∨ before.last < id := by
  rcases composing_of_turn touch with same | none | ⟨created, -⟩ |
    ⟨unfinished, -⟩
  · exact Or.inl (hereComposes ▸ same ▸ composed)
  · exact absurd none composed
  · exact Or.inr created.1
  · exact Or.inl (hereComposes ▸ unfinished ▸ Composition.noConfusion)

include final touch hereComposes in
omit [DecidableEq ι] in
/-- Nobody composes a row that another process composes. -/
theorem Final.alone
    (other : ι) (different : other ≠ who)
    (composed : composing other ≠ .none) : after.composing = .none := by
  by_contra composedToo
  rcases composing_before touch hereComposes composedToo with earlier | unborn
  · exact different (final.author other who composed earlier)
  · exact absurd (final.born other composed) (not_le.mpr unborn)

include final touch hereSubmits hereComposes in
theorem Final.unborn_turn :
    after.last < id →
      (∀ other, Function.update phase who after.phase other = .idle ∧
        Function.update composing who after.composing other = .none) ∧
      ∀ other, .reportedUnsent other id ∉ deeds ++ history ∧
        OnlyBy (deeds ++ history) id other := by
  intro unborn
  have unbornBefore := (grows_of_turn touch).trans_lt unborn
  obtain ⟨idle, silent⟩ := final.unborn unbornBefore
  have notCreated : ¬Created id before after := fun created =>
    absurd created.2 (not_le.mpr unborn)
  have idleBefore : before.phase = .idle := hereSubmits ▸ (idle who).1
  have noneBefore : before.composing = .none := hereComposes ▸ (idle who).2
  have idleAfter : after.phase = .idle := by
    by_contra owns
    rcases owner_of_turn touch owns with owned | created | ⟨-, row, found, -⟩
    · exact owned idleBefore
    · exact notCreated created
    · exact absurd (final.stored row found) (not_le.mpr unbornBefore)
  have noneAfter : after.composing = .none := by
    rcases composing_of_turn touch with same | none | ⟨created, -⟩ | ⟨unfinished, -⟩
    · exact same.trans noneBefore
    · exact none
    · exact absurd created notCreated
    · rw [noneBefore] at unfinished
      cases unfinished
  refine ⟨?_, ?_⟩
  · intro other
    rcases eq_or_ne other who with rfl | different
    · simp only [Function.update_self]
      exact ⟨idleAfter, noneAfter⟩
    · rw [Function.update_of_ne different, Function.update_of_ne different]
      exact idle other
  · intro other
    refine ⟨?_, onlyBy_append_of_not_loaded (silent other).2 touch ?_⟩
    · intro reported
      rcases List.mem_append.mp reported with now | earlier
      · have disposed := (disposed_of_reported touch now).2.2.1
        rw [noneBefore] at disposed
        rcases disposed with discarded | undisposed
        · cases discarded
        · cases undisposed
      · exact (silent other).1 earlier
    · rw [idleBefore]
      exact Phase.noConfusion

include final touch hereComposes in
theorem Final.author_turn (first second : ι) :
    Function.update composing who after.composing first ≠ .none →
      Function.update composing who after.composing second ≠ .none →
        first = second := by
  by_cases firstHere : first = who
  all_goals by_cases secondHere : second = who
  · exact fun _ _ => firstHere.trans secondHere.symm
  · rw [Function.update_of_ne secondHere, firstHere, Function.update_self]
    intro mineAfter composed
    exact absurd (final.alone touch hereComposes second secondHere composed) mineAfter
  · rw [Function.update_of_ne firstHere, secondHere, Function.update_self]
    intro composed mineAfter
    exact absurd (final.alone touch hereComposes first firstHere composed) mineAfter
  · rw [Function.update_of_ne firstHere, Function.update_of_ne secondHere]
    exact final.author first second

include final touch hereComposes in
theorem Final.disposed_turn
    (dropped : (∃ error, call = .failAndDiscard id error) →
      after.composing ≠ .undisposed)
    (other : ι) :
    Function.update composing who after.composing other ≠ .undisposed := by
  rcases eq_or_ne other who with rfl | different
  · rw [Function.update_self]
    rcases composing_of_turn touch with same | none | ⟨-, unfinished⟩ |
      ⟨-, ⟨fails, undisposed⟩ | ⟨discarded, -⟩⟩
    · rw [same, hereComposes]
      exact final.disposed other
    · simp [none]
    · simp [unfinished]
    · exact dropped fails
    · simp [discarded]
  · rw [Function.update_of_ne different]
    exact final.disposed other

include final touch hereSubmits hereComposes in
/-- The row of an unfinished composer is not claimed, so it stays with the
composer. -/
theorem Final.unfinished_turn
    (unclaimed : call = .claim id →
      (∃ row, before.row = some row ∧ row.claimable) →
        ∀ other, composing other ≠ .unfinished)
    (composer : ι) :
    Function.update composing who after.composing composer = .unfinished →
      (∀ other, other ≠ composer →
        Function.update phase who after.phase other = .idle) ∧
      OnlyBy (deeds ++ history) id composer := by
  rcases eq_or_ne composer who with rfl | different
  · rw [Function.update_self]
    intro unfinished
    have before : (∀ other, other ≠ composer → phase other = .idle) ∧
        OnlyBy history id composer := by
      rcases composing_of_turn touch with same | none | ⟨created, -⟩ | ⟨earlier, -⟩
      · rw [unfinished, hereComposes] at same
        exact final.unfinished composer same.symm
      · rw [unfinished] at none
        cases none
      · obtain ⟨idle, silent⟩ := final.unborn created.1
        exact ⟨fun other _ => (idle other).1, (silent composer).2⟩
      · rw [hereComposes] at earlier
        exact final.unfinished composer earlier
    refine ⟨fun other different => ?_, onlyBy_append before.2 touch⟩
    rw [Function.update_of_ne different]
    exact before.1 other different
  · rw [Function.update_of_ne different]
    intro unfinished
    obtain ⟨idle, only⟩ := final.unfinished composer unfinished
    have composed : composing composer ≠ .none := by
      rw [unfinished]
      exact Composition.noConfusion
    have idleBefore : before.phase = .idle :=
      hereSubmits.trans (idle who different.symm)
    refine ⟨?_, onlyBy_append_of_not_loaded only touch ?_⟩
    · intro other otherDifferent
      rcases eq_or_ne other who with rfl | elsewhereOther
      · rw [Function.update_self]
        by_contra owns
        rcases owner_of_turn touch owns with owned | created |
          ⟨claims, claimable⟩
        · exact owned idleBefore
        · exact absurd (final.born composer composed) (not_le.mpr created.1)
        · exact unclaimed claims claimable composer unfinished
      · rw [Function.update_of_ne elsewhereOther]
        exact idle other otherDifferent
    · rw [idleBefore]
      exact Phase.noConfusion

include final touch hereSubmits hereComposes in
/-- Once the composer has dropped the bytes nobody gets hold of any. -/
theorem Final.discarded_turn (composer : ι) :
    Function.update composing who after.composing composer = .discarded →
      Spent after.row (Function.update phase who after.phase) ∧
        OnlyBy (deeds ++ history) id composer := by
  rcases eq_or_ne composer who with rfl | different
  · rw [Function.update_self]
    intro discarded
    rcases composing_of_turn touch with same | none | ⟨-, unfinished⟩ |
      ⟨unfinished, ⟨-, undisposed⟩ | ⟨-, idleAfter, emptied⟩⟩
    · have earlier : composing composer = .discarded :=
        hereComposes.symm.trans (same.symm.trans discarded)
      obtain ⟨spent, only⟩ := final.discarded composer earlier
      refine ⟨spent.turn touch hereSubmits (final.born composer ?_),
        onlyBy_append only touch⟩
      rw [earlier]
      exact Composition.noConfusion
    · rw [discarded] at none
      cases none
    · rw [discarded] at unfinished
      cases unfinished
    · rw [discarded] at undisposed
      cases undisposed
    · obtain ⟨idle, only⟩ :=
        final.unfinished composer (hereComposes.symm.trans unfinished)
      refine ⟨⟨emptied, ?_⟩, onlyBy_append only touch⟩
      intro other holds
      rcases eq_or_ne other composer with rfl | different
      · rw [Function.update_self] at holds
        exact holds.1 idleAfter
      · rw [Function.update_of_ne different] at holds
        exact holds.1 (idle other different)
  · rw [Function.update_of_ne different]
    intro discarded
    obtain ⟨spent, only⟩ := final.discarded composer discarded
    refine ⟨spent.turn touch hereSubmits (final.born composer ?_),
      onlyBy_append_of_not_loaded only touch ?_⟩
    · rw [discarded]
      exact Composition.noConfusion
    · rw [hereSubmits]
      exact spent.not_loaded who

include final touch hereSubmits hereComposes in
theorem Final.reported_turn (composer : ι) :
    .reportedUnsent composer id ∈ deeds ++ history →
      Spent after.row (Function.update phase who after.phase) ∧
        OnlyBy (deeds ++ history) id composer ∧
        ∀ other, Function.update composing who after.composing other =
          .none := by
  intro reported
  rcases List.mem_append.mp reported with now | earlier
  · obtain ⟨rfl, finished, disposed, sameRow, samePhase⟩ :=
      disposed_of_reported touch now
    rw [hereComposes] at disposed
    have discarded := disposed.resolve_right (final.disposed composer)
    have composed : composing composer ≠ .none := by
      rw [discarded]
      exact Composition.noConfusion
    obtain ⟨spent, only⟩ := final.discarded composer discarded
    refine ⟨spent.turn touch hereSubmits (final.born composer composed),
      onlyBy_append only touch, ?_⟩
    intro other
    rcases eq_or_ne other composer with rfl | different
    · rw [Function.update_self]
      exact finished
    · rw [Function.update_of_ne different]
      by_contra composedToo
      exact different (final.author other composer composedToo composed)
  · obtain ⟨spent, only, finished⟩ := final.reported composer earlier
    have bornBefore : id ≤ before.last := by
      by_contra unborn
      exact ((final.unborn (not_le.mp unborn)).2 composer).1 earlier
    refine ⟨spent.turn touch hereSubmits bornBefore,
      onlyBy_append_of_not_loaded only touch ?_, ?_⟩
    · rw [hereSubmits]
      exact spent.not_loaded who
    · intro other
      rcases eq_or_ne other who with rfl | different
      · rw [Function.update_self]
        by_contra composed
        rcases composing_before touch hereComposes composed with already | unborn
        · exact already (finished other)
        · exact absurd bornBefore (not_le.mpr unborn)
      · rw [Function.update_of_ne different]
        exact finished other

include final touch hereSubmits hereComposes in
/-- A turn keeps the invariant unless it claims a row whose composer has not
finished with it, or fails to drop the bytes. -/
theorem Final.turn
    (stored : ∀ found, after.row = some found → id ≤ after.last)
    (unclaimed : call = .claim id →
      (∃ row, before.row = some row ∧ row.claimable) →
        ∀ other, composing other ≠ .unfinished)
    (dropped : (∃ error, call = .failAndDiscard id error) →
      after.composing ≠ .undisposed) :
    Final after.last after.row (Function.update phase who after.phase)
      (Function.update composing who after.composing) (deeds ++ history)
      id where
  stored := stored
  unborn := final.unborn_turn touch hereSubmits hereComposes
  author := final.author_turn touch hereComposes
  disposed := final.disposed_turn touch hereComposes dropped
  unfinished := final.unfinished_turn touch hereSubmits hereComposes unclaimed
  discarded := final.discarded_turn touch hereSubmits hereComposes
  reported := final.reported_turn touch hereSubmits hereComposes

end Step

/-! ## Runs -/

/-- Nobody claims a row whose composer has not finished with it, and the
database does not refuse to drop the bytes of a failed message. -/
def Withheld (chrono : Chrono) (ι : Type) :
    Condition (signature chrono) (monitor chrono) ι (World chrono ι) Answer :=
  fun world desks _ call answer =>
    match call with
    | .claim id => ∀ row, world.sendQueue.find? id = some row →
        row.claimable → ∀ other, (desks other).composing id ≠ .unfinished
    | .failAndDiscard _ _ => answer.refused = none
    | _ => True

instance [Fintype ι] (world : World chrono ι) (desks : ι → Desk) (who : ι)
    (call : Call) (answer : Answer) :
    Decidable (Withheld chrono ι world desks who call answer) := by
  induction call using Call.casesOn
  case claim id =>
    exact inferInstanceAs (Decidable (∀ row ∈ world.sendQueue.find? id,
      row.claimable → ∀ other, (desks other).composing id ≠ .unfinished))
  case failAndDiscard => exact inferInstanceAs (Decidable (_ = none))
  all_goals exact isTrue trivial

/-- A message reported as not sent was handed to SMTP by nobody but its
composer. -/
def ReportsFinal
    (config : Config (signature chrono) (monitor chrono) ι (World chrono ι)) :
    Prop :=
  ∀ composer id, .reportedUnsent composer id ∈ config.shared.history →
    OnlyBy config.shared.history id composer

/-- In every run in which nobody claims a row whose composer has not finished
with it, and the bytes of a failed message can be dropped, a reported failure
is final. -/
theorem reportsFinal_of_withheld
    [DecidableEq ι]
    (jobs : ι → Job) (clock : chrono.Clock) (table : SendQueue)
    (events : List (Event ι Answer chrono.Clock))
    (withheld : Config.RunMeets (system chrono crates ι)
      (Withheld chrono ι) (start crates jobs clock table) events) :
    ReportsFinal
      ((start crates jobs clock table).run (system chrono crates ι)
        events) := by
  have final := outbox_invariant withheld
    (fun world desks => ∀ id,
      Final world.sendQueue.last (world.sendQueue.find? id)
        (fun who => (desks who).phase id)
        (fun who => (desks who).composing id) world.history id)
    ?initial ?turn (fun _ _ _ final => final)
  · exact fun composer id reported => ((final id).reported composer
      reported).2.1
  case initial =>
    intro id
    exact
      { stored := fun _ found => Table.le_last_of_find? found
        unborn := fun _ => ⟨fun _ => ⟨rfl, rfl⟩, fun _ =>
          ⟨by simp, by simp [OnlyBy]⟩⟩
        author := fun _ _ composed => absurd rfl composed
        disposed := fun _ => Composition.noConfusion
        unfinished := fun _ unfinished => Composition.noConfusion unfinished
        discarded := fun _ discarded => Composition.noConfusion discarded
        reported := by simp }
  case turn =>
    intro world desks who call answer final allowed withheld id
    obtain ⟨deeds, recorded, turn⟩ := touches_respond who answer
      world (desks who) id crates call allowed
    rw [recorded, Desk.phase_update, Desk.composing_update]
    refine (final id).turn turn rfl rfl ?_ ?_ ?_
    · exact fun _ found => Table.le_last_of_find? found
    · rintro rfl ⟨row, found, claimable⟩
      exact withheld row found claimable
    · rintro ⟨error, rfl⟩
      have answered : answer.refused = none := withheld
      simp [spot, respond, Call.isStatement, answered, carryOut, Desk.next]

namespace Sample

/-- The message the composer sends. -/
def composed : Queue.ImmediateMime where
  accountId := 1
  messageId := none
  rawMime := [65]
  envelopeFrom := "me@example.com"
  envelopeTo := ["you@example.com"]
  requestDsn := false

/-- A composer and a flush of the same account. -/
def compose : Config (signature winter) (monitor winter) (Fin 2)
    (World winter (Fin 2)) :=
  start knownCrates (fun who => if who = 0 then .compose composed true
    else .flush "me@example.com" 1) midnight Table.empty

/-- The server refuses the message, the composer reports it, and the flush
finds nothing to send. -/
def refusedTurns : List (Event (Fin 2) Answer winter.Clock) :=
  turns 0 4 accepts ++ turns 0 1 refuses ++ turns 0 3 accepts ++
    turns 1 6 accepts

theorem refused_final :
    Config.RunMeets (system winter knownCrates (Fin 2))
        (Withheld winter (Fin 2)) compose refusedTurns ∧
      .reportedUnsent 0 1 ∈ (after compose refusedTurns).shared.history ∧
      ReportsFinal (after compose refusedTurns) := by
  have withheld : Config.RunMeets (system winter knownCrates (Fin 2))
      (Withheld winter (Fin 2)) compose refusedTurns := by
    decide +kernel
  have reported :
      .reportedUnsent 0 1 ∈ (after compose refusedTurns).shared.history := by
    decide +kernel
  exact ⟨withheld, reported,
    reportsFinal_of_withheld _ _ _ refusedTurns withheld⟩

/-- The flush claims the row after the composer marks it failed and before it
drops the bytes. -/
def gapTurns : List (Event (Fin 2) Answer winter.Clock) :=
  turns 0 4 accepts ++ turns 0 1 refuses ++ turns 0 1 accepts ++
    turns 1 8 accepts ++ turns 0 2 accepts ++ turns 1 2 accepts

/-- Every process finishes, the user is told that the message was not sent,
and after that the flush hands it over and the server accepts it. -/
theorem gap_sends_reported_message :
    (∀ who, ((after compose gapTurns).thread who).isDone) ∧
      (after compose gapTurns).shared.history.take 3 =
        [.markedSent 1, .handed 1 1 midnight true, .reportedUnsent 0 1] ∧
      ¬ReportsFinal (after compose gapTurns) := by
  have finished : ∀ who, ((after compose gapTurns).thread who).isDone := by
    decide +kernel
  have latest : (after compose gapTurns).shared.history.take 3 =
      [.markedSent 1, .handed 1 1 midnight true, .reportedUnsent 0 1] := by
    decide +kernel
  refine ⟨finished, latest, ?_⟩
  intro final
  have member : ∀ deed ∈ [Deed.markedSent 1, .handed 1 1 midnight true,
      .reportedUnsent 0 1],
      deed ∈ (after compose gapTurns).shared.history := by
    rw [← latest]
    exact fun _ => List.mem_of_mem_take
  have same := final 0 1 (member _ (by simp)) 1 midnight true
    (member _ (by simp))
  exact absurd same (by decide)

end Sample

end Outbox
end Mailcore
