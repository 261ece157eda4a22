import Mailcore.Concurrent.Alone
import Mailcore.Data.Tiling
import Mailcore.Imap.Sync
import Mailcore.Text.Decimal
import Mathlib.Data.Finset.Card

/-!
# The paged UID search

A windowed sync asks for the UIDs of one page after the other, downwards from
the newest.  It then removes what it has cached from its lower bound on and
did not find, so the bound must be that of the last page, and the pages must
leave no UID out.  Here the search runs on its own `u32` bounds, against any
session.
-/

namespace Mailcore
namespace Imap
namespace Paged

open Store Concurrent Data

/-- `u32::saturating_sub`. -/
def saturatingSub (left right : UInt32) : UInt32 :=
  if right ≤ left then left - right else 0

theorem toNat_saturatingSub (left right : UInt32) :
    (saturatingSub left right).toNat = left.toNat - right.toNat := by
  unfold saturatingSub
  split
  · next fits => exact UInt32.toNat_sub_of_le _ _ fits
  · next short =>
    rw [UInt32.le_iff_toNat_le] at short
    rw [UInt32.toNat_zero]
    omega

theorem toNat_max (left right : UInt32) :
    (max left right).toNat = max left.toNat right.toNat := by
  change (if left ≤ right then right else left).toNat = _
  simp only [UInt32.le_iff_toNat_le]
  split
  all_goals omega

/-- A page of UIDs, both ends included. -/
structure Page where
  lo : UInt32
  hi : UInt32
  deriving DecidableEq

/-- The sequence set that asks for a page. -/
def Page.seqStr (page : Page) : String :=
  page.lo.toNat.repr ++ ":" ++ page.hi.toNat.repr

/-- The UIDs of a page. -/
def Page.stretch (page : Page) : Stretch := ⟨page.lo.toNat, page.hi.toNat⟩

/-- What the search uses of the protocol crate and of its session. -/
structure Session (SequenceSet σ : Type) where
  /-- `SequenceSet::try_from`, or the reason against the text. -/
  tryFrom : String → Except String SequenceSet
  /-- `uid_search` for the UIDs of a sequence set. -/
  uidSearch : SequenceSet → σ → Except StoreError (List UInt32) × σ

/-- What a search returns and leaves, and what it did. -/
structure Search (σ : Type) where
  /-- The UIDs found, and the lowest UID searched. -/
  result : Except StoreError (Finset UInt32 × UInt32)
  /-- The pages asked for, in order, the one that failed included. -/
  asked : List Page
  session : σ

/-- The search that asked for one more page first. -/
def Search.after {σ : Type} (page : Page) (search : Search σ) : Search σ :=
  { search with asked := page :: search.asked }

/-- The lowest UID of the page that ends at `hi`. -/
def pageLo (span hi : UInt32) : UInt32 :=
  max (saturatingSub hi (saturatingSub span 1)) 1

section Model

variable {SequenceSet σ : Type} (session : Session SequenceSet σ)

/-- One page: the sequence set it needs, then the UID SEARCH. -/
def askPage (page : Page) (state : σ) : Except StoreError (List UInt32) × σ :=
  match session.tryFrom page.seqStr with
  | .error reason =>
      (.error (.invalidInput
        ("invalid sequence set " ++ page.seqStr ++ ": " ++ reason)), state)
  | .ok set => session.uidSearch set state

/-- The loop of `search_paged`, at most `left` more pages. -/
def pages (want : Nat) (span : UInt32) :
    Nat → UInt32 → UInt32 → Finset UInt32 → UInt32 → σ → Search σ
  | 0, _, _, found, searchedLo, state => ⟨.ok (found, searchedLo), [], state⟩
  | left + 1, lo, hi, found, _, state =>
      match askPage session ⟨lo, hi⟩ state with
      | (.error error, state) => ⟨.error error, [⟨lo, hi⟩], state⟩
      | (.ok uids, state) =>
          let found := found ∪ uids.toFinset
          if want ≤ found.card ∨ lo ≤ 1 then
            ⟨.ok (found, lo), [⟨lo, hi⟩], state⟩
          else
            let next := saturatingSub lo 1
            if next = 0 then ⟨.ok (found, lo), [⟨lo, hi⟩], state⟩
            else
              (pages want span left (pageLo span next) next found lo
                state).after ⟨lo, hi⟩

/-- SEARCH UID space backwards from `top`, paging down until `want` UIDs are
known or UID 1 is reached. -/
def searchPaged (top : UInt32) (want : Nat) (span : UInt32) (state : σ) :
    Search σ :=
  let span := max span 1
  pages session want span searchPageLimit (pageLo span top) top ∅ (max top 1)
    state

end Model

section Served

variable {SequenceSet σ : Type} {session : Session SequenceSet σ}
  {server : Finset UInt32}

/-- The crate reads `lo:hi` as a sequence set, and an answer to it lists the
server's UIDs from `lo` to `hi`, in whatever order. -/
structure Session.Serves (session : Session SequenceSet σ)
    (server : Finset UInt32) : Prop where
  answers : ∀ page : Page, 1 ≤ page.lo → page.lo ≤ page.hi →
    ∃ set, session.tryFrom page.seqStr = .ok set ∧
      ∀ state uids, (session.uidSearch set state).1 = .ok uids →
        ∀ uid, uid ∈ uids ↔ uid ∈ server ∧ page.lo ≤ uid ∧ uid ≤ page.hi

/-- A UID SEARCH of the session can fail so. -/
def Session.Fails (session : Session SequenceSet σ) (error : StoreError) :
    Prop :=
  ∃ set state, (session.uidSearch set state).1 = .error error

theorem holds_stretch {page : Page} {uid : UInt32} :
    page.stretch.Holds uid.toNat ↔ page.lo ≤ uid ∧ uid ≤ page.hi := by
  rw [UInt32.le_iff_toNat_le, UInt32.le_iff_toNat_le]
  exact Iff.rfl

/-- A page is answered with what the server has there, or the session fails. -/
theorem Session.Serves.askPage (serves : session.Serves server) (page : Page)
    (positive : 1 ≤ page.lo) (order : page.lo ≤ page.hi) (state : σ) :
    match (askPage session page state).1 with
    | .ok uids => ∀ uid : UInt32,
        uid ∈ uids ↔ uid ∈ server ∧ page.stretch.Holds uid.toNat
    | .error error => session.Fails error := by
  obtain ⟨set, reads, answers⟩ := serves.answers page positive order
  unfold Paged.askPage
  rw [reads]
  dsimp only
  cases answer : (session.uidSearch set state).1 with
  | error error => exact ⟨set, state, answer⟩
  | ok uids =>
      intro uid
      rw [holds_stretch]
      exact answers state uids answer uid

theorem one_le_pageLo (span hi : UInt32) : 1 ≤ pageLo span hi := by
  unfold pageLo
  rw [UInt32.le_iff_toNat_le, toNat_max]
  exact Nat.le_max_right _ _

theorem pageLo_le {span hi : UInt32} (positive : 1 ≤ hi) :
    pageLo span hi ≤ hi := by
  unfold pageLo
  rw [UInt32.le_iff_toNat_le] at positive ⊢
  rw [toNat_max, toNat_saturatingSub]
  omega

/-- The pages of a search tile the UIDs from a bottom up to the page they
began with.  A search that succeeds found what the server has in them. -/
structure Covers (session : Session SequenceSet σ) (server : Finset UInt32)
    (want left : Nat) (found : Finset UInt32) (past : Nat)
    (search : Search σ) (bottom : UInt32) : Prop where
  positive : 1 ≤ bottom
  asks : left = 0 ∨ bottom.toNat < past
  tiles : Tiles (search.asked.map Page.stretch) bottom.toNat past
  allowance : search.asked.length ≤ left
  returns : ∀ all lo, search.result = .ok (all, lo) →
    lo = bottom ∧
      (∀ uid, uid ∈ all ↔ uid ∈ found ∨ uid ∈ server ∧
        bottom.toNat ≤ uid.toNat ∧ uid.toNat < past) ∧
      (want ≤ all.card ∨ bottom = 1 ∨ search.asked.length = left)
  fails : ∀ error, search.result = .error error → session.Fails error

/-- The allowance used up: what was found so far is all. -/
theorem covers_done {want : Nat} {found : Finset UInt32} {searchedLo : UInt32}
    {past : Nat} {state : σ} (positive : 1 ≤ searchedLo)
    (reached : searchedLo.toNat = past) :
    Covers session server want 0 found past
      ⟨.ok (found, searchedLo), [], state⟩ searchedLo where
  positive := positive
  asks := .inl rfl
  tiles := reached ▸ .nil _
  allowance := Nat.le_refl 0
  returns := by
    rintro all lo returned
    cases returned
    refine ⟨rfl, fun uid => ⟨.inl, ?_⟩, .inr (.inr rfl)⟩
    rintro (already | ⟨_, above, below⟩)
    · exact already
    · omega
  fails := nofun

/-- A page whose search failed. -/
theorem covers_failed {want left : Nat} {found : Finset UInt32}
    {error : StoreError} {state : σ} (page : Page)
    (positive : 1 ≤ page.lo) (order : page.lo ≤ page.hi)
    (fails : session.Fails error) :
    Covers session server want (left + 1) found (page.hi.toNat + 1)
      ⟨.error error, [page], state⟩ page.lo where
  positive := positive
  asks := .inr (Nat.lt_succ_of_le (UInt32.le_iff_toNat_le.mp order))
  tiles := .one _ _ (UInt32.le_iff_toNat_le.mp order)
  allowance := Nat.succ_le_succ (Nat.zero_le left)
  returns := nofun
  fails := by
    rintro _ failed
    cases failed
    exact fails

/-- The page a search stops at. -/
theorem covers_last {want left : Nat} {found : Finset UInt32}
    {uids : List UInt32} {state : σ} (page : Page)
    (positive : 1 ≤ page.lo) (order : page.lo ≤ page.hi)
    (answered : ∀ uid : UInt32,
      uid ∈ uids ↔ uid ∈ server ∧ page.stretch.Holds uid.toNat)
    (stops : want ≤ (found ∪ uids.toFinset).card ∨ page.lo ≤ 1) :
    Covers session server want (left + 1) found (page.hi.toNat + 1)
      ⟨.ok (found ∪ uids.toFinset, page.lo), [page], state⟩ page.lo where
  positive := positive
  asks := .inr (Nat.lt_succ_of_le (UInt32.le_iff_toNat_le.mp order))
  tiles := .one _ _ (UInt32.le_iff_toNat_le.mp order)
  allowance := Nat.succ_le_succ (Nat.zero_le left)
  returns := by
    rintro all lo returned
    cases returned
    refine ⟨rfl, fun uid => ?_, ?_⟩
    · rw [Finset.mem_union, List.mem_toFinset, answered, Nat.lt_succ_iff]
      exact Iff.rfl
    · exact stops.imp_right fun bottom =>
        .inl (UInt32.le_antisymm bottom positive)
  fails := nofun

/-- One more page on top of a search that begins right below it. -/
theorem Covers.after {want left : Nat} {found : Finset UInt32}
    {uids : List UInt32} {search : Search σ} {bottom : UInt32} (page : Page)
    (order : page.lo ≤ page.hi)
    (answered : ∀ uid : UInt32,
      uid ∈ uids ↔ uid ∈ server ∧ page.stretch.Holds uid.toNat)
    (below : Covers session server want left (found ∪ uids.toFinset)
      page.lo.toNat search bottom) :
    Covers session server want (left + 1) found (page.hi.toNat + 1)
      (search.after page) bottom where
  positive := below.positive
  asks := .inr (Nat.lt_succ_of_le
    (Nat.le_trans below.tiles.low_le (UInt32.le_iff_toNat_le.mp order)))
  tiles := .cons (UInt32.le_iff_toNat_le.mp order) below.tiles
  allowance := Nat.succ_le_succ below.allowance
  returns := by
    rintro all lo returned
    obtain ⟨bottomReturned, members, stops⟩ := below.returns all lo returned
    refine ⟨bottomReturned, fun uid => ?_, ?_⟩
    · have beneath := below.tiles.low_le
      have ordered := UInt32.le_iff_toNat_le.mp order
      have here : page.stretch.Holds uid.toNat ↔
          page.lo.toNat ≤ uid.toNat ∧ uid.toNat ≤ page.hi.toNat := Iff.rfl
      rw [members, Finset.mem_union, List.mem_toFinset, answered, here, or_assoc,
        ← and_or_left]
      refine or_congr_right (and_congr_right fun _ => ?_)
      omega
    · exact stops.imp_right fun rest => rest.imp_right (congrArg (· + 1))
  fails := below.fails

/-- The loop covers what is at or below its first page, page by page. -/
theorem pages_covers (serves : session.Serves server) (want : Nat)
    (span : UInt32) {left : Nat} {lo hi searchedLo : UInt32}
    {found : Finset UInt32} {state : σ}
    (positive : 1 ≤ lo) (order : lo ≤ hi)
    (last : left = 0 → searchedLo.toNat = hi.toNat + 1) :
    ∃ bottom, Covers session server want left found (hi.toNat + 1)
      (pages session want span left lo hi found searchedLo state) bottom := by
  induction left generalizing lo hi searchedLo found state with
  | zero =>
      have reached := last rfl
      refine ⟨searchedLo, covers_done ?_ reached⟩
      rw [UInt32.le_iff_toNat_le, reached]
      exact Nat.le_add_left 1 _
  | succ left inductionHypothesis =>
      unfold pages
      have answered := serves.askPage ⟨lo, hi⟩ positive order state
      generalize askPage session ⟨lo, hi⟩ state = answer at answered ⊢
      rcases answer with ⟨error | uids, state⟩
      · exact ⟨lo, covers_failed ⟨lo, hi⟩ positive order answered⟩
      · dsimp only
        split
        · next stops =>
          exact ⟨lo, covers_last ⟨lo, hi⟩ positive order answered stops⟩
        · next goesOn =>
          have higher : 1 < lo.toNat := by
            have notBottom : ¬lo ≤ 1 := fun bottom => goesOn (.inr bottom)
            rw [UInt32.le_iff_toNat_le] at notBottom
            exact Nat.lt_of_not_le notBottom
          have next : (saturatingSub lo 1).toNat = lo.toNat - 1 :=
            toNat_saturatingSub lo 1
          have nextPositive : 1 ≤ saturatingSub lo 1 := by
            rw [UInt32.le_iff_toNat_le, next]
            exact Nat.le_sub_one_of_lt higher
          have meets : (saturatingSub lo 1).toNat + 1 = lo.toNat := by
            omega
          -- The second test of the loop is never met: `lo` is above 1 here.
          rw [if_neg fun none_ => by
            rw [none_] at nextPositive
            exact absurd nextPositive (by decide)]
          have rest : ∃ bottom, Covers session server want left
              (found ∪ uids.toFinset) ((saturatingSub lo 1).toNat + 1)
              (pages session want span left (pageLo span (saturatingSub lo 1))
                (saturatingSub lo 1) (found ∪ uids.toFinset) lo state) bottom :=
            inductionHypothesis (one_le_pageLo span _)
              (pageLo_le nextPositive) fun _ => meets.symm
          rw [meets] at rest
          obtain ⟨bottom, below⟩ := rest
          exact ⟨bottom, .after ⟨lo, hi⟩ order answered below⟩

/-- What a paged search did and returned, for its lower bound. -/
structure Exact (session : Session SequenceSet σ) (server : Finset UInt32)
    (top : UInt32) (want : Nat) (search : Search σ) (lo : UInt32) : Prop where
  positive : 1 ≤ lo
  le_top : lo ≤ top
  /-- No page is empty or leaves the interval. -/
  bounds : ∀ page ∈ search.asked,
    lo ≤ page.lo ∧ page.lo ≤ page.hi ∧ page.hi ≤ top
  /-- Each page begins right above where the next one ends. -/
  tiles : Tiles (search.asked.map Page.stretch) lo.toNat (top.toNat + 1)
  /-- A UID of the interval is asked for once, any other is not. -/
  once : ∀ uid : UInt32,
    search.asked.countP (fun page => page.lo ≤ uid ∧ uid ≤ page.hi) =
      if lo ≤ uid ∧ uid ≤ top then 1 else 0
  allowance : search.asked.length ≤ searchPageLimit
  /-- A search that succeeds reports the bound and the server's UIDs from there
  on, and had a reason to stop. -/
  returns : ∀ found searchedLo, search.result = .ok (found, searchedLo) →
    searchedLo = lo ∧
      (∀ uid, uid ∈ found ↔ uid ∈ server ∧ lo ≤ uid ∧ uid ≤ top) ∧
      (want ≤ found.card ∨ lo = 1 ∨ search.asked.length = searchPageLimit)
  /-- A search fails as one of its UID SEARCHes does. -/
  fails : ∀ error, search.result = .error error → session.Fails error

/-- A paged search returns exactly the server's UIDs in one interval up to
`top`, which it asked for page by page. -/
theorem searchPaged_exact (serves : session.Serves server) (top : UInt32)
    (want : Nat) (span : UInt32) (state : σ) (positive : 1 ≤ top) :
    ∃ lo, Exact session server top want
      (searchPaged session top want span state) lo := by
  unfold searchPaged
  obtain ⟨lo, covers⟩ := pages_covers serves want (max span 1)
    (one_le_pageLo (max span 1) top) (pageLo_le positive)
    (nofun : searchPageLimit = 0 → _)
  dsimp only at covers ⊢
  generalize pages session want (max span 1) searchPageLimit
    (pageLo (max span 1) top) top ∅ (max top 1) state = search at covers ⊢
  have below : lo ≤ top := by
    rw [UInt32.le_iff_toNat_le]
    exact Nat.le_of_lt_succ (covers.asks.resolve_left nofun)
  refine ⟨lo, covers.positive, below, ?_, covers.tiles, ?_, covers.allowance,
    ?_, covers.fails⟩
  · intro page member
    have within := covers.tiles.within (List.mem_map_of_mem member)
    simp only [UInt32.le_iff_toNat_le]
    exact ⟨within.1, within.2.1, Nat.le_of_lt_succ within.2.2⟩
  · intro uid
    have counted := covers.tiles.countP_holds uid.toNat
    rw [List.countP_map] at counted
    simp only [Nat.lt_succ_iff] at counted
    simp only [UInt32.le_iff_toNat_le]
    refine Eq.trans (List.countP_congr fun page _ => ?_) counted
    rw [Function.comp_apply, decide_eq_true_eq, decide_eq_true_eq]
    exact Iff.rfl
  · intro found searchedLo returned
    obtain ⟨bottom, members, stops⟩ := covers.returns found searchedLo returned
    refine ⟨bottom, fun uid => ?_, stops⟩
    rw [members, UInt32.le_iff_toNat_le, UInt32.le_iff_toNat_le,
      Nat.lt_succ_iff]
    simp

end Served

/-! ## The search inside a sync

A sync works on its UIDs as numbers.  Against one and the same session its
search and the one on `u32` bounds do the same. -/

section Sync

variable {SequenceSet σ : Type} (session : Session SequenceSet σ)
  (chrono : Chrono)

/-- The session as the environment of a program, which only searches. -/
def answering : Responder (signature chrono) σ Unit
  | .search (.range lo hi), _, state =>
      match askPage session ⟨.ofNat lo, .ofNat hi⟩ state with
      | (.error error, state) => (.error error, state)
      | (.ok uids, state) => (.ok (uids.dedup.map UInt32.toNat), state)
  | _, _, state => (.error unusable, state)

/-- The UIDs of a set, as a program lists them. -/
structure Lists (numbers : List Nat) (found : Finset UInt32) : Prop where
  distinct : numbers.Nodup
  members : numbers.toFinset = found.image UInt32.toNat

theorem Lists.length {numbers : List Nat} {found : Finset UInt32}
    (lists : Lists numbers found) : numbers.length = found.card := by
  rw [← List.toFinset_card_of_nodup lists.distinct, lists.members,
    Finset.card_image_of_injective _ fun _ _ => UInt32.toNat_inj.mp]

theorem Lists.union {numbers : List Nat} {found : Finset UInt32}
    (lists : Lists numbers found) (uids : List UInt32) :
    Lists (numbers ∪ uids.dedup.map UInt32.toNat)
      (found ∪ uids.toFinset) where
  distinct := List.Nodup.union _
    (uids.nodup_dedup.map fun _ _ => UInt32.toNat_inj.mp)
  members := by
    ext number
    have old := Finset.ext_iff.mp lists.members number
    simp only [List.mem_toFinset, Finset.mem_image] at old
    simp only [List.mem_toFinset, List.mem_union_iff, old, List.mem_map,
      List.mem_dedup, Finset.mem_image, Finset.mem_union]
    constructor
    · rintro (⟨uid, member, rfl⟩ | ⟨uid, member, rfl⟩)
      · exact ⟨uid, .inl member, rfl⟩
      · exact ⟨uid, .inr member, rfl⟩
    · rintro ⟨uid, member | member, rfl⟩
      · exact .inl ⟨uid, member, rfl⟩
      · exact .inr ⟨uid, member, rfl⟩

/-- The same outcome: the same failure, or the same UIDs and bound. -/
def Same : Except StoreError (List Nat × Nat) →
    Except StoreError (Finset UInt32 × UInt32) → Prop
  | .ok (numbers, low), .ok (found, lo) =>
      Lists numbers found ∧ low = lo.toNat
  | .error left, .error right => left = right
  | _, _ => False

/-- A program's run ends as the search does. -/
def Ends (run : Except StoreError (List Nat × Nat) × (Nat → Unit) × σ)
    (search : Search σ) : Prop :=
  Same run.1 search.result ∧ run.2.2 = search.session

theorem toNat_pageLo (span hi : UInt32) :
    (pageLo span hi).toNat = Imap.pageLo span.toNat hi.toNat := by
  unfold pageLo Imap.pageLo
  rw [toNat_max, toNat_saturatingSub, toNat_saturatingSub]
  rfl

theorem alone_uidSearch (page : Page) (answers : Nat → Unit) (state : σ) :
    Fallible.alone (answering session chrono)
        (uidSearch chrono (.range page.lo.toNat page.hi.toNat)) answers state =
      match askPage session page state with
      | (.error error, state) => (.error error, Stream.rest answers, state)
      | (.ok uids, state) =>
          (.ok (uids.dedup.map UInt32.toNat), Stream.rest answers, state) := by
  have same : (⟨.ofNat page.lo.toNat, .ofNat page.hi.toNat⟩ : Page) = page := by
    rw [UInt32.ofNat_toNat, UInt32.ofNat_toNat]
  have answered : answering session chrono
      (.search (.range page.lo.toNat page.hi.toNat)) (answers 0) state =
      match askPage session page state with
      | (.error error, state) => (.error error, state)
      | (.ok uids, state) => (.ok (uids.dedup.map UInt32.toNat), state) := by
    conv_rhs => rw [← same]
    rfl
  change ((answering session chrono _ _ state).1, Stream.rest answers,
    (answering session chrono _ _ state).2) = _
  rw [answered]
  rcases askPage session page state with ⟨error | uids, state⟩
  · rfl
  · rfl

/-- The pages of a sync are those of the loop; its second test, which the sync
leaves out, is never met. -/
theorem alone_searchPages (want : Nat) (span : UInt32) (left : Nat)
    (lo hi searchedLo : UInt32) {numbers : List Nat} {found : Finset UInt32}
    (lists : Lists numbers found) (answers : Nat → Unit) (state : σ) :
    Ends
      (Fallible.alone (answering session chrono)
        (searchPages chrono want span.toNat left lo.toNat hi.toNat numbers
          searchedLo.toNat) answers state)
      (pages session want span left lo hi found searchedLo state) := by
  induction left generalizing lo hi searchedLo numbers found answers state with
  | zero => exact ⟨⟨lists, rfl⟩, rfl⟩
  | succ left inductionHypothesis =>
      unfold searchPages pages
      rw [Fallible.alone_bind,
        alone_uidSearch session chrono ⟨lo, hi⟩ answers state]
      rcases askPage session ⟨lo, hi⟩ state with ⟨error | uids, state⟩
      · exact ⟨rfl, rfl⟩
      · dsimp only
        have more := lists.union uids
        have bottom : lo.toNat ≤ 1 ↔ lo ≤ 1 := by
          rw [UInt32.le_iff_toNat_le]
          rfl
        rw [more.length, if_congr (or_congr_right bottom) rfl rfl]
        split
        · exact ⟨⟨more, rfl⟩, rfl⟩
        · next goesOn =>
          have next : (saturatingSub lo 1).toNat = lo.toNat - 1 :=
            toNat_saturatingSub lo 1
          have above : saturatingSub lo 1 ≠ 0 := by
            intro none_
            rw [none_, UInt32.toNat_zero] at next
            exact goesOn (.inr (bottom.mp (by omega)))
          rw [if_neg above, ← next, ← toNat_pageLo]
          exact inductionHypothesis _ _ _ more _ _

/-- The search of a sync is the paged search. -/
theorem alone_searchPaged (top : UInt32) (want : Nat) (span : UInt32)
    (answers : Nat → Unit) (state : σ) :
    Ends
      (Fallible.alone (answering session chrono)
        (Imap.searchPaged chrono top.toNat want span.toNat) answers state)
      (searchPaged session top want span state) := by
  have wide : max span.toNat 1 = (max span 1).toNat := (toNat_max span 1).symm
  have begins : max top.toNat 1 = (max top 1).toNat := (toNat_max top 1).symm
  unfold Imap.searchPaged searchPaged
  dsimp only
  rw [wide, begins, ← toNat_pageLo]
  exact alone_searchPages session chrono want _ _ _ _ _
    ⟨List.nodup_nil, rfl⟩ answers state

end Sync

/-! ## A session over a list of UIDs -/

/-- A number that can be a UID. -/
def readUid (text : String) : Option UInt32 :=
  ((Text.readNat text.toList).filter fun value =>
    0 < value ∧ value < 2 ^ 32).map UInt32.ofNat

/-- A sequence set of one range. -/
def readRange (text : String) : Except String (UInt32 × UInt32) :=
  match Text.splitOnce ':' text with
  | none => .error "not a range"
  | some (first, last) =>
      match readUid first, readUid last with
      | some lo, some hi => .ok (lo, hi)
      | _, _ => .error "not a UID"

/-- Reads single ranges, and answers with those of the UIDs in the range. -/
def listing (uids : List UInt32) : Session (UInt32 × UInt32) Unit where
  tryFrom := readRange
  uidSearch range state :=
    (.ok (uids.filter fun uid => range.1 ≤ uid ∧ uid ≤ range.2), state)

theorem readUid_repr {uid : UInt32} (positive : 1 ≤ uid) :
    readUid uid.toNat.repr = some uid := by
  rw [UInt32.le_iff_toNat_le] at positive
  have inRange : 0 < uid.toNat ∧ uid.toNat < 2 ^ 32 :=
    ⟨positive, uid.toNat_lt⟩
  rw [readUid, Text.readNat_repr, Option.filter_some,
    if_pos (decide_eq_true inRange), Option.map_some, UInt32.ofNat_toNat]

/-- A written page is read back. -/
theorem readRange_seqStr {page : Page} (low : 1 ≤ page.lo)
    (high : 1 ≤ page.hi) :
    readRange page.seqStr = .ok (page.lo, page.hi) := by
  have clean : ':' ∉ page.lo.toNat.repr.toList := fun member =>
    absurd (Text.isDigit_of_mem_repr member) (by decide)
  have split : Text.splitOnce ':' page.seqStr =
      some (page.lo.toNat.repr, page.hi.toNat.repr) :=
    Text.splitOnce_join clean _
  rw [readRange, split]
  dsimp only
  rw [readUid_repr low, readUid_repr high]

theorem listing_serves (uids : List UInt32) :
    (listing uids).Serves uids.toFinset where
  answers page positive order := by
    refine ⟨(page.lo, page.hi),
      readRange_seqStr positive (UInt32.le_trans positive order), ?_⟩
    rintro state _ ⟨⟩ uid
    simp

theorem searchPaged_exact_listing :
    ∃ lo, Exact (listing [3, 9, 20]) [3, 9, 20].toFinset 20 2
      (searchPaged (listing [3, 9, 20]) 20 2 8 ()) lo :=
  searchPaged_exact (listing_serves [3, 9, 20]) 20 2 8 () (by decide)

example : (searchPaged (listing [3, 9, 20]) 20 2 8 ()).asked =
    [⟨13, 20⟩, ⟨5, 12⟩] := by decide +kernel

end Paged
end Imap
end Mailcore
