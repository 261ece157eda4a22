import Mailcore.Contacts.Merge

/-!
# What the merge returns

The mail rows are cut before the phone rows are merged in.  The suggestions are
the first rows of the full merge exactly where no row behind the cut would be
lifted in front of it, and a shared address never loses where mail matches it as
well as the phone does.
-/

namespace Mailcore
namespace Contacts

open Data (ahead)
open Html (trim)
open Relational

/-! ## The order of suggestions -/

theorem byScoreThenUse_iff {first second : Int × Contact} :
    byScoreThenUse first second = true ↔ rankKey second ≤ rankKey first :=
  decide_eq_true_iff

theorem byScoreThenUse_eq_false {first second : Int × Contact} :
    byScoreThenUse first second = false ↔ rankKey first < rankKey second := by
  rw [← Bool.not_eq_true, byScoreThenUse_iff, not_le]

theorem byScoreThenUse_trans (first second third : Int × Contact)
    (above : byScoreThenUse first second) (below : byScoreThenUse second third) :
    byScoreThenUse first third := by
  rw [byScoreThenUse_iff] at above below ⊢
  exact below.trans above

theorem byScoreThenUse_total (first second : Int × Contact) :
    (byScoreThenUse first second || byScoreThenUse second first) = true := by
  rw [Bool.or_eq_true, byScoreThenUse_iff, byScoreThenUse_iff]
  exact le_total _ _

theorem rankKey_le_iff {first second : Int × Contact} :
    rankKey first ≤ rankKey second ↔ first.1 < second.1 ∨ first.1 = second.1 ∧
      (first.2.timesSeen < second.2.timesSeen ∨ first.2.timesSeen = second.2.timesSeen ∧
        first.2.lastSeenAt ≤ second.2.lastSeenAt) := by
  rw [rankKey, rankKey, Prod.Lex.toLex_le_toLex]
  dsimp only
  rw [Prod.Lex.toLex_le_toLex]

/-- A row whose contact was used as another's ranks by its score. -/
theorem rankKey_le_of_score {first second : Int × Contact} (score : first.1 ≤ second.1)
    (seen : first.2.timesSeen = second.2.timesSeen)
    (last : first.2.lastSeenAt = second.2.lastSeenAt) : rankKey first ≤ rankKey second := by
  rw [rankKey_le_iff]
  rcases lt_or_eq_of_le score with less | same
  · exact .inl less
  · exact .inr ⟨same, .inr ⟨seen, last.le⟩⟩

theorem rankKey_lt_of_seen {first second : Int × Contact} (score : first.1 ≤ second.1)
    (seen : first.2.timesSeen < second.2.timesSeen) : rankKey first < rankKey second := by
  rw [← not_le, rankKey_le_iff]
  omega

/-! ## Ranked rows -/

section Ranked

variable {unicode : Unicode} {q : List Char} {candidates : List Contact} {fromPhone : Bool}

theorem mem_ranked {row : Int × Contact} :
    row ∈ ranked unicode q candidates fromPhone ↔ row.2 ∈ candidates ∧
      ∃ score, matchScore unicode q row.2 = some score ∧
        row.1 = score + if fromPhone then PHONE_WEIGHT else 0 := by
  rw [ranked, List.mem_mergeSort, List.mem_filterMap]
  constructor
  · rintro ⟨contact, member, scored⟩
    obtain ⟨score, found, rfl⟩ := Option.map_eq_some_iff.mp scored
    exact ⟨member, score, found, rfl⟩
  · rintro ⟨member, score, found, same⟩
    refine ⟨row.2, member, ?_⟩
    rw [found, Option.map_some, ← same]

theorem pairwise_ranked :
    (ranked unicode q candidates fromPhone).Pairwise (byScoreThenUse · ·) :=
  List.pairwise_mergeSort byScoreThenUse_trans byScoreThenUse_total _

theorem length_ranked_le : (ranked unicode q candidates fromPhone).length ≤ candidates.length := by
  rw [ranked, List.length_mergeSort]
  exact List.length_filterMap_le _ _

theorem keys_ranked_perm : (keys (ranked unicode q candidates fromPhone)).Perm
    ((candidates.filter fun contact => (matchScore unicode q contact).isSome).map key) := by
  rw [keys, ranked]
  refine ((List.mergeSort_perm _ _).map _).trans ?_
  rw [List.map_filterMap, ← List.filterMap_eq_map', List.filterMap_filter]
  refine List.Perm.of_eq (List.filterMap_congr fun contact _ => ?_)
  cases matchScore unicode q contact <;> rfl

/-- Rows that are in order already are scored again as they were. -/
theorem ranked_map_snd {rows : List (Int × Contact)}
    (sorted : rows.Pairwise (byScoreThenUse · ·))
    (scored : ∀ row ∈ rows, matchScore unicode q row.2 = some row.1) :
    ranked unicode q (rows.map Prod.snd) false = rows := by
  have same : (rows.map Prod.snd).filterMap (fun contact =>
      (matchScore unicode q contact).map fun score =>
        (score + (if false = true then PHONE_WEIGHT else 0), contact)) = rows := by
    rw [List.filterMap_map]
    conv_rhs => rw [← List.filterMap_some (l := rows)]
    refine List.filterMap_congr fun row member => ?_
    rw [Function.comp_apply, scored row member]
    simp
  rw [ranked, same]
  exact List.mergeSort_of_pairwise sorted

theorem ranked_take (limit : Nat) :
    ranked unicode q (((ranked unicode q candidates false).take limit).map Prod.snd) false =
      (ranked unicode q candidates false).take limit := by
  refine ranked_map_snd (pairwise_ranked.sublist (List.take_sublist _ _)) fun row member => ?_
  obtain ⟨-, score, found, same⟩ := mem_ranked.mp (List.mem_of_mem_take member)
  rw [found, same]
  simp

end Ranked

/-! ## The rows of the merge -/

theorem find_phoneRow {phone : List (Int × Contact)} {row phoneRow : Int × Contact}
    (phoneDistinct : (keys phone).Nodup) (member : phoneRow ∈ phone)
    (same : key row.2 = key phoneRow.2) : lifted phone row = lift row phoneRow.2 := by
  obtain ⟨front, back, rfl⟩ := List.append_of_mem member
  rw [keys_append, keys_cons, List.nodup_append] at phoneDistinct
  have missing : front.find? (fun other => key other.2 = key row.2) = none := by
    rw [List.find?_eq_none]
    intro other inside equal
    exact phoneDistinct.2.2 _ (mem_keys.mpr ⟨other, inside, rfl⟩) _ List.mem_cons_self
      ((of_decide_eq_true equal).trans same)
  rw [lifted, List.find?_append, missing]
  simp [same]

/-- What is known of the use of a contact. -/
def Contact.SameHistory (first second : Contact) : Prop :=
  first.address = second.address ∧ first.alias_ = second.alias_ ∧
    first.timesSeen = second.timesSeen ∧ first.sentCount = second.sentCount ∧
      first.lastSeenAt = second.lastSeenAt

theorem sameHistory_fillName (contact : Contact) (name : Option (List Char)) :
    (fillName contact name).SameHistory contact := by
  unfold fillName
  split_ifs <;> exact ⟨rfl, rfl, rfl, rfl, rfl⟩

theorem sameHistory_lifted (phone : List (Int × Contact)) (row : Int × Contact) :
    (lifted phone row).2.SameHistory row.2 := by
  unfold lifted
  split
  · exact sameHistory_fillName _ _
  · exact ⟨rfl, rfl, rfl, rfl, rfl⟩

theorem rankKey_le_lifted (phone : List (Int × Contact)) (row : Int × Contact) :
    rankKey row ≤ rankKey (lifted phone row) := by
  obtain ⟨-, -, seen, -, last⟩ := sameHistory_lifted phone row
  refine rankKey_le_of_score ?_ seen.symm last.symm
  unfold lifted
  split
  · exact Int.le_add_of_nonneg_right (by decide)
  · exact le_rfl

/-- An address of several rows belongs to one of them. -/
theorem eq_of_key {rows : List (Int × Contact)} (distinct : (keys rows).Nodup)
    {first second : Int × Contact} (here : first ∈ rows) (there : second ∈ rows)
    (same : key first.2 = key second.2) : first = second :=
  List.inj_on_of_nodup_map distinct here there same

theorem mergedRows_append_cons (front back phone : List (Int × Contact)) (row : Int × Contact) :
    mergedRows (front ++ row :: back) phone = front.map (lifted phone) ++ lifted phone row ::
      (back.map (lifted phone) ++ phone.filter (unknown (front ++ row :: back))) := by
  rw [mergedRows, List.map_append, List.map_cons, List.append_assoc]
  rfl

theorem key_mem_iff (mail phone : List (Int × Contact)) (address : List Char) :
    address ∈ keys (mergedRows mail phone) ↔ address ∈ keys mail ∨ address ∈ keys phone := by
  rw [mergedRows, keys_append, keys_map_lifted, List.mem_append]
  constructor
  · rintro (inside | outside)
    · exact .inl inside
    · obtain ⟨row, member, rfl⟩ := mem_keys.mp outside
      exact .inr (mem_keys.mpr ⟨row, (List.mem_filter.mp member).1, rfl⟩)
  · rintro (inside | outside)
    · exact .inl inside
    · by_cases known : address ∈ keys mail
      · exact .inl known
      · obtain ⟨row, member, rfl⟩ := mem_keys.mp outside
        exact .inr (mem_keys.mpr ⟨row, List.mem_filter.mpr ⟨member, unknown_iff.mpr known⟩, rfl⟩)

/-! ## The cut -/

/-- The full merge, best first. -/
def fullMerge (mail phone : List (Int × Contact)) : List (Int × Contact) :=
  (mergeRows mail phone).mergeSort byScoreThenUse

/-- Mail rows and phone rows whose merge does not depend on the cut of the mail
rows and loses no rank. -/
structure Mergeable (mail phone : List (Int × Contact)) (limit : Nat) : Prop where
  /-- No two mail rows have the same address in another case. -/
  distinct : (keys mail).Nodup
  /-- The phone's row of an address scores no more than the mail row does with
  the phone's weight. -/
  bounded : ∀ row ∈ mail, ∀ phoneRow ∈ phone, key row.2 = key phoneRow.2 →
    phoneRow.1 ≤ row.1 + PHONE_WEIGHT
  /-- Enough rows rank above a row behind the cut, even with the phone's
  weight. -/
  settled : ∀ front row back, mail = front ++ row :: back → limit ≤ front.length →
    key row.2 ∈ keys phone → limit ≤ ahead byScoreThenUse (front.map (lifted phone))
      (lifted phone row) (back.map (lifted phone) ++ phone.filter (unknown mail))

section Cut

variable {mail phone : List (Int × Contact)} {limit : Nat}
  (phoneDistinct : (keys phone).Nodup)
  (sorted : mail.Pairwise (byScoreThenUse · ·))
  (seen : ∀ row ∈ mail, 0 < row.2.timesSeen)
  (fresh : ∀ phoneRow ∈ phone, phoneRow.2.Fresh)

/-- A row whose address is not behind the cut. -/
def inFront (mail : List (Int × Contact)) (limit : Nat) (row : Int × Contact) : Bool :=
  !(keys (mail.drop limit)).contains (key row.2)

theorem inFront_iff {row : Int × Contact} :
    inFront mail limit row = true ↔ key row.2 ∉ keys (mail.drop limit) := by
  simp [inFront]

theorem filter_lifted (distinct : (keys mail).Nodup) :
    (mail.map (lifted phone)).filter (inFront mail limit) = (mail.take limit).map (lifted phone) := by
  have parts := distinct
  rw [← List.take_append_drop limit mail, keys_append, List.nodup_append] at parts
  conv_lhs => rw [← List.take_append_drop limit mail]
  rw [List.map_append, List.filter_append, List.filter_eq_self.mpr ?_,
    List.filter_eq_nil_iff.mpr ?_, List.append_nil]
  · intro row member
    obtain ⟨source, inside, rfl⟩ := List.mem_map.mp member
    rw [List.take_append_drop, inFront_iff, key_lifted, not_not]
    exact mem_keys.mpr ⟨source, inside, rfl⟩
  · intro row member
    obtain ⟨source, inside, rfl⟩ := List.mem_map.mp member
    rw [List.take_append_drop, inFront_iff, key_lifted]
    exact fun behind => parts.2.2 _ (mem_keys.mpr ⟨source, inside, rfl⟩) _ behind rfl

theorem mem_keys_iff_cut (mail : List (Int × Contact)) (limit : Nat) (address : List Char) :
    address ∈ keys mail ↔ address ∈ keys (mail.take limit) ∨ address ∈ keys (mail.drop limit) := by
  rw [← List.mem_append, ← keys_append, List.take_append_drop]

theorem filter_unknown : (phone.filter (unknown (mail.take limit))).filter (inFront mail limit) =
    phone.filter (unknown mail) := by
  rw [List.filter_filter]
  refine List.filter_congr fun row _ => ?_
  rw [Bool.eq_iff_iff, Bool.and_eq_true, inFront_iff, unknown_iff, unknown_iff,
    mem_keys_iff_cut mail limit, not_or, and_comm]

/-- The merge of the cut mail rows and the full one differ in rows whose
address is behind the cut. -/
theorem filter_mergedRows (distinct : (keys mail).Nodup) :
    (mergedRows (mail.take limit) phone).filter (inFront mail limit) =
      (mergedRows mail phone).filter (inFront mail limit) := by
  have parts := distinct
  rw [← List.take_append_drop limit mail, keys_append, List.nodup_append] at parts
  have kept : ∀ row ∈ (mail.take limit).map (lifted phone), inFront mail limit row = true := by
    intro row member
    obtain ⟨source, inside, rfl⟩ := List.mem_map.mp member
    rw [inFront_iff, key_lifted]
    exact fun behind => parts.2.2 _ (mem_keys.mpr ⟨source, inside, rfl⟩) _ behind rfl
  have apart : ∀ row ∈ phone.filter (unknown mail), inFront mail limit row = true := by
    intro row member
    have absent := unknown_iff.mp (List.mem_filter.mp member).2
    rw [mem_keys_iff_cut mail limit, not_or] at absent
    exact inFront_iff.mpr absent.2
  rw [mergedRows, List.filter_append, filter_unknown, List.filter_eq_self.mpr kept, mergedRows,
    List.filter_append, filter_lifted distinct, List.filter_eq_self.mpr apart]

/-- Rows behind the cut are not among the first of the full merge. -/
theorem inFront_of_mem_fullMerge (mergeable : Mergeable mail phone limit) {row : Int × Contact}
    (phoneDistinct : (keys phone).Nodup) (sorted : mail.Pairwise (byScoreThenUse · ·))
    (member : row ∈ ((mergedRows mail phone).mergeSort byScoreThenUse).take limit) :
    inFront mail limit row = true := by
  rw [inFront_iff]
  intro behind
  have inside := List.mem_mergeSort.mp (List.mem_of_mem_take member)
  have nodup : (mergedRows mail phone).Nodup :=
    (nodup_keys_mergedRows mergeable.distinct phoneDistinct).of_map _
  obtain ⟨source, late, same⟩ := mem_keys.mp behind
  have known : lifted phone source ∈ mergedRows mail phone :=
    List.mem_append_left _ (List.mem_map_of_mem (List.mem_of_mem_drop late))
  have equal : row = lifted phone source :=
    eq_of_key (nodup_keys_mergedRows mergeable.distinct phoneDistinct) inside known
      (by rw [key_lifted, same])
  subst equal
  -- the cut has taken its full number, since a row is left behind it
  obtain ⟨early, back, shape⟩ := List.append_of_mem late
  have whole : mail = (mail.take limit ++ early) ++ source :: back := by
    rw [List.append_assoc, ← shape, List.take_append_drop]
  have long : (mail.take limit).length = limit := by
    refine List.length_take_of_le ?_
    by_contra short
    rw [List.drop_of_length_le (Nat.le_of_not_le short)] at late
    cases late
  have enough : limit ≤ ahead byScoreThenUse ((mail.take limit ++ early).map (lifted phone))
      (lifted phone source) (back.map (lifted phone) ++ phone.filter (unknown mail)) := by
    by_cases shared : key source.2 ∈ keys phone
    · refine mergeable.settled _ source back whole ?_ shared
      rw [List.length_append, long]
      exact Nat.le_add_right _ _
    · have above : ∀ other ∈ (mail.take limit).map (lifted phone),
          byScoreThenUse other (lifted phone source) = true := by
        intro other inside
        obtain ⟨first, early, rfl⟩ := List.mem_map.mp inside
        rw [lifted_of_notMem shared]
        have ranked_ := sorted
        rw [← List.take_append_drop limit mail] at ranked_
        have before := (List.pairwise_append.mp ranked_).2.2 first early source late
        rw [byScoreThenUse_iff] at before ⊢
        exact before.trans (rankKey_le_lifted phone first)
      have counted : ((mail.take limit).map (lifted phone)).countP
          (byScoreThenUse · (lifted phone source)) = limit := by
        rw [List.countP_eq_length.mpr above, List.length_map, long]
      rw [ahead, List.map_append, List.countP_append, counted, Nat.add_assoc]
      exact Nat.le_add_right _ _
  have split := mergedRows_append_cons (mail.take limit ++ early) back phone source
  rw [← whole] at split
  rw [split] at member nodup
  exact absurd ((Data.mem_take_mergeSort byScoreThenUse_trans byScoreThenUse_total nodup).mp member)
    (Nat.not_lt.mpr enough)

/-- A phone row whose address is behind the cut is not among the first of the
cut merge. -/
theorem inFront_of_mem_cut (mergeable : Mergeable mail phone limit) {row : Int × Contact}
    (phoneDistinct : (keys phone).Nodup) (sorted : mail.Pairwise (byScoreThenUse · ·))
    (seen : ∀ row ∈ mail, 0 < row.2.timesSeen) (fresh : ∀ phoneRow ∈ phone, phoneRow.2.Fresh)
    (member : row ∈ ((mergedRows (mail.take limit) phone).mergeSort byScoreThenUse).take limit) :
    inFront mail limit row = true := by
  by_contra behind
  have inside := List.mem_mergeSort.mp (List.mem_of_mem_take member)
  have cutDistinct : (keys (mail.take limit)).Nodup :=
    mergeable.distinct.sublist ((List.take_sublist _ _).map _)
  have cutNodup : (mergedRows (mail.take limit) phone).Nodup :=
    (nodup_keys_mergedRows cutDistinct phoneDistinct).of_map _
  have wholeNodup : (mergedRows mail phone).Nodup :=
    (nodup_keys_mergedRows mergeable.distinct phoneDistinct).of_map _
  have same : (mergedRows (mail.take limit) phone).filter (inFront mail limit) =
      (mergedRows mail phone).filter (inFront mail limit) := filter_mergedRows mergeable.distinct
  rw [inFront_iff, not_not] at behind
  obtain ⟨source, late, equal⟩ := mem_keys.mp behind
  have known := List.mem_of_mem_drop late
  have foreign : row ∈ phone := by
    rcases List.mem_append.mp inside with leading | other
    · obtain ⟨first, early, rfl⟩ := List.mem_map.mp leading
      have parts := mergeable.distinct
      rw [← List.take_append_drop limit mail, keys_append, List.nodup_append] at parts
      rw [key_lifted] at behind
      exact absurd rfl (parts.2.2 _ (mem_keys.mpr ⟨first, early, rfl⟩) _ behind)
    · exact (List.mem_filter.mp other).1
  have lift_ := find_phoneRow phoneDistinct foreign equal
  -- the row that mail has of this address ranks above it
  have lower : rankKey row < rankKey (lifted phone source) := by
    obtain ⟨-, -, use, -, -⟩ := sameHistory_lifted phone source
    refine rankKey_lt_of_seen ?_ ?_
    · rw [lift_]
      exact mergeable.bounded source known row foreign equal
    · rw [use, (fresh row foreign).2.1]
      exact seen source known
  have long : limit < mail.length := by
    by_contra short
    rw [List.drop_of_length_le (Nat.le_of_not_lt short)] at late
    cases late
  have full : (((mergedRows mail phone).mergeSort byScoreThenUse).take limit).length = limit := by
    refine List.length_take_of_le ?_
    rw [List.length_mergeSort, mergedRows, List.length_append, List.length_map]
    exact Nat.le_trans long.le (Nat.le_add_right _ _)
  have cut : lifted phone source ∉ ((mergedRows mail phone).mergeSort byScoreThenUse).take limit := by
    intro leads
    have clear := inFront_of_mem_fullMerge mergeable phoneDistinct sorted leads
    rw [inFront_iff, key_lifted] at clear
    exact clear (mem_keys.mpr ⟨source, late, rfl⟩)
  refine Data.notMem_take_of_below byScoreThenUse_trans byScoreThenUse_total cutNodup inside
    ?_ (fun other leads => ?_) full.ge (fun other leads => ?_) member
  · exact ((List.mergeSort_perm _ _).nodup_iff.mpr wholeNodup).sublist (List.take_sublist _ _)
  · have clear := inFront_of_mem_fullMerge mergeable phoneDistinct sorted leads
    have whole := List.mem_mergeSort.mp (List.mem_of_mem_take leads)
    have kept := List.mem_filter.mpr ⟨whole, clear⟩
    rw [← same] at kept
    exact (List.mem_filter.mp kept).1
  · have above := Data.le_of_mem_take_mergeSort byScoreThenUse_trans byScoreThenUse_total leads
      (List.mem_append_left _ (List.mem_map_of_mem known)) cut
    rw [byScoreThenUse_iff] at above
    exact byScoreThenUse_eq_false.mpr (lower.trans_le above)

/-- The first rows of the merge are those of the full merge. -/
theorem take_mergedRows_cut (mergeable : Mergeable mail phone limit)
    (phoneDistinct : (keys phone).Nodup) (sorted : mail.Pairwise (byScoreThenUse · ·))
    (seen : ∀ row ∈ mail, 0 < row.2.timesSeen) (fresh : ∀ phoneRow ∈ phone, phoneRow.2.Fresh) :
    ((mergedRows (mail.take limit) phone).mergeSort byScoreThenUse).take limit =
      ((mergedRows mail phone).mergeSort byScoreThenUse).take limit := by
  have cut := Data.take_mergeSort_filter byScoreThenUse_trans byScoreThenUse_total fun _ member =>
    inFront_of_mem_cut mergeable phoneDistinct sorted seen fresh member
  have whole := Data.take_mergeSort_filter byScoreThenUse_trans byScoreThenUse_total fun _ member =>
    inFront_of_mem_fullMerge mergeable phoneDistinct sorted member
  rw [← cut, ← whole, filter_mergedRows mergeable.distinct]

end Cut

/-! ## The suggestions -/

/-- All mail rows for a query, best first. -/
def mailRows (unicode : Unicode) (contacts : Collected) (q : List Char) :
    Except LikeError (List (Int × Contact)) :=
  (suggest unicode contacts.rows q contacts.rows.length).map fun found =>
    ranked unicode q found false

/-- The suggestions are the first rows of the full merge, which has each address
once; a shared address keeps the mail row's history and ranks no lower than
either source alone puts it. -/
structure Merged (unicode : Unicode) (contacts : Collected) (phone : PhoneBook)
    (query : List Char) (limit : Nat) : Prop where
  first : suggestWithPhone unicode contacts phone query limit =
    (mailRows unicode contacts (trim query)).map fun mail =>
      ((fullMerge mail (ranked unicode (trim query) phone.rows true)).take limit).map Prod.snd
  once : ∀ mail, mailRows unicode contacts (trim query) = .ok mail →
    (keys (fullMerge mail (ranked unicode (trim query) phone.rows true))).Nodup ∧
      ∀ address, address ∈ keys (fullMerge mail (ranked unicode (trim query) phone.rows true)) ↔
        address ∈ keys mail ∨ address ∈ keys (ranked unicode (trim query) phone.rows true)
  known : ∀ mail, mailRows unicode contacts (trim query) = .ok mail →
    ∀ row ∈ mail, ∀ phoneRow ∈ ranked unicode (trim query) phone.rows true,
      key row.2 = key phoneRow.2 →
        ∃ shared ∈ fullMerge mail (ranked unicode (trim query) phone.rows true),
          shared.2.SameHistory row.2 ∧ rankKey row ≤ rankKey shared ∧
            rankKey phoneRow ≤ rankKey shared

theorem suggest_cases (unicode : Unicode) (contacts : List Contact) {q : List Char}
    (bare : trim q = q) (typed : q ≠ []) :
    (∃ kept : List Contact, kept.Sublist contacts ∧
      ∀ limit, suggest unicode contacts q limit = .ok (rank unicode q kept limit)) ∨
    ∀ limit, suggest unicode contacts q limit = .error .tooComplex := by
  have typed_ : trim q ≠ [] := by rwa [bare]
  by_cases fits : Fits (subsequencePattern unicode (trim q))
  · have found := suggest_of_fits typed_ fits contacts
    simp only [bare] at found
    exact .inl ⟨_, List.filter_sublist, found⟩
  · cases contacts with
    | nil =>
        refine .inl ⟨[], List.Sublist.refl [], fun limit => ?_⟩
        unfold suggest
        dsimp only
        rw [if_neg typed_, bare]
        rfl
    | cons first others => exact .inr (suggest_of_not_fits typed_ fits first others)

/-- The mail rows, and the suggestions from mail as their first ones. -/
theorem mailRows_cases (unicode : Unicode) (contacts : Collected) {q : List Char}
    (bare : trim q = q) (typed : q ≠ []) :
    (∃ kept : List Contact, kept.Sublist contacts.rows ∧
      mailRows unicode contacts q = .ok (ranked unicode q kept false) ∧
      ∀ limit, suggest unicode contacts.rows q limit =
        .ok (((ranked unicode q kept false).take limit).map Prod.snd)) ∨
    mailRows unicode contacts q = .error .tooComplex ∧
      ∀ limit, suggest unicode contacts.rows q limit = .error .tooComplex := by
  rcases suggest_cases unicode contacts.rows bare typed with ⟨kept, within, found⟩ | failed
  · refine .inl ⟨kept, within, ?_, found⟩
    have wide : (ranked unicode q kept false).length ≤ contacts.rows.length :=
      Nat.le_trans length_ranked_le within.length_le
    rw [mailRows, found, Except.map, rank, ranked_take, List.take_of_length_le wide]
  · refine .inr ⟨?_, failed⟩
    rw [mailRows, failed, Except.map]

theorem mergeRows_nil (mail : List (Int × Contact)) : mergeRows mail [] = mail :=
  rfl

theorem suggestWithPhone_eq (unicode : Unicode) (contacts : Collected) (phone : PhoneBook)
    {query : List Char} (typed : trim query ≠ []) (limit : Nat) :
    suggestWithPhone unicode contacts phone query limit =
      (mailRows unicode contacts (trim query)).map fun mail =>
        mergePhone (mail.take limit) (ranked unicode (trim query) phone.rows true) limit := by
  have bare : trim (trim query) = trim query := Text.strip_strip _ _
  unfold suggestWithPhone
  dsimp only
  rw [if_neg typed]
  rcases mailRows_cases unicode contacts bare typed with ⟨kept, -, rows, found⟩ | ⟨rows, failed⟩
  · rw [rows, found, Except.map]
    by_cases empty : phone.rows = []
    · have sorted : ((ranked unicode (trim query) kept false).take limit).Pairwise
          (byScoreThenUse · ·) := pairwise_ranked.sublist (List.take_sublist limit _)
      have none_ : ranked unicode (trim query) [] true = [] := by simp [ranked]
      rw [if_pos empty, empty, none_, mergePhone, mergeRows_nil, List.mergeSort_of_pairwise sorted,
        List.take_take, Nat.min_self]
    · rw [if_neg empty]
      change Except.ok (mergePhone (ranked unicode (trim query) _ false) _ limit) = _
      rw [ranked_take]
  · rw [rows, failed, Except.map]
    split_ifs <;> rfl

/-! ## When the merge is the full one -/

theorem fullMerge_eq {mail phone : List (Int × Contact)} (distinct : (keys mail).Nodup)
    (phoneDistinct : (keys phone).Nodup) :
    fullMerge mail phone = (mergedRows mail phone).mergeSort byScoreThenUse := by
  rw [fullMerge, mergeRows_eq distinct phoneDistinct]

theorem keys_fullMerge_perm (mail phone : List (Int × Contact)) :
    (keys (fullMerge mail phone)).Perm (keys (mergeRows mail phone)) :=
  (List.mergeSort_perm _ _).map _

theorem mergePhone_take {mail phone : List (Int × Contact)} {limit : Nat}
    (distinct : (keys mail).Nodup) (phoneDistinct : (keys phone).Nodup) :
    mergePhone (mail.take limit) phone limit =
      ((((mergedRows (mail.take limit) phone).mergeSort byScoreThenUse).take limit).map
        Prod.snd) := by
  rw [mergePhone, mergeRows_eq (distinct.sublist ((List.take_sublist _ _).map _)) phoneDistinct]

/-- A lifted row is not in the cut merge when mail left it behind. -/
theorem notMem_cut {mail phone : List (Int × Contact)} {limit : Nat} {row : Int × Contact}
    (distinct : (keys mail).Nodup) (late : row ∈ mail.drop limit)
    (seen : ∀ row ∈ mail, 0 < row.2.timesSeen) (fresh : ∀ phoneRow ∈ phone, phoneRow.2.Fresh) :
    (lifted phone row).2 ∉ (mergedRows (mail.take limit) phone).map Prod.snd := by
  intro member
  obtain ⟨other, inside, same⟩ := List.mem_map.mp member
  rcases List.mem_append.mp inside with leading | foreign
  · obtain ⟨source, early, rfl⟩ := List.mem_map.mp leading
    have equal : key source.2 = key row.2 := by
      rw [← key_lifted phone source, same, key_lifted]
    rw [← List.take_append_drop limit mail, keys_append, List.nodup_append] at distinct
    exact distinct.2.2 _ (mem_keys.mpr ⟨source, early, rfl⟩) _
      (mem_keys.mpr ⟨row, late, rfl⟩) equal
  · have unused := (fresh other (List.mem_filter.mp foreign).1).2.1
    have used := seen row (List.mem_of_mem_drop late)
    obtain ⟨-, -, use, -, -⟩ := sameHistory_lifted phone row
    rw [same, use] at unused
    omega

section Suggestions

variable {unicode : Unicode} {contacts : Collected} {phone : PhoneBook} {query : List Char}
  {limit : Nat}

theorem nodup_keys_phone (unicode : Unicode) (phone : PhoneBook) (q : List Char) :
    (keys (ranked unicode q phone.rows true)).Nodup :=
  keys_ranked_perm.nodup_iff.mpr (phone.distinct.sublist (List.filter_sublist.map _))

theorem fresh_phone (unicode : Unicode) (phone : PhoneBook) (q : List Char) :
    ∀ phoneRow ∈ ranked unicode q phone.rows true, phoneRow.2.Fresh :=
  fun phoneRow member => phone.fresh phoneRow.2 (mem_ranked.mp member).1

theorem mailRows_ok {q : List Char} (bare : trim q = q) (typed : q ≠ [])
    {mail : List (Int × Contact)} (rows : mailRows unicode contacts q = .ok mail) :
    mail.Pairwise (byScoreThenUse · ·) ∧ ∀ row ∈ mail, 0 < row.2.timesSeen := by
  rcases mailRows_cases unicode contacts bare typed with ⟨kept, within, same, -⟩ | ⟨failed, -⟩
  · rw [same] at rows
    cases rows
    exact ⟨pairwise_ranked, fun row member =>
      contacts.seen row.2 (within.subset (mem_ranked.mp member).1)⟩
  · rw [failed] at rows
    cases rows

theorem mergeable_of_merged (typed : trim query ≠ [])
    (merged : Merged unicode contacts phone query limit) {mail : List (Int × Contact)}
    (rows : mailRows unicode contacts (trim query) = .ok mail) :
    Mergeable mail (ranked unicode (trim query) phone.rows true) limit := by
  have bare : trim (trim query) = trim query := Text.strip_strip _ _
  obtain ⟨sorted, seen⟩ := mailRows_ok bare typed rows
  have phoneDistinct := nodup_keys_phone unicode phone (trim query)
  have fresh := fresh_phone unicode phone (trim query)
  have first := merged.first
  rw [suggestWithPhone_eq unicode contacts phone typed, rows] at first
  have once := (merged.once mail rows).1
  have known := merged.known mail rows
  generalize ranked unicode (trim query) phone.rows true = phoneRows at *
  have distinct : (keys mail).Nodup :=
    ((keys_fullMerge_perm mail phoneRows).nodup_iff.mp once).sublist
      (keys_mergeRows mail phoneRows).sublist
  have wholeDistinct := nodup_keys_mergedRows distinct phoneDistinct
  refine ⟨distinct, ?_, ?_⟩
  · intro row member phoneRow foreign same
    obtain ⟨shared, inside, history, -, above⟩ := known row member phoneRow foreign same
    rw [fullMerge_eq distinct phoneDistinct, List.mem_mergeSort] at inside
    have place : lifted phoneRows row ∈ mergedRows mail phoneRows :=
      List.mem_append_left _ (List.mem_map_of_mem member)
    have equal : shared = lifted phoneRows row :=
      eq_of_key wholeDistinct inside place (by rw [key_lifted, key, key, history.1])
    rw [equal, find_phoneRow phoneDistinct foreign same] at above
    rcases rankKey_le_iff.mp above with less | ⟨tied, -⟩
    · exact less.le
    · exact tied.le
  · intro front row back shape far shared
    by_contra near
    rw [Nat.not_le] at near
    have late : row ∈ mail.drop limit := by
      rw [shape, List.drop_append_of_le_length far]
      exact List.mem_append_right _ List.mem_cons_self
    have nodup := wholeDistinct.of_map
    have split := mergedRows_append_cons front back phoneRows row
    rw [← shape] at split
    rw [split] at nodup
    have leads := (Data.mem_take_mergeSort byScoreThenUse_trans byScoreThenUse_total nodup).mpr near
    rw [← split, ← fullMerge_eq distinct phoneDistinct] at leads
    have listed := List.mem_map_of_mem (f := Prod.snd) leads
    have answer : mergePhone (mail.take limit) phoneRows limit =
        ((fullMerge mail phoneRows).take limit).map Prod.snd := Except.ok.inj first
    rw [← answer, mergePhone_take distinct phoneDistinct, List.mem_map] at listed
    obtain ⟨other, inside, same⟩ := listed
    refine notMem_cut distinct late seen fresh (List.mem_map.mpr ⟨other, ?_, same⟩)
    exact List.mem_mergeSort.mp (List.mem_of_mem_take inside)

theorem merged_of_mergeable (typed : trim query ≠ [])
    (mergeable : ∀ mail, mailRows unicode contacts (trim query) = .ok mail →
      Mergeable mail (ranked unicode (trim query) phone.rows true) limit) :
    Merged unicode contacts phone query limit := by
  have bare : trim (trim query) = trim query := Text.strip_strip _ _
  have phoneDistinct := nodup_keys_phone unicode phone (trim query)
  have fresh := fresh_phone unicode phone (trim query)
  refine ⟨?_, ?_, ?_⟩
  · rw [suggestWithPhone_eq unicode contacts phone typed]
    cases rows : mailRows unicode contacts (trim query) with
    | error reason => rfl
    | ok mail =>
        obtain ⟨sorted, seen⟩ := mailRows_ok bare typed rows
        have fits := mergeable mail rows
        rw [Except.map, Except.map, mergePhone_take fits.distinct phoneDistinct,
          take_mergedRows_cut fits phoneDistinct sorted seen fresh,
          fullMerge_eq fits.distinct phoneDistinct]
  · intro mail rows
    have fits := mergeable mail rows
    have perm := keys_fullMerge_perm mail (ranked unicode (trim query) phone.rows true)
    rw [mergeRows_eq fits.distinct phoneDistinct] at perm
    refine ⟨perm.nodup_iff.mpr (nodup_keys_mergedRows fits.distinct phoneDistinct), ?_⟩
    intro address
    rw [perm.mem_iff, key_mem_iff]
  · intro mail rows row member phoneRow foreign same
    have fits := mergeable mail rows
    have seen := (mailRows_ok bare typed rows).2
    refine ⟨lifted (ranked unicode (trim query) phone.rows true) row, ?_,
      sameHistory_lifted _ _, rankKey_le_lifted _ _, ?_⟩
    · rw [fullMerge_eq fits.distinct phoneDistinct, List.mem_mergeSort]
      exact List.mem_append_left _ (List.mem_map_of_mem member)
    · obtain ⟨-, -, use, -, -⟩ :=
        sameHistory_lifted (ranked unicode (trim query) phone.rows true) row
      refine (rankKey_lt_of_seen ?_ ?_).le
      · rw [find_phoneRow phoneDistinct foreign same]
        exact fits.bounded row member phoneRow foreign same
      · rw [use, (fresh phoneRow foreign).2.1]
        exact seen row member

end Suggestions

/-- The cut before the merge changes nothing, and a shared address loses no
rank, exactly where the rows can be merged. -/
theorem suggestWithPhone_iff (unicode : Unicode) (contacts : Collected) (phone : PhoneBook)
    (query : List Char) (limit : Nat) :
    (trim query ≠ [] → Merged unicode contacts phone query limit) ↔
      (trim query ≠ [] → ∀ mail, mailRows unicode contacts (trim query) = .ok mail →
        Mergeable mail (ranked unicode (trim query) phone.rows true) limit) :=
  ⟨fun merged typed _ rows => mergeable_of_merged typed (merged typed) rows,
    fun mergeable typed => merged_of_mergeable typed (mergeable typed)⟩

namespace Sample

/-- A contact whose address has the letters of the name apart. -/
def apart : Contact :=
  contact "bo-1b@x.de" "Someone"

/-- The contacts of the mail. -/
def collected : Collected where
  rows := [apart]
  distinct := by simp
  seen := by simp [apart, contact]

/-- The phone has the person under the name. -/
def phone : PhoneBook :=
  setPhoneContacts [⟨"bo-1b@x.de".toList, some "Bob".toList⟩]

def onPhone : Contact :=
  ⟨"bo-1b@x.de".toList, some "Bob".toList, none, 0, 0, []⟩

theorem ranked_one {q : List Char} {one : Contact} {score : Int} (fromPhone : Bool)
    (scored : matchScore unicode q one = some score) :
    ranked unicode q [one] fromPhone =
      [(score + if fromPhone then PHONE_WEIGHT else 0, one)] := by
  simp [ranked, scored]

theorem mailRows_apart : mailRows unicode collected "bob".toList = .ok [(115, apart)] := by
  have fits : Fits (subsequencePattern unicode (trim "bob".toList)) := by
    rw [Fits]
    decide
  have kept : collected.rows.filter (keeps (piecesOf '\\' (cString
      (subsequencePattern unicode (trim "bob".toList))))) = [apart] := by decide
  have bare : trim "bob".toList = "bob".toList := by decide
  have scored : matchScore unicode "bob".toList apart = some 115 := by decide
  have found : suggest unicode collected.rows "bob".toList collected.rows.length = .ok [apart] := by
    rw [suggest_of_fits (by decide) fits, kept, bare, rank, ranked_one false scored]
    rfl
  rw [mailRows, found, Except.map, ranked_one false scored]
  rfl

theorem ranked_phone : ranked unicode "bob".toList phone.rows true = [(1500, onPhone)] := by
  have rows : phone.rows = [onPhone] := by decide
  have scored : matchScore unicode "bob".toList onPhone = some 1100 := by decide
  rw [rows, ranked_one true scored]
  rfl

/-- The phone knows the person by the typed name, and mail matches the address
poorly: the shared row ranks far below where the phone alone puts it. -/
theorem poor_match_wins :
    ¬(trim "bob".toList ≠ [] → Merged unicode collected phone "bob".toList 1) := by
  intro merged
  have bare : trim "bob".toList = "bob".toList := by decide
  have known := (merged (by decide)).known [(115, apart)] (by rw [bare, mailRows_apart])
  rw [bare, ranked_phone] at known
  obtain ⟨shared, inside, -, -, above⟩ :=
    known _ List.mem_cons_self _ List.mem_cons_self (by decide)
  have merge : mergeRows [(115, apart)] [(1500, onPhone)] = [(515, apart)] := by decide
  rw [fullMerge, merge, List.mergeSort_singleton, List.mem_singleton] at inside
  rw [inside] at above
  exact absurd above (by decide)

end Sample

end Contacts
end Mailcore
