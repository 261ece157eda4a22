import Mailcore.Discovery.Passes

/-!
# What a subtree LIST asks for

The third pass pastes the decoded name of a root into a pattern.  The server
reads that pattern as listed names with wildcards, so it means the descendants
of the root only when the name reads the same decoded and listed, and holds no
wildcard.  Whatever the passes are answered is listed once.
-/

namespace Mailcore
namespace Discovery

open Imap (FolderRole)
open Store (StoreError)
open Text (Glyph)

/-- `*` stands for anything, `%` for anything without the hierarchy
delimiter. -/
def glyph (hierarchy : Option Char) (byte : UInt8) : Glyph UInt8 :=
  if byte = 0x2a then .anything
  else if byte = 0x25 then
    .run fun other => hierarchy.map Char.toNat ≠ some other.toNat
  else .exactly byte

/-- The mailbox names a LIST with this pattern is answered with. -/
def listMatches (hierarchy : Option Char) (pattern name : List UInt8) : Bool :=
  Glyph.meets (pattern.map (glyph hierarchy)) name

/-- The listed name of a root followed by the separator, once. -/
def Listed.stem (root : Listed) (d : String) : List UInt8 :=
  if wire d <:+ root.mailbox.listed then root.mailbox.listed
  else root.mailbox.listed ++ wire d

/-- The subtree LIST of a root and separator is sent, and the server matches
it with a name. -/
def AskedFor (session : Session) (root : Listed) (d : String)
    (name : List UInt8) : Prop :=
  ∃ reference pattern,
    session.listArgs "" (join root.read.name d) = .ok (reference, pattern) ∧
      listMatches root.delimiter pattern name

/-- The LIST matches exactly the descendants of its root, in the hierarchy of
its separator. -/
def Exact (session : Session) (root : Listed) (d : String) : Prop :=
  ∀ name, AskedFor session root d name ↔ root.stem d <+: name

/-- The root's name, followed by the separator, reads the same decoded and
listed, and has neither a wildcard nor a NUL. -/
def Plain (root : Listed) (d : String) : Prop :=
  wire (closed root.read.name d) = root.stem d ∧
    ∀ byte ∈ root.stem d, byte ≠ 0x2a ∧ byte ≠ 0x25 ∧ byte ≠ 0

instance (root : Listed) (d : String) : Decidable (Plain root d) :=
  @instDecidableAnd _ _ inferInstance (List.decidableBAll _ (root.stem d))

/-- The roots as the server lists them. -/
def subtreeRoots (session : Session) : List Listed :=
  match session.listReply (wire "") (wire "%") with
  | .ok roots => (roots.take 64).filter fun root => root.read.name ≠ ""
  | .error _ => []

/-- Every subtree LIST matches exactly the descendants of its root. -/
def AsksForDescendants (session : Session) : Prop :=
  ∀ root ∈ subtreeRoots session, ∀ d ∈ separators root.read,
    Exact session root d

/-- What the four passes are answered. -/
def answers (session : Session) : List (List DiscoveredFolder) :=
  ([session.list "" "*", session.lsub "" "*"] ++
    ((subtreeRoots session).flatMap fun root =>
      (separators root.read).map fun d =>
        session.list "" (join root.read.name d)) ++
    (namespacePrefixes session).map fun reference =>
      session.list reference "*").filterMap Except.toOption

/-- A selectable mailbox that some pass is answered with has this name. -/
def Reached (session : Session) (name : String) : Prop :=
  ∃ answer ∈ answers session, ∃ n ∈ answer,
    isSelectable n.attributes ∧ n.name = name

/-- When the bare LIST is answered, the folders returned are exactly the
reached names, each once. -/
def ListsOnce (lowercase : String → String) (session : Session)
    (accountId : Nat) (ended : Int) (cache : Cache) : Prop :=
  ∀ names, session.list "" "*" = .ok names →
    accountId ∈ cache.db.accounts →
      ∃ after out,
        discoverFolders lowercase session accountId ended cache =
            .ok (after, out) ∧
          (out.map Imap.Folder.path).Nodup ∧
          ∀ name, name ∈ out.map Imap.Folder.path ↔ Reached session name

/-! ## Bytes of a pattern -/

@[simp] theorem wire_append (first second : String) :
    wire (first ++ second) = wire first ++ wire second := by
  simp [wire]

theorem wire_singleton (char : Char) :
    wire (String.singleton char) = String.utf8EncodeChar char := by
  simp [wire]

theorem utf8EncodeChar_ne_nil (char : Char) :
    String.utf8EncodeChar char ≠ [] := by
  unfold String.utf8EncodeChar
  dsimp only
  split_ifs <;> exact List.cons_ne_nil _ _

/-- Only a NUL is sent with a zero byte. -/
theorem zero_mem_utf8EncodeChar {char : Char}
    (member : 0 ∈ String.utf8EncodeChar char) : char = Char.ofNat 0 := by
  have code (number : Nat) (same : (0 : UInt8) = UInt8.ofNat number) :
      number % 256 = 0 := by
    have values := congrArg UInt8.toNat same
    rw [UInt8.toNat_ofNat'] at values
    exact values.symm
  unfold String.utf8EncodeChar at member
  dsimp only at member
  split_ifs at member with one two three
  · have zero := code _ (List.mem_singleton.mp member)
    rw [← Char.ofNat_toNat char]
    congr 1
    change char.val.toNat = 0
    omega
  all_goals simp only [List.mem_cons, List.not_mem_nil, or_false] at member
  · rcases member with same | same <;> have zero := code _ same <;> omega
  · rcases member with same | same | same <;> have zero := code _ same <;> omega
  · rcases member with same | same | same | same <;>
      have zero := code _ same <;> omega

theorem zero_mem_wire {text : String} :
    0 ∈ wire text ↔ Char.ofNat 0 ∈ text.toList := by
  unfold wire
  rw [List.mem_flatMap]
  constructor
  · rintro ⟨char, member, zero⟩
    rwa [← zero_mem_utf8EncodeChar zero]
  · intro member
    exact ⟨_, member, by decide⟩

/-- The bytes met exactly are no wildcards. -/
theorem mem_fixed_glyph
    {hierarchy : Option Char} {bytes : List UInt8} {byte : UInt8}
    (member : byte ∈ Glyph.fixed (bytes.map (glyph hierarchy))) :
    byte ∈ bytes ∧ byte ≠ 0x2a ∧ byte ≠ 0x25 := by
  induction bytes with
  | nil => cases member
  | cons first rest inductionHypothesis =>
      rw [List.map_cons] at member
      unfold glyph at member
      split at member
      · obtain ⟨later, plain⟩ := inductionHypothesis member
        exact ⟨List.mem_cons_of_mem _ later, plain⟩
      · next star =>
          split at member
          · obtain ⟨later, plain⟩ := inductionHypothesis member
            exact ⟨List.mem_cons_of_mem _ later, plain⟩
          · next percent =>
              rw [Glyph.fixed, List.mem_cons] at member
              rcases member with rfl | later
              · exact ⟨List.mem_cons_self, star, percent⟩
              · obtain ⟨further, plain⟩ := inductionHypothesis later
                exact ⟨List.mem_cons_of_mem _ further, plain⟩

theorem glyph_exactly
    {hierarchy : Option Char} {byte : UInt8}
    (star : byte ≠ 0x2a) (percent : byte ≠ 0x25) :
    glyph hierarchy byte = .exactly byte := by
  rw [glyph, if_neg star, if_neg percent]

theorem eq_of_glyph_eq
    {hierarchy : Option Char} {byte letter : UInt8}
    (same : glyph hierarchy byte = .exactly letter) : byte = letter := by
  unfold glyph Glyph.anything at same
  split at same
  · cases same
  · split at same
    · cases same
    · cases same
      rfl

theorem eq_of_map_glyph_eq
    {hierarchy : Option Char} {bytes stem : List UInt8}
    (same : bytes.map (glyph hierarchy) = stem.map .exactly) :
    bytes = stem := by
  induction bytes generalizing stem with
  | nil => simpa using same.symm
  | cons byte bytes inductionHypothesis =>
      cases stem with
      | nil => simp at same
      | cons letter stem =>
          rw [List.map_cons, List.map_cons, List.cons.injEq] at same
          rw [eq_of_glyph_eq same.1, inductionHypothesis same.2]

/-- There are two bytes next to any one. -/
theorem two_other_bytes (letter : UInt8) :
    ∃ first second : UInt8,
      first ≠ letter ∧ second ≠ letter ∧ first.toNat ≠ second.toNat := by
  by_cases zero : letter = 0
  · exact ⟨1, 2, by rw [zero]; decide, by rw [zero]; decide, by decide⟩
  · by_cases one : letter = 1
    · exact ⟨0, 2, fun same => zero same.symm, by rw [one]; decide, by decide⟩
    · exact ⟨0, 1, fun same => zero same.symm, fun same => one same.symm,
        by decide⟩

theorem wide_glyph (hierarchy : Option Char) (byte : UInt8) :
    (glyph hierarchy byte).Wide := by
  unfold glyph
  split
  · intro letter
    obtain ⟨other, _, different, _⟩ := two_other_bytes letter
    exact ⟨other, rfl, different⟩
  · split
    · intro letter
      -- the delimiter is one byte, so it is not both of the other two
      obtain ⟨first, second, firstOther, secondOther, apart⟩ :=
        two_other_bytes letter
      by_cases taken : hierarchy.map Char.toNat = some first.toNat
      · refine ⟨second, ?_, secondOther⟩
        rw [decide_eq_true_eq, taken]
        exact fun same => apart (Option.some.inj same)
      · exact ⟨first, by simpa using taken, firstOther⟩
    · trivial

/-! ## Exactly the descendants -/

theorem wire_suffix_closed (base d : String) :
    wire d <:+ wire (closed base d) := by
  unfold closed
  split
  · next ends =>
      obtain ⟨lead, same⟩ := ends
      refine ⟨wire (String.ofList lead), ?_⟩
      rw [← wire_append]
      congr 1
      apply String.toList_injective
      rw [String.toList_append, String.toList_ofList, same]
  · rw [wire_append]
    exact List.suffix_append _ _

theorem Listed.suffix_stem (root : Listed) (d : String) :
    wire d <:+ root.stem d := by
  unfold Listed.stem
  split
  · assumption
  · exact List.suffix_append _ _

/-- The bytes of a subtree pattern, and when they can be sent. -/
theorem listArgs_join
    (session : Session) (base d : String) :
    (0 ∈ wire (closed base d) →
      ∀ sent, session.listArgs "" (join base d) ≠ .ok sent) ∧
    (0 ∉ wire (closed base d) →
      session.listArgs "" (join base d) =
        .ok ([], wire (closed base d) ++ [0x2a])) := by
  have star : wire "*" = [0x2a] := by decide
  have zero : Char.ofNat 0 ∈ "".toList ++ (join base d).toList ↔
      0 ∈ wire (closed base d) := by
    rw [zero_mem_wire, join]
    simp
  unfold Session.listArgs
  constructor
  · intro member sent
    rw [if_pos (zero.mpr member)]
    simp
  · intro absent
    rw [if_neg fun member => absent (zero.mp member), join, wire_append, star]
    rfl

/-- A subtree LIST matches exactly the descendants of its root when the name
is plain, and only then. -/
theorem exact_iff_plain
    (session : Session) (root : Listed) {d : String}
    (separator : ∃ char, d = String.singleton char) :
    Exact session root d ↔ Plain root d := by
  obtain ⟨unsent, sent⟩ := listArgs_join session root.read.name d
  constructor
  · intro exactly
    -- The stem is a descendant itself, so the LIST was sent.
    obtain ⟨_, _, args, _⟩ := (exactly (root.stem d)).mpr List.prefix_rfl
    have noNul : 0 ∉ wire (closed root.read.name d) :=
      fun member => unsent member _ args
    have begins : ∀ name,
        Glyph.meets ((wire (closed root.read.name d)).map
            (glyph root.delimiter) ++ [.anything]) name ↔
          root.stem d <+: name := by
      intro name
      rw [← exactly name, AskedFor, sent noNul]
      constructor
      · intro met
        refine ⟨_, _, rfl, ?_⟩
        rw [listMatches, List.map_append]
        exact met
      · rintro ⟨_, _, same, met⟩
        cases same
        rwa [listMatches, List.map_append] at met
    have stemFixed := Glyph.eq_fixed_of_begins begins
    have plain : ∀ byte ∈ root.stem d,
        byte ∈ wire (closed root.read.name d) ∧ byte ≠ 0x2a ∧ byte ≠ 0x25 := by
      intro byte member
      rw [stemFixed] at member
      exact mem_fixed_glyph member
    -- Its last byte is the separator's, which therefore is no wildcard.
    obtain ⟨char, rfl⟩ := separator
    obtain ⟨lead, last, ends⟩ :
        ∃ lead last, wire (String.singleton char) = lead ++ [last] := by
      rw [wire_singleton]
      exact ⟨_, _, (List.dropLast_append_getLast
        (utf8EncodeChar_ne_nil char)).symm⟩
    obtain ⟨early, closedEnds⟩ := wire_suffix_closed root.read.name
      (String.singleton char)
    obtain ⟨front, stemEnds⟩ := root.suffix_stem (String.singleton char)
    have lastPlain := (plain last (by
      rw [← stemEnds, ends]
      simp)).2
    have shape : (wire (closed root.read.name (String.singleton char))).map
        (glyph root.delimiter) =
          (early ++ lead).map (glyph root.delimiter) ++ [.exactly last] := by
      rw [← closedEnds, ends, ← List.append_assoc, @List.map_append _ _ _ (early ++ lead) _,
        List.map_singleton, glyph_exactly lastPlain.1 lastPlain.2]
    have wide : ∀ glyph' ∈ (wire (closed root.read.name
        (String.singleton char))).map (glyph root.delimiter), glyph'.Wide := by
      intro _ member
      obtain ⟨byte, _, rfl⟩ := List.mem_map.mp member
      exact wide_glyph root.delimiter byte
    have same := eq_of_map_glyph_eq (Glyph.eq_exact_of_begins wide shape begins)
    refine ⟨same, fun byte member => ⟨(plain byte member).2.1,
      (plain byte member).2.2, ?_⟩⟩
    rintro rfl
    exact noNul (plain 0 member).1
  · rintro ⟨same, plain⟩ name
    have noNul : 0 ∉ wire (closed root.read.name d) := by
      rw [same]
      exact fun member => (plain 0 member).2.2 rfl
    have pattern : (root.stem d ++ [0x2a]).map (glyph root.delimiter) =
        (root.stem d).map .exactly ++ [.anything] := by
      rw [List.map_append, List.map_singleton]
      congr 1
      exact List.map_congr_left fun byte member =>
        glyph_exactly (plain byte member).1 (plain byte member).2.1
    rw [AskedFor, sent noNul, same, ← Glyph.meets_exact_anything, ← pattern]
    constructor
    · rintro ⟨_, _, args, met⟩
      cases args
      exact met
    · intro met
      exact ⟨_, _, rfl, met⟩

/-! ## Everything reached, once -/

/-- A reply names a selectable mailbox. -/
def Names (reply : Except StoreError (List DiscoveredFolder))
    (name : String) : Prop :=
  ∃ answer, reply.toOption = some answer ∧
    ∃ n ∈ answer, isSelectable n.attributes ∧ n.name = name

theorem mem_offered
    {role : DiscoveredFolder → FolderRole} {names : List DiscoveredFolder}
    {name : String} :
    name ∈ (offered role names).map Prod.fst ↔
      ∃ n ∈ names, isSelectable n.attributes ∧ n.name = name := by
  simp [offered, and_assoc]

theorem mem_bestEffort
    {role : DiscoveredFolder → FolderRole}
    {reply : Except StoreError (List DiscoveredFolder)} {name : String} :
    name ∈ (bestEffort role reply).map Prod.fst ↔ Names reply name := by
  unfold Names
  cases reply with
  | error error => simp [bestEffort, Except.toOption]
  | ok names => simp [bestEffort, Except.toOption, mem_offered]

theorem reached_iff {session : Session} {name : String} :
    Reached session name ↔
      Names (session.list "" "*") name ∨ Names (session.lsub "" "*") name ∨
        (∃ root ∈ subtreeRoots session, ∃ d ∈ separators root.read,
          Names (session.list "" (join root.read.name d)) name) ∨
        ∃ reference ∈ namespacePrefixes session,
          Names (session.list reference "*") name := by
  unfold Reached answers Names
  simp only [List.mem_filterMap, List.mem_append, List.mem_cons,
    List.not_mem_nil, or_false, List.mem_flatMap, List.mem_map]
  constructor
  · rintro ⟨answer, ⟨_, ((rfl | rfl) | ⟨root, member, d, tried, rfl⟩) |
      ⟨reference, member, rfl⟩, answered⟩, named⟩
    · exact .inl ⟨answer, answered, named⟩
    · exact .inr (.inl ⟨answer, answered, named⟩)
    · exact .inr (.inr (.inl ⟨root, member, d, tried, answer, answered, named⟩))
    · exact .inr (.inr (.inr ⟨reference, member, answer, answered, named⟩))
  · rintro (⟨answer, answered, named⟩ | ⟨answer, answered, named⟩ |
      ⟨root, member, d, tried, answer, answered, named⟩ |
      ⟨reference, member, answer, answered, named⟩)
    · exact ⟨answer, ⟨_, .inl (.inl (.inl rfl)), answered⟩, named⟩
    · exact ⟨answer, ⟨_, .inl (.inl (.inr rfl)), answered⟩, named⟩
    · exact ⟨answer, ⟨_, .inl (.inr ⟨root, member, d, tried, rfl⟩), answered⟩,
        named⟩
    · exact ⟨answer, ⟨_, .inr ⟨reference, member, rfl⟩, answered⟩, named⟩

/-- The roots that pass 3 goes through are the listed ones as they are read. -/
theorem subtreePass_eq (lowercase : String → String) (session : Session) :
    subtreePass lowercase session =
      (subtreeRoots session).flatMap fun root =>
        (separators root.read).flatMap fun d =>
          bestEffort (listedRole lowercase)
            (session.list "" (join root.read.name d)) := by
  have asked : session.list "" "%" =
      (session.listReply (wire "") (wire "%")).map (List.map Listed.read) := by
    unfold Session.list Session.listArgs
    rw [if_neg (by decide)]
    change (session.listReply (wire "") (wire "%") >>= _) = _
    cases session.listReply (wire "") (wire "%") <;> rfl
  unfold subtreePass subtreeRoots
  rw [asked]
  cases session.listReply (wire "") (wire "%") with
  | error error => rfl
  | ok roots =>
      change (taken (roots.map Listed.read)).flatMap _ = _
      rw [taken, ← List.map_take, List.filter_map, List.flatMap_map]
      rfl

theorem mem_allPasses
    (lowercase : String → String) {session : Session}
    {names : List DiscoveredFolder}
    (answered : session.list "" "*" = .ok names) :
    ∃ offers, allPasses lowercase session = .ok offers ∧
      ∀ name, name ∈ offers.map Prod.fst ↔ Reached session name := by
  unfold allPasses listPass
  rw [answered]
  refine ⟨_, rfl, fun name => ?_⟩
  have first : Names (.ok names) name ↔
      ∃ n ∈ names, isSelectable n.attributes ∧ n.name = name := by
    simp [Names, Except.toOption]
  have subtrees : name ∈ (subtreePass lowercase session).map Prod.fst ↔
      ∃ root ∈ subtreeRoots session, ∃ d ∈ separators root.read,
        Names (session.list "" (join root.read.name d)) name := by
    rw [subtreePass_eq]
    simp only [List.map_flatMap, List.mem_flatMap, mem_bestEffort]
  have inside : name ∈ (namespacePass lowercase session).map Prod.fst ↔
      ∃ reference ∈ namespacePrefixes session,
        Names (session.list reference "*") name := by
    unfold namespacePass
    simp only [List.map_flatMap, List.mem_flatMap, mem_bestEffort]
  rw [reached_iff, answered, first, ← subtrees, ← inside, List.map_append,
    List.map_append, List.map_append, List.mem_append, List.mem_append,
    List.mem_append, mem_offered, lsubPass, mem_bestEffort]
  simp only [or_assoc]

/-- A discovery whose bare LIST is answered lists what its passes reach. -/
theorem discoverFolders_lists
    (lowercase : String → String) (session : Session)
    (accountId : Nat) (ended : Int) (cache : Cache) :
    ListsOnce lowercase session accountId ended cache := by
  intro names answered owned
  obtain ⟨offers, passes, reached⟩ :=
    mem_allPasses lowercase answered
  obtain ⟨after, out, discovered, refreshed⟩ :=
    discoverFolders_refreshed cache passes owned ended
  refine ⟨_, out, discovered, refreshed.distinct, fun name => ?_⟩
  rw [refreshed.paths, reached]

theorem separators_singleton {root : Listed} {d : String}
    (tried : d ∈ separators root.read) : ∃ char, d = String.singleton char := by
  have reported : ∃ char, root.read.delimiter = String.singleton char := by
    unfold Listed.read
    cases root.delimiter with
    | none => exact ⟨'/', rfl⟩
    | some char => exact ⟨char, rfl⟩
  unfold separators at tried
  split at tried
  · rw [List.mem_singleton.mp tried]
    exact reported
  · rw [List.mem_cons, List.mem_singleton] at tried
    rcases tried with rfl | rfl
    · exact reported
    · exact ⟨'.', rfl⟩

/-- Discovery asks for the folders it means exactly when every root it asks
below has a plain name for both separators it tries. -/
theorem discovers_meant_iff_plain
    (lowercase : String → String) (session : Session)
    (accountId : Nat) (ended : Int) (cache : Cache) :
    (AsksForDescendants session ∧
        ListsOnce lowercase session accountId ended cache) ↔
      ∀ root ∈ subtreeRoots session, ∀ d ∈ separators root.read,
        Plain root d := by
  constructor
  · rintro ⟨asks, _⟩ root member d tried
    exact (exact_iff_plain session root (separators_singleton tried)).mp
      (asks root member d tried)
  · intro plain
    refine ⟨fun root member d tried => ?_,
      discoverFolders_lists lowercase session accountId ended cache⟩
    exact (exact_iff_plain session root (separators_singleton tried)).mpr
      (plain root member d tried)

/-- A server whose only root is listed as `&AOQ-`, which is `ä`. -/
def umlautServer : Session where
  listReply _ _ := .ok [⟨.other [0x26, 0x41, 0x4f, 0x51, 0x2d], some '/', []⟩]
  lsubReply _ _ := .ok []
  namespaceReply := .ok ([], [], [])
  unsendable := ""

/-- Below `&AOQ-` the client asks for `ä/*`, which its children do not match. -/
theorem umlaut_asks_elsewhere : ¬ AsksForDescendants umlautServer := by
  intro asks
  have root : (⟨.other [0x26, 0x41, 0x4f, 0x51, 0x2d], some '/', []⟩ : Listed) ∈
      subtreeRoots umlautServer := by
    decide +kernel
  have exactly := asks _ root "/" (by decide +kernel)
  have plain := (exact_iff_plain umlautServer _ ⟨'/', rfl⟩).mp exactly
  revert plain
  decide +kernel

end Discovery
end Mailcore
