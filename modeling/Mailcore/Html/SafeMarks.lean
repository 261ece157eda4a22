import Mailcore.Html.Marks
import Mailcore.Markup.Nesting

/-!
# The sanitizer writes safe marks

Whatever the input, every name on the output is one the sanitizer knows, so HTML
reads back the marks that were written.
-/

namespace Mailcore
namespace Html

open Markup

theorem exists_of_isOneOf {words : List String} {text : List Char}
    (found : isOneOf words text) : ∃ word ∈ words, text = word.toList := by
  unfold isOneOf at found
  rw [List.contains_iff_mem] at found
  exact ⟨_, found, (String.toList_ofList).symm⟩

/-- What holds of all words holds of each of them. -/
theorem of_isOneOf {words : List String} {holds : List Char → Bool}
    (all : ∀ word ∈ words, holds word.toList = true) {text : List Char}
    (found : isOneOf words text) : holds text = true := by
  obtain ⟨word, member, rfl⟩ := exists_of_isOneOf found
  exact all word member

/-- An allowed name reads back as itself, and is as void as in HTML. -/
theorem allowed_name {name : List Char} (allowed : allowedTag name) :
    safeName name = true ∧ isVoid name = voidTag name ∧ byteLen name ≤ 10 := by
  have all := @of_isOneOf _ (fun name =>
    safeName name && (isVoid name == voidTag name) && decide (byteLen name ≤ 10))
    (by decide +kernel) name allowed
  simp only [Bool.and_eq_true, beq_iff_eq, decide_eq_true_eq] at all
  exact ⟨all.1.1, all.1.2, all.2⟩

/-- The attributes of presentation, by the tags that may carry them. -/
def presentationalAttrs : List ((List Char → Bool) × List String) :=
  [(fun _ => true, ["style", "dir", "align"]),
    (isTableTag, ["valign", "bgcolor"]),
    (fun tag => tag = "font".toList, ["color", "face", "size"]),
    (fun tag => tag = "img".toList ∨ tag = "col".toList ∨ isTableTag tag,
      ["width", "height"]),
    (fun tag => tag = "table".toList, ["border", "cellpadding", "cellspacing"]),
    (isOneOf ["td", "th"], ["colspan", "rowspan"]),
    (isOneOf ["col", "colgroup"], ["span"])]

section Attributes

variable {isAlphanumeric : Char → Bool} {allowRemote : Bool}

/-- A choice that gives something gives it here or further on. -/
theorem of_ite_eq_some
    {α : Type} {condition : Prop} [Decidable condition] {first second : Option α}
    {result : α} (found : (if condition then first else second) = some result) :
    condition ∨ second = some result := by
  by_cases chosen : condition
  · exact .inl chosen
  · rw [if_neg chosen] at found
    exact .inr found

theorem isOneOf_of_subset {few words : List String} (part : few ⊆ words) {text : List Char}
    (named : isOneOf few text) : isOneOf words text := by
  unfold isOneOf at named ⊢
  rw [List.contains_iff_mem] at named ⊢
  exact part named

theorem isOneOf_singleton (word : String) : isOneOf [word] word.toList := by
  unfold isOneOf
  rw [String.ofList_toList, List.contains_iff_mem]
  exact List.mem_cons_self

/-- What carries presentation is listed for the tag. -/
theorem listed_of_presentational {tag k v kept : List Char}
    (found : presentational isAlphanumeric tag k v = some kept) :
    ∃ row ∈ presentationalAttrs, row.1 tag ∧ isOneOf row.2 k := by
  have row (index : Fin 7) : presentationalAttrs.get index ∈ presentationalAttrs :=
    List.get_mem _ _
  have spelled {word : String} {words : List String} (same : k = word.toList)
      (member : word ∈ words) : isOneOf words k :=
    same ▸ isOneOf_of_subset (by simpa using member) (isOneOf_singleton word)
  unfold presentational at found
  dsimp only at found
  rcases of_ite_eq_some found with style | found
  · exact ⟨_, row 0, rfl, spelled style (by decide)⟩
  rcases of_ite_eq_some found with dir | found
  · exact ⟨_, row 0, rfl, spelled dir (by decide)⟩
  rcases of_ite_eq_some found with align | found
  · exact ⟨_, row 0, rfl, spelled align (by decide)⟩
  rcases of_ite_eq_some found with ⟨valign, table⟩ | found
  · exact ⟨_, row 1, table, spelled valign (by decide)⟩
  rcases of_ite_eq_some found with ⟨bgcolor, table⟩ | found
  · exact ⟨_, row 1, table, spelled bgcolor (by decide)⟩
  rcases of_ite_eq_some found with ⟨color, font⟩ | found
  · exact ⟨_, row 2, decide_eq_true font, spelled color (by decide)⟩
  rcases of_ite_eq_some found with ⟨face, font⟩ | found
  · exact ⟨_, row 2, decide_eq_true font, spelled face (by decide)⟩
  rcases of_ite_eq_some found with ⟨size, font⟩ | found
  · exact ⟨_, row 2, decide_eq_true font, spelled size (by decide)⟩
  rcases of_ite_eq_some found with ⟨length, sized⟩ | found
  · exact ⟨_, row 3, decide_eq_true sized, length⟩
  rcases of_ite_eq_some found with ⟨number, table⟩ | found
  · exact ⟨_, row 4, decide_eq_true table, number⟩
  rcases of_ite_eq_some found with ⟨spans, cell⟩ | found
  · exact ⟨_, row 5, cell, spans⟩
  rcases of_ite_eq_some found with ⟨span, column⟩ | found
  · exact ⟨_, row 6, column, spelled span (by decide)⟩
  · cases found

/-- The attributes that carry presentation. -/
theorem safeKey_presentational {tag k v kept : List Char}
    (found : presentational isAlphanumeric tag k v = some kept) : safeKey k := by
  have all : ∀ row ∈ presentationalAttrs, ∀ word ∈ row.2, safeKey word.toList = true := by
    decide
  obtain ⟨row, member, -, named⟩ := listed_of_presentational found
  exact of_isOneOf (all row member) named

/-- Whatever an attribute leaves has a safe name. -/
theorem safeKey_keptAttr {name : List Char} {given kept : Attr}
    (member : kept ∈ keptAttr isAlphanumeric allowRemote name given) :
    safeKey kept.1 := by
  have spelled (value : List Char) {key : String}
      (safe : safeKey key.toList = true)
      (inside : kept ∈ [(key.toList, value)]) : safeKey kept.1 := by
    rw [List.mem_singleton.mp inside, safe]
  unfold keptAttr at member
  dsimp only at member
  split at member
  · cases member
  split at member
  · next found =>
    rw [List.mem_singleton.mp member]
    exact safeKey_presentational found
  split at member
  · split at member
    · rcases List.mem_cons.mp member with href | rel
      · exact spelled _ (by decide) (List.mem_singleton.mpr href)
      · exact spelled _ (by decide) rel
    · cases member
  split at member
  · split at member
    · exact spelled _ (by decide) member
    · cases member
  split at member
  · exact spelled _ (by decide) member
  · cases member

end Attributes

instance (mark : Mark) : Decidable mark.Safe := by
  cases mark <;> unfold Mark.Safe <;> infer_instance

theorem safe_blockedImgPlaceholder (alt : List Char) :
    ∀ mark ∈ blockedImgPlaceholder alt, mark.Safe := by
  have badge : ∀ mark ∈ SVG_BADGE, mark.Safe := by decide +kernel
  have key : safeKey "title".toList = true := by decide
  unfold blockedImgPlaceholder
  simp only [List.mem_append, List.mem_cons, List.not_mem_nil, or_false]
  rintro mark (((rfl | rfl) | inBadge) | rfl | rfl | rfl | rfl | rfl)
  · exact (by decide : (Mark.opening "details".toList
      [attr "class" "mc-blocked"] false).Safe)
  · refine ⟨by decide, fun given member => ?_⟩
    rw [List.mem_singleton.mp member, key]
  · exact badge mark inBadge
  · exact (by decide : safeName "summary".toList)
  · exact (by decide : (Mark.opening "span".toList [] false).Safe)
  · trivial
  · exact (by decide : safeName "span".toList)
  · exact (by decide : safeName "details".toList)

/-! ## What a turn writes -/

/-- A mark that the sanitizer writes. -/
inductive Mark.Written (isAlphanumeric : Char → Bool) (allowRemote : Bool) : Mark → Prop
  | text (chars : List Char) : Written isAlphanumeric allowRemote (.text chars)
  | badge (alt : List Char) (mark : Mark) (member : mark ∈ blockedImgPlaceholder alt) :
      Written isAlphanumeric allowRemote mark
  | opening (t : Tag) (allowed : allowedTag t.name) :
      Written isAlphanumeric allowRemote
        (.opening t.name
          (t.attrs.flatMap (keptAttr isAlphanumeric allowRemote t.name)) false)
  | closing (name : List Char) (allowed : allowedTag name) :
      Written isAlphanumeric allowRemote (.closing name)

/-- What is written reads back as itself. -/
theorem Mark.Written.safe
    {isAlphanumeric : Char → Bool} {allowRemote : Bool} {mark : Mark}
    (written : mark.Written isAlphanumeric allowRemote) : mark.Safe := by
  cases written with
  | text chars => trivial
  | badge alt mark member => exact safe_blockedImgPlaceholder alt mark member
  | opening t allowed =>
      refine ⟨(allowed_name allowed).1, fun given member => ?_⟩
      obtain ⟨raw, -, kept⟩ := List.mem_flatMap.mp member
      exact safeKey_keptAttr kept
  | closing name allowed => exact (allowed_name allowed).1

/-- What a turn on a tag leads to and writes. -/
inductive Wrote (isAlphanumeric : Char → Bool) (allowRemote : Bool) (state : State) :
    Option Tag → Turn → Prop
  | nothing (tag : Option Tag) (hadRemote : Bool) (dropping : List (List Char)) :
      Wrote isAlphanumeric allowRemote state tag
        ⟨[], { state with hadRemote, dropping }, false⟩
  | badge (t : Tag) (hadRemote : Bool) (dropping : List (List Char)) (alt : List Char) :
      Wrote isAlphanumeric allowRemote state (some t)
        ⟨[blockedImgPlaceholder alt], { state with hadRemote, dropping }, false⟩
  | opens (t : Tag) (hadRemote : Bool) (dropping : List (List Char))
      (allowed : allowedTag t.name) :
      Wrote isAlphanumeric allowRemote state (some t)
        ⟨[[.opening t.name
            (t.attrs.flatMap (keptAttr isAlphanumeric allowRemote t.name)) false]],
          { state with
            hadRemote, dropping
            opened := if voidTag t.name then state.opened
              else (t.name :: state.opened).take 64 },
          true⟩
  | closes (t : Tag) (dropping : List (List Char)) (allowed : allowedTag t.name)
      (full : voidTag t.name = false) :
      Wrote isAlphanumeric allowRemote state (some t)
        ⟨(poppedBy t.name state.opened).map fun name => [.closing name],
          { state with dropping, opened := closeTo t.name state.opened }, false⟩

section Turns

variable {isAlphanumeric : Char → Bool} {allowRemote : Bool}

theorem wrote_openTag
    {t : Tag} (allowed : allowedTag t.name) (state : State)
    (dropping : List (List Char)) :
    Wrote isAlphanumeric allowRemote state (some t)
      (openTag isAlphanumeric allowRemote t { state with dropping }) := by
  unfold openTag
  dsimp only
  split
  · split
    · split
      · exact .nothing _ _ _
      · exact .badge t _ _ _
    · split
      · exact .badge t _ _ _
      · exact .nothing _ _ _
  · have opens : Wrote isAlphanumeric allowRemote state (some t) _ :=
      .opens t (state.hadRemote || t.attrs.any (blocksRemote allowRemote t.name))
        dropping allowed
    split at opens
    · next void =>
      rw [if_pos void]
      exact opens
    · next full =>
      rw [if_neg full]
      exact opens

theorem wrote_turn (state : State) (tag : Option Tag) :
    Wrote isAlphanumeric allowRemote state tag
      (turn isAlphanumeric allowRemote state (.markup tag)) := by
  cases tag with
  | none => exact .nothing none _ _
  | some t =>
      rw [turn, tagTurn]
      dsimp only
      split
      · exact .nothing _ _ _
      · next kept =>
        have allowed : allowedTag t.name := by
          push Not at kept
          exact Bool.not_eq_false _ ▸ kept.2.2
        split
        · split
          · exact .nothing _ _ _
          · next full => exact .closes t _ allowed (Bool.not_eq_true _ ▸ full)
        · exact wrote_openTag allowed state _

/-- The open tags of the output are allowed and have end tags. -/
def State.Named (state : State) : Prop :=
  ∀ name ∈ state.opened, allowedTag name = true ∧ voidTag name = false

theorem mem_of_mem_closeTo {name other : List Char} {stack : List (List Char)}
    (member : other ∈ closeTo name stack) : other ∈ stack := by
  unfold closeTo at member
  split at member
  · exact (List.dropWhile_sublist _).subset (List.mem_of_mem_drop member)
  · exact member

theorem mem_of_mem_poppedBy {name other : List Char} {stack : List (List Char)}
    (member : other ∈ poppedBy name stack) : other ∈ stack := by
  unfold poppedBy at member
  split at member
  · next inside =>
    rcases List.mem_append.mp member with front | last
    · exact (List.takeWhile_sublist _).subset front
    · rwa [List.mem_singleton.mp last]
  · cases member

theorem flatten_map_closing (names : List (List Char)) :
    (names.map fun name => [Mark.closing name]).flatten = names.map .closing := by
  induction names with
  | nil => rfl
  | cons name names inductionHypothesis =>
      rw [List.map_cons, List.flatten_cons, inductionHypothesis]
      rfl

/-- What a turn leaves on the stack of open tags, and what it pushes. -/
structure Turn.Sound (isAlphanumeric : Char → Bool) (allowRemote : Bool) (turn : Turn) :
    Prop where
  named : turn.state.Named
  pushes : ∀ push ∈ turn.pushes, ∀ mark ∈ push, mark.Written isAlphanumeric allowRemote

theorem Wrote.sound
    {state : State} {tag : Option Tag} {turn : Turn}
    (wrote : Wrote isAlphanumeric allowRemote state tag turn) (named : state.Named) :
    turn.Sound isAlphanumeric allowRemote := by
  cases wrote with
  | nothing hadRemote dropping => exact ⟨named, by simp⟩
  | badge t hadRemote dropping alt =>
      refine ⟨named, fun push member mark inside => ?_⟩
      rw [List.mem_singleton.mp member] at inside
      exact .badge alt mark inside
  | opens t hadRemote dropping allowed =>
      refine ⟨fun name member => ?_, fun push member mark inside => ?_⟩
      · dsimp only at member
        split at member
        · exact named name member
        · next full =>
          rcases List.mem_cons.mp (List.mem_of_mem_take member) with rfl | below
          · exact ⟨allowed, Bool.not_eq_true _ ▸ full⟩
          · exact named name below
      · rw [List.mem_singleton.mp member] at inside
        rw [List.mem_singleton.mp inside]
        exact .opening t allowed
  | closes t dropping allowed full =>
      refine ⟨fun name member => named name (mem_of_mem_closeTo member),
        fun push member mark inside => ?_⟩
      obtain ⟨name, popped, rfl⟩ := List.mem_map.mp member
      rw [List.mem_singleton.mp inside]
      exact .closing name (named name (mem_of_mem_poppedBy popped)).1

theorem sound_turn {state : State} (named : state.Named) (item : Item) :
    (turn isAlphanumeric allowRemote state item).Sound isAlphanumeric allowRemote := by
  cases item with
  | text chunk =>
      refine ⟨named, fun push member mark inside => ?_⟩
      rw [turn] at member
      dsimp only at member
      split at member
      · rw [List.mem_singleton.mp member] at inside
        rw [List.mem_singleton.mp inside]
        exact .text _
      · cases member
  | markup tag => exact (wrote_turn state tag).sound named

end Turns

/-! ## The output -/

section Output

variable {isAlphanumeric : Char → Bool} {allowRemote : Bool}

theorem forall_pushCapped {holds : Mark → Prop} {out push : List Mark}
    (before : ∀ mark ∈ out, holds mark) (pushed : ∀ mark ∈ push, holds mark) :
    ∀ mark ∈ pushCapped out push, holds mark := by
  intro mark member
  unfold pushCapped at member
  split at member
  · exact before mark member
  · exact (List.mem_append.mp member).elim (before mark) (pushed mark)

theorem forall_pushes {holds : Mark → Prop} {out : List Mark} {pushes : List (List Mark)}
    (before : ∀ mark ∈ out, holds mark)
    (pushed : ∀ push ∈ pushes, ∀ mark ∈ push, holds mark) :
    ∀ mark ∈ pushes.foldl pushCapped out, holds mark := by
  induction pushes generalizing out with
  | nil => exact before
  | cons push pushes inductionHypothesis =>
      exact inductionHypothesis
        (forall_pushCapped before (pushed push List.mem_cons_self))
        fun other member => pushed other (List.mem_cons_of_mem _ member)

/-- The loop keeps the open tags named and writes nothing else. -/
theorem written_walk {items : List Item} {state : State} {out : List Mark}
    (named : state.Named)
    (before : ∀ mark ∈ out, mark.Written isAlphanumeric allowRemote) :
    (walk isAlphanumeric allowRemote items state out).1.Named ∧
      ∀ mark ∈ (walk isAlphanumeric allowRemote items state out).2,
        mark.Written isAlphanumeric allowRemote := by
  induction items generalizing state out with
  | nil => exact ⟨named, before⟩
  | cons item items inductionHypothesis =>
      have turned : (turn isAlphanumeric allowRemote state item).Sound
          isAlphanumeric allowRemote := sound_turn named item
      have after := forall_pushes before turned.pushes
      rw [walk]
      split
      · exact ⟨turned.named, after⟩
      · exact inductionHypothesis turned.named after

theorem written_closeAll {names : List (List Char)} {out : List Mark}
    (named : ∀ name ∈ names, allowedTag name)
    (before : ∀ mark ∈ out, mark.Written isAlphanumeric allowRemote) :
    ∀ mark ∈ closeAll names out, mark.Written isAlphanumeric allowRemote := by
  induction names generalizing out with
  | nil => exact before
  | cons name names inductionHypothesis =>
      rw [closeAll]
      split
      · exact before
      · refine inductionHypothesis
          (fun other member => named other (List.mem_cons_of_mem _ member))
          (forall_pushCapped before fun mark member => ?_)
        rw [List.mem_singleton.mp member]
        exact .closing name (named name List.mem_cons_self)

/-- What stands on the output, whatever the input. -/
theorem written_sanitizeMarks (raw : List Char) :
    ∀ mark ∈ (sanitizeMarks isAlphanumeric raw allowRemote).1,
      mark.Written isAlphanumeric allowRemote := by
  have walked := @written_walk isAlphanumeric allowRemote
    (scan (truncateOnCharBoundary MAX_HTML_BYTES raw)) .start []
    (by simp [State.Named, State.start]) (by simp)
  exact written_closeAll (fun name member => (walked.1 name member).1) walked.2

/-- Every mark of the output is safe. -/
theorem safe_sanitizeMarks (raw : List Char) :
    ∀ mark ∈ (sanitizeMarks isAlphanumeric raw allowRemote).1, mark.Safe :=
  fun mark member => (written_sanitizeMarks raw mark member).safe

end Output

end Html
end Mailcore
