import Mailcore.Html.SafeMarks

/-!
# How the output nests

The walk keeps the tags it has open.  That stack forgets its oldest entry when it
grows past its bound, and goes on when the cap drops a tag.
-/

namespace Mailcore
namespace Html

open Markup

/-! ## Tags of the output -/

def Mark.token : Mark → Option Token
  | .text _ => none
  | .opening name _ selfClosing => some (.start name selfClosing)
  | .closing name => some (.stop name)

def tagsOf (marks : List Mark) : List Token :=
  marks.filterMap Mark.token

theorem tagsOf_append (first second : List Mark) :
    tagsOf (first ++ second) = tagsOf first ++ tagsOf second :=
  List.filterMap_append

/-- HTML finds the elements that the marks open and close. -/
theorem nest_tokens
    {marks : List Mark} (safe : ∀ mark ∈ marks, mark.Safe) (stack : List (List Char)) :
    nest stack (tokens (marksHtml marks)) = nest stack (tagsOf marks) := by
  induction marks generalizing stack with
  | nil => rfl
  | cons mark marks inductionHypothesis =>
      have first := safe mark List.mem_cons_self
      have others := inductionHypothesis fun other member =>
        safe other (List.mem_cons_of_mem _ member)
      have split : marksHtml (mark :: marks) = mark.html ++ marksHtml marks :=
        List.flatMap_cons
      rw [split]
      cases mark with
      | text chars =>
          obtain ⟨run, tail, alone, together⟩ :=
            tokens_escapeText chars (marksHtml marks)
          have skips : ∀ text, nest stack (textTokens text ++ tokens tail) =
              nest stack (tokens tail) := by
            intro text
            unfold textTokens
            split
            · rfl
            · exact nest_text stack text _
          calc
            nest stack (tokens (escapeText chars ++ marksHtml marks))
                = nest stack (tokens tail) := by rw [together, skips]
            _ = nest stack (tokens (marksHtml marks)) := by rw [alone, skips]
            _ = nest stack (tagsOf (.text chars :: marks)) := others stack
      | opening name attrs selfClosing =>
          rw [tokens_opening first.1 first.2, nest_cons]
          simp only [others]
          rfl
      | closing name =>
          rw [tokens_closing first, nest_cons]
          simp only [others]
          rfl

/-! ## Pushes -/

/-- A push that opens or closes one element. -/
def tagPush : List Mark → Bool
  | [.opening name _ _] => !voidTag name
  | [.closing _] => true
  | _ => false

/-- The cap drops none of the pushes that open or close an element. -/
def carries : List Mark → List (List Mark) → Bool
  | _, [] => true
  | out, push :: pushes =>
      (!tagPush push || decide (outLen out + outLen push ≤ MAX_OUT_BYTES + 1024)) &&
        carries (pushCapped out push) pushes

/-- The cap does not strike in the loop that closes what is still open. -/
def carriesClosing : List Mark → List (List Char) → Bool
  | _, [] => true
  | out, name :: names =>
      decide (outLen out ≤ MAX_OUT_BYTES) &&
        carriesClosing (pushCapped out [.closing name]) names

/-- A push closes whatever it opens, unless it is a tag. -/
def FlatPush (push : List Mark) : Prop :=
  tagPush push = false → ∀ stack, nest stack (tagsOf push) = some stack

/-- Pushes that the cap spares are all found on the output. -/
theorem alike_pushes
    {pushes : List (List Mark)} (flat : ∀ push ∈ pushes, FlatPush push)
    {out : List Mark} (carried : carries out pushes) :
    Alike (tagsOf (pushes.foldl pushCapped out))
      (tagsOf out ++ tagsOf pushes.flatten) := by
  induction pushes generalizing out with
  | nil =>
      rw [List.flatten_nil, ← tagsOf_append, List.append_nil]
      exact .refl _
  | cons push pushes inductionHypothesis =>
      rw [carries, Bool.and_eq_true, Bool.or_eq_true, Bool.not_eq_true',
        decide_eq_true_eq] at carried
      have first : Alike (tagsOf (pushCapped out push)) (tagsOf out ++ tagsOf push) := by
        unfold pushCapped
        split
        · next dropped =>
          refine alike_append_of_flat (flat push List.mem_cons_self ?_) _
          exact carried.1.resolve_right (by omega)
        · rw [tagsOf_append]
          exact .refl _
      have others := inductionHypothesis
        (fun other member => flat other (List.mem_cons_of_mem _ member)) carried.2
      rw [List.flatten_cons, tagsOf_append, ← List.append_assoc]
      exact others.trans (first.append_right _)

theorem nest_tagsOf_closing (names below : List (List Char)) :
    nest (names ++ below) (tagsOf (names.map Mark.closing)) = some below := by
  induction names with
  | nil => rfl
  | cons name names inductionHypothesis =>
      calc
        nest (name :: (names ++ below))
            (.stop name :: tagsOf (names.map Mark.closing))
            = nest (names ++ below) (tagsOf (names.map Mark.closing)) := by
              rw [nest_cons, nestStep, if_pos rfl]
              rfl
        _ = some below := inductionHypothesis

theorem outLen_closing (name : List Char) :
    outLen [.closing name] = byteLen name + 3 := by
  have sizes : '<'.utf8Size = 1 ∧ '/'.utf8Size = 1 ∧ '>'.utf8Size = 1 := by decide
  unfold outLen marksHtml byteLen
  simp only [List.flatMap_cons, List.flatMap_nil, Mark.html, List.append_nil,
    List.map_cons, List.map_append, List.map_nil, List.sum_cons, List.sum_append,
    List.sum_nil, sizes]
  omega

/-- The last loop closes everything where the cap spares it. -/
theorem tagsOf_closeAll {names : List (List Char)} {out : List Mark}
    (named : ∀ name ∈ names, allowedTag name) (carried : carriesClosing out names) :
    tagsOf (closeAll names out) = tagsOf out ++ tagsOf (names.map Mark.closing) := by
  induction names generalizing out with
  | nil => exact (List.append_nil _).symm
  | cons name names inductionHypothesis =>
      rw [carriesClosing, Bool.and_eq_true, decide_eq_true_eq] at carried
      have short : outLen [.closing name] ≤ 1024 := by
        have bound := (allowed_name (named name List.mem_cons_self)).2.2
        rw [outLen_closing]
        omega
      have pushed : pushCapped out [.closing name] = out ++ [.closing name] := by
        unfold pushCapped
        rw [if_neg]
        omega
      rw [closeAll, if_neg (by omega), inductionHypothesis
        (fun other member => named other (List.mem_cons_of_mem _ member)) carried.2,
        pushed, tagsOf_append, List.append_assoc]
      rfl

/-! ## Turns -/

section Turns

variable {isAlphanumeric : Char → Bool} {allowRemote : Bool}

theorem flat_blockedImgPlaceholder (alt : List Char) (stack : List (List Char)) :
    nest stack (tagsOf (blockedImgPlaceholder alt)) = some stack :=
  @nest_under [] [] (tagsOf (blockedImgPlaceholder alt)) (by
    have same : tagsOf (blockedImgPlaceholder alt) =
        tagsOf (blockedImgPlaceholder []) := rfl
    rw [same]
    decide +kernel) stack

/-- Of a turn's pushes, those that are no tags close what they open. -/
theorem flatPush_turn (state : State) (item : Item) :
    ∀ push ∈ (turn isAlphanumeric allowRemote state item).pushes, FlatPush push := by
  intro push member untagged stack
  cases item with
  | text chunk =>
      rw [turn] at member
      dsimp only at member
      split at member
      · rw [List.mem_singleton.mp member]
        rfl
      · cases member
  | markup tag =>
      have wrote : Wrote isAlphanumeric allowRemote state tag _ := wrote_turn state tag
      generalize turn isAlphanumeric allowRemote state (.markup tag) = turned
        at wrote member
      cases wrote with
      | nothing hadRemote dropping => cases member
      | badge t hadRemote dropping alt =>
          rw [List.mem_singleton.mp member]
          exact flat_blockedImgPlaceholder alt stack
      | opens t hadRemote dropping allowed =>
          rw [List.mem_singleton.mp member] at untagged ⊢
          rw [tagPush, Bool.not_eq_false'] at untagged
          have void : isVoid t.name = true := by
            rw [(allowed_name allowed).2.1, untagged]
          change nest stack [.start t.name false] = _
          rw [nest_cons]
          cases stack <;> simp [nestStep, void]
      | closes t dropping allowed full =>
          obtain ⟨name, -, rfl⟩ := List.mem_map.mp member
          cases untagged

/-- A turn opens an element that has an end tag. -/
def opensAt (isAlphanumeric : Char → Bool) (allowRemote : Bool) (state : State) :
    Item → Bool
  | .markup (some t) =>
      (turn isAlphanumeric allowRemote state (.markup (some t))).checks &&
        !voidTag t.name
  | _ => false

theorem takeWhile_cons_dropWhile {name : List Char} {stack : List (List Char)}
    (inside : name ∈ stack) :
    stack.takeWhile (· != name) ++ name :: (stack.dropWhile (· != name)).drop 1 =
      stack := by
  induction stack with
  | nil => cases inside
  | cons top stack inductionHypothesis =>
      by_cases same : top = name
      · rw [List.takeWhile_cons_of_neg (by simp [same]),
          List.dropWhile_cons_of_neg (by simp [same]), same]
        rfl
      · rw [List.takeWhile_cons_of_pos (by simp [same]),
          List.dropWhile_cons_of_pos (by simp [same]), List.cons_append,
          inductionHypothesis ((List.mem_cons.mp inside).resolve_left (Ne.symm same))]

theorem poppedBy_append (name : List Char) (stack : List (List Char)) :
    poppedBy name stack ++ closeTo name stack = stack := by
  unfold poppedBy closeTo
  split
  · next inside =>
    rw [List.append_assoc]
    exact takeWhile_cons_dropWhile inside
  · rfl

/-- The stack of a turn that does not grow too deep is what its pushes leave
open. -/
theorem nest_turn {state : State} {item : Item}
    (shallow : opensAt isAlphanumeric allowRemote state item →
      state.opened.length < 64) :
    nest state.opened
      (tagsOf (turn isAlphanumeric allowRemote state item).pushes.flatten) =
        some (turn isAlphanumeric allowRemote state item).state.opened := by
  cases item with
  | text chunk =>
      rw [turn]
      dsimp only
      split <;> rfl
  | markup tag =>
      have wrote : Wrote isAlphanumeric allowRemote state tag _ := wrote_turn state tag
      cases tag with
      | none => rfl
      | some t =>
          rw [opensAt] at shallow
          generalize turn isAlphanumeric allowRemote state (.markup (some t)) = turned
            at wrote shallow
          cases wrote with
          | nothing hadRemote dropping => rfl
          | badge t hadRemote dropping alt =>
              exact flat_blockedImgPlaceholder alt state.opened
          | opens t hadRemote dropping allowed =>
              rw [Bool.true_and, Bool.not_eq_true'] at shallow
              change nest state.opened [.start t.name false] = _
              rw [nest_cons, nestStep.eq_def]
              dsimp only
              rw [Bool.or_false, (allowed_name allowed).2.1]
              split
              · rfl
              · next full =>
                have room := shallow (Bool.not_eq_true _ ▸ full)
                rw [List.take_of_length_le (by rw [List.length_cons]; omega)]
                rfl
          | closes t dropping allowed full =>
              dsimp only
              rw [flatten_map_closing]
              have closed := nest_tagsOf_closing (poppedBy t.name state.opened)
                (closeTo t.name state.opened)
              rwa [poppedBy_append] at closed

/-- A turn that opens an element pushes its start tag, and the stack forgets what
it has no room for. -/
theorem turn_of_opensAt {state : State} {item : Item}
    (opens : opensAt isAlphanumeric allowRemote state item) :
    ∃ name attrs, isVoid name = false ∧
      (turn isAlphanumeric allowRemote state item).pushes =
        [[.opening name attrs false]] ∧
      (turn isAlphanumeric allowRemote state item).state.opened =
        (name :: state.opened).take 64 := by
  cases item with
  | text chunk => cases opens
  | markup tag =>
      have wrote : Wrote isAlphanumeric allowRemote state tag _ := wrote_turn state tag
      cases tag with
      | none => cases opens
      | some t =>
          rw [opensAt] at opens
          generalize turn isAlphanumeric allowRemote state (.markup (some t)) = turned
            at wrote opens
          cases wrote with
          | nothing hadRemote dropping => cases opens
          | badge t hadRemote dropping alt => cases opens
          | opens t hadRemote dropping allowed =>
              rw [Bool.true_and, Bool.not_eq_true'] at opens
              refine ⟨t.name, _, ?_, rfl, ?_⟩
              · rw [(allowed_name allowed).2.1, opens]
              · exact if_neg (by simp [opens])
          | closes t dropping allowed full => cases opens

/-- A turn opens at least as many elements as it adds to the stack, and more where
the stack is full. -/
theorem length_turn (state : State) (item : Item) :
    ((turn isAlphanumeric allowRemote state item).state.opened.length : Int) +
        (if opensAt isAlphanumeric allowRemote state item ∧
          64 ≤ state.opened.length then 1 else 0) ≤
      state.opened.length +
        rise (tagsOf (turn isAlphanumeric allowRemote state item).pushes.flatten) := by
  split
  · next deep =>
    obtain ⟨name, attrs, full, pushes, opened⟩ := turn_of_opensAt deep.1
    have one : rise [.start name false] = 1 := by
      simp [rise, Token.opens, Token.closes, full]
    rw [pushes, opened]
    change (((name :: state.opened).take 64).length : Int) + 1 ≤
      state.opened.length + rise [.start name false]
    rw [one, List.length_take, List.length_cons]
    omega
  · next shallow =>
    have counted := rise_of_nest (nest_turn fun opens =>
      Nat.lt_of_not_le fun full => shallow ⟨opens, full⟩)
    omega

end Turns

/-! ## Walks -/

/-- One turn of the loop: the state and the output before it, and what it reads. -/
structure Visit where
  state : State
  out : List Mark
  item : Item
  deriving DecidableEq, Repr

section Walks

variable (isAlphanumeric : Char → Bool) (allowRemote : Bool)

/-- The turns of the loop, up to the one that ends it. -/
def visits : List Item → State → List Mark → List Visit
  | [], _, _ => []
  | item :: items, state, out =>
      let turn := turn isAlphanumeric allowRemote state item
      let next := turn.pushes.foldl pushCapped out
      ⟨state, out, item⟩ ::
        if turn.checks && decide (MAX_OUT_BYTES < outLen next) then []
        else visits items turn.state next

/-- The cap drops none of the tags of a turn. -/
def Visit.Carries (visit : Visit) : Prop :=
  carries visit.out (turn isAlphanumeric allowRemote visit.state visit.item).pushes

/-- A turn does not open an element inside 64 others. -/
def Visit.Shallow (visit : Visit) : Prop :=
  opensAt isAlphanumeric allowRemote visit.state visit.item →
    visit.state.opened.length < 64

variable {isAlphanumeric : Char → Bool} {allowRemote : Bool}

/-- Without a loss the walk's stack is what its output leaves open. -/
theorem nest_walk {items : List Item} {state : State} {out : List Mark}
    (open_ : nest [] (tagsOf out) = some state.opened)
    (carried : ∀ visit ∈ visits isAlphanumeric allowRemote items state out,
      visit.Carries isAlphanumeric allowRemote)
    (shallow : ∀ visit ∈ visits isAlphanumeric allowRemote items state out,
      visit.Shallow isAlphanumeric allowRemote) :
    nest [] (tagsOf (walk isAlphanumeric allowRemote items state out).2) =
      some (walk isAlphanumeric allowRemote items state out).1.opened := by
  induction items generalizing state out with
  | nil => exact open_
  | cons item items inductionHypothesis =>
      rw [visits, List.forall_mem_cons] at carried shallow
      have pushed : nest [] (tagsOf ((turn isAlphanumeric allowRemote state
          item).pushes.foldl pushCapped out)) =
            some (turn isAlphanumeric allowRemote state item).state.opened := by
        rw [(alike_pushes (flatPush_turn state item) carried.1).1, nest_append, open_]
        exact nest_turn shallow.1
      rw [walk]
      split
      · exact pushed
      · next goes =>
        rw [if_neg goes] at carried shallow
        exact inductionHypothesis pushed carried.2 shallow.2

/-- What one turn's pushes add to the output's count. -/
theorem length_pushes {state : State} {item : Item} {out : List Mark} {lost : Int}
    (carried : carries out (turn isAlphanumeric allowRemote state item).pushes)
    (short : state.opened.length + lost ≤ rise (tagsOf out)) :
    (turn isAlphanumeric allowRemote state item).state.opened.length + lost +
        (if opensAt isAlphanumeric allowRemote state item ∧
          64 ≤ state.opened.length then 1 else 0) ≤
      rise (tagsOf ((turn isAlphanumeric allowRemote state item).pushes.foldl
        pushCapped out)) := by
  have counted := @length_turn isAlphanumeric allowRemote state item
  rw [(alike_pushes (flatPush_turn state item) carried).2, rise_append]
  omega

/-- What is missing on the stack stays missing. -/
theorem length_walk {items : List Item} {state : State} {out : List Mark}
    (carried : ∀ visit ∈ visits isAlphanumeric allowRemote items state out,
      visit.Carries isAlphanumeric allowRemote)
    {lost : Int} (short : state.opened.length + lost ≤ rise (tagsOf out)) :
    (walk isAlphanumeric allowRemote items state out).1.opened.length + lost ≤
      rise (tagsOf (walk isAlphanumeric allowRemote items state out).2) := by
  induction items generalizing state out with
  | nil => exact short
  | cons item items inductionHypothesis =>
      rw [visits, List.forall_mem_cons] at carried
      have pushed := @length_pushes isAlphanumeric allowRemote state item out lost
        carried.1 short
      have kept : (turn isAlphanumeric allowRemote state item).state.opened.length + lost ≤
          rise (tagsOf ((turn isAlphanumeric allowRemote state item).pushes.foldl
            pushCapped out)) := by
        split_ifs at pushed <;> omega
      rw [walk]
      split
      · exact kept
      · next goes =>
        rw [if_neg goes] at carried
        exact inductionHypothesis carried.2 kept

/-- A walk that goes too deep opens more elements than it leaves on its stack. -/
theorem length_lt_walk {items : List Item} {state : State} {out : List Mark}
    (carried : ∀ visit ∈ visits isAlphanumeric allowRemote items state out,
      visit.Carries isAlphanumeric allowRemote)
    (short : state.opened.length ≤ rise (tagsOf out))
    {visit : Visit} (member : visit ∈ visits isAlphanumeric allowRemote items state out)
    (deep : ¬visit.Shallow isAlphanumeric allowRemote) :
    (walk isAlphanumeric allowRemote items state out).1.opened.length + 1 ≤
      rise (tagsOf (walk isAlphanumeric allowRemote items state out).2) := by
  induction items generalizing state out with
  | nil => cases member
  | cons item items inductionHypothesis =>
      rw [visits] at member
      rw [visits, List.forall_mem_cons] at carried
      have pushed := @length_pushes isAlphanumeric allowRemote state item out 0
        carried.1 (by omega)
      rw [walk]
      rcases List.mem_cons.mp member with rfl | later
      · rw [Visit.Shallow] at deep
        push Not at deep
        rw [if_pos deep, Int.add_zero] at pushed
        split
        · exact pushed
        · next goes =>
          rw [if_neg goes] at carried
          exact length_walk carried.2 (by omega)
      · split
        · next ends =>
          rw [if_pos ends] at later
          cases later
        · next goes =>
          rw [if_neg goes] at carried later
          refine inductionHypothesis carried.2 ?_ later
          split_ifs at pushed <;> omega

end Walks

/-! ## The output -/

section Output

variable (isAlphanumeric : Char → Bool) (allowRemote : Bool) (raw : List Char)

/-- The turns over an input. -/
def visitsOf : List Visit :=
  visits isAlphanumeric allowRemote (scan (truncateOnCharBoundary MAX_HTML_BYTES raw))
    .start []

/-- The cap drops none of the tags. -/
structure Carried : Prop where
  turns : ∀ visit ∈ visitsOf isAlphanumeric allowRemote raw,
    visit.Carries isAlphanumeric allowRemote
  closing :
    let (state, out) := walk isAlphanumeric allowRemote
      (scan (truncateOnCharBoundary MAX_HTML_BYTES raw)) .start []
    carriesClosing out state.opened

variable {isAlphanumeric allowRemote raw}

/-- Where the cap drops no tag, the output is well formed exactly if no tag opens
inside 64 others. -/
theorem wellNested_iff (carried : Carried isAlphanumeric allowRemote raw) :
    WellNested (tokens (sanitize isAlphanumeric raw allowRemote).html) ↔
      ∀ visit ∈ visitsOf isAlphanumeric allowRemote raw,
        visit.Shallow isAlphanumeric allowRemote := by
  have html : nest [] (tokens (sanitize isAlphanumeric raw allowRemote).html) =
      nest [] (tagsOf (sanitizeMarks isAlphanumeric raw allowRemote).1) :=
    nest_tokens (safe_sanitizeMarks raw) []
  obtain ⟨turns, closing⟩ := carried
  rw [WellNested, html, sanitizeMarks]
  unfold visitsOf at turns ⊢
  generalize scan (truncateOnCharBoundary MAX_HTML_BYTES raw) = items at turns closing ⊢
  have named := (@written_walk isAlphanumeric allowRemote items .start []
    (by simp [State.Named, State.start]) (by simp)).1
  have closed := tagsOf_closeAll (fun name member => (named name member).1) closing
  dsimp only
  rw [closed, nest_append]
  constructor
  · intro nested visit member
    by_contra deep
    have missing := length_lt_walk turns (by decide) member deep
    rw [← nest_append] at nested
    have counted := rise_of_nest nested
    rw [rise_append] at counted
    have closers := rise_of_nest (nest_tagsOf_closing
      (walk isAlphanumeric allowRemote items .start []).1.opened [])
    rw [List.append_nil] at closers
    simp only [List.length_nil] at counted closers
    omega
  · intro shallow
    rw [nest_walk rfl turns shallow]
    have all := nest_tagsOf_closing
      (walk isAlphanumeric allowRemote items .start []).1.opened []
    rwa [List.append_nil] at all

end Output

namespace Sample

/-- 65 elements, none of them closed. -/
def deepBlocks : List Char :=
  (List.replicate 65 "<div>".toList).flatten

/-- The first of 65 elements is never closed. -/
theorem forgets_the_oldest :
    ¬WellNested (tokens (sanitize Char.isAlphanum deepBlocks false).html) := by
  unfold WellNested
  decide +kernel

/-- An end tag that closes two elements, and two left open. -/
def crossed : List Char :=
  "<p>a<b>c</p><ul><li>d".toList

theorem crossed_nests :
    WellNested (tokens (sanitize Char.isAlphanum crossed false).html) :=
  (wellNested_iff ⟨by unfold Visit.Carries; decide +kernel, by decide +kernel⟩).mpr
    (by unfold Visit.Shallow; decide +kernel)

end Sample

end Html
end Mailcore
