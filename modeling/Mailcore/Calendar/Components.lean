import Mailcore.Calendar.Parse

/-!
# Nested components

A properly nested text is the writing of a tree of components.  The pass over its
lines, which tracks the open components on a stack, reads the tree by recursion.
-/

namespace Mailcore
namespace Calendar

open Html (trim byteLen)
open Text (lines)
open Content (ContentLine unfold parseContentLine)

/-! ## Content lines -/

/-- The content lines of a text; blank lines and lines that are none are passed over. -/
def contentLinesOf (text : List (List Char)) : List ContentLine :=
  text.filterMap fun line => if trim line = [] then none else parseContentLine (trim line)

def contentLines (icsData : List Char) : List ContentLine :=
  contentLinesOf (lines (unfold icsData))

/-- What a content line says of the nesting. -/
inductive Token where
  | begin_ (comp : List Char)
  | end_ (comp : List Char)
  | property (cl : ContentLine)
  deriving DecidableEq

def tokenOf (cl : ContentLine) : Token :=
  if cl.name = "BEGIN".toList then .begin_ (valueUpper cl)
  else if cl.name = "END".toList then .end_ (valueUpper cl)
  else .property cl

variable {chrono : Chrono}

/-- What the pass makes of a token. -/
def Scan.token (s : Scan chrono) : Token → Flow chrono
  | .begin_ comp =>
      if MAX_DEPTH ≤ s.stack.length then .refuse
      else .go ⟨comp :: s.stack, s.progress.open_ comp⟩
  | .end_ comp =>
      if comp = "VCALENDAR".toList then .stop (s.progress.close comp)
      else .go ⟨truncateAt comp s.stack, s.progress.close comp⟩
  | .property cl => .go ⟨s.stack, s.progress.property s.stack[0]? s.stack[1]? cl⟩

def Scan.tokens (s : Scan chrono) : List Token → Option (Progress chrono)
  | [] => some s.progress
  | t :: later =>
      match s.token t with
      | .refuse => none
      | .stop progress => some progress
      | .go next => next.tokens later

theorem Scan.line_eq (s : Scan chrono) (cl : ContentLine) : s.line cl = s.token (tokenOf cl) := by
  unfold Scan.line tokenOf
  by_cases begins : cl.name = "BEGIN".toList
  · rw [if_pos begins, if_pos begins]
    rfl
  · rw [if_neg begins, if_neg begins]
    by_cases ends : cl.name = "END".toList
    · rw [if_pos ends, if_pos ends]
      rfl
    · rw [if_neg ends, if_neg ends]
      rfl

theorem Scan.run_eq (s : Scan chrono) (text : List (List Char)) :
    s.run text = s.tokens ((contentLinesOf text).map tokenOf) := by
  induction text generalizing s with
  | nil => rfl
  | cons line later inductionHypothesis =>
      rw [Scan.run, contentLinesOf, List.filterMap_cons]
      split_ifs with blank
      · exact inductionHypothesis s
      · cases parseContentLine (trim line) with
        | none => exact inductionHypothesis s
        | some cl =>
            dsimp only
            rw [List.map_cons, Scan.tokens, Scan.line_eq]
            cases s.token (tokenOf cl) with
            | refuse => rfl
            | stop progress => rfl
            | go next => exact inductionHypothesis next

/-! ## Trees of components -/

/-- What stands between the ends of a component: properties and components. -/
inductive Body where
  | done
  | line (own : ContentLine) (rest : Body)
  | component (comp : List Char) (inner rest : Body)
  deriving DecidableEq

namespace Body

def tokens : Body → List Token
  | done => []
  | line own rest => .property own :: rest.tokens
  | component comp inner rest => .begin_ comp :: (inner.tokens ++ .end_ comp :: rest.tokens)

/-- The names of the components at any depth. -/
def names : Body → List (List Char)
  | done => []
  | line _ rest => rest.names
  | component comp inner rest => comp :: (inner.names ++ rest.names)

def depth : Body → Nat
  | done => 0
  | line _ rest => rest.depth
  | component _ inner rest => max (inner.depth + 1) rest.depth

/-- What is read of a body, by its innermost open component and the one around it. -/
def run : Body → Option (List Char) → Option (List Char) → Progress chrono → Progress chrono
  | done, _, _, p => p
  | line own rest, top, parent, p => rest.run top parent (p.property top parent own)
  | component comp inner rest, top, parent, p =>
      rest.run top parent ((inner.run (some comp) top (p.open_ comp)).close comp)

end Body

theorem truncateAt_head (comp : List Char) (stack : List (List Char)) :
    truncateAt comp (comp :: stack) = stack := by
  simp [truncateAt]

/-- The pass over a body leaves the stack as it was and reads the tree. -/
theorem Scan.tokens_body (b : Body) (stack : List (List Char)) (p : Progress chrono)
    (later : List Token) (shallow : stack.length + b.depth ≤ MAX_DEPTH)
    (inside : "VCALENDAR".toList ∉ b.names) :
    (Scan.mk stack p).tokens (b.tokens ++ later) =
      (Scan.mk stack (b.run stack[0]? stack[1]? p)).tokens later := by
  induction b generalizing stack p later with
  | done => rfl
  | line own rest inductionHypothesis => exact inductionHypothesis stack _ later shallow inside
  | component comp inner rest innerHypothesis restHypothesis =>
      rw [Body.depth] at shallow
      rw [Body.names, List.mem_cons, List.mem_append, not_or, not_or] at inside
      obtain ⟨notCalendar, noneInner, noneRest⟩ := inside
      have room : ¬MAX_DEPTH ≤ stack.length := by omega
      have opened : (Scan.mk stack p).token (.begin_ comp) =
          .go ⟨comp :: stack, p.open_ comp⟩ := by
        rw [Scan.token, if_neg room]
      have closed : ∀ q : Progress chrono, (Scan.mk (comp :: stack) q).token (.end_ comp) =
          .go ⟨stack, q.close comp⟩ := by
        intro q
        rw [Scan.token, if_neg (Ne.symm notCalendar), truncateAt_head]
      rw [Body.tokens, List.cons_append, List.append_assoc, List.cons_append, Scan.tokens, opened]
      dsimp only
      rw [innerHypothesis (comp :: stack) _ _ (by rw [List.length_cons]; omega) noneInner,
        Scan.tokens, closed]
      dsimp only
      rw [restHypothesis stack _ later (by omega) noneRest]
      rfl

/-! ## Calendars -/

/-- The text is properly nested and one `VCALENDAR`, with the body between its ends. -/
structure IsCalendar (icsData : List Char) (root : Body) : Prop where
  nested : (contentLines icsData).map tokenOf =
    .begin_ "VCALENDAR".toList :: (root.tokens ++ [.end_ "VCALENDAR".toList])
  single : "VCALENDAR".toList ∉ root.names

/-- The text is within the parser's size and depth limits. -/
def Within (icsData : List Char) (root : Body) : Prop :=
  byteLen icsData ≤ MAX_ICS_BYTES ∧ root.depth < MAX_DEPTH

instance (icsData : List Char) (root : Body) : Decidable (Within icsData root) :=
  inferInstanceAs (Decidable (_ ∧ _))

/-- What is read of a calendar. -/
def Body.progress (chrono : Chrono) (root : Body) : Progress chrono :=
  root.run (some "VCALENDAR".toList) none (.start chrono)

theorem parse_calendar {icsData : List Char} {root : Body} (calendar : IsCalendar icsData root)
    (within_ : Within icsData root) :
    parse chrono icsData = (root.progress chrono).card := by
  obtain ⟨size, depth⟩ := within_
  have closed : ∀ p : Progress chrono, p.close "VCALENDAR".toList = p := by
    intro p
    rw [Progress.close, if_neg (by decide), if_neg (by simp)]
  have read : (Scan.mk [] (Progress.start chrono)).run (lines (unfold icsData)) =
      some (root.progress chrono) := by
    rw [Scan.run_eq]
    refine (congrArg _ calendar.nested).trans ?_
    have opened : (Scan.mk [] (Progress.start chrono)).token (.begin_ "VCALENDAR".toList) =
        .go ⟨["VCALENDAR".toList], .start chrono⟩ := by
      have room : ¬MAX_DEPTH ≤ ([] : List (List Char)).length := by decide
      rw [Scan.token, if_neg room, Progress.open_, if_neg (by decide)]
    rw [Scan.tokens, opened]
    dsimp only
    rw [Scan.tokens_body root _ _ _ (by rw [List.length_singleton]; omega) calendar.single,
      Scan.tokens, Scan.token, if_pos rfl]
    dsimp only
    rw [closed]
    rfl
  rw [parse, if_neg (by omega), read]
  rfl

end Calendar
end Mailcore
