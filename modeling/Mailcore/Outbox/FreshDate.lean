import Mailcore.Outbox.HeaderLines

/-!
# What refreshing the date does to a message

The loop over the header block, line by line: the first line that it takes for
the date is written anew and loses its continuations, and where there is none
the date is put in front.
-/

namespace Mailcore
namespace Outbox
namespace DateHeader

/-- The line ending of a line, empty for a tail. -/
def endingOf (chunk : Bytes) : Bytes :=
  if chunk.getLast? = some lf then
    if chunk.dropLast.getLast? = some cr then [cr, lf] else [lf]
  else []

/-- A line without its ending. -/
def contentOf (chunk : Bytes) : Bytes :=
  if chunk.getLast? = some lf then
    if chunk.dropLast.getLast? = some cr then chunk.dropLast.dropLast else chunk.dropLast
  else chunk

/-- A line that the loop takes for the date. -/
def recognised (chunk : Bytes) : Bool :=
  isDateLine (contentOf chunk)

theorem contentOf_append_endingOf (chunk : Bytes) : contentOf chunk ++ endingOf chunk = chunk := by
  unfold contentOf endingOf
  split_ifs with feed carriage
  · have outer := List.dropLast_append_getLast? _ feed
    have inner := List.dropLast_append_getLast? _ carriage
    calc
      chunk.dropLast.dropLast ++ [cr, lf] = chunk.dropLast.dropLast ++ [cr] ++ [lf] := by simp
      _ = chunk := by rw [inner, outer]
  · exact List.dropLast_append_getLast? _ feed
  · exact List.append_nil chunk

/-- The loop's turn for a line with its ending. -/
def turn (date : Bytes) (progress : Progress) (chunk : Bytes) : Progress :=
  if progress.skippingFold && isFolded (contentOf chunk) then progress
  else if !progress.replaced && recognised chunk then
    { out := progress.out ++ date ++ endingOf chunk
      replaced := true
      skippingFold := true }
  else
    { progress with
      out := progress.out ++ chunk
      skippingFold := false }

/-! ## The loop over whole lines -/

theorem step_eq_turn (date : Bytes) (progress : Progress) (whole : Bytes) :
    step date progress whole = turn date progress (whole ++ [lf]) := by
  have content : contentOf (whole ++ [lf]) =
      if whole.getLast? = some cr then whole.dropLast else whole := by
    simp [contentOf]
  have ending : endingOf (whole ++ [lf]) =
      if whole.getLast? = some cr then [cr, lf] else [lf] := by
    simp [endingOf]
  have joined := contentOf_append_endingOf (whole ++ [lf])
  unfold step turn recognised
  dsimp only
  rw [← joined, ← List.append_assoc, joined, content, ending]

theorem contentOf_tail {tail : Bytes} (missing : lf ∉ tail) :
    contentOf tail = tail ∧ endingOf tail = [] := by
  have noFeed : tail.getLast? ≠ some lf := fun feed => missing (List.mem_of_mem_getLast? feed)
  rw [contentOf, endingOf, if_neg noFeed, if_neg noFeed]
  exact ⟨rfl, rfl⟩

theorem stepTail_eq_turn (date : Bytes) (progress : Progress) {tail : Bytes}
    (missing : lf ∉ tail) (nonempty : tail ≠ []) :
    (stepTail date progress tail).out = (turn date progress tail).out ∧
      (stepTail date progress tail).replaced = (turn date progress tail).replaced := by
  have filled : tail.isEmpty = false := by simpa using nonempty
  unfold stepTail turn recognised
  rw [(contentOf_tail missing).1, (contentOf_tail missing).2, filled]
  split_ifs <;> simp_all

theorem chunks_eq_splitLines (raw : Bytes) :
    chunks raw = (splitLines raw).1.map (fun whole => whole ++ [lf]) ++
      (if (splitLines raw).2 = [] then [] else [(splitLines raw).2]) ∧
      lf ∉ (splitLines raw).2 := by
  induction raw with
  | nil => simp [chunks, splitLines]
  | cons byte rest inductionHypothesis =>
      obtain ⟨same, missing⟩ := inductionHypothesis
      rw [chunks, splitLines, same]
      generalize splitLines rest = cut at missing
      obtain ⟨lines, tail⟩ := cut
      dsimp only at missing ⊢
      by_cases feed : byte = lf
      · simp only [if_pos feed]
        exact ⟨rfl, missing⟩
      · simp only [if_neg feed]
        cases lines with
        | nil =>
            have apart : lf ∉ byte :: tail := by
              rw [List.mem_cons, not_or]
              exact ⟨Ne.symm feed, missing⟩
            refine ⟨?_, apart⟩
            by_cases empty : tail = []
            · simp [empty]
            · simp [empty]
        | cons line lines => exact ⟨rfl, missing⟩

/-- The header block as the loop reads it. -/
def block (raw : Bytes) : List Bytes :=
  chunks (raw.take (headEnd raw))

def lineFeed (raw : Bytes) : Bytes :=
  if (findSlice raw [cr, lf]).isSome then [cr, lf] else [lf]

def dateLine (now : String) : Bytes :=
  ascii "Date: " ++ utf8 now

theorem refreshDateHeader_eq (now : String) (raw : Bytes) :
    refreshDateHeader now raw =
      (let done := (block raw).foldl (turn (dateLine now)) ⟨[], false, false⟩
      if done.replaced then done.out else dateLine now ++ lineFeed raw ++ done.out) ++
        raw.drop (headEnd raw) := by
  obtain ⟨cut, missing⟩ := chunks_eq_splitLines (raw.take (headEnd raw))
  unfold refreshDateHeader block
  rw [cut, List.foldl_append, List.foldl_map]
  simp only [← step_eq_turn]
  generalize splitLines (raw.take (headEnd raw)) = parts at missing
  obtain ⟨lines, tail⟩ := parts
  dsimp only at missing ⊢
  rw [← dateLine, ← lineFeed]
  generalize lines.foldl (step (dateLine now)) ⟨[], false, false⟩ = progress
  by_cases empty : tail = []
  · rw [if_pos empty, empty]
    rfl
  · obtain ⟨out, replaced⟩ := stepTail_eq_turn (dateLine now) progress missing empty
    rw [if_neg empty, List.foldl_cons, List.foldl_nil, ← out, ← replaced]

section Loop

variable (date : Bytes)

theorem isFolded_contentOf (chunk : Bytes) : isFolded (contentOf chunk) = isFolded chunk := by
  have joined := contentOf_append_endingOf chunk
  unfold isFolded
  cases content : contentOf chunk with
  | nil =>
      rw [content, List.nil_append] at joined
      rw [← joined, endingOf]
      split_ifs <;> rfl
  | cons byte rest =>
      rw [← joined, content]
      rfl

/-- Without a date line the block stays. -/
theorem foldl_turn_plain (out : Bytes) {lines : List Bytes}
    (plain : ∀ chunk ∈ lines, recognised chunk = false) :
    lines.foldl (turn date) ⟨out, false, false⟩ = ⟨out ++ lines.flatten, false, false⟩ := by
  induction lines generalizing out with
  | nil => simp
  | cons chunk lines inductionHypothesis =>
      have here := plain chunk List.mem_cons_self
      have turned : turn date ⟨out, false, false⟩ chunk = ⟨out ++ chunk, false, false⟩ := by
        simp [turn, here]
      rw [List.foldl_cons, turned, inductionHypothesis _ fun other member =>
        plain other (List.mem_cons_of_mem _ member), List.flatten_cons, List.append_assoc]

/-- Behind the date line the rest stays, but the lines that continue it. -/
theorem foldl_turn_replaced (out : Bytes) (skipping : Bool) (lines : List Bytes) :
    (lines.foldl (turn date) ⟨out, true, skipping⟩).replaced = true ∧
      (lines.foldl (turn date) ⟨out, true, skipping⟩).out =
        out ++ (if skipping then lines.dropWhile isFolded else lines).flatten := by
  induction lines generalizing out skipping with
  | nil => cases skipping <;> simp
  | cons chunk lines inductionHypothesis =>
      rw [List.foldl_cons]
      cases folded : skipping && isFolded chunk with
      | true =>
          have both := Bool.and_eq_true_iff.mp folded
          have turned : turn date ⟨out, true, skipping⟩ chunk = ⟨out, true, skipping⟩ := by
            simp [turn, isFolded_contentOf, both.1, both.2]
          rw [turned]
          have later := inductionHypothesis out skipping
          rw [both.1, if_pos rfl] at later ⊢
          rwa [List.dropWhile_cons_of_pos both.2]
      | false =>
          have turned : turn date ⟨out, true, skipping⟩ chunk = ⟨out ++ chunk, true, false⟩ := by
            simp [turn, isFolded_contentOf, folded]
          rw [turned]
          obtain ⟨replaced, same⟩ := inductionHypothesis (out ++ chunk) false
          refine ⟨replaced, ?_⟩
          rw [same]
          cases skipping with
          | true =>
              rw [Bool.true_and] at folded
              simp [List.dropWhile_cons_of_neg, folded]
          | false => simp

end Loop

/-! ## Where the block ends -/

theorem chunks_append {front : Bytes} (feed : front.getLast? = some lf) (back : Bytes) :
    chunks (front ++ back) = chunks front ++ chunks back := by
  have lines : ∀ chunk ∈ chunks front, IsLine chunk := by
    have lined := lined_chunks front
    have whole := flatten_chunks front
    rcases List.eq_nil_or_concat' (chunks front) with empty | ⟨others, last, cut⟩
    · rw [empty]
      exact fun _ member => absurd member List.not_mem_nil
    · rw [cut] at lined whole ⊢
      obtain ⟨all, ends⟩ := lined.split (List.cons_ne_nil _ _)
      cases ends with
      | tail content nonempty missing =>
          have final : front.getLast? = last.getLast? := by
            rw [← whole, List.flatten_append, List.flatten_cons, List.flatten_nil, List.append_nil,
              List.getLast?_append_of_ne_nil _ nonempty]
          rw [feed] at final
          exact absurd (List.mem_of_mem_getLast? final.symm) missing
      | cons line rest =>
          intro chunk member
          rcases List.mem_append.mp member with inside | ends
          · exact all chunk inside
          · rwa [List.mem_singleton.mp ends]
  have joined := chunks_flatten (Lined.append lines (lined_chunks back))
  rwa [List.flatten_append, flatten_chunks, flatten_chunks] at joined

theorem take_of_findSlice {raw needle : Bytes} {start : Nat}
    (found : findSlice raw needle = some start) :
    raw.take (start + needle.length) = raw.take start ++ needle := by
  have here := List.find?_some found
  rw [decide_eq_true_eq] at here
  rw [List.take_add, here]

/-- The block is the whole message, or ends with an empty line. -/
theorem block_cases (raw : Bytes) :
    (raw.take (headEnd raw) = raw ∧ raw.drop (headEnd raw) = []) ∨
      (raw.take (headEnd raw)).getLast? = some lf ∧
        ∃ lines blank, block raw = lines ++ [blank] ∧ isBlank blank := by
  unfold block headEnd
  cases crlf : findSlice raw [cr, lf, cr, lf] with
  | some start =>
      right
      have taken := take_of_findSlice crlf
      dsimp only [List.length_cons, List.length_nil] at taken ⊢
      rw [taken]
      refine ⟨by simp, chunks (raw.take start ++ [cr, lf]), [cr, lf], ?_, by decide⟩
      have cut : raw.take start ++ [cr, lf, cr, lf] = (raw.take start ++ [cr, lf]) ++ [cr, lf] := by
        simp
      rw [cut, chunks_append (by simp)]
      rfl
  | none =>
      cases feeds : findSlice raw [lf, lf] with
      | some start =>
          right
          have taken := take_of_findSlice feeds
          dsimp only [List.length_cons, List.length_nil] at taken ⊢
          rw [taken]
          refine ⟨by simp, chunks (raw.take start ++ [lf]), [lf], ?_, by decide⟩
          have cut : raw.take start ++ [lf, lf] = (raw.take start ++ [lf]) ++ [lf] := by simp
          rw [cut, chunks_append (by simp)]
          rfl
      | none => exact .inl ⟨List.take_length, List.drop_length⟩

theorem chunks_eq_block (raw : Bytes) :
    chunks raw = block raw ++ chunks (raw.drop (headEnd raw)) := by
  rcases block_cases raw with ⟨whole, nothing⟩ | ⟨feed, -⟩
  · rw [block, whole, nothing, chunks, List.append_nil]
  · have cut := chunks_append feed (raw.drop (headEnd raw))
    rwa [List.take_append_drop] at cut

/-- What the loop reads beyond the header. -/
def overshoot (raw : Bytes) : List Bytes :=
  (block raw).dropWhile fun chunk => !isBlank chunk

theorem header_eq (raw : Bytes) :
    header raw = (block raw).takeWhile fun chunk => !isBlank chunk := by
  rw [header, chunks_eq_block]
  rcases block_cases raw with ⟨-, nothing⟩ | ⟨-, lines, blank, cut, empty⟩
  · rw [nothing, chunks, List.append_nil]
  · rw [cut, List.append_assoc]
    have stops : Text.Stops (fun chunk => !isBlank chunk) [blank] :=
      Text.stops_cons.mpr (by simp [empty])
    rw [Text.takeWhile_append_stops lines stops,
      Text.takeWhile_append_stops lines (stops.append (List.cons_ne_nil _ _) _)]

theorem block_eq (raw : Bytes) : block raw = header raw ++ overshoot raw := by
  rw [header_eq, overshoot, List.takeWhile_append_dropWhile]

/-- Behind the header comes what the loop reads too, and then what it leaves. -/
theorem rest_eq (raw : Bytes) :
    ((chunks raw).dropWhile fun chunk => !isBlank chunk) =
      overshoot raw ++ chunks (raw.drop (headEnd raw)) := by
  have parts : header raw ++ ((chunks raw).dropWhile fun chunk => !isBlank chunk) = chunks raw :=
    List.takeWhile_append_dropWhile
  conv_rhs at parts => rw [chunks_eq_block, block_eq, List.append_assoc]
  exact List.append_cancel_left parts

theorem stops_overshoot (raw : Bytes) :
    Text.Stops (fun chunk => !isBlank chunk) (overshoot raw) :=
  Text.stops_dropWhile _ _

/-! ## What the loop makes of the message -/

theorem refreshDateHeader_of_date (now : String) {raw : Bytes} {before after : List Bytes}
    {line : Bytes} (cut : block raw = before ++ line :: after)
    (plain : ∀ chunk ∈ before, recognised chunk = false) (found : recognised line) :
    refreshDateHeader now raw =
      (before ++ (dateLine now ++ endingOf line) :: after.dropWhile isFolded).flatten ++
        raw.drop (headEnd raw) := by
  have turned : turn (dateLine now) ⟨before.flatten, false, false⟩ line =
      ⟨before.flatten ++ dateLine now ++ endingOf line, true, true⟩ := by
    simp [turn, found]
  obtain ⟨replaced, out⟩ := foldl_turn_replaced (dateLine now)
    (before.flatten ++ dateLine now ++ endingOf line) true after
  rw [refreshDateHeader_eq, cut, List.foldl_append, foldl_turn_plain _ _ plain, List.nil_append,
    List.foldl_cons, turned]
  dsimp only
  rw [replaced, if_pos rfl, out, if_pos rfl]
  simp

theorem refreshDateHeader_of_none (now : String) {raw : Bytes}
    (plain : ∀ chunk ∈ block raw, recognised chunk = false) :
    refreshDateHeader now raw = dateLine now ++ lineFeed raw ++ raw := by
  have whole : (block raw).flatten ++ raw.drop (headEnd raw) = raw := by
    rw [block, flatten_chunks, List.take_append_drop]
  rw [refreshDateHeader_eq, foldl_turn_plain _ _ plain]
  dsimp only
  rw [if_neg Bool.false_ne_true, List.nil_append, List.append_assoc, whole]

end DateHeader
end Outbox
end Mailcore
