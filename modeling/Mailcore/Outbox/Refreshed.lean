import Mailcore.Outbox.FreshDate
import Mailcore.Store.Clock

/-!
# Refreshed messages

Where refreshing the date changes nothing but the date.
-/

namespace Mailcore
namespace Outbox
namespace DateHeader

/-- A message has one `Date` field, which holds the date, and is otherwise as
before. -/
structure Refreshed (now : String) (raw out : Bytes) : Prop where
  date : ∃ line, dateFields out = [[line]] ∧ contentOf line = dateLine now
  others : otherFields out = otherFields raw
  body : body out = body raw

/-- The header has one `Date` field, whose first line says more than its name;
or it has none and does not begin with a folded line, and what the loop reads
beyond the header holds no date line. -/
def Refreshable (raw : Bytes) : Prop :=
  (∃ field, dateFields raw = [field] ∧ field.head?.any recognised) ∨
    dateFields raw = [] ∧ Text.Stops isFolded (header raw) ∧
      ∀ chunk ∈ overshoot raw, recognised chunk = false

/-! ## Bytes of a text -/

theorem toList_loop (bytes : ByteArray) (start : Nat) (read : Bytes) :
    ByteArray.toList.loop bytes start read = read.reverse ++ bytes.data.toList.drop start := by
  induction start, read using ByteArray.toList.loop.induct bytes with
  | case1 start read inside inductionHypothesis =>
      rw [ByteArray.toList.loop, if_pos inside, inductionHypothesis]
      have bound : start < bytes.data.toList.length := by
        simpa using inside
      have same : bytes.get! start = bytes.data.toList[start] := by
        obtain ⟨data⟩ := bytes
        change data[start]! = data.toList[start]
        rw [Array.getElem_toList]
        exact getElem!_pos data start inside
      rw [List.drop_eq_getElem_cons bound, same]
      simp
  | case2 start read outside =>
      rw [ByteArray.toList.loop, if_neg outside, List.drop_eq_nil_of_le, List.append_nil]
      simpa using outside

/-- The bytes of a text are those of its characters. -/
theorem utf8_eq (text : String) : utf8 text = text.toList.flatMap String.utf8EncodeChar := by
  have bytes : text.toUTF8.toList = text.toByteArray.data.toList := by
    rw [String.toUTF8_eq_toByteArray, ByteArray.toList, toList_loop]
    rfl
  rw [utf8, bytes, ← String.utf8Encode_toList, List.utf8Encode, List.toList_data_toByteArray]

/-! ## Lines of a date -/

/-- A date as `chrono` writes it. -/
def OneLine (now : String) : Prop :=
  lf ∉ utf8 now ∧ cr ∉ utf8 now

section Lines

theorem dateLine_eq (now : String) :
    dateLine now = 68 :: 97 :: 116 :: 101 :: 58 :: 32 :: utf8 now :=
  rfl

variable {now : String}

theorem feed_notMem_dateLine (oneLine : OneLine now) :
    lf ∉ dateLine now ∧ cr ∉ dateLine now := by
  rw [dateLine_eq]
  simp only [List.mem_cons, not_or]
  exact ⟨⟨by decide, by decide, by decide, by decide, by decide, by decide, oneLine.1⟩,
    ⟨by decide, by decide, by decide, by decide, by decide, by decide, oneLine.2⟩⟩

/-- The endings that a line can have. -/
def IsEnding (ending : Bytes) : Prop :=
  ending = [] ∨ ending = [lf] ∨ ending = [cr, lf]

theorem isEnding_endingOf (chunk : Bytes) : IsEnding (endingOf chunk) := by
  unfold endingOf IsEnding
  split_ifs
  · exact .inr (.inr rfl)
  · exact .inr (.inl rfl)
  · exact .inl rfl

theorem isEnding_lineFeed (raw : Bytes) : IsEnding (lineFeed raw) := by
  unfold lineFeed IsEnding
  split_ifs
  · exact .inr (.inr rfl)
  · exact .inr (.inl rfl)

theorem contentOf_dateLine (oneLine : OneLine now) {ending : Bytes} (isEnding : IsEnding ending) :
    contentOf (dateLine now ++ ending) = dateLine now := by
  obtain ⟨noFeed, noReturn⟩ := feed_notMem_dateLine oneLine
  rcases isEnding with rfl | rfl | rfl
  · rw [List.append_nil]
    exact (contentOf_tail noFeed).1
  · have last : (dateLine now).getLast? ≠ some cr := fun ends =>
      noReturn (List.mem_of_mem_getLast? ends)
    simp [contentOf, last]
  · have cut : dateLine now ++ [cr, lf] = (dateLine now ++ [cr]) ++ [lf] := by simp
    rw [cut]
    simp [contentOf]

theorem isDateLine_dateLine (now : String) : isDateLine (dateLine now) = true := by
  rw [dateLine_eq]
  simp [isDateLine]
  decide

theorem opensDate_of_recognised {chunk : Bytes} (found : recognised chunk) :
    opensDate chunk ∧ isFolded chunk = false ∧ isBlank chunk = false := by
  have joined := contentOf_append_endingOf chunk
  rw [recognised] at found
  generalize contentOf chunk = content at joined found
  generalize endingOf chunk = ending at joined
  simp only [isDateLine, Bool.and_eq_true, decide_eq_true_eq] at found
  obtain ⟨⟨long, colon⟩, name⟩ := found
  match content, long, colon, name with
  | first :: second :: third :: fourth :: fifth :: rest, _, colon, name =>
    simp only [List.getElem?_cons_succ, List.getElem?_cons_zero, Option.some.injEq] at colon
    simp only [List.take_succ_cons, List.take_zero, List.map_cons, List.map_nil,
      List.cons.injEq, and_true] at name
    obtain ⟨one, two, three, four⟩ := name
    have letter : first ≠ 32 ∧ first ≠ 9 ∧ first ≠ lf ∧ first ≠ cr := by
      refine ⟨?_, ?_, ?_, ?_⟩ <;>
        rintro rfl <;>
        exact absurd one (by decide)
    rw [← joined]
    refine ⟨?_, ?_, ?_⟩
    · rw [opensDate, decide_eq_true_eq]
      simp only [List.cons_append, List.take_succ_cons, List.take_zero, List.map_cons,
        List.map_nil, one, two, three, four, colon]
      decide
    · simp [isFolded, letter]
    · simp [isBlank, letter]

end Lines

/-! ## Header and body of put-together lines -/

theorem header_flatten {front rest : List Bytes} (lined : Lined (front ++ rest))
    (filled : ∀ chunk ∈ front, isBlank chunk = false)
    (stops : Text.Stops (fun chunk => !isBlank chunk) rest) :
    header (front ++ rest).flatten = front ∧ body (front ++ rest).flatten = rest.flatten := by
  have all : ∀ chunk ∈ front, (!isBlank chunk) = true := fun chunk member => by
    rw [filled chunk member]
    rfl
  rw [header, body, chunks_flatten lined, Text.takeWhile_append_of_stops all stops,
    Text.dropWhile_append_of_stops all stops]
  exact ⟨rfl, rfl⟩

theorem filled_header {raw chunk : Bytes} (member : chunk ∈ header raw) :
    isBlank chunk = false := by
  simpa using List.mem_takeWhile_imp member

/-- A line may be written anew, and lines behind it may go. -/
theorem Lined.rewrite {before later kept : List Bytes} {line date : Bytes}
    (lined : Lined (before ++ line :: later)) (within : kept.Sublist later)
    (missing : lf ∉ date) (nonempty : date ≠ []) :
    Lined (before ++ (date ++ endingOf line) :: kept) := by
  obtain ⟨lines, rest⟩ := lined.split (List.cons_ne_nil _ _)
  refine Lined.append lines ?_
  cases rest with
  | tail content filled clear =>
      rw [List.sublist_nil.mp within, (contentOf_tail clear).2, List.append_nil]
      exact .tail date nonempty missing
  | cons isLine rest =>
      refine .cons ?_ (rest.sublist within)
      obtain ⟨content, clear, rfl⟩ := isLine
      have ending : endingOf (content ++ [lf]) =
          if content.getLast? = some cr then [cr, lf] else [lf] := by
        simp [endingOf]
      rw [ending]
      split_ifs
      · refine ⟨date ++ [cr], ?_, by simp⟩
        rw [List.mem_append, not_or]
        exact ⟨missing, by decide⟩
      · exact ⟨date, missing, rfl⟩

theorem flatten_fields (lines : List Bytes) : (fields lines).flatten = lines := by
  induction hlength : lines.length using Nat.strong_induction_on generalizing lines with
  | _ length inductionHypothesis =>
    cases lines with
    | nil => rfl
    | cons line later =>
        have short : (later.dropWhile isFolded).length < length := by
          rw [← hlength, List.length_cons]
          exact Nat.lt_succ_of_le (List.dropWhile_sublist _).length_le
        rw [fields_cons, List.flatten_cons, inductionHypothesis _ short _ rfl, List.cons_append,
          List.takeWhile_append_dropWhile]

theorem head_mem_of_mem_fields {lines : List Bytes} {field : List Bytes} {line : Bytes}
    (member : field ∈ fields lines) (first : field.head? = some line) : line ∈ lines := by
  rw [← flatten_fields lines]
  exact List.mem_flatten_of_mem member (List.mem_of_head? first)

/-- The fields around one that a line opens. -/
theorem fields_around (before : List Bytes) {line : Bytes} (plain : isFolded line = false)
    (after : List Bytes) :
    fields (before ++ line :: after) =
      fields before ++ (line :: after.takeWhile isFolded) :: fields (after.dropWhile isFolded) := by
  rw [fields_append before plain, fields_cons]

/-! ## The three ways -/

section Ways

variable {now : String} {raw : Bytes} {before after : List Bytes} {line : Bytes}

theorem dateLine_ne_nil (now : String) : dateLine now ≠ [] := by
  rw [dateLine_eq]
  exact List.cons_ne_nil _ _

theorem recognised_dateLine (oneLine : OneLine now) {ending : Bytes}
    (isEnding : IsEnding ending) : recognised (dateLine now ++ ending) := by
  rw [recognised, contentOf_dateLine oneLine isEnding]
  exact isDateLine_dateLine now

/-- The date stands in the header: it is written anew there. -/
theorem lines_of_header (oneLine : OneLine now) (cut : header raw = before ++ line :: after)
    (plain : ∀ chunk ∈ before, recognised chunk = false) (found : recognised line) :
    header (refreshDateHeader now raw) =
        before ++ (dateLine now ++ endingOf line) :: after.dropWhile isFolded ∧
      body (refreshDateHeader now raw) = body raw := by
  have block : block raw = before ++ line :: (after ++ overshoot raw) := by
    rw [block_eq, cut, List.append_assoc, List.cons_append]
  have stops := stops_overshoot raw
  have unfolded : Text.Stops isFolded (overshoot raw) := by
    intro chunk first
    have blank := stops chunk first
    rw [Bool.not_eq_false'] at blank
    simp only [isBlank, Bool.or_eq_true, decide_eq_true_eq] at blank
    rcases blank with rfl | rfl <;> rfl
  have whole := chunks_eq_block raw
  rw [block, List.append_assoc, List.cons_append] at whole
  have lined : Lined (before ++ (dateLine now ++ endingOf line) ::
      (after.dropWhile isFolded ++ overshoot raw ++ chunks (raw.drop (headEnd raw)))) := by
    refine Lined.rewrite (whole ▸ lined_chunks raw) ?_ (feed_notMem_dateLine oneLine).1
      (dateLine_ne_nil now)
    exact ((List.dropWhile_sublist _).append_right _).append_right _
  have out : refreshDateHeader now raw =
      ((before ++ (dateLine now ++ endingOf line) :: after.dropWhile isFolded) ++
        (overshoot raw ++ chunks (raw.drop (headEnd raw)))).flatten := by
    rw [refreshDateHeader_of_date now block plain found,
      Text.dropWhile_append_stops after unfolded]
    simp
  have filled : ∀ chunk ∈ before ++ (dateLine now ++ endingOf line) :: after.dropWhile isFolded,
      isBlank chunk = false := by
    intro chunk member
    rcases List.mem_append.mp member with early | here
    · have inside : chunk ∈ header raw := cut ▸ List.mem_append_left _ early
      exact filled_header inside
    · rcases List.mem_cons.mp here with rfl | late
      · exact (opensDate_of_recognised
          (recognised_dateLine oneLine (isEnding_endingOf line))).2.2
      · have behind := List.mem_cons_of_mem line ((List.dropWhile_sublist _).subset late)
        have inside : chunk ∈ header raw := cut ▸ List.mem_append_right _ behind
        exact filled_header inside
  have joined : Lined ((before ++ (dateLine now ++ endingOf line) :: after.dropWhile isFolded) ++
      (overshoot raw ++ chunks (raw.drop (headEnd raw)))) := by
    simpa using lined
  have read := header_flatten joined filled (rest_eq raw ▸ Text.stops_dropWhile _ _)
  rw [out, read.1, read.2, body, rest_eq]
  exact ⟨rfl, rfl⟩

/-- The date stands beyond the header: the header is as it was. -/
theorem header_of_overshoot (oneLine : OneLine now) (cut : overshoot raw = before ++ line :: after)
    (plain : ∀ chunk ∈ header raw ++ before, recognised chunk = false) (found : recognised line) :
    header (refreshDateHeader now raw) = header raw := by
  have block : block raw = (header raw ++ before) ++ line :: after := by
    rw [block_eq, cut, List.append_assoc]
  obtain ⟨blank, others, shape⟩ : ∃ blank others, before = blank :: others := by
    cases before with
    | nil =>
        have stops := stops_overshoot raw
        rw [cut, List.nil_append] at stops
        have blank := Text.stops_cons.mp stops
        rw [(opensDate_of_recognised found).2.2] at blank
        cases blank
    | cons blank others => exact ⟨blank, others, rfl⟩
  have whole := chunks_eq_block raw
  rw [block, List.append_assoc, List.cons_append] at whole
  have lined : Lined (header raw ++ before ++ (dateLine now ++ endingOf line) ::
      (after.dropWhile isFolded ++ chunks (raw.drop (headEnd raw)))) := by
    refine Lined.rewrite (whole ▸ lined_chunks raw) ?_ (feed_notMem_dateLine oneLine).1
      (dateLine_ne_nil now)
    exact (List.dropWhile_sublist _).append_right _
  have out : refreshDateHeader now raw = (header raw ++ (before ++ (dateLine now ++
      endingOf line) :: (after.dropWhile isFolded ++
        chunks (raw.drop (headEnd raw))))).flatten := by
    rw [refreshDateHeader_of_date now block plain found]
    simp
  have stops : Text.Stops (fun chunk => !isBlank chunk) (before ++ (dateLine now ++
      endingOf line) :: (after.dropWhile isFolded ++ chunks (raw.drop (headEnd raw)))) := by
    have first := stops_overshoot raw
    rw [cut, shape] at first
    rw [shape]
    have empty := Text.stops_cons.mp first
    exact Text.stops_cons.mpr empty
  rw [out]
  exact (header_flatten (by simpa using lined) (fun _ => filled_header) stops).1

/-- There is no date: it is put in front. -/
theorem lines_of_none (oneLine : OneLine now)
    (plain : ∀ chunk ∈ block raw, recognised chunk = false) :
    header (refreshDateHeader now raw) = (dateLine now ++ lineFeed raw) :: header raw ∧
      body (refreshDateHeader now raw) = body raw := by
  have line : IsLine (dateLine now ++ lineFeed raw) := by
    have missing := (feed_notMem_dateLine oneLine).1
    unfold lineFeed
    split_ifs
    · refine ⟨dateLine now ++ [cr], ?_, by simp⟩
      rw [List.mem_append, not_or]
      exact ⟨missing, by decide⟩
    · exact ⟨dateLine now, missing, rfl⟩
  have parts : header raw ++ ((chunks raw).dropWhile fun chunk => !isBlank chunk) = chunks raw :=
    List.takeWhile_append_dropWhile
  have lined : Lined (((dateLine now ++ lineFeed raw) :: header raw) ++
      ((chunks raw).dropWhile fun chunk => !isBlank chunk)) := by
    rw [List.cons_append, parts]
    exact .cons line (lined_chunks raw)
  have out : refreshDateHeader now raw = (((dateLine now ++ lineFeed raw) :: header raw) ++
      ((chunks raw).dropWhile fun chunk => !isBlank chunk)).flatten := by
    rw [List.cons_append, parts, List.flatten_cons, flatten_chunks]
    exact refreshDateHeader_of_none now plain
  have filled : ∀ chunk ∈ (dateLine now ++ lineFeed raw) :: header raw,
      isBlank chunk = false := by
    refine List.forall_mem_cons.mpr ⟨?_, fun chunk => filled_header⟩
    exact (opensDate_of_recognised (recognised_dateLine oneLine (isEnding_lineFeed raw))).2.2
  rw [out]
  exact header_flatten lined filled (Text.stops_dropWhile _ _)

/-- A written date is one `Date` field. -/
theorem isDateField_dateLine (oneLine : OneLine now) {ending : Bytes}
    (isEnding : IsEnding ending) (others : List Bytes) :
    isDateField ((dateLine now ++ ending) :: others) = true :=
  (opensDate_of_recognised (recognised_dateLine oneLine isEnding)).1

theorem around_eq_single {α : Type} {front back : List α} {inner only : α} :
    front ++ inner :: back = [only] ↔ front = [] ∧ inner = only ∧ back = [] := by
  cases front <;> simp

/-- A date line of the header opens one of its `Date` fields. -/
theorem dateFields_around (cut : header raw = before ++ line :: after) (found : recognised line) :
    dateFields raw = (fields before).filter isDateField ++
      (line :: after.takeWhile isFolded) ::
        (fields (after.dropWhile isFolded)).filter isDateField := by
  obtain ⟨opens, unfolded, -⟩ := opensDate_of_recognised found
  have replaced : isDateField (line :: after.takeWhile isFolded) = true := opens
  rw [dateFields, cut, fields_around before unfolded, List.filter_append,
    List.filter_cons_of_pos replaced]

theorem refreshed_of_header (oneLine : OneLine now) (cut : header raw = before ++ line :: after)
    (plain : ∀ chunk ∈ before, recognised chunk = false) (found : recognised line) :
    Refreshed now raw (refreshDateHeader now raw) ↔ ∃ field, dateFields raw = [field] := by
  obtain ⟨opens, unfolded, -⟩ := opensDate_of_recognised found
  have ending := isEnding_endingOf line
  have written := isDateField_dateLine oneLine ending []
  have replaced : isDateField (line :: after.takeWhile isFolded) = true := opens
  obtain ⟨lines, same⟩ := lines_of_header oneLine cut plain found
  have rest : (after.dropWhile isFolded).takeWhile isFolded = [] ∧
      (after.dropWhile isFolded).dropWhile isFolded = after.dropWhile isFolded := by
    have stops := Text.stops_dropWhile isFolded after
    exact ⟨Text.takeWhile_append_stops [] stops, Text.dropWhile_of_stops stops⟩
  have fresh := (opensDate_of_recognised (recognised_dateLine oneLine ending)).2.1
  have old : fields (header raw) = fields before ++ (line :: after.takeWhile isFolded) ::
      fields (after.dropWhile isFolded) := by
    rw [cut, fields_around before unfolded]
  have new : fields (header (refreshDateHeader now raw)) = fields before ++
      [dateLine now ++ endingOf line] :: fields (after.dropWhile isFolded) := by
    rw [lines, fields_around before fresh, rest.1, rest.2]
  have dates : dateFields (refreshDateHeader now raw) = (fields before).filter isDateField ++
      [dateLine now ++ endingOf line] :: (fields (after.dropWhile isFolded)).filter isDateField := by
    rw [dateFields, new, List.filter_append, List.filter_cons_of_pos written]
  have oldDates := dateFields_around cut found
  constructor
  · rintro ⟨⟨only, single, -⟩, -, -⟩
    obtain ⟨front, -, back⟩ := around_eq_single.mp (dates ▸ single)
    exact ⟨_, oldDates.trans (around_eq_single.mpr ⟨front, rfl, back⟩)⟩
  · rintro ⟨field, single⟩
    obtain ⟨front, -, back⟩ := around_eq_single.mp (oldDates ▸ single)
    refine ⟨⟨_, ?_, contentOf_dateLine oneLine ending⟩, ?_, same⟩
    · exact dates.trans (around_eq_single.mpr ⟨front, rfl, back⟩)
    · rw [otherFields, otherFields, old, new, List.filter_append, List.filter_append,
        List.filter_cons_of_neg (by simp [written]), List.filter_cons_of_neg (by simp [replaced])]

/-- A date line beyond the header is taken for the date. -/
theorem not_refreshed_of_overshoot (oneLine : OneLine now)
    (cut : overshoot raw = before ++ line :: after)
    (plain : ∀ chunk ∈ header raw ++ before, recognised chunk = false) (found : recognised line) :
    ¬Refreshed now raw (refreshDateHeader now raw) := by
  rintro ⟨⟨written, single, content⟩, -, -⟩
  rw [dateFields, header_of_overshoot oneLine cut plain found] at single
  have member : [written] ∈ (fields (header raw)).filter isDateField := by
    rw [single]
    exact List.mem_singleton_self _
  have first : [written].head? = some written := rfl
  have inside := head_mem_of_mem_fields (List.mem_filter.mp member).1 first
  have missed := plain written (List.mem_append_left _ inside)
  rw [recognised, content, isDateLine_dateLine] at missed
  cases missed

theorem refreshed_of_none (oneLine : OneLine now)
    (plain : ∀ chunk ∈ block raw, recognised chunk = false) :
    Refreshed now raw (refreshDateHeader now raw) ↔
      dateFields raw = [] ∧ Text.Stops isFolded (header raw) := by
  obtain ⟨lines, same⟩ := lines_of_none oneLine plain
  have ending := isEnding_lineFeed raw
  have written := isDateField_dateLine oneLine ending ((header raw).takeWhile isFolded)
  have new : fields (header (refreshDateHeader now raw)) =
      ((dateLine now ++ lineFeed raw) :: (header raw).takeWhile isFolded) ::
        fields ((header raw).dropWhile isFolded) := by
    rw [lines, fields_cons]
  have dates : dateFields (refreshDateHeader now raw) =
      ((dateLine now ++ lineFeed raw) :: (header raw).takeWhile isFolded) ::
        (fields ((header raw).dropWhile isFolded)).filter isDateField := by
    rw [dateFields, new, List.filter_cons_of_pos written]
  constructor
  · rintro ⟨⟨only, single, -⟩, -, -⟩
    rw [dates] at single
    obtain ⟨first, others⟩ := List.cons.inj single
    have unfolded := (List.cons.inj first).2
    have whole := List.takeWhile_append_dropWhile (p := isFolded) (l := header raw)
    rw [unfolded, List.nil_append] at whole
    rw [whole] at others
    refine ⟨others, ?_⟩
    rw [← whole]
    exact Text.stops_dropWhile _ _
  · rintro ⟨none_, stops⟩
    have rest := Text.dropWhile_of_stops stops
    have empty : (header raw).takeWhile isFolded = [] := Text.takeWhile_append_stops [] stops
    rw [rest, empty] at new dates
    refine ⟨⟨_, ?_, contentOf_dateLine oneLine ending⟩, ?_, same⟩
    · rw [dates]
      exact congrArg _ none_
    · rw [otherFields, otherFields, new, List.filter_cons_of_neg (by simp [empty ▸ written])]

end Ways

theorem exists_first {lines : List Bytes} (some_ : ¬∀ chunk ∈ lines, recognised chunk = false) :
    ∃ before line after, lines = before ++ line :: after ∧
      (∀ chunk ∈ before, recognised chunk = false) ∧ recognised line := by
  cases found : lines.find? recognised with
  | none =>
      refine absurd (fun chunk member => ?_) some_
      simpa using List.find?_eq_none.mp found chunk member
  | some line =>
      obtain ⟨taken, before, after, cut, plain⟩ := List.find?_eq_some_iff_append.mp found
      exact ⟨before, line, after, cut, fun chunk member => by simpa using plain chunk member, taken⟩

/-- Refreshing replaces the date and changes nothing else exactly where the
header has one `Date` field with something on its first line, or where it has
none, does not begin with a folded line and nothing beyond it is taken for the
date. -/
theorem refreshed_iff {now : String} (oneLine : OneLine now) (raw : Bytes) :
    Refreshed now raw (refreshDateHeader now raw) ↔ Refreshable raw := by
  by_cases dated : ∀ chunk ∈ header raw, recognised chunk = false
  · have unseen : ¬∃ field, dateFields raw = [field] ∧ field.head?.any recognised := by
      rintro ⟨field, single, found⟩
      obtain ⟨line, first, recognises⟩ := (Option.any_eq_true _ _).mp found
      have member : field ∈ (fields (header raw)).filter isDateField := by
        rw [← dateFields, single]
        exact List.mem_singleton_self _
      have inside := head_mem_of_mem_fields (List.mem_filter.mp member).1 first
      rw [dated line inside] at recognises
      cases recognises
    by_cases beyond : ∀ chunk ∈ overshoot raw, recognised chunk = false
    · have plain : ∀ chunk ∈ block raw, recognised chunk = false := by
        rw [block_eq]
        exact List.forall_mem_append.mpr ⟨dated, beyond⟩
      rw [refreshed_of_none oneLine plain, Refreshable, or_iff_right unseen]
      exact ⟨fun both => ⟨both.1, both.2, beyond⟩, fun all => ⟨all.1, all.2.1⟩⟩
    · obtain ⟨before, line, after, cut, plain, found⟩ := exists_first beyond
      refine iff_of_false (not_refreshed_of_overshoot oneLine cut ?_ found) ?_
      · exact List.forall_mem_append.mpr ⟨dated, plain⟩
      · rintro (one | ⟨-, -, clear⟩)
        · exact unseen one
        · exact beyond clear
  · obtain ⟨before, line, after, cut, plain, found⟩ := exists_first dated
    rw [refreshed_of_header oneLine cut plain found]
    have dates := dateFields_around cut found
    constructor
    · rintro ⟨field, single⟩
      obtain ⟨-, same, -⟩ := around_eq_single.mp (dates ▸ single)
      refine .inl ⟨field, single, ?_⟩
      rw [← same]
      exact found
    · rintro (⟨field, single, -⟩ | ⟨none_, -⟩)
      · exact ⟨field, single⟩
      · rw [dates] at none_
        simp at none_

namespace Sample

/-- The second of January 1970. -/
def now : String :=
  Store.winter.mailDate (Store.seconds 90061)

theorem oneLine_now : OneLine now := by
  rw [OneLine, utf8_eq]
  decide

def dated : Bytes :=
  ascii "From: a@example.com\r\nDate: Mon, 01 Jan\r\n 2000 00:00:00 +0000\r\n\r\nhi\r\n"

theorem dated_refreshed : Refreshed now dated (refreshDateHeader now dated) := by
  refine (refreshed_iff oneLine_now dated).mpr (.inl ⟨[ascii "Date: Mon, 01 Jan\r\n",
    ascii " 2000 00:00:00 +0000\r\n"], ?_, ?_⟩)
  · decide
  · decide

/-- A date whose value begins on the second line of its field. -/
def folded : Bytes :=
  ascii "Date:\r\n Mon, 01 Jan 2000 00:00:00 +0000\r\nSubject: hi\r\n\r\nx"

/-- The old date stays beside the new one. -/
theorem folded_date_stays : ¬Refreshed now folded (refreshDateHeader now folded) := by
  have plain : ∀ chunk ∈ block folded, recognised chunk = false := by decide
  rw [refreshed_of_none oneLine_now plain]
  rintro ⟨undated, -⟩
  exact absurd undated (by decide)

end Sample

end DateHeader
end Outbox
end Mailcore
