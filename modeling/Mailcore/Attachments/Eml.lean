import Mailcore.Text.Slices

/-!
# Sniffing attached mail

`looks_like_eml` takes bytes for a mail that show a mail header field early on.
It looks for the blank line behind the header in windows of two bytes, which
never hold the four bytes of a CRLF one.
-/

namespace Mailcore
namespace Attachments

open Text (windows)

/-- `u8::to_ascii_uppercase`. -/
def upper (byte : UInt8) : UInt8 :=
  if 97 ≤ byte ∧ byte ≤ 122 then byte - 32 else byte

/-- The bytes of an ASCII literal. -/
def bytesOf (text : String) : List UInt8 :=
  text.toList.map fun char => UInt8.ofNat char.toNat

def lf : UInt8 := 10

def cr : UInt8 := 13

/-- How far the sniffing looks. -/
def SCANNED : Nat := 2048

/-- The header fields of the list. -/
def FIELDS : List (List UInt8) :=
  ["FROM:", "TO:", "SUBJECT:", "DATE:", "RECEIVED:", "MESSAGE-ID:", "MIME-VERSION:",
    "RETURN-PATH:", "DELIVERED-TO:"].map bytesOf

/-- The fields with the line end in front of them. -/
def HEADERS : List (List UInt8) :=
  FIELDS.map (lf :: ·)

/-- An `.eml`'s first headers before the first blank line. -/
def looksLikeEml (bytes : List UInt8) : Bool :=
  let blank := (windows 2 bytes).findIdx? fun w => w = [cr, lf, cr, lf] || w = [lf, lf]
  let end_ := (blank.map fun i => min i SCANNED).getD (min bytes.length SCANNED)
  let padded := lf :: (bytes.take end_).map upper
  HEADERS.any fun h => (windows h.length padded).any fun w => w = h

/-! ## Lines of the header block -/

/-- A line that starts with a mail header field. -/
def StartsField (line : List UInt8) : Prop :=
  ∃ field ∈ FIELDS, field <+: line.map upper

/-- An empty line, with either line end. -/
def isBlankLine (line : List UInt8) : Bool :=
  line = [] || line = [cr]

/-- The lines of the scanned prefix. -/
def scannedLines (bytes : List UInt8) : List (List UInt8) :=
  (bytes.take SCANNED).splitOn lf

/-- The lines of the scanned prefix before the first blank line. -/
def headerLines (bytes : List UInt8) : List (List UInt8) :=
  (scannedLines bytes).takeWhile fun line => !isBlankLine line

/-- The lines from the first blank line up to the next one that is empty without
a CR. -/
def overlookedLines (bytes : List UInt8) : List (List UInt8) :=
  ((scannedLines bytes).take 1 ++ (scannedLines bytes).tail.takeWhile (· ≠ [])).dropWhile
    fun line => !isBlankLine line

theorem upper_eq_lf (byte : UInt8) : upper byte = lf ↔ byte = lf := by
  have all : ∀ code : Fin 256, upper (UInt8.ofNat code) = lf ↔ UInt8.ofNat code = lf := by
    decide +kernel
  have here := all ⟨byte.toNat, byte.toNat_lt⟩
  rwa [UInt8.ofNat_toNat] at here

theorem lf_notMem_fields : ∀ field ∈ FIELDS, lf ∉ field := by decide

theorem fields_nonempty : ∀ field ∈ FIELDS, field ≠ [] := by decide

theorem not_startsField_nil : ¬StartsField [] := by
  rintro ⟨field, member, starts⟩
  exact fields_nonempty field member (List.prefix_nil.mp starts)

/-- The fields are found where a line starts with one. -/
theorem any_headers_iff (text : List UInt8) :
    (HEADERS.any fun h => (windows h.length (lf :: text.map upper)).any fun w => w = h) = true ↔
      ∃ line ∈ text.splitOn lf, StartsField line := by
  simp only [HEADERS, List.any_map, List.any_eq_true, Function.comp_apply, decide_eq_true_eq,
    exists_eq_right]
  constructor
  · rintro ⟨field, member, found⟩
    rw [Text.mem_windows (List.cons_ne_nil _ _),
      Text.infix_cons_iff_mem_splitOn (lf_notMem_fields field member),
      Text.splitOn_map upper_eq_lf] at found
    obtain ⟨line, inside, starts⟩ := found
    obtain ⟨source, known, rfl⟩ := List.mem_map.mp inside
    exact ⟨source, known, field, member, starts⟩
  · rintro ⟨line, inside, field, member, starts⟩
    refine ⟨field, member, ?_⟩
    rw [Text.mem_windows (List.cons_ne_nil _ _),
      Text.infix_cons_iff_mem_splitOn (lf_notMem_fields field member),
      Text.splitOn_map upper_eq_lf]
    exact ⟨_, List.mem_map_of_mem inside, starts⟩

/-! ## Where the scan ends -/

/-- What stands in front of the first two LFs. -/
def beforeBlank : List UInt8 → List UInt8
  | [] => []
  | byte :: rest => if byte = lf ∧ rest.head? = some lf then [] else byte :: beforeBlank rest

/-- A window of two bytes only ever equals two LFs. -/
theorem take_findIdx?_windows (bytes : List UInt8) :
    bytes.take (((windows 2 bytes).findIdx? fun w => w = [cr, lf, cr, lf] || w = [lf, lf]).getD
      bytes.length) = beforeBlank bytes := by
  induction bytes with
  | nil => rfl
  | cons byte rest inductionHypothesis =>
      cases rest with
      | nil =>
          rw [windows, if_pos (by decide), List.findIdx?_nil]
          simp [beforeBlank]
      | cons next rest =>
          rw [windows, if_neg (by simp), List.findIdx?_cons]
          by_cases blank : byte = lf ∧ next = lf
          · obtain ⟨rfl, rfl⟩ := blank
            simp [beforeBlank]
          · have other : (decide ([byte, next] = [cr, lf, cr, lf]) ||
                decide ([byte, next] = [lf, lf])) = false := by simpa using blank
            have more : ¬(byte = lf ∧ (next :: rest).head? = some lf) := by simpa using blank
            rw [beforeBlank, if_neg more, ← inductionHypothesis]
            change List.take (Option.getD (if (decide ([byte, next] = [cr, lf, cr, lf]) ||
              decide ([byte, next] = [lf, lf])) = true then some 0 else _) _) _ = _
            rw [other, if_neg Bool.false_ne_true]
            cases (windows 2 (next :: rest)).findIdx? _ with
            | none => simp
            | some i => simp

theorem looksLikeEml_eq (bytes : List UInt8) :
    looksLikeEml bytes = true ↔
      ∃ line ∈ ((beforeBlank bytes).take SCANNED).splitOn lf, StartsField line := by
  have head : bytes.take ((((windows 2 bytes).findIdx? fun w =>
      w = [cr, lf, cr, lf] || w = [lf, lf]).map fun i => min i SCANNED).getD
        (min bytes.length SCANNED)) = (beforeBlank bytes).take SCANNED := by
    rw [← take_findIdx?_windows, List.take_take, Nat.min_comm SCANNED]
    cases (windows 2 bytes).findIdx? _ <;> rfl
  rw [← any_headers_iff, ← head]
  rfl

/-- The first line is kept, and of the others those up to an empty one. -/
theorem splitOn_beforeBlank (text : List UInt8) :
    ∃ head tail kept, text.splitOn lf = head :: tail ∧
      (beforeBlank text).splitOn lf = head :: kept ∧
      ((∃ line ∈ kept, StartsField line) ↔
        ∃ line ∈ tail.takeWhile (· ≠ []), StartsField line) := by
  induction text with
  | nil => exact ⟨[], [], [], List.splitOn_nil _, List.splitOn_nil _, by simp⟩
  | cons byte rest inductionHypothesis =>
      obtain ⟨head, tail, kept, cut, short, same⟩ := inductionHypothesis
      rw [beforeBlank, List.splitOn_cons_eq_if_modifyHead, cut]
      by_cases ends : byte = lf
      · subst ends
        rw [if_pos (by simp)]
        by_cases blank : rest.head? = some lf
        · rw [if_pos ⟨rfl, blank⟩, List.splitOn_nil]
          refine ⟨[], _, [], rfl, rfl, ?_⟩
          obtain ⟨later, rfl⟩ := List.head?_eq_some_iff.mp blank
          rw [List.splitOn_cons_eq_if_modifyHead, if_pos (by simp)] at cut
          rw [← (List.cons.inj cut).1]
          simp
        · rw [if_neg fun both => blank both.2, List.splitOn_cons_eq_if_modifyHead,
            if_pos (by simp), short]
          refine ⟨[], _, _, rfl, rfl, ?_⟩
          cases head with
          | cons first head =>
              rw [List.takeWhile_cons_of_pos (by simp), List.exists_mem_cons_iff, same,
                List.exists_mem_cons_iff]
          | nil =>
              -- an empty line that no LF ends is the last one
              have last : rest = [] := by
                cases rest with
                | nil => rfl
                | cons next later =>
                    have differs : next ≠ lf := fun equal => blank (by rw [equal]; rfl)
                    rw [List.splitOn_cons_eq_if_modifyHead, if_neg (by simpa using differs)] at cut
                    cases shape : later.splitOn lf <;> simp [shape] at cut
              subst last
              rw [List.splitOn_nil] at cut
              rw [beforeBlank, List.splitOn_nil] at short
              rw [← (List.cons.inj short).2]
              simp [not_startsField_nil]
      · rw [if_neg (by simpa using ends), if_neg fun both => ends both.1,
          List.splitOn_cons_eq_if_modifyHead, if_neg (by simpa using ends), short]
        exact ⟨byte :: head, tail, kept, rfl, rfl, same⟩

theorem splitOn_concat (text : List UInt8) :
    (text ++ [lf]).splitOn lf = text.splitOn lf ++ [[]] := by
  induction text with
  | nil => rfl
  | cons byte text inductionHypothesis =>
      rw [List.cons_append, List.splitOn_cons_eq_if_modifyHead, inductionHypothesis,
        List.splitOn_cons_eq_if_modifyHead]
      obtain ⟨head, tail, shape⟩ := List.exists_cons_of_ne_nil (List.splitOn_ne_nil lf text)
      rw [shape]
      split_ifs <;> simp

/-- The limit cuts before or after looking for the blank line, up to one LF. -/
theorem take_beforeBlank (limit : Nat) (bytes : List UInt8) :
    beforeBlank (bytes.take limit) = (beforeBlank bytes).take limit ∨
      beforeBlank (bytes.take limit) = (beforeBlank bytes).take limit ++ [lf] := by
  induction bytes generalizing limit with
  | nil => simp [beforeBlank]
  | cons byte rest inductionHypothesis =>
      cases limit with
      | zero => exact .inl rfl
      | succ limit =>
          rw [List.take_succ_cons, beforeBlank, beforeBlank]
          by_cases blank : byte = lf ∧ rest.head? = some lf
          · rw [if_pos blank]
            obtain ⟨rfl, next⟩ := blank
            cases limit with
            | zero => exact .inr rfl
            | succ limit =>
                obtain ⟨later, rfl⟩ := List.head?_eq_some_iff.mp next
                rw [List.take_succ_cons, if_pos ⟨rfl, rfl⟩]
                exact .inl rfl
          · have more : ¬(byte = lf ∧ (rest.take limit).head? = some lf) := by
              rintro ⟨here, next⟩
              refine blank ⟨here, ?_⟩
              cases rest with
              | nil => simp at next
              | cons later rest =>
                  cases limit with
                  | zero => simp at next
                  | succ limit => simpa using next
            rw [if_neg blank, if_neg more, List.take_succ_cons]
            rcases inductionHypothesis limit with same | longer
            · exact .inl (by rw [same])
            · exact .inr (by rw [longer]; rfl)

/-- What the code looks at, line by line. -/
theorem looksLikeEml_iff_lines (bytes : List UInt8) :
    looksLikeEml bytes = true ↔
      ∃ line ∈ (scannedLines bytes).take 1 ++ (scannedLines bytes).tail.takeWhile (· ≠ []),
        StartsField line := by
  obtain ⟨head, tail, kept, cut, short, same⟩ := splitOn_beforeBlank (bytes.take SCANNED)
  have lines : (∃ line ∈ ((beforeBlank bytes).take SCANNED).splitOn lf, StartsField line) ↔
      ∃ line ∈ (beforeBlank (bytes.take SCANNED)).splitOn lf, StartsField line := by
    rcases take_beforeBlank SCANNED bytes with equal | longer
    · rw [equal]
    · rw [longer, splitOn_concat]
      simp only [List.mem_append, List.mem_singleton, or_and_right, exists_or, exists_eq_left,
        not_startsField_nil, or_false]
  rw [looksLikeEml_eq, lines, short, scannedLines, cut, List.take_succ_cons, List.take_zero,
    List.tail_cons, List.singleton_append, List.exists_mem_cons_iff, List.exists_mem_cons_iff, same]

theorem headerLines_append (bytes : List UInt8) :
    headerLines bytes ++ overlookedLines bytes =
      (scannedLines bytes).take 1 ++ (scannedLines bytes).tail.takeWhile (· ≠ []) := by
  obtain ⟨head, tail, cut⟩ := List.exists_cons_of_ne_nil
    (List.splitOn_ne_nil lf (bytes.take SCANNED))
  have front : headerLines bytes = ((scannedLines bytes).take 1 ++
      (scannedLines bytes).tail.takeWhile (· ≠ [])).takeWhile fun line => !isBlankLine line := by
    have inner : ∀ lines : List (List UInt8),
        (lines.takeWhile (· ≠ [])).takeWhile (fun line => !isBlankLine line) =
          lines.takeWhile fun line => !isBlankLine line := by
      intro lines
      rw [List.takeWhile_takeWhile]
      congr 1
      funext line
      cases line <;> simp [isBlankLine]
    rw [headerLines, scannedLines, cut, List.take_succ_cons, List.take_zero, List.tail_cons,
      List.singleton_append, List.takeWhile_cons, List.takeWhile_cons, inner]
  rw [front, overlookedLines, List.takeWhile_append_dropWhile]

/-- The sniffing reads only the header block exactly where no field starts a line
between its end and the next line that is empty without a CR, unless one starts
a line of the block too. -/
theorem looksLikeEml_iff (bytes : List UInt8) :
    (looksLikeEml bytes = true ↔ ∃ line ∈ headerLines bytes, StartsField line) ↔
      ((∃ line ∈ overlookedLines bytes, StartsField line) →
        ∃ line ∈ headerLines bytes, StartsField line) := by
  rw [looksLikeEml_iff_lines, ← headerLines_append]
  simp only [List.mem_append, or_and_right, exists_or]
  exact or_iff_left_iff_imp

namespace Sample

/-- A note with CRLF line ends whose text mentions a recipient. -/
def note : List UInt8 :=
  bytesOf "Minutes\r\n\r\nTo: everybody\r\n"

/-- It is taken for a mail. -/
theorem note_looks_like_eml :
    ¬(looksLikeEml note = true ↔ ∃ line ∈ headerLines note, StartsField line) := by
  intro exact_
  obtain ⟨line, member, field, listed, starts⟩ := exact_.mp (by decide)
  have only : headerLines note = [bytesOf "Minutes\r"] := by decide
  rw [only, List.mem_singleton] at member
  subst member
  revert field
  decide

end Sample

end Attachments
end Mailcore
