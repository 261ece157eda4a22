import Mailcore.Html.KeptText
import Mailcore.Report.Written
import Mailcore.Text.Slices

/-!
# What a report says and what its card shows

A report is judged on its recipient groups: the worst of their actions, and the
addresses of those that failed. The card keeps the first fifty groups, and takes
an address type with a space in front of its semicolon for a part of the
address.
-/

namespace Mailcore
namespace Report

open Html (byteLen trim truncateOnCharBoundary)
open Text (WrittenAs asciiLower splitOnceAt)

/-! ## What a report says -/

/-- What a field says, without the blanks around it. -/
def WrittenField.content (field : WrittenField) : List Char :=
  trim field.read.2

/-- The first field of a name. -/
def fieldNamed (group : List WrittenField) (name : String) : Option WrittenField :=
  group.find? fun field => asciiLower (trim field.name) = asciiLower name.toList

/-- A group that names a recipient, with the field that does. -/
structure RecipientGroup where
  fields : List WrittenField
  recipient : WrittenField

def recipientGroup? (group : List WrittenField) : Option RecipientGroup :=
  ((fieldNamed group "Final-Recipient").or (fieldNamed group "Original-Recipient")).map
    fun field => ⟨group, field⟩

def recipientGroups (groups : List (List WrittenField)) : List RecipientGroup :=
  groups.filterMap recipientGroup?

/-- What stands behind the address type, one word in front of a semicolon. -/
def addressIn (content : List Char) : List Char :=
  bare <| match splitOnceAt [';'] content with
    | some (kind, rest) =>
        if trim kind ≠ [] && !(trim kind).contains ' ' then rest else content
    | none => content

def RecipientGroup.address (group : RecipientGroup) : List Char :=
  addressIn group.recipient.content

/-- The action of a group, failed where it states none. -/
def RecipientGroup.action (group : RecipientGroup) : List Char :=
  (((fieldNamed group.fields "Action").map fun field => asciiLower field.content).filter
    (· ≠ [])).getD "failed".toList

def RecipientGroup.failed (group : RecipientGroup) : Bool :=
  group.action = "failed".toList

/-- How bad an action is: failed before delayed before relayed before the
others. -/
def severity (action : List Char) : Nat :=
  if action = "failed".toList then 3
  else if action = "delayed".toList then 2
  else if action = "relayed".toList then 1
  else 0

/-- How bad the worst action is. -/
def grade (actions : List (List Char)) : Nat :=
  (actions.map severity).foldr max 0

/-- The name of the worst action. -/
def worst (actions : List (List Char)) : String :=
  match grade actions with
  | 0 => "delivered"
  | 1 => "relayed"
  | 2 => "delayed"
  | _ => "failed"

/-- A text is a report of the groups: they are laid out on its lines, at least
one names a recipient and those that do have an address. -/
structure IsReport (groups : List (List WrittenField)) (text : List Char) : Prop where
  laid : ∃ lines, LaidOut groups lines ∧ WrittenAs lines text
  named : recipientGroups groups ≠ []
  addressed : ∀ group ∈ recipientGroups groups, group.address ≠ []

/-- The card of a report says the worst of all groups, and with the original at
hand the addresses offered are those of the failed groups. -/
def Judged (groups : List (List WrittenField)) (text : List Char) : Prop :=
  ∀ cached : Cached, cached.statusText = some text →
    (deliveryReport cached).outcome = worst ((recipientGroups groups).map RecipientGroup.action) ∧
      (cached.original.isSome → offered cached =
        ((recipientGroups groups).filter RecipientGroup.failed).map RecipientGroup.address)

/-- A space stands in front of the semicolon behind a field's address type. -/
def WrittenField.SpacedType (field : WrittenField) : Prop :=
  ∃ kind rest, splitOnceAt [';'] field.read.2 = some (kind, rest) ∧
    trim kind ≠ [] ∧ ' ' ∉ trim kind ∧ ' ' ∈ kind

/-! ## The address of a field -/

theorem count_bare (text : List Char) : (bare text).count ';' = text.count ';' := by
  have blank : Outbox.isWhitespace ';' = false := by decide
  rw [bare, trim, Text.count_strip blank, Text.count_rdropWhile (by decide),
    Text.count_dropWhile (by decide), trim, Text.count_strip blank]

theorem bare_trim (text : List Char) : bare (trim text) = bare text := by
  have same : trim (trim text) = trim text := Text.strip_strip _ text
  rw [bare, bare, same]

theorem bare_rdropWhile (text : List Char) :
    bare (text.rdropWhile Outbox.isWhitespace) = bare text := by
  have same : trim (text.rdropWhile Outbox.isWhitespace) = trim text :=
    Text.strip_rdropWhile _ text
  rw [bare, bare, same]

section Separated

variable {kind rest : List Char}

/-- The two sides of the first semicolon, with the blanks around cut off. -/
theorem splitOnceAt_trim (missing : ';' ∉ kind) :
    splitOnceAt [';'] (trim (kind ++ ';' :: rest)) =
      some (kind.dropWhile Outbox.isWhitespace, rest.rdropWhile Outbox.isWhitespace) := by
  have kept : ';' ∉ kind.dropWhile Outbox.isWhitespace := fun member =>
    missing ((List.dropWhile_sublist _).subset member)
  rw [trim, Text.strip_separator (by decide), Text.splitOnceAt_separator kept]

theorem typedValue_separated (missing : ';' ∉ kind) :
    typedValue (kind ++ ';' :: rest) =
      if trim kind ≠ [] ∧ ' ' ∉ kind then bare rest else bare (kind ++ ';' :: rest) := by
  rw [typedValue, Text.splitOnceAt_separator missing]
  dsimp only
  rw [apply_ite bare]
  refine if_congr ?_ rfl rfl
  simp

theorem addressIn_separated (missing : ';' ∉ kind) :
    addressIn (trim (kind ++ ';' :: rest)) =
      if trim kind ≠ [] ∧ ' ' ∉ trim kind then bare rest else bare (kind ++ ';' :: rest) := by
  have same : trim (kind.dropWhile Outbox.isWhitespace) = trim kind := Text.strip_dropWhile _ kind
  rw [addressIn, splitOnceAt_trim missing]
  dsimp only
  rw [apply_ite bare, same, bare_rdropWhile, bare_trim]
  refine if_congr ?_ rfl rfl
  simp

/-- Without its first side a text has fewer semicolons. -/
theorem bare_ne_bare_rest (kind rest : List Char) : bare (kind ++ ';' :: rest) ≠ bare rest := by
  intro same
  have more := congrArg (List.count ';') same
  rw [count_bare, count_bare, List.count_append, List.count_cons_self] at more
  omega

end Separated

/-- The address of a field is read as the field says it exactly where no space
stands in front of the semicolon. -/
theorem typedValue_iff (field : WrittenField) :
    typedValue field.read.2 = addressIn field.content ↔ ¬field.SpacedType := by
  rw [WrittenField.content, WrittenField.SpacedType]
  generalize field.read.2 = value
  by_cases member : ';' ∈ value
  · obtain ⟨kind, rest, rfl, missing⟩ := List.eq_append_cons_of_mem member
    have within : ' ' ∈ trim kind → ' ' ∈ kind := fun inside => Html.trim_subset kind inside
    rw [typedValue_separated missing, addressIn_separated missing,
      Text.splitOnceAt_separator missing]
    simp only [Option.some.injEq, Prod.mk.injEq, ne_eq]
    have differ := bare_ne_bare_rest kind rest
    by_cases word : trim kind = []
    · simp [word]
    · by_cases spaced : ' ' ∈ kind
      · by_cases inner : ' ' ∈ trim kind
        · simp [word, spaced, inner]
        · simp [word, spaced, inner, differ]
      · have apart : ' ' ∉ trim kind := fun inside => spaced (within inside)
        simp [word, spaced, apart]
  · have apart : ';' ∉ trim value := fun inside => member (Html.trim_subset value inside)
    rw [typedValue, addressIn, Text.splitOnceAt_none (List.mem_singleton_self _) member,
      Text.splitOnceAt_none (List.mem_singleton_self _) apart, bare_trim]
    simp

/-- A field with a space in front of its semicolon is read with the type left
in, so it is never empty. -/
theorem typedValue_ne_nil {field : WrittenField} (addressed : addressIn field.content ≠ []) :
    typedValue field.read.2 ≠ [] := by
  by_cases spaced : field.SpacedType
  · obtain ⟨kind, rest, cut, -, -, space⟩ := spaced
    have missing := Text.notMem_of_splitOnceAt cut
    rw [Text.eq_append_of_splitOnceAt cut, List.append_assoc, List.singleton_append,
      typedValue_separated missing, if_neg fun typed => typed.2 space]
    intro empty
    have none := congrArg (List.count ';') empty
    rw [count_bare, List.count_append, List.count_cons_self, List.count_nil] at none
    omega
  · rwa [(typedValue_iff field).mpr spaced]

/-! ## The recipients of the card -/

theorem fieldOf_read (group : List WrittenField) (name : String) :
    fieldOf (group.map WrittenField.read) name =
      (fieldNamed group name).map fun field => field.read.2 := by
  rw [fieldOf, fieldNamed, List.find?_map, Option.map_map]
  rfl

theorem recipientField_read (group : List WrittenField) :
    recipientField (group.map WrittenField.read) =
      (recipientGroup? group).map fun named => named.recipient.read.2 := by
  rw [recipientField, recipientGroup?, fieldOf_read, fieldOf_read, Option.map_map]
  cases fieldNamed group "Final-Recipient" <;> rfl

theorem fields_of_recipientGroup? {group : List WrittenField} {named : RecipientGroup}
    (found : recipientGroup? group = some named) : named.fields = group := by
  obtain ⟨field, -, rfl⟩ := Option.map_eq_some_iff.mp found
  rfl

/-- The entry of a group on the card. -/
def RecipientGroup.entry (group : RecipientGroup) : ReportRecipient :=
  reportRecipient (group.fields.map WrittenField.read) (typedValue group.recipient.read.2)

theorem entry_action (group : RecipientGroup) : group.entry.action = group.action := by
  rw [RecipientGroup.entry, reportRecipient]
  dsimp only
  rw [actionOf, RecipientGroup.action, fieldOf_read, Option.map_map]
  rfl

theorem entry_address (group : RecipientGroup) :
    group.entry.address = group.address ↔ ¬group.recipient.SpacedType := by
  rw [RecipientGroup.entry, reportRecipient, RecipientGroup.address]
  dsimp only
  rw [typedValue_iff]

/-- The recipient a block adds to the list. -/
def recipientOf (block : List Field) : Option ReportRecipient :=
  (recipientField block).bind fun recipient =>
    if typedValue recipient = [] then none
    else some (reportRecipient block (typedValue recipient))

theorem readBlock_recipients (dsn : Dsn) (block : List Field) :
    (readBlock dsn block).recipients = dsn.recipients ++ (recipientOf block).toList := by
  unfold readBlock recipientOf
  cases recipientField block with
  | none =>
      dsimp only [Option.bind_none, Option.toList_none]
      split_ifs <;> simp
  | some recipient =>
      dsimp only [Option.bind_some]
      split_ifs <;> simp

/-- The list is filled from the blocks in their order and cut at fifty. -/
theorem readBlocks_recipients (all : List (List Field)) (dsn : Dsn)
    (within : dsn.recipients.length ≤ MAX_DSN_RECIPIENTS) :
    (readBlocks dsn all).recipients =
      (dsn.recipients ++ all.filterMap recipientOf).take MAX_DSN_RECIPIENTS := by
  induction all generalizing dsn with
  | nil => rw [readBlocks, List.filterMap_nil, List.append_nil, List.take_of_length_le within]
  | cons block later inductionHypothesis =>
      rw [readBlocks]
      split_ifs with full
      · have exact_ : dsn.recipients.length = MAX_DSN_RECIPIENTS := le_antisymm within full
        rw [← exact_, List.take_left]
      · have grown : (readBlock dsn block).recipients.length ≤ MAX_DSN_RECIPIENTS := by
          rw [readBlock_recipients, List.length_append]
          cases recipientOf block <;> simp <;> omega
        rw [inductionHypothesis _ grown, readBlock_recipients, List.append_assoc,
          List.filterMap_cons]
        cases recipientOf block <;> simp

theorem filterMap_recipientOf {groups : List (List WrittenField)}
    (addressed : ∀ group ∈ recipientGroups groups, group.address ≠ []) :
    (groups.map fun group => group.map WrittenField.read).filterMap recipientOf =
      (recipientGroups groups).map RecipientGroup.entry := by
  rw [List.filterMap_map, recipientGroups, List.map_filterMap]
  refine List.filterMap_congr fun group member => ?_
  rw [Function.comp_apply, recipientOf, recipientField_read]
  cases found : recipientGroup? group with
  | none => rfl
  | some named =>
      have address := addressed named (List.mem_filterMap.mpr ⟨group, member, found⟩)
      rw [Option.map_some, Option.bind_some, if_neg (typedValue_ne_nil address), Option.map_some,
        RecipientGroup.entry, fields_of_recipientGroup? found]

/-! ## The worst action -/

theorem severity_le (action : List Char) : severity action ≤ 3 := by
  unfold severity
  split_ifs <;> omega

theorem grade_append (first second : List (List Char)) :
    grade (first ++ second) = max (grade first) (grade second) := by
  induction first with
  | nil => simp [grade]
  | cons action first inductionHypothesis =>
      rw [List.cons_append]
      unfold grade at inductionHypothesis ⊢
      rw [List.map_cons, List.foldr_cons, inductionHypothesis, List.map_cons, List.foldr_cons,
        max_assoc]

theorem grade_le_iff (actions : List (List Char)) (bound : Nat) :
    grade actions ≤ bound ↔ ∀ action ∈ actions, severity action ≤ bound := by
  induction actions with
  | nil => simp [grade]
  | cons action actions inductionHypothesis =>
      rw [List.forall_mem_cons, ← inductionHypothesis]
      exact max_le_iff

theorem grade_le_three (actions : List (List Char)) : grade actions ≤ 3 :=
  (grade_le_iff actions 3).mpr fun action _ => severity_le action

theorem exists_grade_eq {actions : List (List Char)} (nonempty : actions ≠ []) :
    ∃ action ∈ actions, severity action = grade actions := by
  induction actions with
  | nil => exact absurd rfl nonempty
  | cons action actions inductionHypothesis =>
      have step : grade (action :: actions) = max (severity action) (grade actions) := rfl
      rw [step]
      rcases le_total (grade actions) (severity action) with least | most
      · exact ⟨action, List.mem_cons_self, (max_eq_left least).symm⟩
      · by_cases empty : actions = []
        · subst empty
          exact ⟨action, List.mem_cons_self, (max_eq_left (Nat.zero_le _)).symm⟩
        · obtain ⟨other, member, same⟩ := inductionHypothesis empty
          exact ⟨other, List.mem_cons_of_mem _ member, by rw [same, max_eq_right most]⟩

/-- Further actions leave the worst one where each is matched by one as bad. -/
theorem worst_append_iff {first : List (List Char)} (nonempty : first ≠ [])
    (second : List (List Char)) :
    worst first = worst (first ++ second) ↔
      ∀ action ∈ second, ∃ other ∈ first, severity action ≤ severity other := by
  have named : worst first = worst (first ++ second) ↔ grade second ≤ grade first := by
    have low := grade_le_three first
    have high := grade_le_three second
    unfold worst
    rw [grade_append]
    generalize grade first = one at low
    generalize grade second = two at high
    interval_cases one <;> interval_cases two <;> decide
  rw [named, grade_le_iff]
  refine forall₂_congr fun action _ => ?_
  constructor
  · intro least
    obtain ⟨other, member, same⟩ := exists_grade_eq nonempty
    exact ⟨other, member, least.trans same.ge⟩
  · rintro ⟨other, member, least⟩
    exact least.trans ((grade_le_iff first _).mp le_rfl other member)

theorem severity_le_grade {actions : List (List Char)} {action : List Char}
    (member : action ∈ actions) : severity action ≤ grade actions :=
  (grade_le_iff actions _).mp le_rfl action member

/-- The worst action is the first of the list of outcomes that occurs. -/
theorem grade_eq (actions : List (List Char)) :
    grade actions =
      if "failed".toList ∈ actions then 3
      else if "delayed".toList ∈ actions then 2
      else if "relayed".toList ∈ actions then 1
      else 0 := by
  split_ifs with failed delayed relayed
  · exact le_antisymm (grade_le_three actions) (severity_le_grade failed)
  · refine le_antisymm ((grade_le_iff actions 2).mpr fun action member => ?_)
      (severity_le_grade delayed)
    have notFailed : action ≠ "failed".toList := fun same => failed (same ▸ member)
    rw [severity, if_neg notFailed]
    split_ifs <;> omega
  · refine le_antisymm ((grade_le_iff actions 1).mpr fun action member => ?_)
      (severity_le_grade relayed)
    have notFailed : action ≠ "failed".toList := fun same => failed (same ▸ member)
    have notDelayed : action ≠ "delayed".toList := fun same => delayed (same ▸ member)
    rw [severity, if_neg notFailed, if_neg notDelayed]
    split_ifs <;> omega
  · refine Nat.le_zero.mp ((grade_le_iff actions 0).mpr fun action member => ?_)
    have notFailed : action ≠ "failed".toList := fun same => failed (same ▸ member)
    have notDelayed : action ≠ "delayed".toList := fun same => delayed (same ▸ member)
    have notRelayed : action ≠ "relayed".toList := fun same => relayed (same ▸ member)
    rw [severity, if_neg notFailed, if_neg notDelayed, if_neg notRelayed]

theorem any_action_iff (recipients : List ReportRecipient) (action : String) :
    (recipients.any fun r => r.action = action.toList) = true ↔
      action.toList ∈ recipients.map ReportRecipient.action := by
  simp only [List.any_eq_true, decide_eq_true_eq, List.mem_map]

/-- The outcome of the card is the worst action among its recipients. -/
theorem outcome_eq_worst (recipients : List ReportRecipient) :
    outcome recipients = worst (recipients.map ReportRecipient.action) := by
  unfold outcome worst
  rw [grade_eq]
  simp only [any_action_iff]
  split_ifs <;> rfl

/-- Where the outcome is not failed, no recipient is. -/
theorem filter_failed_of_outcome {recipients : List ReportRecipient}
    (other : outcome recipients ≠ "failed") :
    (recipients.filter fun r => r.action = "failed".toList) = [] := by
  rw [List.filter_eq_nil_iff]
  intro recipient member failed
  refine other ?_
  have any_ : (recipients.any fun r => r.action = "failed".toList) = true :=
    List.any_eq_true.mpr ⟨recipient, member, failed⟩
  unfold outcome
  exact if_pos any_

section Card

variable {groups : List (List WrittenField)} {text : List Char}

/-- The recipients of a report's card are its first fifty groups. -/
theorem parseDsn_of_isReport (report : IsReport groups text)
    (short : byteLen text ≤ MAX_REPORT_BYTES) :
    ∃ dsn, parseDsn text = some dsn ∧
      dsn.recipients = ((recipientGroups groups).take MAX_DSN_RECIPIENTS).map
        RecipientGroup.entry := by
  obtain ⟨lines, laid, written⟩ := report.laid
  have read : (readBlocks ⟨none, []⟩ (blocks (truncateOnCharBoundary MAX_REPORT_BYTES
      text))).recipients = ((recipientGroups groups).take MAX_DSN_RECIPIENTS).map
        RecipientGroup.entry := by
    rw [Html.truncateOnCharBoundary_of_le short, blocks_of_laidOut laid written,
      readBlocks_recipients _ _ (Nat.zero_le _), List.nil_append,
      filterMap_recipientOf report.addressed, List.map_take]
  have some_ : ((recipientGroups groups).take MAX_DSN_RECIPIENTS).map
      RecipientGroup.entry ≠ [] := by
    rw [Ne, List.map_eq_nil_iff, List.take_eq_nil_iff, not_or]
    exact ⟨by decide, report.named⟩
  refine ⟨_, ?_, read⟩
  rw [parseDsn, if_pos]
  rwa [read]

/-- With the original at hand, the addresses of the failed recipients on the
card are offered. -/
theorem offered_eq {cached : Cached} {dsn : Dsn} (status : cached.statusText = some text)
    (parsed : parseDsn text = some dsn) (sent : cached.original.isSome) :
    offered cached =
      (dsn.recipients.filter fun r => r.action = "failed".toList).map ReportRecipient.address := by
  obtain ⟨original, has⟩ := Option.isSome_iff_exists.mp sent
  have card : deliveryReport cached = dsnCard cached dsn := by
    rw [deliveryReport, status, Option.bind_some, parsed]
  have shown : (deliveryReport cached).recipients = dsn.recipients := by
    rw [card, dsnCard, has]
    rfl
  have resend : (deliveryReport cached).canResend = decide (outcome dsn.recipients = "failed") := by
    rw [card, dsnCard, has]
    simp [DeliveryReport.setOriginal]
  rw [offered, bounce, has]
  dsimp only
  rw [resend, shown]
  by_cases failed : outcome dsn.recipients = "failed"
  · rw [if_pos (by simpa using failed)]
  · rw [if_neg (by simpa using failed), filter_failed_of_outcome failed]
    rfl

theorem outcome_of_parsed {cached : Cached} {dsn : Dsn} (status : cached.statusText = some text)
    (parsed : parseDsn text = some dsn) :
    (deliveryReport cached).outcome = outcome dsn.recipients := by
  rw [deliveryReport, status, Option.bind_some, parsed]
  dsimp only
  rw [dsnCard]
  cases cached.original <;> rfl

/-- The failed addresses among the first groups are all of them exactly where
none failed behind those and each is read as the report says it. -/
theorem failed_addresses_iff (all : List RecipientGroup) (kept : Nat) :
    (((all.take kept).map RecipientGroup.entry).filter fun r => r.action = "failed".toList).map
        ReportRecipient.address = (all.filter RecipientGroup.failed).map RecipientGroup.address ↔
      (∀ group ∈ all.drop kept, group.action ≠ "failed".toList) ∧
        ∀ group ∈ all.take kept, group.action = "failed".toList →
          ¬group.recipient.SpacedType := by
  have shown : (((all.take kept).map RecipientGroup.entry).filter
      fun r => r.action = "failed".toList).map ReportRecipient.address =
      ((all.take kept).filter RecipientGroup.failed).map fun group => group.entry.address := by
    rw [List.filter_map, List.map_map]
    refine congrArg₂ List.map rfl (List.filter_congr fun group _ => ?_)
    rw [Function.comp_apply, entry_action, RecipientGroup.failed]
  have cut : all.filter RecipientGroup.failed =
      (all.take kept).filter RecipientGroup.failed ++
        (all.drop kept).filter RecipientGroup.failed := by
    rw [← List.filter_append, List.take_append_drop]
  rw [shown, cut, List.map_append]
  generalize first : (all.take kept).filter RecipientGroup.failed = firstFailed
  generalize later : (all.drop kept).filter RecipientGroup.failed = laterFailed
  have none_iff : laterFailed = [] ↔
      ∀ group ∈ all.drop kept, group.action ≠ "failed".toList := by
    rw [← later, List.filter_eq_nil_iff]
    refine forall₂_congr fun group _ => ?_
    rw [RecipientGroup.failed, decide_eq_true_eq]
  have read_iff : (firstFailed.map fun group => group.entry.address) =
      firstFailed.map RecipientGroup.address ↔
        ∀ group ∈ all.take kept, group.action = "failed".toList →
          ¬group.recipient.SpacedType := by
    rw [List.map_inj_left, ← first]
    refine forall_congr' fun group => ?_
    rw [entry_address, List.mem_filter, and_imp, RecipientGroup.failed, decide_eq_true_eq]
  rw [← none_iff, ← read_iff]
  constructor
  · intro same
    have long := congrArg List.length same
    rw [List.length_append, List.length_map, List.length_map, List.length_map] at long
    have empty : laterFailed = [] := List.length_eq_zero_iff.mp (by omega)
    rw [empty, List.map_nil, List.append_nil] at same
    exact ⟨empty, same⟩
  · rintro ⟨empty, same⟩
    rw [empty, same, List.map_nil, List.append_nil]

/-- The card is right where its recipients give the outcome and the addresses
that the whole report does. -/
theorem judged_iff_of_parsed {dsn : Dsn} (parsed : parseDsn text = some dsn) :
    Judged groups text ↔
      worst (dsn.recipients.map ReportRecipient.action) =
          worst ((recipientGroups groups).map RecipientGroup.action) ∧
        (dsn.recipients.filter fun r => r.action = "failed".toList).map ReportRecipient.address =
          ((recipientGroups groups).filter RecipientGroup.failed).map RecipientGroup.address := by
  constructor
  · intro judged
    obtain ⟨sameOutcome, sameAddresses⟩ :=
      judged ⟨some text, none, some ⟨0, none, 0, none⟩⟩ rfl
    rw [outcome_of_parsed rfl parsed, outcome_eq_worst] at sameOutcome
    have addresses := sameAddresses rfl
    rw [offered_eq rfl parsed rfl] at addresses
    exact ⟨sameOutcome, addresses⟩
  · rintro ⟨sameOutcome, sameAddresses⟩ cached status
    refine ⟨?_, fun sent => ?_⟩
    · rw [outcome_of_parsed status parsed, outcome_eq_worst, sameOutcome]
    · rw [offered_eq status parsed sent, sameAddresses]

/-- A report is judged on all its recipients exactly where no group behind the
fiftieth failed, each of those is matched by one as bad among the first fifty,
and no failed group's address type has a space in front of its semicolon. -/
theorem judged_iff (report : IsReport groups text) (short : byteLen text ≤ MAX_REPORT_BYTES) :
    Judged groups text ↔
      (∀ group ∈ (recipientGroups groups).drop MAX_DSN_RECIPIENTS,
        group.action ≠ "failed".toList ∧
          ∃ first ∈ (recipientGroups groups).take MAX_DSN_RECIPIENTS,
            severity group.action ≤ severity first.action) ∧
      ∀ group ∈ (recipientGroups groups).take MAX_DSN_RECIPIENTS,
        group.action = "failed".toList → ¬group.recipient.SpacedType := by
  obtain ⟨dsn, parsed, recipients⟩ := parseDsn_of_isReport report short
  rw [judged_iff_of_parsed parsed, recipients, failed_addresses_iff]
  have named := report.named
  generalize recipientGroups groups = all at named
  have some_ : (all.take MAX_DSN_RECIPIENTS).map RecipientGroup.action ≠ [] := by
    rw [Ne, List.map_eq_nil_iff, List.take_eq_nil_iff, not_or]
    exact ⟨by decide, named⟩
  have actions : ((all.take MAX_DSN_RECIPIENTS).map RecipientGroup.entry).map
      ReportRecipient.action = (all.take MAX_DSN_RECIPIENTS).map RecipientGroup.action := by
    rw [List.map_map]
    exact List.map_congr_left fun group _ => entry_action group
  have whole : all.map RecipientGroup.action =
      (all.take MAX_DSN_RECIPIENTS).map RecipientGroup.action ++
        (all.drop MAX_DSN_RECIPIENTS).map RecipientGroup.action := by
    rw [← List.map_append, List.take_append_drop]
  rw [actions, whole, worst_append_iff some_, List.forall_mem_map]
  simp only [List.mem_map, exists_exists_and_eq_and]
  constructor
  · rintro ⟨worse, none, read⟩
    exact ⟨fun group member => ⟨none group member, worse group member⟩, read⟩
  · rintro ⟨behind, read⟩
    exact ⟨fun group member => (behind group member).2,
      fun group member => (behind group member).1, read⟩

end Card

namespace Sample

theorem opening {first char : Char} {rest : List Char} (solid : first ≠ ' ' ∧ first ≠ '\t')
    (member : char ∈ (first :: rest).head?) : char ≠ ' ' ∧ char ≠ '\t' :=
  Option.some.inj member ▸ solid

def recipient : WrittenField where
  name := "Final-Recipient".toList
  value := " rfc822; a@x.org".toList
  folds := []
  colonless := by decide
  opening := fun _ => opening (by decide)
  folded := fun _ member => absurd member List.not_mem_nil

def delivered : WrittenField where
  name := "Action".toList
  value := " delivered".toList
  folds := []
  colonless := by decide
  opening := fun _ => opening (by decide)
  folded := fun _ member => absurd member List.not_mem_nil

def failed : WrittenField where
  name := "Action".toList
  value := " failed".toList
  folds := []
  colonless := by decide
  opening := fun _ => opening (by decide)
  folded := fun _ member => absurd member List.not_mem_nil

/-- Groups that were delivered, and one that failed behind them. -/
def groups : Nat → List (List WrittenField)
  | 0 => [[recipient, failed]]
  | count + 1 => [recipient, delivered] :: groups count

def recipientLine : List Char :=
  "Final-Recipient: rfc822; a@x.org".toList

def deliveredLine : List Char :=
  "Action: delivered".toList

def failedLine : List Char :=
  "Action: failed".toList

def text : Nat → List Char
  | 0 => recipientLine ++ '\n' :: (failedLine ++ '\n' :: [])
  | count + 1 => recipientLine ++ '\n' :: (deliveredLine ++ '\n' :: ([] ++ '\n' :: text count))

theorem lines_failed : [recipient, failed].flatMap WrittenField.lines =
    [recipientLine, failedLine] := by decide

theorem lines_delivered : [recipient, delivered].flatMap WrittenField.lines =
    [recipientLine, deliveredLine] := by decide

theorem laid (count : Nat) :
    ∃ lines, LaidOut (groups count) lines ∧ WrittenAs lines (text count) := by
  have first : Text.Unbroken recipientLine := by decide
  have second : Text.Unbroken failedLine := by decide
  have third : Text.Unbroken deliveredLine := by decide
  induction count with
  | zero =>
      refine ⟨[recipientLine, failedLine], ?_, .lf first (.lf second .done)⟩
      rw [← lines_failed]
      exact .last (List.cons_ne_nil _ _)
  | succ count inductionHypothesis =>
      obtain ⟨lines, laid, written⟩ := inductionHypothesis
      refine ⟨[recipientLine, deliveredLine] ++ [] :: lines, ?_,
        .lf first (.lf third (.lf (by decide) written))⟩
      rw [← lines_delivered]
      exact .group (List.cons_ne_nil _ _) (by decide) laid

theorem recipientGroups_groups (count : Nat) :
    recipientGroups (groups count) =
      List.replicate count ⟨[recipient, delivered], recipient⟩ ++
        [⟨[recipient, failed], recipient⟩] := by
  have named : ∀ action : WrittenField, action.name = "Action".toList →
      recipientGroup? [recipient, action] = some ⟨[recipient, action], recipient⟩ := by
    intro action _
    have found : fieldNamed [recipient, action] "Final-Recipient" = some recipient := by
      rw [fieldNamed, List.find?_cons_of_pos (by decide)]
    rw [recipientGroup?, found]
    rfl
  induction count with
  | zero => rw [groups, recipientGroups, List.filterMap_cons, named _ rfl]; rfl
  | succ count inductionHypothesis =>
      rw [recipientGroups] at inductionHypothesis ⊢
      rw [groups, List.filterMap_cons, named _ rfl, inductionHypothesis, List.replicate_succ]
      rfl

theorem byteLen_text (count : Nat) : byteLen (text count) = 52 * count + 48 := by
  have first : byteLen recipientLine = 32 := by decide
  have second : byteLen failedLine = 14 := by decide
  have third : byteLen deliveredLine = 17 := by decide
  have none : byteLen [] = 0 := rfl
  have lf : '\n'.utf8Size = 1 := by decide
  induction count with
  | zero => simp only [text, Html.byteLen_append, Html.byteLen_cons, first, second, none, lf]
  | succ count inductionHypothesis =>
      simp only [text, Html.byteLen_append, Html.byteLen_cons, first, third, none, lf,
        inductionHypothesis]
      omega

theorem address_eq (fields : List WrittenField) :
    RecipientGroup.address ⟨fields, recipient⟩ = "a@x.org".toList := by
  have read : addressIn recipient.content = "a@x.org".toList := by decide
  exact read

theorem isReport (count : Nat) : IsReport (groups count) (text count) where
  laid := laid count
  named := by simp [recipientGroups_groups]
  addressed := by
    intro group member
    rw [recipientGroups_groups, List.mem_append, List.mem_singleton] at member
    rcases member with kept | rfl
    · rw [List.eq_of_mem_replicate kept, address_eq]
      decide
    · rw [address_eq]
      decide

theorem not_spacedType : ¬recipient.SpacedType := by
  rintro ⟨kind, rest, cut, -, -, space⟩
  have shown : splitOnceAt [';'] recipient.read.2 =
      some ("rfc822".toList, " a@x.org".toList) := by decide
  rw [shown] at cut
  obtain ⟨rfl, rfl⟩ := Prod.mk.inj (Option.some.inj cut)
  exact absurd space (by decide)

/-- A report of one delivered and one failed recipient. -/
theorem judged_two : Judged (groups 1) (text 1) := by
  refine (judged_iff (isReport 1) (by rw [byteLen_text]; decide)).mpr ⟨?_, ?_⟩
  · rw [recipientGroups_groups]
    intro group member
    exact absurd member List.not_mem_nil
  · rw [recipientGroups_groups]
    intro group member _
    rcases List.mem_append.mp (List.mem_of_mem_take member) with kept | last
    · rw [List.eq_of_mem_replicate kept]
      exact not_spacedType
    · rw [List.mem_singleton.mp last]
      exact not_spacedType

/-- The recipient that failed stands behind fifty that the mail was delivered
to, and the card says that it was delivered. -/
theorem failed_behind_fifty :
    IsReport (groups 50) (text 50) ∧ byteLen (text 50) ≤ MAX_REPORT_BYTES ∧
      ¬Judged (groups 50) (text 50) := by
  have short : byteLen (text 50) ≤ MAX_REPORT_BYTES := by
    rw [byteLen_text]
    decide
  refine ⟨isReport 50, short, fun judged => ?_⟩
  obtain ⟨dsn, parsed, recipients⟩ := parseDsn_of_isReport (isReport 50) short
  have addresses := ((judged_iff_of_parsed parsed).mp judged).2
  rw [recipients, failed_addresses_iff, recipientGroups_groups, MAX_DSN_RECIPIENTS,
    List.drop_left' List.length_replicate] at addresses
  exact addresses.1 _ (List.mem_singleton_self _) (by decide)

end Sample

end Report
end Mailcore
