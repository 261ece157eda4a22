import Mailcore.Export.Eml

/-!
# The export is the message

What a tree has to hold to be the message that it was built from, and the
messages whose export holds it.
-/

namespace Mailcore
namespace Export

open Html (trim)
open Store (StoreError)
open Imap (Attachment Letter)

variable {Address Mailbox ContentType : Type}

namespace SinglePart

def text? : SinglePart ContentType → Option String
  | .plain text => some text
  | _ => none

def html? : SinglePart ContentType → Option String
  | .html markup => some markup
  | _ => none

/-- The leaf holds an attachment. -/
def isFile : SinglePart ContentType → Bool
  | .attachment .. | .newInline .. => true
  | _ => false

end SinglePart

/-- The text bodies of a message; one without any body is an empty text. -/
def texts (m : Letter) : List String :=
  match stored m.bodyText, stored m.bodyHtml with
  | some text, _ => [text]
  | none, some _ => []
  | none, none => [""]

/-- The attachments in the order of their leaves: those beside the HTML come with it,
those that have no HTML to stand beside come last. -/
def placed (m : Letter) (files : List Attachment) : List Attachment :=
  if (stored m.bodyHtml).isSome then inlineAttachments files ++ attachedFiles files
  else attachedFiles files ++ inlineAttachments files

section Whole

variable (crates : Crates Address Mailbox ContentType)
  (readFile : String → Except StoreError (List UInt8))

/-- The stored type, where it is one. -/
def ownType (a : Attachment) : ContentType :=
  (a.mimeType.bind crates.parseType).getD crates.octetStream

/-- A file name is the attachment's own if it is the stored one, or if the attachment
has no name to keep. -/
def IsOwnName (a : Attachment) (filename : String) : Prop :=
  a.filename = some filename ∨ a.filename = none ∧ contentId a = none

/-- The leaf is the attachment: its file name or Content-ID, its type and its bytes. -/
def Carries (a : Attachment) : SinglePart ContentType → Prop
  | .attachment filename type bytes =>
      IsOwnName a filename ∧ type = ownType crates a ∧
        attachmentBytes readFile a = .ok (some bytes)
  | .newInline cid type bytes =>
      contentId a = some cid ∧ type = ownType crates a ∧
        attachmentBytes readFile a = .ok (some bytes)
  | _ => False

/-- The export is the message. -/
structure IsMessage (m : Letter) (files : List Attachment) (eml : Eml ContentType) : Prop where
  texts : eml.body.leaves.filterMap SinglePart.text? = texts m
  htmls : eml.body.leaves.filterMap SinglePart.html? = (stored m.bodyHtml).toList
  once : (placed m files).Perm files
  files : List.Forall₂ (Carries crates readFile) (placed m files)
    (eml.body.leaves.filter SinglePart.isFile)
  headers : ∀ raw, storedHeaders m = some raw → IsHeaderBlock raw.toList eml.headers

/-- Every attachment has a name that its place in the tree keeps, and the stored
headers begin with a header. -/
structure Kept (m : Letter) (files : List Attachment) : Prop where
  attached : ∀ a ∈ attachedFiles files, a.filename ≠ none ∨ contentId a = none
  demoted : stored m.bodyHtml = none → ∀ n a, (inlineAttachments files)[n]? = some a →
    a.filename = some ((inlineOf readFile a).filename (n + 1))
  headers : ∀ raw, storedHeaders m = some raw → isContinuation raw.toList = false

/-! ## The leaves of an export -/

/-- The leaves of the bodies. -/
def bodyLeaves (m : Letter) : List (SinglePart ContentType) :=
  (texts m).map SinglePart.plain ++ (stored m.bodyHtml).toList.map SinglePart.html

/-- The leaves of the attachments. -/
def fileLeaves (m : Letter) (sorted : Sorted) : List (SinglePart ContentType) :=
  if (stored m.bodyHtml).isSome then
    sorted.inlines.map (InlinePart.leaf (contentType crates)) ++
      sorted.attached.map (File.leaf (contentType crates))
  else (sorted.attached ++ demoted sorted.inlines).map (File.leaf (contentType crates))

theorem leaves_emlBody (m : Letter) (sorted : Sorted) :
    (emlBody crates m sorted).leaves = bodyLeaves m ++ fileLeaves crates m sorted := by
  rw [emlBody, bodyLeaves, texts, fileLeaves]
  cases stored m.bodyHtml with
  | none =>
      cases stored m.bodyText <;>
        exact (congrArg Body.leaves (mimeBody_plain _ _ _ _ _)).trans
          ((leaves_withFiles _ _ _).trans (congrArg (· ++ _) (leaves_textBody_plain _ _ _ _)))
  | some html =>
      cases stored m.bodyText with
      | none =>
          dsimp only
          rw [mimeBody_some _ (by decide), leaves_withFiles, leaves_textBody_html]
          simp
      | some text =>
          dsimp only
          rw [mimeBody_some _ (by decide), leaves_withFiles, leaves_textBody_multipart]
          simp

theorem isFile_of_mem_fileLeaves {m : Letter} {sorted : Sorted} {leaf : SinglePart ContentType}
    (member : leaf ∈ fileLeaves crates m sorted) : leaf.isFile = true := by
  rw [fileLeaves] at member
  split_ifs at member
  · rcases List.mem_append.mp member with inlined | attached
    · obtain ⟨part, -, rfl⟩ := List.mem_map.mp inlined
      rfl
    · obtain ⟨file, -, rfl⟩ := List.mem_map.mp attached
      rfl
  · obtain ⟨file, -, rfl⟩ := List.mem_map.mp member
    rfl

theorem filter_isFile (m : Letter) (sorted : Sorted) :
    (bodyLeaves m ++ fileLeaves crates m sorted).filter SinglePart.isFile =
      fileLeaves crates m sorted := by
  have bodies : (bodyLeaves m : List (SinglePart ContentType)).filter SinglePart.isFile = [] := by
    rw [List.filter_eq_nil_iff]
    intro leaf member
    rcases List.mem_append.mp member with text | html
    · obtain ⟨_, -, rfl⟩ := List.mem_map.mp text
      exact Bool.false_ne_true
    · obtain ⟨_, -, rfl⟩ := List.mem_map.mp html
      exact Bool.false_ne_true
  rw [List.filter_append, bodies, List.nil_append, List.filter_eq_self]
  exact fun leaf member => isFile_of_mem_fileLeaves crates member

theorem filterMap_text? (m : Letter) (sorted : Sorted) :
    (bodyLeaves m ++ fileLeaves crates m sorted).filterMap SinglePart.text? = texts m := by
  have files : (fileLeaves crates m sorted).filterMap SinglePart.text? = [] := by
    rw [List.filterMap_eq_nil_iff]
    intro leaf member
    have isFile := isFile_of_mem_fileLeaves crates member
    cases leaf <;> first | rfl | cases isFile
  have htmls : ((stored m.bodyHtml).toList.map SinglePart.html :
      List (SinglePart ContentType)).filterMap SinglePart.text? = [] := by
    cases stored m.bodyHtml <;> rfl
  have plain : ((texts m).map SinglePart.plain :
      List (SinglePart ContentType)).filterMap SinglePart.text? = texts m := by
    rw [List.filterMap_map]
    exact List.filterMap_some
  rw [List.filterMap_append, files, List.append_nil, bodyLeaves, List.filterMap_append, htmls,
    plain, List.append_nil]

theorem filterMap_html? (m : Letter) (sorted : Sorted) :
    (bodyLeaves m ++ fileLeaves crates m sorted).filterMap SinglePart.html? =
      (stored m.bodyHtml).toList := by
  have files : (fileLeaves crates m sorted).filterMap SinglePart.html? = [] := by
    rw [List.filterMap_eq_nil_iff]
    intro leaf member
    have isFile := isFile_of_mem_fileLeaves crates member
    cases leaf <;> first | rfl | cases isFile
  have plain : ((texts m).map SinglePart.plain :
      List (SinglePart ContentType)).filterMap SinglePart.html? = [] := by
    rw [List.filterMap_map, List.filterMap_eq_nil_iff]
    exact fun _ _ => rfl
  have htmls : ((stored m.bodyHtml).toList.map SinglePart.html :
      List (SinglePart ContentType)).filterMap SinglePart.html? =
        (stored m.bodyHtml).toList := by
    cases stored m.bodyHtml <;> rfl
  rw [List.filterMap_append, files, List.append_nil, bodyLeaves, List.filterMap_append, plain,
    htmls, List.nil_append]

theorem placed_perm (m : Letter) (files : List Attachment) : (placed m files).Perm files := by
  have parts : (inlineAttachments files ++ attachedFiles files).Perm files :=
    List.filter_append_perm isInlinePart files
  rw [placed]
  split_ifs
  · exact parts
  · exact List.perm_append_comm.trans parts

/-! ## Attachments at their leaves -/

theorem contentType_mimeOf (a : Attachment) :
    contentType crates (mimeOf a) = ownType crates a := by
  rw [contentType, mimeOf, ownType]
  cases a.mimeType with
  | none => rw [Option.getD_none, crates.parse_octetStream]; rfl
  | some mime => rfl

section Leaves

variable {readFile} {a : Attachment}

theorem contentId_of_isInlinePart (isInline : isInlinePart a = true) :
    contentId a = some ((contentId a).getD []) := by
  rw [isInlinePart, Bool.and_eq_true, Option.isSome_iff_exists] at isInline
  obtain ⟨-, cid, has⟩ := isInline
  rw [has]
  rfl

theorem carries_attached (present : Present readFile a) :
    Carries crates readFile a ((fileOf readFile a).leaf (contentType crates)) ↔
      a.filename ≠ none ∨ contentId a = none := by
  have named : IsOwnName a (a.filename.getD "attachment") ↔
      a.filename ≠ none ∨ contentId a = none := by
    rw [IsOwnName]
    cases a.filename <;> simp
  exact (and_iff_left ⟨contentType_mimeOf crates a, attachmentBytes_of_present present⟩).trans named

theorem carries_inline (present : Present readFile a) (isInline : isInlinePart a = true) :
    Carries crates readFile a ((inlineOf readFile a).leaf (contentType crates)) :=
  ⟨contentId_of_isInlinePart isInline, contentType_mimeOf crates a,
    attachmentBytes_of_present present⟩

theorem carries_demoted (present : Present readFile a) (isInline : isInlinePart a = true)
    (filename : String) :
    Carries crates readFile a
        (.attachment filename (contentType crates (mimeOf a)) (bytesOf readFile a)) ↔
      a.filename = some filename := by
  have named : IsOwnName a filename ↔ a.filename = some filename := by
    rw [IsOwnName, contentId_of_isInlinePart isInline]
    simp
  exact (and_iff_left ⟨contentType_mimeOf crates a, attachmentBytes_of_present present⟩).trans named

end Leaves

/-- Two lists put together are related where their parts are. -/
theorem forall₂_append_iff {α β : Type} {R : α → β → Prop} {front back : List α}
    {front' back' : List β} (lengths : front.length = front'.length) :
    List.Forall₂ R (front ++ back) (front' ++ back') ↔
      List.Forall₂ R front front' ∧ List.Forall₂ R back back' := by
  induction front generalizing front' with
  | nil =>
      cases front' with
      | nil => simp
      | cons => cases lengths
  | cons item front inductionHypothesis =>
      cases front' with
      | nil => cases lengths
      | cons item' front' =>
          simp only [List.cons_append, List.forall₂_cons,
            inductionHypothesis (Nat.succ.inj lengths), and_assoc]

section Files

variable {readFile} {files : List Attachment}

theorem forall₂_attached (present : ∀ a ∈ files, Present readFile a) :
    List.Forall₂ (Carries crates readFile) (attachedFiles files)
        (((attachedFiles files).map (fileOf readFile)).map (File.leaf (contentType crates))) ↔
      ∀ a ∈ attachedFiles files, a.filename ≠ none ∨ contentId a = none := by
  rw [List.map_map, List.forall₂_map_right_iff, List.forall₂_same]
  exact forall₂_congr fun a member =>
    carries_attached crates (present a (List.mem_of_mem_filter member))

theorem forall₂_inline (present : ∀ a ∈ files, Present readFile a) :
    List.Forall₂ (Carries crates readFile) (inlineAttachments files)
      (((inlineAttachments files).map (inlineOf readFile)).map
        (InlinePart.leaf (contentType crates))) := by
  rw [List.map_map, List.forall₂_map_right_iff, List.forall₂_same]
  intro a member
  obtain ⟨found, isInline⟩ := List.mem_filter.mp member
  exact carries_inline crates (present a found) isInline

theorem forall₂_demoted (present : ∀ a ∈ files, Present readFile a) :
    List.Forall₂ (Carries crates readFile) (inlineAttachments files)
        ((demoted ((inlineAttachments files).map (inlineOf readFile))).map
          (File.leaf (contentType crates))) ↔
      ∀ n a, (inlineAttachments files)[n]? = some a →
        a.filename = some ((inlineOf readFile a).filename (n + 1)) := by
  have each : ∀ a ∈ inlineAttachments files, ∀ filename : String,
      (Carries crates readFile a
        (.attachment filename (contentType crates (mimeOf a)) (bytesOf readFile a)) ↔
          a.filename = some filename) := by
    intro a member filename
    obtain ⟨found, isInline⟩ := List.mem_filter.mp member
    exact carries_demoted crates (present a found) isInline filename
  rw [List.forall₂_iff_get]
  constructor
  · rintro ⟨-, carried⟩ n a found
    obtain ⟨inside, rfl⟩ := List.getElem?_eq_some_iff.mp found
    have leaf := carried n inside (by simpa [demoted] using inside)
    simp only [List.get_eq_getElem, demoted, List.getElem_map, List.getElem_mapIdx] at leaf
    exact (each _ (List.getElem_mem inside) _).mp leaf
  · intro named
    refine ⟨by simp [demoted], fun n inside here => ?_⟩
    simp only [List.get_eq_getElem, demoted, List.getElem_map, List.getElem_mapIdx]
    exact (each _ (List.getElem_mem inside) _).mpr
      (named n _ (List.getElem?_eq_getElem inside))

/-- The leaves of the files carry the attachments where each has a name that its
place keeps. -/
theorem forall₂_placed (m : Letter) (present : ∀ a ∈ files, Present readFile a) :
    List.Forall₂ (Carries crates readFile) (placed m files)
        (fileLeaves crates m ⟨(inlineAttachments files).map (inlineOf readFile),
          (attachedFiles files).map (fileOf readFile), 0⟩) ↔
      (∀ a ∈ attachedFiles files, a.filename ≠ none ∨ contentId a = none) ∧
        (stored m.bodyHtml = none → ∀ n a, (inlineAttachments files)[n]? = some a →
          a.filename = some ((inlineOf readFile a).filename (n + 1))) := by
  rw [placed, fileLeaves]
  cases stored m.bodyHtml with
  | some html =>
      rw [if_pos Option.isSome_some, if_pos Option.isSome_some, forall₂_append_iff (by simp),
        forall₂_attached crates present]
      exact (and_iff_right (forall₂_inline crates present)).trans
        (and_iff_left (by rintro ⟨⟩)).symm
  | none =>
      rw [if_neg (by simp), if_neg (by simp), List.map_append, forall₂_append_iff (by simp),
        forall₂_attached crates present, forall₂_demoted crates present]
      simp only [true_imp_iff]

end Files

end Whole

/-- A message whose attachment bytes are all there is exported, and the export is the
message exactly when every attachment has a name that its place in the tree keeps
and the stored headers begin with a header. -/
theorem isMessage_iff (crates : Crates Address Mailbox ContentType)
    (readFile : String → Except StoreError (List UInt8)) (m : Letter) (files : List Attachment)
    (present : ∀ a ∈ files, Present readFile a) :
    ∃ eml, assemble crates readFile m files = .ok eml ∧
      assembleMessageEml crates readFile m files = .ok (eml.bytes crates) ∧
      (IsMessage crates readFile m files eml ↔ Kept readFile m files) := by
  have assembled := assemble_of_present crates readFile m present
  refine ⟨_, assembled, by rw [assembleMessageEml, assembled]; rfl, ?_⟩
  have placedIff := forall₂_placed crates m present
  have headersIff : ∀ raw, storedHeaders m = some raw →
      (IsHeaderBlock raw.toList (emlHeaders crates m) ↔ isContinuation raw.toList = false) := by
    intro raw has
    rw [emlHeaders, has]
    exact isHeaderBlock_iff raw.toList
  constructor
  · intro whole
    have carried := whole.files
    rw [leaves_emlBody, filter_isFile] at carried
    obtain ⟨attached, demoted⟩ := placedIff.mp carried
    exact ⟨attached, demoted, fun raw has => (headersIff raw has).mp (whole.headers raw has)⟩
  · intro kept
    refine ⟨?_, ?_, placed_perm m files, ?_, fun raw has =>
      (headersIff raw has).mpr (kept.headers raw has)⟩
    · rw [leaves_emlBody]
      exact filterMap_text? crates m _
    · rw [leaves_emlBody]
      exact filterMap_html? crates m _
    · rw [leaves_emlBody, filter_isFile]
      exact placedIff.mpr ⟨kept.attached, kept.demoted⟩

namespace Sample

/-- A leaf as it is written, its bytes taken for ASCII text. -/
def leafText : SinglePart String → String
  | .plain text =>
      "Content-Type: text/plain; charset=utf-8\r\nContent-Transfer-Encoding: 7bit\r\n\r\n" ++ text
  | .html markup =>
      "Content-Type: text/html; charset=utf-8\r\nContent-Transfer-Encoding: 7bit\r\n\r\n" ++ markup
  | .attachment filename type bytes =>
      "Content-Disposition: attachment; filename=\"" ++ filename ++ "\"\r\nContent-Type: " ++ type ++
        "\r\nContent-Transfer-Encoding: 7bit\r\n\r\n" ++
        String.ofList (bytes.map fun byte => Char.ofNat byte.toNat)
  | .newInline cid type bytes =>
      "Content-ID: <" ++ String.ofList cid ++ ">\r\nContent-Disposition: inline\r\nContent-Type: " ++
        type ++ "\r\nContent-Transfer-Encoding: 7bit\r\n\r\n" ++
        String.ofList (bytes.map fun byte => Char.ofNat byte.toNat)

/-- A body as it is written, for a flat tree. -/
def bodyText : Body String → String
  | .plain text => leafText (.plain text)
  | .html markup => leafText (.html markup)
  | .multi tree =>
      "Content-Type: multipart/mixed; boundary=\"part\"\r\n\r\n" ++
        String.join (tree.leaves.map fun leaf => "--part\r\n" ++ leafText leaf ++ "\r\n") ++
          "--part--\r\n"

def crates : Crates String String String where
  parseType mime := if mime.toList.contains '/' then some mime else none
  octetStream := "application/octet-stream"
  parse_octetStream := by decide
  rfc2822 _ := none
  parseAddress address := if address.toList.contains '@' then some address else none
  parseMailbox box := if box.toList.contains '@' then some box else none
  mailbox name address := (name.map (· ++ " <" ++ address ++ ">")).getD address
  headers fields := fields.flatMap fun
    | .subject text => "Subject: ".toList ++ text.toList ++ ['\r', '\n']
    | _ => []
  formatted body := (bodyText body).toList.flatMap String.utf8EncodeChar

/-- No file is on the disk. -/
def readFile (_ : String) : Except StoreError (List UInt8) :=
  .error (.io "No such file or directory")

def letter : Letter where
  messageIdHeader := none
  threadId := none
  subject := some "Scan"
  fromAddr := none
  fromName := none
  toAddrs := []
  ccAddrs := []
  bccAddrs := []
  replyTo := none
  date := none
  snippet := none
  bodyText := some "See the scan."
  bodyHtml := none
  rawHeaders := some "Subject: Scan\r\nContent-Type: multipart/mixed;\r\n boundary=old\r\n"
  keywords := []
  hasAttachments := true
  size := 100
  downloadedFull := true

def scan : Attachment where
  id := 1
  messageId := 1
  filename := some "scan.pdf"
  mimeType := some "application/pdf"
  size := 4
  contentId := none
  storagePath := none
  data := some [37, 80, 68, 70]
  isInline := false

theorem present_scan : Present readFile scan :=
  ⟨[37, 80, 68, 70], by rfl⟩

theorem isMessage_scan :
    ∃ eml, assemble crates readFile letter [scan] = .ok eml ∧
      assembleMessageEml crates readFile letter [scan] = .ok (eml.bytes crates) ∧
      (IsMessage crates readFile letter [scan] eml ↔ Kept readFile letter [scan]) :=
  isMessage_iff crates readFile letter [scan] fun _ member =>
    List.mem_singleton.mp member ▸ present_scan

/-- The same file as an inline part of a message without HTML. -/
def inlineScan : Attachment :=
  { scan with contentId := some "<scan@example.org>", isInline := true }

/-- It is exported as `image-1.png`. -/
theorem inlineScan_not_isMessage :
    Present readFile inlineScan ∧
      ∃ eml, assemble crates readFile letter [inlineScan] = .ok eml ∧
        ¬IsMessage crates readFile letter [inlineScan] eml := by
  have present : Present readFile inlineScan := ⟨[37, 80, 68, 70], by rfl⟩
  have all : ∀ a ∈ [inlineScan], Present readFile a := fun _ member =>
    List.mem_singleton.mp member ▸ present
  refine ⟨present, _, assemble_of_present crates readFile letter all, fun whole => ?_⟩
  have carried := whole.files
  rw [leaves_emlBody, filter_isFile] at carried
  have named := ((forall₂_placed crates letter all).mp carried).2 (by decide) 0 inlineScan
    (by rfl)
  exact absurd named (by decide)

end Sample

end Export
end Mailcore
