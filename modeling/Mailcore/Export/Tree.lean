import Mathlib.Data.List.Basic

/-!
# The MIME tree of a mail

The tree that `lettre` is given, and `mime_body`, which builds it for sending
and for export alike: the text bodies, the inline parts beside the HTML and the
files behind them.
-/

namespace Mailcore
namespace Export

variable {ContentType : Type}

/-! ## `lettre`'s tree -/

/-- `lettre::message::SinglePart`. -/
inductive SinglePart (ContentType : Type) where
  | plain (text : String)
  | html (markup : String)
  /-- `Attachment::new`. -/
  | attachment (filename : String) (contentType : ContentType) (bytes : List UInt8)
  /-- `Attachment::new_inline`. -/
  | newInline (cid : List Char) (contentType : ContentType) (bytes : List UInt8)

inductive MultiKind where
  | mixed
  | alternative
  | related

/-- A part of a multipart, which may be a multipart of its own. -/
inductive Part (ContentType : Type) where
  | single (part : SinglePart ContentType)
  | multi (kind : MultiKind) (parts : List (Part ContentType))

/-- `lettre::message::MultiPart`. -/
structure MultiPart (ContentType : Type) where
  kind : MultiKind
  parts : List (Part ContentType)

namespace MultiPart

/-- `MultiPart::mixed`, `alternative` and `related`. -/
def new (kind : MultiKind) : MultiPart ContentType :=
  ⟨kind, []⟩

def singlepart (multi : MultiPart ContentType) (part : SinglePart ContentType) :
    MultiPart ContentType :=
  { multi with parts := multi.parts ++ [.single part] }

def multipart (multi inner : MultiPart ContentType) : MultiPart ContentType :=
  { multi with parts := multi.parts ++ [.multi inner.kind inner.parts] }

end MultiPart

/-- A MIME body: one text part or a multipart tree. -/
inductive Body (ContentType : Type) where
  | plain (text : String)
  | html (markup : String)
  | multi (tree : MultiPart ContentType)

mutual

/-- The leaves of a part, in the order they are written. -/
def Part.leaves : Part ContentType → List (SinglePart ContentType)
  | .single part => [part]
  | .multi _ parts => Part.leavesOf parts

def Part.leavesOf : List (Part ContentType) → List (SinglePart ContentType)
  | [] => []
  | part :: later => part.leaves ++ Part.leavesOf later

end

def MultiPart.leaves (multi : MultiPart ContentType) : List (SinglePart ContentType) :=
  Part.leavesOf multi.parts

def Body.leaves : Body ContentType → List (SinglePart ContentType)
  | .plain text => [.plain text]
  | .html markup => [.html markup]
  | .multi tree => tree.leaves

theorem Part.leavesOf_append (front back : List (Part ContentType)) :
    Part.leavesOf (front ++ back) = Part.leavesOf front ++ Part.leavesOf back := by
  induction front with
  | nil => rfl
  | cons part front inductionHypothesis =>
      rw [List.cons_append, Part.leavesOf, Part.leavesOf, inductionHypothesis, List.append_assoc]

@[simp] theorem MultiPart.leaves_new (kind : MultiKind) :
    (MultiPart.new kind : MultiPart ContentType).leaves = [] := rfl

@[simp] theorem MultiPart.leaves_singlepart (multi : MultiPart ContentType)
    (part : SinglePart ContentType) :
    (multi.singlepart part).leaves = multi.leaves ++ [part] :=
  Part.leavesOf_append _ _

@[simp] theorem MultiPart.leaves_multipart (multi inner : MultiPart ContentType) :
    (multi.multipart inner).leaves = multi.leaves ++ inner.leaves := by
  have last : Part.leavesOf [.multi inner.kind inner.parts] = inner.leaves :=
    List.append_nil _
  rw [MultiPart.leaves, MultiPart.multipart, Part.leavesOf_append, last]
  rfl

/-- Parts that are added one by one stand behind the earlier ones. -/
theorem MultiPart.leaves_foldl {α : Type} (part : α → SinglePart ContentType) (items : List α)
    (multi : MultiPart ContentType) :
    (items.foldl (fun multi item => multi.singlepart (part item)) multi).leaves =
      multi.leaves ++ items.map part := by
  induction items generalizing multi with
  | nil => exact (List.append_nil _).symm
  | cons item items inductionHypothesis =>
      rw [List.foldl_cons, inductionHypothesis, MultiPart.leaves_singlepart, List.append_assoc]
      rfl

/-! ## `mime_body` -/

/-- Outgoing body format. -/
inductive SendFormat where
  | auto
  | plain
  | multipart
  | html
  deriving DecidableEq

/-- One image to send as an inline part, its Content-ID without brackets. -/
structure InlinePart where
  cid : List Char
  mime : String
  bytes : List UInt8

/-- File name for when the part has to travel as a plain attachment. -/
def InlinePart.filename (part : InlinePart) (n : Nat) : String :=
  let ext :=
    if part.mime = "image/jpeg" || part.mime = "image/jpg" then "jpg"
    else if part.mime = "image/gif" then "gif"
    else if part.mime = "image/webp" then "webp"
    else "png"
  "image-" ++ toString n ++ "." ++ ext

/-- A file to attach: its name, its MIME type and its bytes. -/
structure File where
  filename : String
  mime : String
  bytes : List UInt8

section Tree

variable (contentType : String → ContentType)

def InlinePart.leaf (part : InlinePart) : SinglePart ContentType :=
  .newInline part.cid (contentType part.mime) part.bytes

def File.leaf (file : File) : SinglePart ContentType :=
  .attachment file.filename (contentType file.mime) file.bytes

/-- The HTML part, as `multipart/related` with its images when it has any. -/
def htmlBody (html : String) (inlines : List InlinePart) : Body ContentType :=
  if inlines.isEmpty then .html html
  else
    .multi <| inlines.foldl (fun related part => related.singlepart (part.leaf contentType))
      ((MultiPart.new .related).singlepart (.html html))

/-- A plain-text body has nowhere to show an image, so inline images go along as
ordinary attachments. -/
def demoted (inlines : List InlinePart) : List File :=
  inlines.mapIdx fun n part => ⟨part.filename (n + 1), part.mime, part.bytes⟩

/-- The body in front of the files. -/
def textBody (format : SendFormat) (plain : String) (html : Option String)
    (inlines : List InlinePart) : Body ContentType :=
  match format, html with
  | .plain, _ | _, none => .plain plain
  | .html, some html => htmlBody contentType html inlines
  | _, some html =>
      let alternative := (MultiPart.new .alternative).singlepart (.plain plain)
      .multi <| match htmlBody contentType html inlines with
        | .html markup => alternative.singlepart (.html markup)
        | .multi related => alternative.multipart related
        -- `html_body` never yields plain.
        | .plain _ => alternative

/-- Body first, then one `SinglePart` per file inside a `multipart/mixed`
envelope. -/
def withFiles (body : Body ContentType) (files : List File) : Body ContentType :=
  if files.isEmpty then body
  else
    let mixed := match body with
      | .plain text => (MultiPart.new .mixed).singlepart (.plain text)
      | .html markup => (MultiPart.new .mixed).singlepart (.html markup)
      | .multi tree => (MultiPart.new .mixed).multipart tree
    .multi <| files.foldl (fun mixed file => mixed.singlepart (file.leaf contentType)) mixed

/-- The MIME body tree for resolved parts: plain, HTML or
`multipart/alternative`, wrapped in `multipart/mixed` when there are files. -/
def mimeBody (format : SendFormat) (plain : String) (html : Option String)
    (inlines : List InlinePart) (files : List File) : Body ContentType :=
  let plainOnly := format = .plain || html.isNone
  let files := if plainOnly then files ++ demoted inlines else files
  let inlines := if plainOnly then [] else inlines
  withFiles contentType (textBody contentType format plain html inlines) files

/-! ### Its leaves -/

theorem leaves_htmlBody (html : String) (inlines : List InlinePart) :
    (htmlBody contentType html inlines).leaves =
      .html html :: inlines.map (InlinePart.leaf contentType) := by
  rw [htmlBody]
  split_ifs with none_
  · rw [List.isEmpty_iff.mp none_]
    rfl
  · exact MultiPart.leaves_foldl (InlinePart.leaf contentType) inlines _

/-- Without HTML there is the text alone. -/
theorem leaves_textBody_plain (plain : String) (html : Option String) (inlines : List InlinePart) :
    (textBody contentType .plain plain html inlines).leaves = [.plain plain] := by
  unfold textBody
  rfl

theorem leaves_textBody_html (plain html : String) (inlines : List InlinePart) :
    (textBody contentType .html plain (some html) inlines).leaves =
      .html html :: inlines.map (InlinePart.leaf contentType) :=
  leaves_htmlBody contentType html inlines

theorem leaves_textBody_multipart (plain html : String) (inlines : List InlinePart) :
    (textBody contentType .multipart plain (some html) inlines).leaves =
      .plain plain :: .html html :: inlines.map (InlinePart.leaf contentType) := by
  have inner := leaves_htmlBody contentType html inlines
  unfold textBody
  dsimp only
  cases built : htmlBody contentType html inlines with
  | html text =>
      rw [built] at inner
      rw [← inner]
      rfl
  | multi related =>
      rw [built] at inner
      rw [← inner]
      exact MultiPart.leaves_multipart _ related
  | plain text =>
      rw [built] at inner
      cases inner

/-- The body's leaves, then one leaf for each file. -/
theorem leaves_withFiles (body : Body ContentType) (files : List File) :
    (withFiles contentType body files).leaves =
      body.leaves ++ files.map (File.leaf contentType) := by
  unfold withFiles
  split_ifs with none_
  · rw [List.isEmpty_iff.mp none_]
    exact (List.append_nil _).symm
  · refine (MultiPart.leaves_foldl (File.leaf contentType) files _).trans (congrArg (· ++ _) ?_)
    cases body with
    | plain text => rfl
    | html markup => rfl
    | multi tree => exact MultiPart.leaves_multipart _ tree

theorem mimeBody_plain (plain : String) (html : Option String) (inlines : List InlinePart)
    (files : List File) :
    mimeBody contentType .plain plain html inlines files =
      withFiles contentType (textBody contentType .plain plain html [])
        (files ++ demoted inlines) := rfl

theorem mimeBody_some {format : SendFormat} (rich : format ≠ .plain) (plain html : String)
    (inlines : List InlinePart) (files : List File) :
    mimeBody contentType format plain (some html) inlines files =
      withFiles contentType (textBody contentType format plain (some html) inlines) files := by
  have notPlain : (decide (format = .plain) || (some html).isNone) = false := by
    simp [rich]
  rw [mimeBody, notPlain]
  rfl

end Tree

end Export
end Mailcore
