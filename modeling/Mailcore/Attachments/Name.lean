import Mailcore.Html.Sanitize
import Mailcore.Html.Tags

/-!
# Types and extensions

Which extension a file of some type gets, and which type an extension stands
for.
-/

namespace Mailcore
namespace Attachments

open Html (trim isOneOf)
open Text (asciiLower)

/-- Calendar types seen in the wild. -/
def CALENDAR_MIMES : List String :=
  ["text/calendar", "application/ics", "text/x-vcalendar",
    "application/x-vcalendar", "text/x-vcal"]

/-- Contact card spellings. -/
def VCARD_MIMES : List String :=
  ["text/vcard", "text/x-vcard", "text/directory"]

/-- The type for a known alias, otherwise the trimmed lowercased input. -/
def canonicalMime (mime : List Char) : List Char :=
  let m := asciiLower (trim mime)
  if isOneOf CALENDAR_MIMES m then "text/calendar".toList
  else if isOneOf VCARD_MIMES m then "text/vcard".toList
  else if m = "image/jpg".toList then "image/jpeg".toList
  else if m = "image/x-png".toList then "image/png".toList
  else if m = "audio/x-mp3".toList then "audio/mpeg".toList
  else m

/-- The arms of a `match` on a text. -/
abbrev Arms := List (List String × String)

def Arms.find (arms : Arms) (text : List Char) : Option (List Char) :=
  (List.find? (fun arm => isOneOf arm.1 text) arms).map fun arm => arm.2.toList

def MIME_FOR_EXTENSION : Arms :=
  [(["txt", "log", "md", "markdown", "text"], "text/plain"),
    (["html", "htm"], "text/html"), (["csv"], "text/csv"),
    (["xml"], "application/xml"), (["json"], "application/json"),
    (["yaml", "yml"], "application/yaml"), (["ics", "ical", "ifb"], "text/calendar"),
    (["vcs"], "text/x-vcalendar"), (["vcf", "vcard"], "text/vcard"),
    (["eml", "emlx"], "message/rfc822"), (["pdf"], "application/pdf"),
    (["rtf"], "application/rtf"), (["epub"], "application/epub+zip"),
    (["zip"], "application/zip"), (["7z"], "application/x-7z-compressed"),
    (["rar"], "application/vnd.rar"), (["tar"], "application/x-tar"),
    (["gz", "tgz"], "application/gzip"), (["bz2"], "application/x-bzip2"),
    (["xz"], "application/x-xz"), (["png"], "image/png"),
    (["jpg", "jpeg"], "image/jpeg"), (["gif"], "image/gif"), (["webp"], "image/webp"),
    (["svg", "svgz"], "image/svg+xml"), (["bmp"], "image/bmp"),
    (["ico"], "image/x-icon"), (["tif", "tiff"], "image/tiff"),
    (["heic", "heif"], "image/heic"), (["heics"], "image/heif-sequence"),
    (["avif"], "image/avif"), (["mp3"], "audio/mpeg"), (["wav"], "audio/wav"),
    (["ogg", "oga"], "audio/ogg"), (["opus"], "audio/opus"), (["flac"], "audio/flac"),
    (["aac"], "audio/aac"), (["m4a"], "audio/mp4"), (["mp4", "m4v"], "video/mp4"),
    (["mov"], "video/quicktime"), (["webm"], "video/webm"),
    (["mkv"], "video/x-matroska"), (["avi"], "video/x-msvideo"),
    (["doc"], "application/msword"),
    (["docx"], "application/vnd.openxmlformats-officedocument.wordprocessingml.document"),
    (["xls"], "application/vnd.ms-excel"),
    (["xlsx"], "application/vnd.openxmlformats-officedocument.spreadsheetml.sheet"),
    (["ppt"], "application/vnd.ms-powerpoint"),
    (["pptx"],
      "application/vnd.openxmlformats-officedocument.presentationml.presentation"),
    (["odt"], "application/vnd.oasis.opendocument.text"),
    (["ods"], "application/vnd.oasis.opendocument.spreadsheet"),
    (["odp"], "application/vnd.oasis.opendocument.presentation"),
    (["apk"], "application/vnd.android.package-archive")]

/-- The type an extension stands for. -/
def mimeForExtension (ext : List Char) : Option (List Char) :=
  MIME_FOR_EXTENSION.find (asciiLower ((trim ext).dropWhile (· = '.')))

def EXTENSION_FOR_MIME : Arms :=
  [(["text/plain"], "txt"), (["text/html"], "html"), (["text/csv"], "csv"),
    (["application/xml"], "xml"), (["application/json"], "json"),
    (["application/yaml"], "yaml"), (["text/calendar"], "ics"), (["text/vcard"], "vcf"),
    (["message/rfc822"], "eml"), (["application/pdf"], "pdf"),
    (["application/rtf"], "rtf"), (["application/epub+zip"], "epub"),
    (["application/zip"], "zip"), (["application/x-7z-compressed"], "7z"),
    (["application/vnd.rar"], "rar"), (["application/x-tar"], "tar"),
    (["application/gzip"], "gz"), (["application/x-bzip2"], "bz2"),
    (["application/x-xz"], "xz"), (["image/png"], "png"), (["image/jpeg"], "jpg"),
    (["image/gif"], "gif"), (["image/webp"], "webp"), (["image/svg+xml"], "svg"),
    (["image/bmp"], "bmp"), (["image/x-icon"], "ico"), (["image/tiff"], "tiff"),
    (["image/heic"], "heic"), (["image/heif", "image/heif-sequence"], "heif"),
    (["image/avif"], "avif"), (["audio/mpeg"], "mp3"), (["audio/wav"], "wav"),
    (["audio/ogg"], "ogg"), (["audio/opus"], "opus"), (["audio/flac"], "flac"),
    (["audio/aac"], "aac"), (["audio/mp4"], "m4a"), (["video/mp4"], "mp4"),
    (["video/quicktime"], "mov"), (["video/webm"], "webm"),
    (["video/x-matroska"], "mkv"), (["video/x-msvideo"], "avi"),
    (["application/msword"], "doc"),
    (["application/vnd.openxmlformats-officedocument.wordprocessingml.document"], "docx"),
    (["application/vnd.ms-excel"], "xls"),
    (["application/vnd.openxmlformats-officedocument.spreadsheetml.sheet"], "xlsx"),
    (["application/vnd.ms-powerpoint",
      "application/vnd.openxmlformats-officedocument.presentationml.presentation"],
      "pptx"),
    (["application/vnd.oasis.opendocument.text"], "odt"),
    (["application/vnd.oasis.opendocument.spreadsheet"], "ods"),
    (["application/vnd.oasis.opendocument.presentation"], "odp"),
    (["application/vnd.android.package-archive"], "apk")]

/-- The extension, without a dot, of a file of a type. -/
def extensionForMime (mime : List Char) : Option (List Char) :=
  EXTENSION_FOR_MIME.find (canonicalMime mime)

/-- Every extension is a few letters and digits. -/
theorem extensionForMime_plain {mime ext : List Char}
    (found : extensionForMime mime = some ext) :
    ext ≠ [] ∧ ext.all Char.isAlphanum := by
  obtain ⟨arm, member, rfl⟩ := Option.map_eq_some_iff.mp found
  have all : ∀ arm ∈ EXTENSION_FOR_MIME,
      arm.2.toList ≠ [] ∧ arm.2.toList.all Char.isAlphanum := by
    decide
  exact all arm (List.mem_of_find?_eq_some member)

end Attachments
end Mailcore

/-!
## Names of attachments

`paths.rs`: the name a mail gives an attachment, made fit for a file.
-/

namespace Mailcore
namespace Attachments

open Html (trim byteLen truncateOnCharBoundary)
open Text (asciiLower afterLast beforeLast)

/-- Windows treats these as device names, with or without an extension. -/
def WINDOWS_DEVICE_NAMES : List String :=
  ["con", "prn", "aux", "nul", "com1", "com2", "com3", "com4", "com5", "com6",
    "com7", "com8", "com9", "lpt1", "lpt2", "lpt3", "lpt4", "lpt5", "lpt6", "lpt7",
    "lpt8", "lpt9"]

/-- Longest attachment file name kept, in bytes. -/
def MAX_ATTACHMENT_NAME_BYTES : Nat := 150

/-- `attachment-7.bin`, with the extension given. -/
def numberedAttachment (id : Int) (ext : List Char) : List Char :=
  "attachment-".toList ++ (id.repr.toList ++ '.' :: ext)

/-- What an attachment is called when the mail names it nothing usable. -/
def fallbackAttachmentName (id : Int) : List Char :=
  numberedAttachment id "bin".toList

/-- `char::is_control`. -/
def isControl (char : Char) : Bool :=
  char.toNat < 0x20 || (0x7F ≤ char.toNat && char.toNat < 0xA0)

def isReserved (char : Char) : Bool :=
  isControl char || [':', '*', '?', '"', '<', '>', '|'].contains char

def isSeparator (char : Char) : Bool :=
  char = '/' || char = '\\'

/-- What Windows strips at the end of a name. -/
def isDotOrSpace (char : Char) : Bool :=
  char = ' ' || char = '.'

def trimEndDots (name : List Char) : List Char :=
  name.rdropWhile isDotOrSpace

/-- A name without its extensions. -/
def stemOf (name : List Char) : List Char :=
  name.takeWhile (· != '.')

def isDeviceName (stem : List Char) : Bool :=
  Html.isOneOf WINDOWS_DEVICE_NAMES (asciiLower stem)

def cleanAttachmentName (name : Option (List Char)) (id : Int) : List Char :=
  let base := trim ((name.getD []).rtakeWhile fun char => !isSeparator char)
  let cleaned := trimEndDots (base.map fun char => if isReserved char then '_' else char)
  if cleaned = [] ∨ cleaned.all (· = '.') then fallbackAttachmentName id
  else if isDeviceName (stemOf cleaned) then '_' :: cleaned
  else cleaned

/-- The name with the extension of its type: one that names another type is
swapped, a missing one is appended. -/
def withExtension (named wantExt : List Char) (wantMime : Option (List Char)) : List Char :=
  let stem := beforeLast '.' named
  let ext := afterLast '.' named
  if '.' ∈ named ∧ stem ≠ [] ∧ ext ≠ [] then
    if (mimeForExtension ext).any fun cur => some cur ≠ wantMime then
      stem ++ '.' :: wantExt
    else named
  else named ++ '.' :: wantExt

/-- The name before it is capped. -/
def typedAttachmentName (name mime : Option (List Char)) (id : Int) : List Char :=
  let named := cleanAttachmentName name id
  match mime.bind extensionForMime with
  | none => named
  | some wantExt =>
      if named = fallbackAttachmentName id then numberedAttachment id wantExt
      else withExtension named wantExt (mime.map canonicalMime)

/-- A name at its last dot, where a short extension begins there. -/
def splitExtension (name : List Char) : List Char × List Char :=
  let stem := beforeLast '.' name
  let ext := '.' :: afterLast '.' name
  if '.' ∈ name ∧ stem ≠ [] ∧ byteLen ext ≤ 17 then (stem, ext) else (name, [])

/-- A name cut to some bytes.  A short extension survives the cut. -/
def capName (name : List Char) (max : Nat) : List Char :=
  if byteLen name ≤ max then name
  else
    let (stem, ext) := splitExtension name
    trimEndDots (truncateOnCharBoundary (max - byteLen ext) stem) ++ ext

def safeAttachmentNameForMime (name mime : Option (List Char)) (id : Int) : List Char :=
  capName (typedAttachmentName name mime id) MAX_ATTACHMENT_NAME_BYTES

end Attachments
end Mailcore
