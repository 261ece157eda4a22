import Mailcore.Imap.Utf7Canonical
import Mailcore.Text.Unicode

/-!
# Listed names

A folder is stored under the text its listed name decodes to, and addressed
later by encoding that text again.
-/

namespace Mailcore
namespace Imap

open Utf7

/-- The mailbox of a LIST answer: `INBOX` in any case, or any other bytes. -/
inductive ListedMailbox
  | inbox
  | other (name : List UInt8)
  deriving DecidableEq, Repr

namespace ListedMailbox

/-- The name as the server lists it. -/
def listed : ListedMailbox → List UInt8
  | .inbox => [0x49, 0x4e, 0x42, 0x4f, 0x58]
  | .other name => name

/-- The name `list` and `lsub` store. -/
def name : ListedMailbox → String
  | .inbox => "INBOX"
  | .other name => decodeModifiedUtf7 (String.ofList (Text.fromUtf8Lossy name))

end ListedMailbox

/-- The bytes `mailbox_for_wire` sends for a stored path. -/
def wireName (path : String) : List UInt8 :=
  (encodeModifiedUtf7 path).toList.flatMap String.utf8EncodeChar

/-- The listed name is canonical modified UTF-7, byte for byte. -/
def ListedMailbox.Canonical (mailbox : ListedMailbox) : Prop :=
  Utf7.Canonical false
    (mailbox.listed.map fun byte => Char.ofNat byte.toNat)

/-- Every listed mailbox is addressed by the name it was listed under, and no
two of them share a stored path. -/
def Readdressed (mailboxes : List ListedMailbox) : Prop :=
  (∀ mailbox ∈ mailboxes, wireName mailbox.name = mailbox.listed) ∧
    ∀ first ∈ mailboxes, ∀ second ∈ mailboxes,
      first.listed ≠ second.listed → first.name ≠ second.name

theorem toNat_ofNat_byte (byte : UInt8) :
    (Char.ofNat byte.toNat).toNat = byte.toNat := by
  have bound := byte.toNat_lt
  rw [Char.ofNat, dif_pos (Or.inl (by omega))]
  rfl

theorem isPrintable_iff (char : Char) :
    isPrintable char = true ↔ 0x20 ≤ char.toNat ∧ char.toNat ≤ 0x7e := by
  simp only [isPrintable, Bool.and_eq_true, decide_eq_true_eq]
  omega

/-- A printable character is one byte, its own code. -/
theorem utf8EncodeChar_printable {char : Char} (printable : isPrintable char) :
    String.utf8EncodeChar char = [UInt8.ofNat char.toNat] := by
  have bound : char.val.toNat ≤ 0x7f := by
    have range := (isPrintable_iff char).mp printable
    change 0x20 ≤ char.val.toNat ∧ char.val.toNat ≤ 0x7e at range
    omega
  unfold String.utf8EncodeChar
  exact if_pos bound

theorem byte_toNat {char : Char} (printable : isPrintable char) :
    (UInt8.ofNat char.toNat).toNat = char.toNat := by
  have range := (isPrintable_iff char).mp printable
  rw [UInt8.toNat_ofNat']
  omega

/-- Printable text is sent as its codes. -/
theorem utf8_printable {text : List Char}
    (printable : ∀ char ∈ text, isPrintable char) :
    text.flatMap String.utf8EncodeChar =
      text.map fun char => UInt8.ofNat char.toNat := by
  induction text with
  | nil => rfl
  | cons head tail inductionHypothesis =>
      rw [List.flatMap_cons,
        utf8EncodeChar_printable (printable head List.mem_cons_self),
        inductionHypothesis fun char member =>
          printable char (List.mem_cons_of_mem _ member)]
      rfl

/-- What is sent for any path is canonical. -/
theorem canonical_wireName (path : String) :
    Utf7.Canonical false
      ((wireName path).map fun byte => Char.ofNat byte.toNat) := by
  have canonical : Utf7.Canonical false (remaining [] path.toList) :=
    canonical_remaining [] path.toList (by simp)
  have printable := isPrintable_of_canonical canonical
  rw [wireName, encode_eq, String.toList_ofList, utf8_printable printable,
    List.map_map]
  have same : (remaining [] path.toList).map
      ((fun byte => Char.ofNat byte.toNat) ∘
        fun char => UInt8.ofNat char.toNat) = remaining [] path.toList := by
    rw [List.map_congr_left (g := id), List.map_id]
    intro char member
    change Char.ofNat (UInt8.ofNat char.toNat).toNat = char
    rw [byte_toNat (printable char member), Char.ofNat_toNat]
  rwa [same]

/-- A canonical name is sent as it was listed. -/
theorem wireName_of_canonical
    {mailbox : ListedMailbox}
    (canonical : mailbox.Canonical) :
    wireName mailbox.name = mailbox.listed := by
  cases mailbox with
  | inbox => decide +kernel
  | other name =>
      change Utf7.Canonical false (name.map fun byte => Char.ofNat byte.toNat)
        at canonical
      have printable := isPrintable_of_canonical canonical
      have ascii : ∀ byte ∈ name, byte.toNat < 0x80 := by
        intro byte member
        have range := (isPrintable_iff _).mp
          (printable _ (List.mem_map_of_mem member))
        rw [toNat_ofNat_byte] at range
        omega
      obtain ⟨input, same⟩ := (canonical_iff _).mp canonical
      have stored : (ListedMailbox.other name).name = String.ofList input := by
        change decodeModifiedUtf7 _ = _
        rw [decodeModifiedUtf7, String.toList_ofList,
          Text.fromUtf8Lossy_ascii ascii, ← same, decode_encode_toList]
      rw [stored, wireName, encode_eq, String.toList_ofList,
        String.toList_ofList, same, utf8_printable printable, List.map_map]
      have back : name.map ((fun char => UInt8.ofNat char.toNat) ∘
          fun byte => Char.ofNat byte.toNat) = name := by
        rw [List.map_congr_left (g := id), List.map_id]
        intro byte _
        change UInt8.ofNat (Char.ofNat byte.toNat).toNat = byte
        rw [toNat_ofNat_byte, UInt8.ofNat_toNat]
      exact back

theorem canonical_of_wireName
    {mailbox : ListedMailbox}
    (same : wireName mailbox.name = mailbox.listed) :
    mailbox.Canonical := by
  rw [ListedMailbox.Canonical, ← same]
  exact canonical_wireName mailbox.name

/-- A server's mailboxes can all be addressed again exactly when every listed
name is canonical. -/
theorem readdressed_iff_canonical (mailboxes : List ListedMailbox) :
    Readdressed mailboxes ↔ ∀ mailbox ∈ mailboxes, mailbox.Canonical := by
  constructor
  · rintro ⟨sent, _⟩ mailbox member
    exact canonical_of_wireName (sent mailbox member)
  · intro canonical
    refine ⟨fun mailbox member =>
      wireName_of_canonical (canonical mailbox member), ?_⟩
    intro first firstMember second secondMember differ sameName
    apply differ
    rw [← wireName_of_canonical (canonical first firstMember),
      ← wireName_of_canonical (canonical second secondMember), sameName]

/-- `A&!!!-B` cannot be decoded and is stored as it is, but sent as
`A&-!!!-B`; `&AGE-` is stored as `a`, which is another mailbox's name. -/
theorem noncanonical_not_readdressed :
    ¬ Readdressed [.other [0x41, 0x26, 0x21, 0x21, 0x21, 0x2d, 0x42]] ∧
      ¬ Readdressed [.other [0x61], .other [0x26, 0x41, 0x47, 0x45, 0x2d]] := by
  constructor
  · intro ⟨sent, _⟩
    have verbatim := sent _ (List.mem_singleton_self _)
    revert verbatim
    decide +kernel
  · intro ⟨_, distinct⟩
    have shared := distinct (.other [0x61]) (by simp)
      (.other [0x26, 0x41, 0x47, 0x45, 0x2d]) (by simp) (by decide)
    revert shared
    decide +kernel

end Imap
end Mailcore
