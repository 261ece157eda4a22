import Mailcore.Text.LowerCase
import Mailcore.Text.Numeral
import Mailcore.Text.Slices
import Mathlib.Algebra.Ring.Nat

/-!
# Addresses

IPv4 and IPv6 addresses, their texts as the standard library parses them, and
which of them a mail may make the reader fetch from.
-/

namespace Mailcore
namespace Html

open Text (asciiLower parseUnsigned readNumeral splitOnceAt)

structure Ipv4Addr where
  bits : UInt32
  deriving DecidableEq, Repr

namespace Ipv4Addr

/-- `octets()[index]`. -/
def octet (address : Ipv4Addr) (index : Nat) : Nat :=
  address.bits.toNat / 256 ^ (3 - index) % 256

end Ipv4Addr

structure Ipv6Addr where
  segments : List UInt16
  eight : segments.length = 8
  deriving DecidableEq, Repr

namespace Ipv6Addr

def segment (address : Ipv6Addr) (index : Nat) : Nat :=
  (address.segments.getD index 0).toNat

/-- `Ipv6Addr::to_ipv4`: an address of the shape `::a.b.c.d` or
`::ffff:a.b.c.d`. -/
def toIpv4 (address : Ipv6Addr) : Option Ipv4Addr :=
  if (address.segments.take 5).all (· = 0) ∧
      (address.segment 5 = 0 ∨ address.segment 5 = 0xffff) then
    some ⟨UInt32.ofNat (address.segment 6 * 65536 + address.segment 7)⟩
  else
    none

/-- `Ipv6Addr::to_ipv4_mapped`. -/
def toIpv4Mapped (address : Ipv6Addr) : Option Ipv4Addr :=
  if (address.segments.take 5).all (· = 0) ∧ address.segment 5 = 0xffff then
    some ⟨UInt32.ofNat (address.segment 6 * 65536 + address.segment 7)⟩
  else
    none

def isUnspecified (address : Ipv6Addr) : Bool :=
  address.segments.all (· = 0)

def isLoopback (address : Ipv6Addr) : Bool :=
  (address.segments.take 7).all (· = 0) && address.segment 7 = 1

def isMulticast (address : Ipv6Addr) : Bool :=
  (address.segment 0 &&& 0xff00) = 0xff00

end Ipv6Addr

inductive IpAddr
  | v4 (address : Ipv4Addr)
  | v6 (address : Ipv6Addr)
  deriving DecidableEq, Repr

/-! ## Texts -/

/-- One part of a dotted quad: at most three digits, no leading zero. -/
def octetText (part : List Char) : Option Nat :=
  if part = [] ∨ 3 < part.length ∨ (part.head? = some '0' ∧ 1 < part.length) then none
  else (readNumeral 10 part).filter fun value => decide (value < 256)

/-- `Ipv4Addr::from_str`. -/
def ipv4Text (text : List Char) : Option Ipv4Addr := do
  match text.splitOn '.' with
  | [first, second, third, fourth] =>
      let a ← octetText first
      let b ← octetText second
      let c ← octetText third
      let d ← octetText fourth
      some ⟨UInt32.ofNat (((a * 256 + b) * 256 + c) * 256 + d)⟩
  | _ => none

/-- A group of at most four hexadecimal digits. -/
def groupText (part : List Char) : Option UInt16 :=
  if part = [] ∨ 4 < part.length then none
  else (readNumeral 16 part).map UInt16.ofNat

/-- Groups, of which the last may be written as a dotted quad and then counts
twice. -/
def groupsText (dotted : Bool) : List (List Char) → Option (List UInt16)
  | [] => some []
  | [part] =>
      match if dotted then ipv4Text part else none with
      | some quad =>
          some [UInt16.ofNat (quad.bits.toNat / 65536),
            UInt16.ofNat (quad.bits.toNat % 65536)]
      | none => (groupText part).map ([·])
  | part :: parts => do
      let group ← groupText part
      let groups ← groupsText dotted parts
      some (group :: groups)

/-- The groups between single colons; no text has no groups. -/
def colonGroups (dotted : Bool) (text : List Char) : Option (List UInt16) :=
  if text = [] then some [] else groupsText dotted (text.splitOn ':')

/-- Eight groups make an address. -/
def ofGroups (groups : List UInt16) : Option Ipv6Addr :=
  if eight : groups.length = 8 then some ⟨groups, eight⟩ else none

/-- `Ipv6Addr::from_str`: eight groups, or fewer and one `::` for the zeros
between them, in letters of either case. -/
def ipv6Text (text : List Char) : Option Ipv6Addr := do
  match splitOnceAt "::".toList (asciiLower text) with
  | none =>
      let groups ← colonGroups true (asciiLower text)
      ofGroups groups
  | some (front, back) =>
      let before ← colonGroups false front
      let after ← colonGroups true back
      if 7 < before.length + after.length then none
      else
        ofGroups (before ++
          List.replicate (8 - (before.length + after.length)) 0 ++ after)

/-- `IpAddr::from_str`. -/
def ipText (text : List Char) : Option IpAddr :=
  ((ipv4Text text).map .v4).or ((ipv6Text text).map .v6)

/-! ## Public addresses -/

/-- IPv4 ranges a mail must never make the reader fetch. -/
def isPublicIpv4 (address : Ipv4Addr) : Bool :=
  let o := address.octet
  !(decide (o 0 = 0) ||
    decide (o 0 = 10) ||
    decide (o 0 = 127) ||
    decide (o 0 = 100 ∧ o 1 &&& 0xc0 = 0x40) ||
    decide (o 0 = 169 ∧ o 1 = 254) ||
    decide (o 0 = 172 ∧ o 1 &&& 0xf0 = 0x10) ||
    decide (o 0 = 192 ∧ o 1 = 0 ∧ o 2 = 0) ||
    decide (o 0 = 192 ∧ o 1 = 168) ||
    decide (o 0 = 198 ∧ o 1 &&& 0xfe = 0x12) ||
    decide (240 ≤ o 0))

def isPublicIpv6 (address : Ipv6Addr) : Bool :=
  match address.toIpv4 with
  | some v4 => isPublicIpv4 v4
  | none =>
      match address.toIpv4Mapped with
      | some v4 => isPublicIpv4 v4
      | none =>
          !(address.isUnspecified || address.isLoopback ||
            decide (address.segment 0 &&& 0xfe00 = 0xfc00) ||
            decide (address.segment 0 &&& 0xffc0 = 0xfe80) ||
            address.isMulticast)

def isPublicIp : IpAddr → Bool
  | .v4 address => isPublicIpv4 address
  | .v6 address => isPublicIpv6 address

/-! ## Shorthand -/

/-- The parts of a shorthand put together; only the last may carry more than
one octet's worth. -/
def looseParts (last : Nat) : Nat → Nat → List (List Char) → Option Nat
  | _, out, [] => some out
  | index, out, part :: parts => do
      let value ← parseUnsigned 10 (2 ^ 32) part
      if index = last then
        looseParts last (index + 1) (out ||| value) parts
      else if 255 < value then none
      else looseParts last (index + 1) (out ||| value <<< (24 - 8 * index)) parts

/-- The `inet_aton` shorthand a browser resolves: digits and dots only. -/
def looseIpv4 (host : List Char) : Option Ipv4Addr :=
  if host = [] ∨ !host.all (fun char => char.isDigit || char = '.') then none
  else
    let parts := host.splitOn '.'
    if 4 < parts.length ∨ [] ∈ parts then none
    else (looseParts (parts.length - 1) 0 0 parts).map fun out =>
      ⟨UInt32.ofNat out⟩

/-! ## The letters of an address -/

/-- What an address is written in, besides colons. -/
def AddressLetter (char : Char) : Prop :=
  (Text.digitValue 16 char).isSome ∨ char = '.'

instance (char : Char) : Decidable (AddressLetter char) :=
  inferInstanceAs (Decidable (_ ∨ _))

/-- What stands between the colons of an address. -/
structure AddressPiece (piece : List Char) : Prop where
  letters : ∀ char ∈ piece, AddressLetter char
  ends : piece.getLast? ≠ some '.'

theorem isSome_digitValue_of_isDigit {char : Char} (digit : char.isDigit) :
    (Text.digitValue 16 char).isSome := by
  simp only [Char.isDigit, Bool.and_eq_true, decide_eq_true_eq] at digit
  have range : '0' ≤ char ∧ char ≤ '9' := digit
  have upper : char.toNat ≤ 57 := range.2
  simp [Text.digitValue, range, show char.toNat - 48 < 16 by omega]

theorem digits_of_octetText
    {part : List Char} {value : Nat}
    (read : octetText part = some value) :
    part ≠ [] ∧ ∀ char ∈ part, char.isDigit := by
  unfold octetText at read
  split_ifs at read with refused
  refine ⟨fun empty => refused (Or.inl empty), ?_⟩
  obtain ⟨read, _⟩ := Option.filter_eq_some_iff.mp read
  exact Text.isDigit_of_readNumeral_ten read

theorem digits_of_ipv4Text
    {text : List Char} {address : Ipv4Addr}
    (read : ipv4Text text = some address) :
    ∀ part ∈ text.splitOn '.', part ≠ [] ∧ ∀ char ∈ part, char.isDigit := by
  unfold ipv4Text at read
  split at read
  · rename_i first second third fourth cut
    simp only [Option.bind_eq_bind, Option.bind_eq_some_iff] at read
    obtain ⟨_, readA, _, readB, _, readC, _, readD, _⟩ := read
    rw [cut]
    simp only [List.forall_mem_cons, List.not_mem_nil, false_implies,
      implies_true, and_true]
    exact ⟨digits_of_octetText readA, digits_of_octetText readB,
      digits_of_octetText readC, digits_of_octetText readD⟩
  · simp at read

theorem isDigit_or_dot_of_ipv4Text
    {text : List Char} {address : Ipv4Addr}
    (read : ipv4Text text = some address) :
    ∀ char ∈ text, char.isDigit ∨ char = '.' := by
  intro char member
  by_cases dot : char = '.'
  · exact Or.inr dot
  · obtain ⟨part, within, has⟩ := Text.exists_mem_splitOn member dot
    exact Or.inl ((digits_of_ipv4Text read part within).2 char has)

theorem addressPiece_of_ipv4Text
    {text : List Char} {address : Ipv4Addr}
    (read : ipv4Text text = some address) :
    AddressPiece text := by
  refine ⟨fun char member => ?_, fun last => ?_⟩
  · exact (isDigit_or_dot_of_ipv4Text read char member).imp
      isSome_digitValue_of_isDigit id
  · have front : text = text.dropLast ++ ['.'] :=
      (List.dropLast_append_getLast? '.' last).symm
    have empty : [] ∈ text.splitOn '.' := by
      rw [front, List.splitOn_append_cons_self]
      simp [List.splitOn_nil]
    exact (digits_of_ipv4Text read [] empty).1 rfl

theorem addressPiece_of_groupText
    {part : List Char} {group : UInt16}
    (read : groupText part = some group) :
    AddressPiece part := by
  unfold groupText at read
  split_ifs at read
  obtain ⟨value, read, _⟩ := Option.map_eq_some_iff.mp read
  have digits := Text.isSome_of_readNumeral read
  refine ⟨fun char member => Or.inl (digits char member), fun last => ?_⟩
  exact absurd (digits '.' (List.mem_of_getLast? last)) (by decide)

theorem addressPiece_of_groupsText
    {dotted : Bool} {parts : List (List Char)} {groups : List UInt16}
    (read : groupsText dotted parts = some groups) :
    ∀ part ∈ parts, AddressPiece part := by
  induction parts generalizing groups with
  | nil => simp
  | cons part parts inductionHypothesis =>
      cases parts with
      | nil =>
          rw [groupsText] at read
          intro other member
          obtain rfl := List.mem_singleton.mp member
          split at read
          · rename_i quad dottedRead
            split_ifs at dottedRead
            exact addressPiece_of_ipv4Text dottedRead
          · obtain ⟨group, read, _⟩ := Option.map_eq_some_iff.mp read
            exact addressPiece_of_groupText read
      | cons next parts =>
          rw [groupsText] at read
          · simp only [Option.bind_eq_bind, Option.bind_eq_some_iff] at read
            obtain ⟨group, first, groups, others, _⟩ := read
            intro other member
            rcases List.mem_cons.mp member with rfl | member
            · exact addressPiece_of_groupText first
            · exact inductionHypothesis others other member
          · simp

/-- What an address has on one side of its `::`. -/
theorem addressSide_of_colonGroups
    {dotted : Bool} {text : List Char} {groups : List UInt16}
    (read : colonGroups dotted text = some groups) :
    (∀ char ∈ text, AddressLetter char ∨ char = ':') ∧
      text.getLast? ≠ some '.' := by
  unfold colonGroups at read
  split_ifs at read with empty
  · simp [empty]
  · have pieces := addressPiece_of_groupsText read
    refine ⟨fun char member => ?_, fun last => ?_⟩
    · by_cases colon : char = ':'
      · exact Or.inr colon
      · obtain ⟨piece, within, has⟩ := Text.exists_mem_splitOn member colon
        exact Or.inl ((pieces piece within).letters char has)
    · obtain ⟨piece, within, ends⟩ :=
        Text.exists_getLast?_splitOn last (show '.' ≠ ':' by decide)
      exact (pieces piece within).ends ends

/-- An IPv6 address in lower case has only digits, dots and colons, and no dot
at its end. -/
theorem addressSide_of_ipv6Text
    {text : List Char} {address : Ipv6Addr}
    (read : ipv6Text text = some address) :
    (∀ char ∈ asciiLower text, AddressLetter char ∨ char = ':') ∧
      (asciiLower text).getLast? ≠ some '.' := by
  unfold ipv6Text at read
  split at read
  · simp only [Option.bind_eq_bind, Option.bind_eq_some_iff] at read
    obtain ⟨groups, read, _⟩ := read
    exact addressSide_of_colonGroups read
  · rename_i front back cut
    simp only [Option.bind_eq_bind, Option.bind_eq_some_iff] at read
    obtain ⟨before, readFront, after, readBack, _⟩ := read
    have frontSide := addressSide_of_colonGroups readFront
    have backSide := addressSide_of_colonGroups readBack
    rw [Text.eq_append_of_splitOnceAt cut]
    refine ⟨fun char member => ?_, fun last => ?_⟩
    · simp only [List.mem_append] at member
      rcases member with (member | member) | member
      · exact frontSide.1 char member
      · right
        simpa using member
      · exact backSide.1 char member
    · cases back with
      | nil => simp at last
      | cons char back =>
          rw [List.getLast?_append_of_ne_nil _ (by simp)] at last
          exact backSide.2 last

/-- Without a colon there is no IPv6 address. -/
theorem ipv6Text_eq_none
    {host : List Char}
    (colonless : ':' ∉ host) :
    ipv6Text host = none := by
  have bare : ':' ∉ asciiLower host := by
    rwa [Text.mem_asciiLower (by decide)]
  have whole : ∀ text : List Char, ':' ∉ text →
      Text.splitOnceAt "::".toList text = none := by
    intro text
    induction text with
    | nil => intro _; rfl
    | cons char text inductionHypothesis =>
        intro bare
        have differs : "::".toList.head? ≠ some char := by
          rintro same
          apply bare
          obtain rfl : ':' = char := by simpa using same
          exact List.mem_cons_self
        rw [Text.splitOnceAt_cons differs (by decide), inductionHypothesis
          fun member => bare (List.mem_cons_of_mem _ member), Option.map_none]
  have one := List.splitOn_eq_singleton bare
  simp only [ipv6Text, whole _ bare, colonGroups, one]
  split_ifs
  · rfl
  · simp only [groupsText, if_true]
    cases ipv4Text (asciiLower host) with
    | some quad => rfl
    | none =>
        cases groupText (asciiLower host) with
        | none => rfl
        | some group => rfl

example : ipText "127.0.0.1".toList = some (.v4 ⟨0x7f000001⟩) := by decide +kernel

example : (ipText "::ffff:10.0.0.1".toList).map isPublicIp = some false := by
  decide +kernel

end Html
end Mailcore
