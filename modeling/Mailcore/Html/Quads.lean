import Mailcore.Html.Browser
import Mathlib.Tactic.Ring
import Mathlib.Tactic.NormNum

/-!
# IPv4 hosts

Where no part of a host is written with a leading zero, the gate and the
browser read the same IPv4 address from it.
-/

namespace Mailcore
namespace Html

open Text (asciiLower parseUnsigned readNumeral)
open Browser (ipv4Number ipv4Value ipv4Host labels)

/-- A part of a host that is not written as octal and hexadecimal numbers are. -/
def PlainPart (part : List Char) : Prop :=
  ¬(part.head? = some '0' ∧ 1 < part.length)

instance (part : List Char) : Decidable (PlainPart part) :=
  inferInstanceAs (Decidable (¬_))

/-- A plain part is read as a decimal. -/
theorem readNumeral_of_ipv4Number
    {part : List Char} {value : Nat}
    (plain : PlainPart part)
    (read : ipv4Number part = some value) :
    part ≠ [] ∧ readNumeral 10 part = some value := by
  unfold ipv4Number at read
  split at read
  · simp at read
  · exact absurd ⟨rfl, by simp⟩ plain
  · exact absurd ⟨rfl, by simp⟩ plain
  · exact absurd ⟨rfl, by simp⟩ plain
  · rename_i nonempty _ _ _
    exact ⟨fun empty => nonempty empty, read⟩

/-- The numbers that plain parts are read as. -/
inductive Decimals : List (List Char) → List Nat → Prop
  | nil : Decimals [] []
  | cons
      {part : List Char} {value : Nat}
      {parts : List (List Char)} {values : List Nat}
      (nonempty : part ≠ [])
      (read : readNumeral 10 part = some value)
      (rest : Decimals parts values) :
      Decimals (part :: parts) (value :: values)

theorem decimals_of_mapM
    {parts : List (List Char)} {values : List Nat}
    (plain : ∀ part ∈ parts, PlainPart part)
    (read : parts.mapM ipv4Number = some values) :
    Decimals parts values := by
  induction parts generalizing values with
  | nil =>
      obtain rfl : values = [] := by simpa using read.symm
      exact .nil
  | cons part parts inductionHypothesis =>
      simp only [List.mapM_cons, Option.bind_eq_bind, Option.bind_eq_some_iff,
        Option.pure_def, Option.some.injEq] at read
      obtain ⟨value, first, values, others, rfl⟩ := read
      obtain ⟨nonempty, first⟩ :=
        readNumeral_of_ipv4Number (plain part List.mem_cons_self) first
      exact .cons nonempty first
        (inductionHypothesis
          (fun part member => plain part (List.mem_cons_of_mem _ member)) others)

namespace Decimals

variable {parts : List (List Char)} {values : List Nat}

theorem length_eq (decimals : Decimals parts values) :
    parts.length = values.length := by
  induction decimals with
  | nil => rfl
  | cons _ _ _ inductionHypothesis => simp [inductionHypothesis]

theorem ne_nil_and_digits
    (decimals : Decimals parts values)
    {part : List Char}
    (member : part ∈ parts) :
    part ≠ [] ∧ ∀ char ∈ part, char.isDigit := by
  induction decimals with
  | nil => simp at member
  | cons nonempty read _ inductionHypothesis =>
      rcases List.mem_cons.mp member with rfl | member
      · exact ⟨nonempty, Text.isDigit_of_readNumeral_ten read⟩
      · exact inductionHypothesis member

end Decimals

/-- Parts of a value do not overlap. -/
theorem or_shiftLeft_eq_add
    {out value index : Nat}
    (aligned : 256 ^ (4 - index) ∣ out)
    (bound : value ≤ 255)
    (within : index < 3) :
    out ||| value <<< (24 - 8 * index) = out + value * 256 ^ (3 - index) := by
  obtain ⟨high, rfl⟩ := aligned
  have scale : 256 ^ (4 - index) = 2 ^ (32 - 8 * index) := by
    rw [show 256 = 2 ^ 8 from rfl, ← Nat.pow_mul]
    congr 1
    omega
  have step : 256 ^ (3 - index) = 2 ^ (24 - 8 * index) := by
    rw [show 256 = 2 ^ 8 from rfl, ← Nat.pow_mul]
    congr 1
    omega
  have small : value * 2 ^ (24 - 8 * index) < 2 ^ (32 - 8 * index) := by
    have split : 2 ^ (32 - 8 * index) = 256 * 2 ^ (24 - 8 * index) := by
      rw [show 256 = 2 ^ 8 from rfl, ← Nat.pow_add]
      congr 1
      omega
    rw [split]
    exact Nat.mul_lt_mul_of_pos_right (by omega) (by positivity)
  rw [scale, step, Nat.shiftLeft_eq, ← Nat.two_pow_add_eq_or_of_lt small]

theorem or_eq_add
    {out value index : Nat}
    (aligned : 256 ^ (4 - index) ∣ out)
    (bound : value < 256 ^ (4 - index)) :
    out ||| value = out + value := by
  obtain ⟨high, rfl⟩ := aligned
  have scale : 256 ^ (4 - index) = 2 ^ (8 * (4 - index)) := by
    rw [show 256 = 2 ^ 8 from rfl, ← Nat.pow_mul]
  rw [scale] at bound ⊢
  rw [← Nat.two_pow_add_eq_or_of_lt bound]

/-- The gate's shorthand reading of the parts is the browser's. -/
theorem looseParts_eq
    {parts : List (List Char)} {values : List Nat}
    (decimals : Decimals parts values)
    {last index out value : Nat}
    (left : index + parts.length = last + 1)
    (four : last ≤ 3)
    (aligned : 256 ^ (4 - index) ∣ out)
    (meaning : ipv4Value index values = some value) :
    looseParts last index out parts = some (out + value) := by
  induction decimals generalizing index out value with
  | nil => simp [ipv4Value] at meaning
  | @cons part number parts values nonempty read rest inductionHypothesis =>
      have whole : 256 ^ (4 - index) ≤ 2 ^ 32 := by
        calc 256 ^ (4 - index) ≤ 256 ^ 4 := Nat.pow_le_pow_right (by norm_num) (by omega)
          _ = 2 ^ 32 := by norm_num
      cases values with
      | nil =>
          obtain rfl : parts = [] := by
            rw [← List.length_eq_zero_iff, rest.length_eq]
            rfl
          have final : index = last := by simpa using left
          rw [ipv4Value] at meaning
          split_ifs at meaning with fits
          obtain rfl := Option.some.inj meaning
          have parsed := Text.parseUnsigned_ten read nonempty
            (Nat.lt_of_lt_of_le fits whole)
          simp only [looseParts, parsed, Option.bind_eq_bind, Option.bind_some,
            if_pos final, or_eq_add aligned fits]
      | cons next values =>
          have more : parts.length = values.length + 1 := by
            rw [rest.length_eq, List.length_cons]
          have before : index ≠ last := by
            rw [List.length_cons] at left
            omega
          rw [ipv4Value] at meaning
          · split_ifs at meaning with large
            obtain ⟨value, others, rfl⟩ := Option.map_eq_some_iff.mp meaning
            have parsed : parseUnsigned 10 (2 ^ 32) part = some number :=
              Text.parseUnsigned_ten read nonempty (by omega)
            have sum := or_shiftLeft_eq_add aligned (Nat.le_of_not_lt large)
              (by rw [List.length_cons] at left; omega)
            have aligned' : 256 ^ (4 - (index + 1)) ∣
                out + number * 256 ^ (3 - index) := by
              have same : 4 - (index + 1) = 3 - index := by omega
              rw [same]
              exact Nat.dvd_add ((Nat.pow_dvd_pow 256 (by omega)).trans aligned)
                (Nat.dvd_mul_left _ _)
            have run := inductionHypothesis
              (by rw [List.length_cons] at left; omega) aligned' others
            simp only [looseParts, parsed, Option.bind_eq_bind, Option.bind_some,
              if_neg before, if_neg large, sum, run]
            rw [Nat.add_assoc]
          · simp

theorem readNumeral_of_octetText
    {part : List Char} {value : Nat}
    (read : octetText part = some value) :
    readNumeral 10 part = some value ∧ value < 256 := by
  unfold octetText at read
  split_ifs at read
  simpa [Option.filter_eq_some_iff] using read

/-- So is its strict reading, where there is one. -/
theorem eq_of_ipv4Text
    {host : List Char} {values : List Nat} {value : Nat} {address : Ipv4Addr}
    (decimals : Decimals (host.splitOn '.') values)
    (meaning : ipv4Value 0 values = some value)
    (read : ipv4Text host = some address) :
    address = ⟨UInt32.ofNat value⟩ := by
  unfold ipv4Text at read
  split at read
  · rename_i first second third fourth cut
    simp only [Option.bind_eq_bind, Option.bind_eq_some_iff,
      Option.some.injEq] at read
    obtain ⟨a, readA, b, readB, c, readC, d, readD, rfl⟩ := read
    obtain ⟨readA, smallA⟩ := readNumeral_of_octetText readA
    obtain ⟨readB, smallB⟩ := readNumeral_of_octetText readB
    obtain ⟨readC, smallC⟩ := readNumeral_of_octetText readC
    obtain ⟨readD, smallD⟩ := readNumeral_of_octetText readD
    have same : values = [a, b, c, d] := by
      rw [cut] at decimals
      cases decimals with
      | cons _ first rest => cases rest with
        | cons _ second rest => cases rest with
          | cons _ third rest => cases rest with
            | cons _ fourth rest =>
                cases rest
                simp_all
    have four : ipv4Value 0 [a, b, c, d] =
        some (a * 256 ^ 3 + (b * 256 ^ 2 + (c * 256 ^ 1 + d))) := by
      simp only [ipv4Value, Nat.not_lt.mpr (Nat.le_of_lt_succ smallA),
        Nat.not_lt.mpr (Nat.le_of_lt_succ smallB),
        Nat.not_lt.mpr (Nat.le_of_lt_succ smallC), if_false,
        show d < 256 ^ (4 - 3) from smallD, if_true, Option.map_some]
    have packed : a * 256 ^ 3 + (b * 256 ^ 2 + (c * 256 ^ 1 + d)) =
        ((a * 256 + b) * 256 + c) * 256 + d := by ring
    rw [same, four, Option.some.injEq, packed] at meaning
    rw [meaning]
  · simp at read

theorem eq_or_append_of_dropSuffix (host : List Char) :
    host = Text.dropSuffix '.' host ∨ host = Text.dropSuffix '.' host ++ ['.'] := by
  unfold Text.dropSuffix
  split_ifs with dotted
  · exact Or.inr (List.dropLast_append_getLast? '.' dotted).symm
  · exact Or.inl rfl

/-- The parts a host with a plain reading is made of. -/
theorem decimals_of_ipv4Host
    {host : List Char} {address : Ipv4Addr}
    (plain : ∀ part ∈ labels host, PlainPart part)
    (read : ipv4Host host = some address) :
    ∃ values value, Decimals (labels host) values ∧ (labels host).length ≤ 4 ∧
      ipv4Value 0 values = some value ∧ address = ⟨UInt32.ofNat value⟩ := by
  unfold ipv4Host at read
  simp only [Option.bind_eq_bind] at read
  split_ifs at read with many
  simp only [Option.bind_eq_some_iff, Option.some.injEq] at read
  obtain ⟨values, numbers, value, meaning, rfl⟩ := read
  exact ⟨values, value, decimals_of_mapM plain numbers, Nat.le_of_not_lt many,
    meaning, rfl⟩

theorem Decimals.letters
    {host : List Char} {values : List Nat}
    (decimals : Decimals (host.splitOn '.') values) :
    ∀ char ∈ host, char.isDigit ∨ char = '.' := by
  intro char member
  by_cases dot : char = '.'
  · exact Or.inr dot
  · obtain ⟨part, within, has⟩ := Text.exists_mem_splitOn member dot
    exact Or.inl ((decimals.ne_nil_and_digits within).2 char has)

/-- A host of plain parts has only digits and dots. -/
theorem letters_of_ipv4Host
    {host : List Char} {address : Ipv4Addr}
    (plain : ∀ part ∈ labels host, PlainPart part)
    (read : ipv4Host host = some address) :
    ∀ char ∈ host, char.isDigit ∨ char = '.' := by
  obtain ⟨values, _, decimals, _⟩ := decimals_of_ipv4Host plain read
  have letters := Decimals.letters decimals
  intro char member
  rcases eq_or_append_of_dropSuffix host with same | same
  · exact letters char (same ▸ member)
  · rw [same] at member
    rcases List.mem_append.mp member with member | dot
    · exact letters char member
    · exact Or.inr (List.mem_singleton.mp dot)

/-- The gate refuses a host whose plain parts a browser reads as a refused
IPv4 address. -/
theorem isPublicIpv4_of_isPublicHost
    {host : List Char} {address : Ipv4Addr}
    (plain : ∀ part ∈ labels host, PlainPart part)
    (read : ipv4Host host = some address)
    (accepted : isPublicHost host = true) :
    isPublicIpv4 address = true := by
  obtain ⟨values, value, decimals, many, meaning, rfl⟩ :=
    decimals_of_ipv4Host plain read
  unfold isPublicHost at accepted
  simp only at accepted
  split_ifs at accepted with refused
  change Decimals ((Text.dropSuffix '.' host).splitOn '.') values at decimals
  change ((Text.dropSuffix '.' host).splitOn '.').length ≤ 4 at many
  generalize Text.dropSuffix '.' host = bare at *
  have letters := decimals.letters
  have parsed : looseIpv4 bare = some ⟨UInt32.ofNat value⟩ := by
    have some' : bare ≠ [] := fun empty => refused (Or.inl empty)
    have all : (bare.all fun char => char.isDigit || char = '.') = true := by
      simpa using letters
    have filled : [] ∉ bare.splitOn '.' := fun member =>
      (decimals.ne_nil_and_digits member).1 rfl
    have few : ¬4 < (bare.splitOn '.').length := Nat.not_lt.mpr many
    have count : 0 < (bare.splitOn '.').length :=
      List.length_pos_iff.mpr (List.splitOn_ne_nil _ _)
    have run := looseParts_eq decimals
      (show 0 + (bare.splitOn '.').length = (bare.splitOn '.').length - 1 + 1 by omega)
      (by omega) (Nat.dvd_zero _) meaning
    simp [looseIpv4, some', all, filled, few, run]
  have notSix : ipv6Text bare = none := by
    refine ipv6Text_eq_none fun member => ?_
    rcases letters ':' member with digit | dot
    · exact absurd digit (by decide)
    · exact absurd dot (by decide)
  unfold ipText at accepted
  rw [notSix] at accepted
  cases strict : ipv4Text bare with
  | some quad =>
      rw [← eq_of_ipv4Text decimals meaning strict]
      rw [strict] at accepted
      exact accepted
  | none => simpa [strict, parsed] using accepted

end Html
end Mailcore
