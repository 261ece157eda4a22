import Mailcore.Html.Quads

/-!
# The gate and the browser

The remote-image gate judges the host of a URL after decoding its entities once
more, and with a splitter of its own.  Where the authority of the URL is
plainly written, that host is the one a browser connects to.
-/

namespace Mailcore
namespace Html

open Text (asciiLower strip afterLast beforeLast splitOnceAt parseUnsigned readNumeral
  Stops)
open Browser

/-! ## Host and port -/

/-- A host, its port, and the colon between them. -/
theorem eq_of_hostEnd
    {inside : Bool} {text host : List Char} {port : Option (List Char)}
    (cut : hostEnd inside text = (host, port)) :
    (port = none ∧ text = host) ∨
      ∃ digits, port = some digits ∧ text = host ++ ':' :: digits := by
  induction text generalizing inside host with
  | nil =>
      obtain ⟨rfl, rfl⟩ := Prod.mk.inj cut
      exact Or.inl ⟨rfl, rfl⟩
  | cons char text inductionHypothesis =>
      rw [hostEnd] at cut
      split_ifs at cut with ends
      · obtain ⟨rfl, rfl⟩ := Prod.mk.inj cut
        exact Or.inr ⟨text, rfl, by rw [ends.1, List.nil_append]⟩
      all_goals
        obtain ⟨rfl, rfl⟩ := Prod.mk.inj cut
        rcases inductionHypothesis (Prod.mk.eta (p := hostEnd _ text)).symm with
          ⟨missing, same⟩ | ⟨digits, found, same⟩
        · exact Or.inl ⟨missing, by rw [← same]⟩
        · exact Or.inr ⟨digits, found, by rw [List.cons_append, ← same]⟩

/-- A port is written in digits. -/
theorem digits_of_portOk
    {digits : List Char}
    (ok : portOk (some digits) = true) :
    ∃ value, readNumeral 10 digits = some value ∧ value < 2 ^ 16 := by
  obtain ⟨value, read⟩ := Option.isSome_iff_exists.mp ok
  obtain ⟨read, bound⟩ := Option.filter_eq_some_iff.mp read
  exact ⟨value, read, by simpa using bound⟩

/-- A host of ASCII letters without escapes is decoded to itself. -/
theorem percentDecoded_eq
    {text : List Char}
    (literal : ∀ char ∈ text, char.toNat < 0x80 ∧ char ≠ '%') :
    percentDecoded text = text := by
  have encoded : text.flatMap String.utf8EncodeChar =
      text.map fun char => UInt8.ofNat char.toNat := by
    rw [List.map_eq_flatMap]
    refine List.flatMap_congr fun char member => ?_
    have ascii : char.val.toNat ≤ 0x7f :=
      Nat.le_of_lt_succ (literal char member).1
    simp only [String.utf8EncodeChar, if_pos ascii]
    rfl
  have bytes : ∀ byte ∈ text.map fun char => UInt8.ofNat char.toNat,
      byte.toNat < 0x80 ∧ byte ≠ 0x25 := by
    intro byte member
    obtain ⟨char, within, rfl⟩ := List.mem_map.mp member
    obtain ⟨ascii, differs⟩ := literal char within
    have value : (UInt8.ofNat char.toNat).toNat = char.toNat := by
      rw [UInt8.toNat_ofNat']
      omega
    refine ⟨by rwa [value], fun percent => differs ?_⟩
    rw [percent] at value
    exact Char.toNat_inj.mp value.symm
  have undecoded : ∀ bytes : List UInt8, (∀ byte ∈ bytes, byte ≠ 0x25) →
      percentDecode bytes = bytes := by
    intro bytes
    induction bytes with
    | nil => intro _; rfl
    | cons first rest inductionHypothesis =>
        intro plain
        have tail := inductionHypothesis fun byte member =>
          plain byte (List.mem_cons_of_mem _ member)
        match rest with
        | [] => rfl
        | [_] => rfl
        | second :: third :: rest =>
            rw [percentDecode, if_neg (plain first List.mem_cons_self)]
            simp only [tail]
  rw [percentDecoded, encoded, undecoded _ fun byte member => (bytes byte member).2,
    Text.fromUtf8Lossy_ascii fun byte member => (bytes byte member).1, List.map_map]
  conv_rhs => rw [← List.map_id text]
  refine List.map_congr_left fun char member => ?_
  have ascii := (literal char member).1
  have value : (UInt8.ofNat char.toNat).toNat = char.toNat := by
    rw [UInt8.toNat_ofNat']
    omega
  simp [value]

/-- What the standard requires of names: those of ASCII letters are lower-cased
or refused. -/
def AsciiLowered (toAscii : List Char → Option (List Char)) : Prop :=
  ∀ text : List Char, (∀ char ∈ text, char.toNat < 0x80) →
    toAscii text = none ∨ toAscii text = some (asciiLower text)

section

variable {toAscii : List Char → Option (List Char)}

theorem not_v6_of_domainHost
    {text : List Char} {address : Ipv6Addr} :
    domainHost toAscii text ≠ some (.address (.v6 address)) := by
  intro read
  unfold domainHost at read
  simp only [Option.bind_eq_bind, Option.bind_eq_some_iff] at read
  obtain ⟨ascii, _, read⟩ := read
  split_ifs at read
  · obtain ⟨_, _, other⟩ := Option.map_eq_some_iff.mp read
    cases other
  · cases read

/-- What an authority looks like from which a browser takes an address. -/
theorem eq_of_authorityHost
    {hostPort : List Char} {host : BrowserHost}
    (read : authorityHost toAscii hostPort = some host) :
    ∃ name tail, hostPort = name ++ tail ∧ name ≠ [] ∧
      parseHost toAscii name = some host ∧
      (tail = [] ∨ ∃ digits value, tail = ':' :: digits ∧
        readNumeral 10 digits = some value ∧ value < 2 ^ 16) := by
  unfold authorityHost at read
  cases cut : hostEnd false hostPort with
  | mk name port =>
      simp only [cut] at read
      split_ifs at read with refused
      rw [not_or] at refused
      rcases eq_of_hostEnd cut with ⟨rfl, rfl⟩ | ⟨digits, rfl, rfl⟩
      · exact ⟨hostPort, [], by simp, refused.1, read, Or.inl rfl⟩
      · obtain ⟨value, numeral, bound⟩ := digits_of_portOk (by simpa using refused.2)
        exact ⟨name, ':' :: digits, rfl, refused.1, read,
          Or.inr ⟨digits, value, rfl, numeral, bound⟩⟩

/-- An IPv6 address stands in brackets. -/
theorem bracketed_of_parseHost
    {name : List Char} {address : Ipv6Addr}
    (read : parseHost toAscii name = some (.address (.v6 address))) :
    ∃ inner, name = '[' :: (inner ++ [']']) ∧ ipv6Text inner = some address := by
  unfold parseHost at read
  split at read
  · rename_i rest
    split_ifs at read with closed
    obtain ⟨found, parsed, same⟩ := Option.map_eq_some_iff.mp read
    obtain rfl : found = address := by simpa using same
    exact ⟨rest.dropLast, by rw [List.dropLast_append_getLast? _ closed], parsed⟩
  · exact absurd read not_v6_of_domainHost

/-- An IPv4 address is read from a lower-cased name without delimiters. -/
theorem ipv4Host_of_parseHost
    (lowered : AsciiLowered toAscii)
    {name : List Char} {address : Ipv4Addr}
    (literal : ∀ char ∈ name, char.toNat < 0x80 ∧ char ≠ '%')
    (read : parseHost toAscii name = some (.address (.v4 address))) :
    ipv4Host (asciiLower name) = some address ∧ ':' ∉ name ∧ '[' ∉ name := by
  have named : domainHost toAscii name = some (.address (.v4 address)) := by
    unfold parseHost at read
    split at read
    · split_ifs at read
      obtain ⟨_, _, other⟩ := Option.map_eq_some_iff.mp read
      cases other
    · exact read
  unfold domainHost at named
  simp only [Option.bind_eq_bind, Option.bind_eq_some_iff] at named
  obtain ⟨ascii, converted, named⟩ := named
  rw [percentDecoded_eq literal] at converted
  have same : ascii = asciiLower name := by
    rcases lowered name fun char member => (literal char member).1 with refused | lower
    · rw [refused] at converted
      cases converted
    · rw [lower] at converted
      exact (Option.some.inj converted).symm
  subst same
  split_ifs at named with refused _
  · obtain ⟨found, numbers, other⟩ := Option.map_eq_some_iff.mp named
    obtain rfl : found = address := by simpa using other
    rw [not_or, List.any_eq_true] at refused
    refine ⟨numbers, fun colon => ?_, fun bracket => ?_⟩
    · exact refused.2 ⟨':', (Text.mem_asciiLower (by decide)).mpr colon, by decide⟩
    · exact refused.2 ⟨'[', (Text.mem_asciiLower (by decide)).mpr bracket, by decide⟩
  · cases named

theorem hostOf_bracketed
    {inner tail : List Char}
    (letters : ∀ char ∈ inner, char ≠ ']' ∧ char ≠ '%') :
    hostOf ('[' :: (inner ++ ']' :: tail)) = inner := by
  have closed : (inner ++ ']' :: tail).takeWhile (· != ']') = inner := by
    refine Text.takeWhile_append_of_stops (fun char member => ?_) (by simp [Stops])
    simpa using (letters char member).1
  have unzoned : inner.takeWhile (· != '%') = inner := by
    rw [List.takeWhile_eq_self_iff]
    intro char member
    simpa using (letters char member).2
  simp only [hostOf, closed, unzoned]

theorem hostOf_named
    {name tail : List Char}
    (nonempty : name ≠ [])
    (colon : ':' ∉ name)
    (bracket : '[' ∉ name)
    (port : tail = [] ∨ ∃ digits value, tail = ':' :: digits ∧ digits ≠ [] ∧
      readNumeral 10 digits = some value ∧ value < 2 ^ 16) :
    hostOf (name ++ tail) = name := by
  obtain ⟨first, rest, rfl⟩ := List.exists_cons_of_ne_nil nonempty
  have differs : first ≠ '[' := by
    rintro rfl
    exact bracket List.mem_cons_self
  have unbracketed : ∀ hostPort : List Char, hostPort.head? = some first →
      hostOf hostPort =
        if 1 < hostPort.count ':' then hostPort
        else if ':' ∈ hostPort ∧
            (parseUnsigned 10 (2 ^ 16) (afterLast ':' hostPort)).isSome ∧
            beforeLast ':' hostPort ≠ [] then
          beforeLast ':' hostPort
        else hostPort := by
    intro hostPort head
    unfold hostOf
    split
    · exact absurd (by simpa using head.symm) differs
    · rfl
  rw [unbracketed _ (by simp)]
  have none' : (first :: rest).count ':' = 0 := List.count_eq_zero.mpr colon
  rcases port with rfl | ⟨digits, value, rfl, some', numeral, bound⟩
  · rw [List.append_nil, none', if_neg (by omega), if_neg fun found => colon found.1]
  · have bare : ':' ∉ digits := by
      intro member
      exact absurd (Text.isDigit_of_readNumeral_ten numeral ':' member) (by decide)
    have one : (first :: rest ++ ':' :: digits).count ':' = 1 := by
      rw [List.count_append, none', List.count_cons_self,
        List.count_eq_zero.mpr bare]
    have parsed := Text.parseUnsigned_ten numeral some' bound
    rw [one, if_neg (by omega), Text.afterLast_join bare, Text.beforeLast_join bare,
      parsed, if_pos ⟨by simp, rfl, nonempty⟩]

/-- The gate refuses the literal of a refused IPv6 address. -/
theorem isPublicIpv6_of_isPublicHost
    {inner : List Char} {address : Ipv6Addr}
    (six : ipv6Text inner = some address)
    (ends : (asciiLower inner).getLast? ≠ some '.')
    (accepted : isPublicHost (asciiLower inner) = true) :
    isPublicIpv6 address = true := by
  have colon : ':' ∈ asciiLower inner := by
    rw [Text.mem_asciiLower (by decide)]
    by_contra missing
    rw [ipv6Text_eq_none missing] at six
    cases six
  have undotted : Text.dropSuffix '.' (asciiLower inner) = asciiLower inner :=
    if_neg ends
  have notFour : ipv4Text (asciiLower inner) = none := by
    rw [Option.eq_none_iff_forall_ne_some]
    intro quad four
    exact absurd (isDigit_or_dot_of_ipv4Text four ':' colon) (by decide)
  have again : ipv6Text (asciiLower inner) = some address := by
    rw [← six, ipv6Text, ipv6Text, Text.asciiLower_asciiLower]
  unfold isPublicHost at accepted
  simp only [undotted, ipText, notFour, again, Option.map_none, Option.none_or,
    Option.map_some] at accepted
  split_ifs at accepted
  exact accepted

/-- What the gate judges of an authority from which a browser takes an
address. -/
theorem isPublicIp_of_authorityHost
    (lowered : AsciiLowered toAscii)
    {hostPort : List Char} {ip : IpAddr}
    (literal : ∀ char ∈ hostPort, char.toNat < 0x80 ∧ char ≠ '%')
    (portless : hostPort.getLast? ≠ some ':')
    (plain : ∀ part ∈ labels (asciiLower (hostPort.takeWhile (· != ':'))),
      PlainPart part)
    (read : authorityHost toAscii hostPort = some (.address ip)) :
    '&' ∉ hostPort ∧
      (isPublicHost (hostOf (asciiLower hostPort)) = true → isPublicIp ip = true) := by
  obtain ⟨name, tail, rfl, nonempty, parsed, port⟩ := eq_of_authorityHost read
  have portDigits : ∀ char ∈ tail, char.isDigit ∨ char = ':' := by
    rcases port with rfl | ⟨digits, value, rfl, numeral, _⟩
    · simp
    · intro char member
      rcases List.mem_cons.mp member with rfl | member
      · exact Or.inr rfl
      · exact Or.inl (Text.isDigit_of_readNumeral_ten numeral char member)
  have tailPlain : '&' ∉ tail := fun member =>
    absurd (portDigits '&' member) (by decide)
  have tailLower : asciiLower tail = tail := by
    refine Text.asciiLower_eq_self fun char member => ?_
    rcases portDigits char member with digit | rfl
    · simp only [Char.isDigit, Bool.and_eq_true, decide_eq_true_eq] at digit
      have upper : char.toNat ≤ 57 := digit.2
      omega
    · decide
  cases ip with
  | v6 address =>
      obtain ⟨inner, rfl, six⟩ := bracketed_of_parseHost parsed
      obtain ⟨letters, ends⟩ := addressSide_of_ipv6Text six
      have missing : ∀ other : Char, ¬(AddressLetter other ∨ other = ':') →
          other ∉ asciiLower inner :=
        fun other refused member => refused (letters other member)
      have lower : asciiLower ('[' :: (inner ++ [']']) ++ tail) =
          '[' :: (asciiLower inner ++ ']' :: tail) := by
        rw [Text.asciiLower_append, tailLower]
        simp [asciiLower]
      have judged : hostOf ('[' :: (asciiLower inner ++ ']' :: tail)) =
          asciiLower inner := by
        refine hostOf_bracketed fun char member => ⟨?_, ?_⟩
        · rintro rfl
          exact missing ']' (by decide) member
        · rintro rfl
          exact missing '%' (by decide) member
      refine ⟨fun member => ?_, fun accepted => ?_⟩
      · have within : '&' ∈ asciiLower inner := by
          rw [Text.mem_asciiLower (by decide)]
          simpa [tailPlain] using member
        exact missing '&' (by decide) within
      · rw [lower, judged] at accepted
        exact isPublicIpv6_of_isPublicHost six ends accepted
  | v4 address =>
      obtain ⟨numbers, colon, bracket⟩ := ipv4Host_of_parseHost lowered
        (fun char member => literal char (List.mem_append_left _ member)) parsed
      have before : (name ++ tail).takeWhile (· != ':') = name := by
        refine Text.takeWhile_append_of_stops (fun char member => ?_) ?_
        · rw [bne_iff_ne]
          rintro rfl
          exact colon member
        · rcases port with rfl | ⟨digits, value, rfl, _⟩
          · exact Text.stops_nil _
          · simp [Stops]
      rw [before] at plain
      have letters := letters_of_ipv4Host plain numbers
      have port' : tail = [] ∨ ∃ digits value, tail = ':' :: digits ∧ digits ≠ [] ∧
          readNumeral 10 digits = some value ∧ value < 2 ^ 16 := by
        refine port.imp_right ?_
        rintro ⟨digits, value, rfl, numeral, bound⟩
        refine ⟨digits, value, rfl, ?_, numeral, bound⟩
        rintro rfl
        exact portless (by simp)
      have judged : hostOf (asciiLower (name ++ tail)) = asciiLower name := by
        rw [Text.asciiLower_append, tailLower]
        refine hostOf_named (by simpa using nonempty) ?_ ?_ port'
        · rwa [Text.mem_asciiLower (by decide)]
        · rwa [Text.mem_asciiLower (by decide)]
      refine ⟨fun member => ?_, fun accepted => ?_⟩
      · have within : '&' ∈ asciiLower name := by
          rw [Text.mem_asciiLower (by decide)]
          simpa [tailPlain] using member
        exact absurd (letters '&' within) (by decide)
      · rw [judged] at accepted
        exact isPublicIpv4_of_isPublicHost plain numbers accepted

end

end Html
end Mailcore
