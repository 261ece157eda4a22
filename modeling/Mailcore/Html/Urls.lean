import Mailcore.Html.Address
import Mailcore.Html.Entities
import Mailcore.Outbox.Row

/-!
# URL gates

Which `href` and `src` values are allowed to survive sanitizing.
-/

namespace Mailcore
namespace Html

open Text (asciiLower strip afterLast beforeLast dropSuffix splitOnceAt parseUnsigned)

/-- `str::trim`. -/
def trim (text : List Char) : List Char :=
  strip Outbox.isWhitespace text

theorem trim_subset (text : List Char) : trim text ⊆ text := by
  intro char member
  exact (List.dropWhile_sublist _).subset
    ((List.rdropWhile_prefix _ _).subset member)

theorem isWhitespace_letter {char : Char} (first : 65 ≤ char.toNat) (last : char.toNat ≤ 122) :
    Outbox.isWhitespace char = false := by
  simp only [Outbox.isWhitespace, Bool.or_eq_false_iff, Bool.and_eq_false_iff,
    decide_eq_false_iff_not]
  omega

def startsWith (text : List Char) (front : String) : Bool :=
  front.toList.isPrefixOf text

/-- `str::contains`. -/
def containsText (text : List Char) (part : String) : Bool :=
  decide (part.toList <:+: text)

def schemeOf (url : List Char) : List Char :=
  let t := trim url
  if ':' ∈ t then t.takeWhile (· != ':') else []

def isHttpUrl (url : List Char) : Bool :=
  let s := asciiLower (schemeOf url)
  decide (s = "http".toList) || decide (s = "https".toList)

/-- Where the authority of a URL ends. -/
def inAuthority (char : Char) : Bool :=
  !(['/', '?', '#'].contains char)

/-- The host in front of a port, an IPv6 literal without its brackets. -/
def hostOf (hostPort : List Char) : List Char :=
  match hostPort with
  | '[' :: bracketed =>
      (bracketed.takeWhile (· != ']')).takeWhile (· != '%')
  | _ =>
      -- A bare IPv6 literal carries no port and is left whole.
      if 1 < hostPort.count ':' then hostPort
      else if ':' ∈ hostPort ∧
          (parseUnsigned 10 (2 ^ 16) (afterLast ':' hostPort)).isSome ∧
          beforeLast ':' hostPort ≠ [] then
        beforeLast ':' hostPort
      else
        hostPort

/-- Authority host of an absolute URL, without user info. -/
def httpHost (url : List Char) : Option (List Char) := do
  let (_, rest) ← splitOnceAt "://".toList url
  let authority := rest.takeWhile inAuthority
  some (hostOf (afterLast '@' authority))

def urldecodeTrim (text : List Char) : List Char :=
  trim (decodeEntities text)

/-- The verdict on the host of a remote image. -/
def isPublicHost (host : List Char) : Bool :=
  let host := dropSuffix '.' host
  if host = [] ∨ host = "localhost".toList ∨ ".local".toList.isSuffixOf host ∨
      containsText host "localhost" then
    false
  else
    match ipText host with
    | some ip => isPublicIp ip
    | none =>
        match looseIpv4 host with
        | some v4 => isPublicIpv4 v4
        | none => true

/-- Sender-controlled fetch gate. -/
def isPublicRemote (src : List Char) : Bool :=
  let t := urldecodeTrim src
  let low := asciiLower t
  if startsWith low "cid:" || startsWith low "data:image/" then false
  else if !(startsWith low "http://" || startsWith low "https://") then false
  else
    match httpHost low with
    | none => false
    | some host => isPublicHost host

def safeHref (href : List Char) : Option (List Char) :=
  let d := urldecodeTrim href
  if d = [] ∨ d.head? = some '#' then none
  else
    let low := asciiLower d
    if startsWith low "http://" || startsWith low "https://" ||
        startsWith low "mailto:" then
      some d
    else
      none

/-- The inline images that may be shown, by how their URLs begin. -/
def isRasterData (low : List Char) : Bool :=
  startsWith low "data:image/png" || startsWith low "data:image/jpeg" ||
    startsWith low "data:image/jpg" || startsWith low "data:image/gif" ||
    startsWith low "data:image/webp"

def safeImgSrc (src : List Char) (allowRemote : Bool) : Option (List Char) :=
  let d := urldecodeTrim src
  if d = [] then none
  else
    let low := asciiLower d
    if startsWith low "cid:" then some d
    else if isRasterData low then
      if byteLen d < 400000 then some d else none
    else if isHttpUrl d then
      if allowRemote && isPublicRemote d then some d else none
    else
      none

end Html
end Mailcore
