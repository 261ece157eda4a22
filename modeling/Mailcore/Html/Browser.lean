import Mailcore.Html.Urls
import Mailcore.Text.Unicode

/-!
# The host a browser connects to

The host that the URL standard of the browsers takes from the text of an
absolute `http` or `https` URL.  For any other scheme a browser opens no
connection.
-/

namespace Mailcore
namespace Html

open Text (asciiLower strip afterLast dropSuffix readNumeral fromUtf8Lossy)

inductive BrowserHost
  | domain (name : List Char)
  | address (ip : IpAddr)
  deriving DecidableEq, Repr

namespace Browser

/-! ## Hosts -/

/-- Percent-escapes read as the bytes they stand for. -/
def percentDecode : List UInt8 → List UInt8
  | percent :: high :: low :: rest =>
      match
        if percent = 0x25 then
          readNumeral 16 [Char.ofNat high.toNat, Char.ofNat low.toNat]
        else none with
      | some byte => UInt8.ofNat byte :: percentDecode rest
      | none => percent :: percentDecode (high :: low :: rest)
  | bytes => bytes

def percentDecoded (text : List Char) : List Char :=
  fromUtf8Lossy (percentDecode (text.flatMap String.utf8EncodeChar))

def isForbidden (char : Char) : Bool :=
  decide (char.toNat ≤ 0x20) || char.toNat = 0x7F ||
    "#/:<>?@[\\]^|%".toList.contains char

/-- The labels of a host name, a root dot aside. -/
def labels (host : List Char) : List (List Char) :=
  (dropSuffix '.' host).splitOn '.'

/-- A number in decimal, octal behind a `0`, or hexadecimal behind a `0x`. -/
def ipv4Number : List Char → Option Nat
  | [] => none
  | '0' :: 'x' :: digits => readNumeral 16 digits
  | '0' :: 'X' :: digits => readNumeral 16 digits
  | '0' :: digit :: digits => readNumeral 8 (digit :: digits)
  | digits => readNumeral 10 digits

def endsInNumber (host : List Char) : Bool :=
  match (labels host).getLast? with
  | some last =>
      (last ≠ [] && last.all Char.isDigit) || (ipv4Number last).isSome
  | none => false

/-- Numbers put together from a part on: all but the last are octets, and the
last fills what is left. -/
def ipv4Value : Nat → List Nat → Option Nat
  | _, [] => none
  | index, [last] => if last < 256 ^ (4 - index) then some last else none
  | index, number :: numbers =>
      if 255 < number then none
      else (ipv4Value (index + 1) numbers).map (number * 256 ^ (3 - index) + ·)

/-- An IPv4 address in one to four parts. -/
def ipv4Host (host : List Char) : Option Ipv4Addr := do
  let parts := labels host
  if 4 < parts.length then none
  else
    let numbers ← parts.mapM ipv4Number
    let value ← ipv4Value 0 numbers
    some ⟨UInt32.ofNat value⟩

section

variable (toAscii : List Char → Option (List Char))

def domainHost (text : List Char) : Option BrowserHost := do
  let ascii ← toAscii (percentDecoded text)
  if ascii = [] ∨ ascii.any isForbidden then none
  else if endsInNumber ascii then
    (ipv4Host ascii).map fun address => .address (.v4 address)
  else
    some (.domain ascii)

def parseHost : List Char → Option BrowserHost
  | '[' :: rest =>
      if rest.getLast? = some ']' then
        (ipv6Text rest.dropLast).map fun address => .address (.v6 address)
      else
        none
  | text => domainHost toAscii text

/-- The host up to the first colon outside brackets, and the port behind it. -/
def hostEnd : Bool → List Char → List Char × Option (List Char)
  | _, [] => ([], none)
  | inside, char :: rest =>
      if char = ':' ∧ inside = false then ([], some rest)
      else
        let cut := hostEnd
          (if char = '[' then true else if char = ']' then false else inside) rest
        (char :: cut.1, cut.2)

/-- A port is empty or a number of 16 bits. -/
def portOk (port : Option (List Char)) : Bool :=
  match port with
  | none => true
  | some digits => ((readNumeral 10 digits).filter fun value =>
      decide (value < 2 ^ 16)).isSome

/-- The host of an authority without its user info. -/
def authorityHost (hostPort : List Char) : Option BrowserHost :=
  let (host, port) := hostEnd false hostPort
  if host = [] ∨ portOk port = false then none
  else parseHost toAscii host

/-! ## URLs -/

def isC0OrSpace (char : Char) : Bool :=
  decide (char.toNat ≤ 0x20)

def isTabOrNewline (char : Char) : Bool :=
  char = '\t' || char = '\n' || char = '\r'

/-- What is parsed: neither controls at the ends nor tabs and newlines
anywhere. -/
def input (url : List Char) : List Char :=
  (strip isC0OrSpace url).filter fun char => !isTabOrNewline char

/-- A backslash is read as a slash. -/
def isSlash (char : Char) : Bool :=
  char = '/' || char = '\\'

def inBrowserAuthority (char : Char) : Bool :=
  !(isSlash char || char = '?' || char = '#')

/-- The host connected to for a URL. -/
def connectsTo (url : List Char) : Option BrowserHost :=
  let url := input url
  let scheme := asciiLower (url.takeWhile (· != ':'))
  if ':' ∈ url ∧ (scheme = "http".toList ∨ scheme = "https".toList) then
    let rest := (url.dropWhile (· != ':')).tail.dropWhile isSlash
    authorityHost toAscii (afterLast '@' (rest.takeWhile inBrowserAuthority))
  else
    none

end

end Browser
end Html
end Mailcore
