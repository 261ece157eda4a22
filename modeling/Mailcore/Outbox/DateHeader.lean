import Mailcore.Outbox.Row

/-!
# The `Date:` header of a held message

`refresh_date_header` rewrites the header block of a stored message line by
line: the first `Date:` line gets the current date and loses its folded
continuations, every other line keeps its bytes and its ending.
-/

namespace Mailcore
namespace Outbox
namespace DateHeader

def cr : UInt8 := 13

def lf : UInt8 := 10

/-- The ASCII bytes of a text the program writes itself. -/
def ascii (text : String) : Bytes :=
  text.toList.map fun char => UInt8.ofNat char.toNat

/-- The bytes of a text, `String::into_bytes`. -/
def utf8 (text : String) : Bytes := text.toUTF8.toList

/-- `find_slice`: the first index of `needle`, which is not empty. -/
def findSlice (haystack needle : Bytes) : Option Nat :=
  (List.range (haystack.length + 1 - needle.length)).find? fun start =>
    (haystack.drop start).take needle.length = needle

/-- The length of the header block, its blank line included. -/
def headEnd (raw : Bytes) : Nat :=
  match findSlice raw [cr, lf, cr, lf] with
  | some start => start + 4
  | none =>
      match findSlice raw [lf, lf] with
      | some start => start + 2
      | none => raw.length

def lowerAscii (byte : UInt8) : UInt8 :=
  if 65 ≤ byte ∧ byte ≤ 90 then byte + 32 else byte

/-- `is_date_line`. -/
def isDateLine (line : Bytes) : Bool :=
  decide (5 < line.length) && (line)[4]? = some 58 &&
    (line.take 4).map lowerAscii = [100, 97, 116, 101]

/-- A folded line continues the header before it. -/
def isFolded (line : Bytes) : Bool :=
  line.head? = some 32 || line.head? = some 9

/-- The lines of a block without their line feed, and what follows the last
one. -/
def splitLines : Bytes → List Bytes × Bytes
  | [] => ([], [])
  | byte :: rest =>
      let (lines, tail) := splitLines rest
      if byte = lf then ([] :: lines, tail)
      else
        match lines with
        | [] => ([], byte :: tail)
        | line :: lines => ((byte :: line) :: lines, tail)

/-- What the loop over the header lines carries along. -/
structure Progress where
  out : Bytes
  replaced : Bool
  skippingFold : Bool

/-- One line of the header block. -/
def step (date : Bytes) (progress : Progress) (whole : Bytes) : Progress :=
  let hadCr := whole.getLast? = some cr
  let line := if hadCr then whole.dropLast else whole
  let ending := if hadCr then [cr, lf] else [lf]
  if progress.skippingFold && isFolded line then progress
  else if !progress.replaced && isDateLine line then
    { out := progress.out ++ date ++ ending
      replaced := true
      skippingFold := true }
  else
    { progress with
      out := progress.out ++ line ++ ending
      skippingFold := false }

/-- A header block without a trailing line feed: its tail. -/
def stepTail (date : Bytes) (progress : Progress) (line : Bytes) : Progress :=
  if line.isEmpty then progress
  else if progress.skippingFold && isFolded line then progress
  else if !progress.replaced && isDateLine line then
    { progress with out := progress.out ++ date, replaced := true }
  else { progress with out := progress.out ++ line }

/-- `refresh_date_header`, for the current date as `chrono` writes it. -/
def refreshDateHeader (now : String) (raw : Bytes) : Bytes :=
  let date := ascii "Date: " ++ utf8 now
  let newline := if (findSlice raw [cr, lf]).isSome then [cr, lf] else [lf]
  let head := raw.take (headEnd raw)
  let body := raw.drop (headEnd raw)
  let (lines, tail) := splitLines head
  let progress := stepTail date
    (lines.foldl (step date) ⟨[], false, false⟩) tail
  (if progress.replaced then progress.out
    else date ++ newline ++ progress.out) ++ body

end DateHeader
end Outbox
end Mailcore
