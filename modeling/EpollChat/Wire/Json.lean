import EpollChat.Lib.Seek
import EpollChat.Text

/-!
# The two JSON extractors

The server has no JSON parser. It has `extractJsonValue` (and its copy
`extractJsonValueLite`), which takes what stands behind the first colon after the first
occurrence of the quoted key, and `extractJsonStringFast`, which insists on
`"key" : "value"` and gives up on the *first* occurrence of the quoted key that is not
followed by a colon. Neither knows where a string value begins or ends, so a value that
equals a key name is taken for the key: both are embedded with that behaviour.
-/

namespace EpollChat

open Lib

/-! ## 1. `extractJsonValue` -/

/-- The bytes `extractJsonValue` stops at. -/
def endsValue (b : UInt8) : Bool := b == quote || b == comma || b == closeBrace

/-- From the colon on: skip blanks and quotes, take up to a quote, comma or brace. -/
def valueAfterColon (r : Bytes) : Bytes :=
  (r.dropWhile fun b => b == space || b == quote).takeWhile fun b => !endsValue b

/-- `EpollChatServer::extractJsonValue`; the empty string stands for "not found". -/
def extractJsonValue (json key : Bytes) : Bytes :=
  match seek (quoted key) json with
  | none => []
  | some r =>
      match seek [colon] r with
      | none => []
      | some r' => valueAfterColon r'.tail

/-- `extractJsonValueLite`, the same text in the anonymous namespace. -/
def extractJsonValueLite (json key : Bytes) : Bytes := extractJsonValue json key

/-! ## 2. `extractJsonStringFast` -/

/-- The outer `while (i + klen + 2 <= n)`: the suffix behind the first quoted key. -/
def findQuotedKey (key : Bytes) : Bytes → Option Bytes
  | [] => none
  | c :: cs =>
      if cs.length + 1 < key.length + 2 then none
      else if c ≠ quote then findQuotedKey key cs
      else if key ++ [quote] <+: cs then some (cs.drop (key.length + 1))
      else findQuotedKey key cs

/-- The inner scan for the closing quote. `prev` is `json[p - 1]`, `none` at `start`. -/
def scanString : Option UInt8 → Bytes → Option Bytes
  | _, [] => none
  | prev, c :: cs =>
      if c = quote ∧ prev ≠ some backslash then some []
      else (scanString (some c) cs).map (c :: ·)

/-- What follows the quoted key: blanks, a colon, blanks, a quote, the value. -/
def stringAfterKey (r : Bytes) : Option Bytes :=
  match r.dropWhile isBlank with
  | [] => none
  | c :: cs =>
      if c ≠ colon then none
      else match cs.dropWhile isBlank with
        | [] => none
        | c' :: cs' => if c' ≠ quote then none else scanString none cs'

/-- `extractJsonStringFast`: `none` is the source's `false`. -/
def extractJsonStringFast (json key : Bytes) : Option Bytes :=
  if key.length = 0 ∨ json.length < key.length + 2 then none
  else match findQuotedKey key json with
    | none => none
    | some r => stringAfterKey r

/-- `parseChatFieldsFast`: all three or nothing. -/
def parseChatFieldsFast (json : Bytes) : Option (Bytes × Bytes × Bytes) :=
  match extractJsonStringFast json (ascii "sender") with
  | none => none
  | some sender =>
      match extractJsonStringFast json (ascii "target") with
      | none => none
      | some target =>
          match extractJsonStringFast json (ascii "message") with
          | none => none
          | some message => some (sender, target, message)

/-! ## 3. Numbers -/

/-- `parseUint64Safe`: no overflow check, so the value is modulo `2 ^ 64`. -/
def parseUint64Safe (s : Bytes) : Nat :=
  if s.all isDigit then s.foldl (fun v ch => (v * 10 + (ch.toNat - 48)) % 2 ^ 64) 0 else 0

/-- `std::stoull` of a string of digits: out of range throws. -/
def stoull (s : Bytes) : Option Nat :=
  let v := s.foldl (fun v ch => v * 10 + (ch.toNat - 48)) 0
  if v < 2 ^ 64 then some v else none

/-- `std::isspace` in the C locale. -/
def isSpace (b : UInt8) : Bool := b == space || (9 ≤ b && b ≤ 13)

/-- `std::stoull` of any string: blanks, a sign, then digits up to the first other character.
    No digit throws, out of range throws, and a minus sign negates modulo `2 ^ 64`. -/
def stoullText (s : Bytes) : Option Nat :=
  let r := s.dropWhile isSpace
  let negative := r.head? == some 45
  let digits := (if negative || r.head? == some 43 then r.tail else r).takeWhile isDigit
  if digits = [] then none
  else
    match stoull digits with
    | none => none
    | some v => some (if negative then (2 ^ 64 - v) % 2 ^ 64 else v)

/-- The loop of `parseJsonUint64ArrayFast` from position `r` on, with `out` read so far.
    A round either stops or moves forward, so `r.length` rounds are enough. -/
def parseUint64s (maxCount : Nat) : Nat → Bytes → List Nat → List Nat
  | 0, _, out => out
  | n + 1, r, out =>
      if r = [] ∨ maxCount ≤ out.length then out
      else
        let r₁ := r.dropWhile fun b => isBlank b || b == comma
        match r₁ with
        | [] => out
        | c :: _ =>
            if c = closeBracket then out
            else
              let digits := r₁.takeWhile isDigit
              let r₂ := r₁.dropWhile isDigit
              let out' := if digits = [] then out
                else match stoull digits with
                  | some v => out ++ [v]
                  | none => out
              match r₂.dropWhile fun b => !(b == comma || b == closeBracket) with
              | [] => out'
              | c' :: r₃ => if c' = closeBracket then out' else parseUint64s maxCount n (c' :: r₃) out'

/-- `parseJsonUint64ArrayFast`. -/
def parseJsonUint64ArrayFast (json key : Bytes) (maxCount : Nat) : List Nat :=
  if key = [] then []
  else match seek (quoted key) json with
    | none => []
    | some r =>
        match seek [openBracket] (r.drop (quoted key).length) with
        | none => []
        | some r' => parseUint64s maxCount (r'.tail.length + 1) r'.tail []

end EpollChat
