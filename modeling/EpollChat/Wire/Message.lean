import EpollChat.Wire.Varint

/-!
# The wire format

What a protobuf body is, apart from the server's reader and writer of it: the texts of its
fields one behind the other, a field being a number and a payload. Any client may have written
it, so a varint need not be the shortest one for its value, fields come in any order, come
again, and may be unknown.

The server reads varints and length-delimited payloads. Fixed-width numbers and the marks of
groups are in the format too; `other` is one of these, with its bytes.
-/

namespace EpollChat
namespace Pb

/-- Groups of seven bits, the lowest first, all but the last with the high bit set. -/
inductive IsVarint : Bytes → Nat → Prop where
  | last {b : UInt8} (h : b.toNat < 128) : IsVarint [b] b.toNat
  | more {b : UInt8} {e : Bytes} {v : Nat} (h : 128 ≤ b.toNat) (he : IsVarint e v) :
      IsVarint (b :: e) (b.toNat - 128 + 128 * v)

/-- A varint of at most ten bytes whose value is a `uint64_t`. -/
structure IsUint64 (e : Bytes) (v : Nat) : Prop where
  varint : IsVarint e v
  short : e.length ≤ 10
  fits : v < wordSize

inductive Payload where
  | varint (v : Nat)
  | string (v : Bytes)
  | other (wt : Nat) (raw : Bytes)
deriving DecidableEq, Repr

structure Field where
  number : Nat
  payload : Payload
deriving DecidableEq, Repr

/-- Wire type 1 has eight bytes, 5 has four, and the marks 3 and 4 of a group have none. -/
def otherLength (wt : Nat) : Option Nat :=
  if wt = 1 then some 8 else if wt = 5 then some 4 else if wt = 3 ∨ wt = 4 then some 0 else none

/-- The text of one field. -/
inductive FieldText : Field → Bytes → Prop where
  | varint {n v : Nat} {key e : Bytes} (hn : n < 2 ^ 29) (hkey : IsUint64 key (n * 8 + 0))
      (he : IsUint64 e v) : FieldText ⟨n, .varint v⟩ (key ++ e)
  | string {n : Nat} {v key e : Bytes} (hn : n < 2 ^ 29) (hkey : IsUint64 key (n * 8 + 2))
      (he : IsUint64 e v.length) : FieldText ⟨n, .string v⟩ (key ++ (e ++ v))
  | other {n wt : Nat} {raw key : Bytes} (hn : n < 2 ^ 29) (hkey : IsUint64 key (n * 8 + wt))
      (hwt : otherLength wt = some raw.length) : FieldText ⟨n, .other wt raw⟩ (key ++ raw)

/-- The text of a body with these fields, in this order. -/
inductive BodyText : List Field → Bytes → Prop where
  | nil : BodyText [] []
  | cons {fd : Field} {fs : List Field} {text rest : Bytes} (hfd : FieldText fd text)
      (hfs : BodyText fs rest) : BodyText (fd :: fs) (text ++ rest)

/-- The last string in field `n`, or else `v`. -/
def lastString (n : Nat) (v : Bytes) : List Field → Bytes
  | [] => v
  | ⟨k, .string w⟩ :: fs => lastString n (if k = n then w else v) fs
  | _ :: fs => lastString n v fs

/-- The string a body carries in field `n`; the last one counts. -/
def carried (n : Nat) (fs : List Field) : Bytes := lastString n [] fs

/-- The varints in field `n`, in order. -/
def varints (n : Nat) (fs : List Field) : List Nat :=
  fs.filterMap fun
    | ⟨k, .varint v⟩ => if k = n then some v else none
    | _ => none

/-- A field of a wire type the server does not read. -/
def Field.isOther (fd : Field) : Bool :=
  match fd.payload with
  | .other _ _ => true
  | _ => false

end Pb
end EpollChat
