import EpollChat.Text

/-!
# `namespace pb` — the wire primitives

The hand-written protobuf layer of `EpollChatServer.cpp`. `uint64_t` and `size_t` are
`Nat`, reduced modulo `2 ^ 64` exactly where the source's arithmetic can leave the
range: the shifted payload in `readVarint`, and `off + len` in `skipField` (and in
`decodeProtoToJson`, which repeats that check).

The reader is index-based and not suffix-based: after a wrapped `off += len` the next
read starts *before* the previous one, and that is behaviour of the source.
-/

namespace EpollChat
namespace Pb

/-- `2 ^ 64`: `uint64_t` and `size_t` arithmetic is modulo this. -/
def wordSize : Nat := 2 ^ 64

/-! ## 1. Writing -/

/-- The `while (v >= 0x80)` loop, with at most `n` more continuation bytes. -/
def writeVarintLoop : Nat → Nat → Bytes
  | 0, v => [UInt8.ofNat v]
  | n + 1, v =>
      if 0x80 ≤ v then UInt8.ofNat ((v &&& 0x7F) ||| 0x80) :: writeVarintLoop n (v >>> 7)
      else [UInt8.ofNat v]

/-- `writeVarint`: a 64-bit value has at most nine continuation bytes. -/
def writeVarint (v : Nat) : Bytes := writeVarintLoop 9 v

def writeKey (fieldNo wireType : Nat) : Bytes := writeVarint ((fieldNo <<< 3) ||| wireType)

def writeString (fieldNo : Nat) (s : Bytes) : Bytes :=
  writeKey fieldNo 2 ++ (writeVarint s.length ++ s)

def writeUint64 (fieldNo v : Nat) : Bytes := writeKey fieldNo 0 ++ writeVarint v

/-! ## 2. Reading -/

/-- What a read leaves behind: whether it succeeded, the offset, the value. -/
structure Read where
  ok : Bool
  off : Nat
  v : Nat
  deriving DecidableEq, Repr

/-- The `while (off < in.size() && shift <= 63)` loop. The shift starts at 0 and grows
    by 7, so ten rounds are all there can be. -/
def readVarintLoop (inp : Bytes) : Nat → Nat → Nat → Nat → Read
  | 0, off, _, v => ⟨false, off, v⟩
  | n + 1, off, shift, v =>
      if h : off < inp.length ∧ shift ≤ 63 then
        let b := inp.get ⟨off, h.1⟩
        let v' := v ||| (((b &&& 0x7F).toNat <<< shift) % wordSize)
        if b &&& 0x80 = 0 then ⟨true, off + 1, v'⟩
        else readVarintLoop inp n (off + 1) (shift + 7) v'
      else ⟨false, off, v⟩

def readVarint (inp : Bytes) (off : Nat) : Read := readVarintLoop inp 10 off 0 0

/-- `skipField`; the caller only reaches it with a wire type that is neither 0 nor 2. -/
def skipField (wt : Nat) (inp : Bytes) (off : Nat) : Bool × Nat :=
  if wt = 0 then
    let r := readVarint inp off
    (r.ok, r.off)
  else if wt = 2 then
    let r := readVarint inp off
    if r.ok = false then (false, r.off)
    else if inp.length < (r.off + r.v) % wordSize then (false, r.off)
    else (true, (r.off + r.v) % wordSize)
  else (false, off)

end Pb
end EpollChat
