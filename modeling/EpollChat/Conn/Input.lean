import EpollChat.Buffer.Recv
import EpollChat.Wire.Codec

/-!
# The input side of one connection: `handleRead`

`handleRead` drains the socket into the receive buffer, then cuts packets off its front.
The kernel's answers to `recv` are its input; what it returns is the buffer, whether it
called `handleDisconnect`, and the packets that reached the hand-over loop. `raw` is what
`peekString` read, before `body` is overwritten with the decoded text.

`fuel` bounds the rounds of the packet loop and of the decoder inside it; `none` means
that `handleRead` has not come back within it.
-/

namespace EpollChat
namespace Input

def READ_BUFFER_SIZE : Nat := 4096

def MAX_PACKET_SIZE : Nat := 1024 * 1024

/-- What `recv` answered: bytes, 0, `EAGAIN`, or another error. -/
inductive RecvResult where
  | data (bytes : Bytes)
  | closed
  | wouldBlock
  | failed
deriving DecidableEq, Repr

structure Extracted where
  msgType : UInt16
  raw : Bytes
  body : Bytes
deriving DecidableEq, Repr

/-- The first loop: the buffer, and `shouldDisconnect`. -/
def recvLoop : PoolRecvBuffer → List RecvResult → Option (PoolRecvBuffer × Bool)
  | _, [] => none
  | b, .data bytes :: rs =>
      match b.append bytes with
      | none => none
      | some b' => recvLoop b' rs
  | b, .closed :: _ => some (b, true)
  | b, .wouldBlock :: _ => some (b, false)
  | b, .failed :: _ => some (b, true)

/-- One round of the second loop, up to the decoder: it leaves the loop, with or without
    `shouldDisconnect`, or it has a whole packet in front of it. -/
inductive Round where
  | leave (shouldDisconnect : Bool)
  | packet (totalLength : Nat) (msgType : UInt16) (raw : Bytes)
deriving DecidableEq, Repr

def nextRound (b : PoolRecvBuffer) : Round :=
  if b.size < 4 then .leave false
  else match b.peek 4 0 with
    | none => .leave false
    | some netLen =>
        let totalLength := ntohl netLen
        if totalLength < 6 ∨ MAX_PACKET_SIZE < totalLength then .leave true
        else if b.size < totalLength then .leave false
        else match b.peek 2 4 with
          | none => .leave false
          | some netType => .packet totalLength (ntohs netType) (b.peekString 6 (totalLength - 6))

/-- The second loop: the buffer, `pendingPackets`, and `shouldDisconnect`. -/
def parseLoop : Nat → PoolRecvBuffer → List Extracted →
    Option (PoolRecvBuffer × List Extracted × Bool)
  | 0, _, _ => none
  | fuel + 1, b, pendingPackets =>
      match nextRound b with
      | .leave shouldDisconnect => some (b, pendingPackets, shouldDisconnect)
      | .packet totalLength msgType raw =>
          match decodeProtoToJson fuel msgType raw with
          | none => none
          | some body =>
              parseLoop fuel (b.consume totalLength) (pendingPackets ++ [⟨msgType, raw, body⟩])

/-- `packets` are the ones the hand-over loop gets to see. -/
structure ReadResult where
  buffer : PoolRecvBuffer
  disconnected : Bool
  packets : List Extracted

def handleRead (fuel : Nat) (b : PoolRecvBuffer) (rs : List RecvResult) : Option ReadResult :=
  match recvLoop b rs with
  | none => none
  | some (b', true) => some ⟨b', true, []⟩
  | some (b', false) =>
      match parseLoop fuel b' [] with
      | none => none
      | some (b'', _, true) => some ⟨b'', true, []⟩
      | some (b'', packets, false) => some ⟨b'', false, packets⟩

/-- Successive calls on one connection, up to the one that disconnects it. -/
def handleReads (fuel : Nat) : PoolRecvBuffer → List (List RecvResult) → Option ReadResult
  | b, [] => some ⟨b, false, []⟩
  | b, rs :: calls =>
      match handleRead fuel b rs with
      | none => none
      | some r =>
          if r.disconnected then some r
          else match handleReads fuel r.buffer calls with
            | none => none
            | some r' => some { r' with packets := r.packets ++ r'.packets }

/-! ## What is sent to the server -/

/-- A packet a client may send. -/
structure Packet where
  type : UInt16
  body : Bytes
  fits : 6 + body.length ≤ MAX_PACKET_SIZE

/-- Its bytes on the wire. -/
def Packet.frame (p : Packet) : Bytes := be32 (6 + p.body.length) ++ (be16 p.type ++ p.body)

def frames (ps : List Packet) : Bytes := (ps.map Packet.frame).flatten

/-- How far a list of packets has got when `bytes` of its stream have arrived: the packets
    that are complete, those still coming, and the bytes of the incomplete one. -/
@[ext]
structure Progress where
  complete : List Packet
  coming : List Packet
  tail : Bytes

def progress : List Packet → Bytes → Progress
  | [], bytes => ⟨[], [], bytes⟩
  | p :: ps, bytes =>
      if p.frame.length ≤ bytes.length then
        let r := progress ps (bytes.drop p.frame.length)
        ⟨p :: r.complete, r.coming, r.tail⟩
      else ⟨[], p :: ps, bytes⟩

end Input
end EpollChat
