import EpollChat.Conn.Output
import EpollChat.Lib.Frames

/-!
# The other end: a client's read loop

`run_single_client` of the benchmark is the one reader of the server's packets that comes
with it. It appends what `recv` gives to a `bytearray` and cuts packets off the front, as
`handleRead` does, with a bound of its own: it takes a length up to 10 MiB.
-/

namespace EpollChat
namespace Client

open Lib.Frames

/-- The inner loop looks at the front of `buf`: the type and the body of a packet. -/
def look (buf : Bytes) : Verdict (UInt16 × Bytes) :=
  if buf.length < 6 then .wait
  else
    let total_len := ntohl (buf.take 4)
    if total_len < 6 ∨ 10 * 1024 * 1024 < total_len then .bad
    else if buf.length < total_len then .wait
    else .item (ntohs ((buf.drop 4).take 2), (buf.take total_len).drop 6) total_len

/-- The packets, what is left in `buf`, and `disconnected`. -/
def receive (chunks : List Bytes) : List (UInt16 × Bytes) × Bytes × Bool := feed look [] chunks

/-- The packets of the accepted calls as they are on the wire: type and protobuf body. -/
def accepted (τ : List Output.Event) : List (UInt16 × Bytes) :=
  τ.filterMap fun
    | .accepted _ type data => some (type, encodeJsonToProto type data)
    | _ => none

end Client
end EpollChat
