import EpollChat.Conn.Client
import EpollChat.Proof.Conn.Stream

/-!
# From `sendPacket` to the client

`Stream` says that the bytes on the wire are the accepted frames, in order and cut off
somewhere. The client's loop knows the frames (`look_cuts`), so what it has read after any
pieces of that stream are the packets whose frames are complete: whichever threads called
`sendPacket`, however `::send` and `recv` cut the bytes.

The lengths have to suit both ends. `sendPacket` writes the length of any body that fits
its 16 MiB of backlog; the client gives up above 10 MiB.
-/

namespace EpollChat
namespace Client

open Lib Machine Frames

/-- A packet as `sendPacket` puts it on the wire. -/
def wireFrame (p : UInt16 × Bytes) : Bytes := be32 (totalLength p.2) ++ (be16 p.1 ++ p.2)

/-- One the client takes. -/
def Readable (p : UInt16 × Bytes) : Prop := 6 + p.2.length ≤ 10 * 1024 * 1024

theorem totalLength_readable {p : UInt16 × Bytes} (h : Readable p) : totalLength p.2 = 6 + p.2.length := by
  unfold Readable at h
  unfold totalLength
  omega

theorem length_wireFrame (p : UInt16 × Bytes) : (wireFrame p).length = 6 + p.2.length := by
  simp only [wireFrame, List.length_append, length_be32, length_be16]
  omega

/-- What the client reads behind the header does not matter to the header. -/
theorem look_header {p : UInt16 × Bytes} (h : Readable p) (y : Bytes) :
    look (be32 (totalLength p.2) ++ (be16 p.1 ++ y))
      = if y.length < p.2.length then .wait
        else .item (p.1, y.take p.2.length) (6 + p.2.length) := by
  rw [totalLength_readable h]
  have hlen : (be32 (6 + p.2.length) ++ (be16 p.1 ++ y)).length = 6 + y.length := by
    simp only [List.length_append, length_be32, length_be16]
    omega
  have htype : ((be32 (6 + p.2.length) ++ (be16 p.1 ++ y)).drop 4).take 2 = be16 p.1 := by
    rw [List.drop_left' (length_be32 _)]
    exact List.take_left' (length_be16 _)
  have hbody : ((be32 (6 + p.2.length) ++ (be16 p.1 ++ y)).take (6 + p.2.length)).drop 6
      = y.take p.2.length := by
    rw [← List.append_assoc, List.drop_take, Nat.add_sub_cancel_left,
      List.drop_left' (by simp only [List.length_append, length_be32, length_be16])]
  unfold Readable at h
  unfold look
  rw [if_neg (by omega), List.take_left' (length_be32 _), ntohl_be32 (by omega)]
  dsimp only
  rw [if_neg (by omega), hlen, htype, hbody, ntohs_be16]
  by_cases hy : y.length < p.2.length
  · rw [if_pos (by omega), if_pos hy]
  · rw [if_neg (by omega), if_neg hy]

/-- The client's loop knows the server's frames. -/
theorem look_cuts : Cuts look wireFrame Readable where
  nil := rfl
  whole {p rest} h := by
    rw [length_wireFrame, wireFrame, List.append_assoc, List.append_assoc, look_header h, if_neg (by simp),
      List.take_left]
  part {p x} h hx hlen := by
    by_cases hsix : x.length < 6
    · rw [look, if_pos hsix]
    · -- The header is there, and not all of the body.
      have hhead : be32 (totalLength p.2) ++ be16 p.1 <+: x := by
        refine List.prefix_of_prefix_length_le ?_ hx
          (by simp only [List.length_append, length_be32, length_be16]; omega)
        rw [wireFrame, ← List.append_assoc]
        exact List.prefix_append _ _
      obtain ⟨y, rfl⟩ := hhead
      rw [length_wireFrame] at hlen
      simp only [List.length_append, length_be32, length_be16] at hlen
      rw [List.append_assoc, look_header h, if_pos (by omega)]

theorem acceptedFrames_eq (τ : List Output.Event) :
    Output.acceptedFrames τ = (accepted τ).map wireFrame := by
  unfold Output.acceptedFrames accepted
  rw [List.map_filterMap]
  refine congrArg (fun f => τ.filterMap f) (funext fun e => ?_)
  cases e with
  | accepted tid type data => rfl
  | dropped tid type data => rfl
  | wire bytes => rfl

/-- **What the client reads is what was accepted.** From a new connection, for every
    interleaving of its senders with `handleWrite`, every way `::send` takes the bytes and
    every way `recv` gives them: the client has cut off exactly the accepted packets whose
    frames have arrived, in order, and waits with less than the next frame. When everything
    accepted has been sent and received, it has read it all. -/
theorem client_reads {s₀ s : Output.State} {ls : List Output.Label} {τ : List Output.Event}
    (hq : s₀.queue = .fresh) (hw : s₀.writer = .idle) (hr : run Output.step s₀ ls = some (s, τ))
    (hread : ∀ p ∈ accepted τ, Readable p) {chunks : List Bytes}
    (hrecv : chunks.flatten <+: Output.wireBytes τ) :
    (∃ done later rest, receive chunks = (done, rest, false) ∧ accepted τ = done ++ later ∧
      chunks.flatten = (done.map wireFrame).flatten ++ rest ∧
      ∀ p l, later = p :: l → rest.length < (wireFrame p).length) ∧
    (chunks.flatten = Output.wireBytes τ → s.queue.active = [] → s.queue.pending = [] →
      receive chunks = (accepted τ, [], false)) := by
  have hstream := run_inv Output.Stream (fun hi hs => hi.step hs) (Output.Stream.start hq hw) hr
  have hbytes : Output.wireBytes τ ++ Output.unsent s = ((accepted τ).map wireFrame).flatten := by
    rw [← acceptedFrames_eq]
    exact hstream.bytes
  refine ⟨?_, fun hall hactive hpending => ?_⟩
  · have hshort : Short wireFrame (accepted τ) ([] : Bytes) := by
      intro p l hp
      refine look_cuts.code_length_pos (hread p ?_)
      rw [hp]
      exact List.mem_cons_self
    have hfront : [] ++ chunks.flatten <+: ((accepted τ).map wireFrame).flatten := by
      rw [← hbytes]
      exact hrecv.trans (List.prefix_append _ _)
    obtain ⟨done, later, rest, hf, hc⟩ := feed_of_prefix look_cuts hread hshort hfront
    exact ⟨done, later, rest, hf, hc.items, hc.bytes, hc.short⟩
  · refine feed_all look_cuts hread ?_
    rw [hall, ← hbytes, Output.unsent, hactive, hpending]
    simp

/-- A heartbeat answer has left, one is waiting; the client has the first and gets it in pieces. -/
theorem client_reads_heartbeat : ∃ s τ,
    run Output.step (Output.registered .fresh) [.sendPacket 0 2 [], .enableWrite 0, .startWrite,
      .takeChunk, .kernelSend (.took 6), .sendPacket 1 2 []] = some (s, τ) ∧
    ∃ done later rest, receive [[0, 0], [0, 6, 0], [2]] = (done, rest, false) ∧
      accepted τ = done ++ later ∧ [0, 0, 0, 6, 0, 2] = (done.map wireFrame).flatten ++ rest := by
  obtain ⟨⟨s, τ⟩, hr⟩ := Option.isSome_iff_exists.mp (show (run Output.step (Output.registered .fresh)
    [.sendPacket 0 2 [], .enableWrite 0, .startWrite, .takeChunk, .kernelSend (.took 6),
      .sendPacket 1 2 []]).isSome = true from rfl)
  have hτ : some τ = some [.accepted 0 2 [], .wire [0, 0, 0, 6, 0, 2], .accepted 1 2 []] := by
    rw [show some τ = (some (s, τ)).map Prod.snd from rfl, ← hr]
    rfl
  obtain rfl := Option.some.inj hτ
  have hread : ∀ p ∈ accepted [.accepted 0 2 [], .wire [0, 0, 0, 6, 0, 2], .accepted 1 2 []], Readable p := by
    intro p hp
    have hp' : p ∈ [((2 : UInt16), ([] : Bytes)), (2, [])] := hp
    have hbody : p.2 = [] := by
      rcases List.mem_cons.mp hp' with rfl | hp'
      · rfl
      · rw [List.mem_singleton.mp hp']
    unfold Readable
    rw [hbody]
    decide
  have hrecv : [[0, 0], [0, 6, 0], [2]].flatten
      <+: Output.wireBytes [.accepted 0 2 [], .wire [0, 0, 0, 6, 0, 2], .accepted 1 2 []] := by decide
  obtain ⟨⟨done, later, rest, hf, hi, hb, -⟩, -⟩ := client_reads rfl rfl hr hread hrecv
  exact ⟨s, _, hr, done, later, rest, hf, hi, hb⟩

end Client
end EpollChat
