import EpollChat.Proof.Conn.Framing

/-!
# The last call on a connection

`handleRead` decides twice to disconnect: after `recv` has returned 0, and after the packet
loop has met a length that no packet has. Both returns come before the loop that hands the
packets over, so what arrives in the same call as the end of the stream is dropped: the
close before it is even parsed, the bad header after it has been (`lost_with_the_close`).

So a client's packets all reach their handlers exactly when the call that disconnects
brings no part of them (`delivered_iff`), whichever way the bytes before it were cut, and
as long as the calls come back at all.
-/

namespace EpollChat
namespace Input

/-! ## 1. Streams and their cuts -/

/-- How a client's stream ends behind its last packet: with a close, or with a header that
    is not one, and whatever follows it. -/
inductive Ending where
  | close
  | badHeader (header rest : Bytes)

namespace Ending

def bytes : Ending → Bytes
  | .close => []
  | .badHeader header rest => header ++ rest

/-- What `recv` answers behind the bytes of the last call. -/
def answer : Ending → RecvResult
  | .close => .closed
  | .badHeader _ _ => .wouldBlock

def lastAnswers (e : Ending) (chunks : List Bytes) : List RecvResult :=
  chunks.map .data ++ [e.answer]

end Ending

def InvalidHeader (header : Bytes) : Prop :=
  header.length = 4 ∧ (ntohl header < 6 ∨ MAX_PACKET_SIZE < ntohl header)

/-- The stream of `ps` and its ending, cut into the calls `earlier`, which end in `EAGAIN`,
    and the `last` one, the first that has the close or the whole bad header in it. -/
structure Cut (ps : List Packet) (e : Ending) (earlier : List (List Bytes)) (last : List Bytes) :
    Prop where
  sizes : ∀ c ∈ earlier ++ [last], ∀ x ∈ c, 1 ≤ x.length ∧ x.length ≤ READ_BUFFER_SIZE
  stream : (earlier ++ [last]).flatten.flatten = frames ps ++ e.bytes
  ends : ∀ header rest, e = .badHeader header rest →
    InvalidHeader header ∧ earlier.flatten.flatten.length < (frames ps).length + 4

/-- The calls come back, the last one disconnects, and by then all packets of the stream
    have been handed over. Calls after the last one would change nothing. -/
def Delivered (ps : List Packet) (e : Ending) (earlier : List (List Bytes)) (last : List Bytes)
    (later : List (List RecvResult)) : Prop :=
  ∃ fuel r, handleReads fuel (.create 4096) (earlier.map answers ++ e.lastAnswers last :: later) = some r ∧
    r.disconnected = true ∧
    r.packets.map (fun x => (x.msgType, x.raw)) = ps.map fun p => (p.type, p.body)

/-! ## 2. Successive calls -/

theorem handleReads_append {fuel : Nat} {calls : List (List RecvResult)} :
    ∀ {before : List (List RecvResult)} {b : PoolRecvBuffer} {r : ReadResult},
    handleReads fuel b before = some r → r.disconnected = false →
    handleReads fuel b (before ++ calls)
      = (handleReads fuel r.buffer calls).map fun r' => { r' with packets := r.packets ++ r'.packets } := by
  intro before
  induction before with
  | nil =>
    intro b r h _
    simp only [handleReads, Option.some.injEq] at h
    subst h
    simp
  | cons c before ih =>
    intro b r h hconn
    rw [handleReads] at h
    cases h₁ : handleRead fuel b c with
    | none => rw [h₁] at h; exact absurd h (by simp)
    | some r₁ =>
      rw [h₁] at h
      dsimp only at h
      rw [List.cons_append, handleReads, h₁]
      dsimp only
      cases hd : r₁.disconnected with
      | true =>
        rw [hd, if_pos rfl, Option.some.injEq] at h
        rw [← h, hd] at hconn
        exact absurd hconn (by simp)
      | false =>
        rw [hd, if_neg (by simp)] at h
        rw [if_neg (by simp)]
        cases h₂ : handleReads fuel r₁.buffer before with
        | none => rw [h₂] at h; exact absurd h (by simp)
        | some r₂ =>
          rw [h₂] at h
          simp only [Option.some.injEq] at h
          subst h
          rw [ih h₂ hconn]
          cases handleReads fuel r₂.buffer calls with
          | none => rfl
          | some r₃ => simp

theorem handleRead_mono {n m : Nat} (hnm : n ≤ m) {b : PoolRecvBuffer} {rs : List RecvResult}
    {r : ReadResult} (h : handleRead n b rs = some r) : handleRead m b rs = some r := by
  unfold handleRead at h ⊢
  cases hrecv : recvLoop b rs with
  | none => rw [hrecv] at h; exact absurd h (by simp)
  | some p =>
    obtain ⟨b', closed⟩ := p
    rw [hrecv] at h
    cases closed with
    | true => exact h
    | false =>
      dsimp only at h ⊢
      cases hparse : parseLoop n b' [] with
      | none => rw [hparse] at h; exact absurd h (by simp)
      | some q => rw [hparse] at h; rw [parseLoop_mono hnm hparse]; exact h

theorem handleReads_mono {n m : Nat} (hnm : n ≤ m) : ∀ {calls : List (List RecvResult)}
    {b : PoolRecvBuffer} {r : ReadResult}, handleReads n b calls = some r →
    handleReads m b calls = some r := by
  intro calls
  induction calls with
  | nil => exact fun h => h
  | cons c calls ih =>
    intro b r h
    rw [handleReads] at h ⊢
    cases h₁ : handleRead n b c with
    | none => rw [h₁] at h; exact absurd h (by simp)
    | some r₁ =>
      rw [h₁] at h
      rw [handleRead_mono hnm h₁]
      dsimp only at h ⊢
      split at h
      · next hd => rw [if_pos hd]; exact h
      · next hd =>
        rw [if_neg hd]
        cases h₂ : handleReads n r₁.buffer calls with
        | none => rw [h₂] at h; exact absurd h (by simp)
        | some r₂ => rw [h₂] at h; rw [ih h₂]; exact h

/-- Calls that came back began with calls that came back. -/
theorem handleReads_head {fuel : Nat} {calls : List (List RecvResult)} :
    ∀ {before : List (List RecvResult)} {b : PoolRecvBuffer} {r : ReadResult},
    handleReads fuel b (before ++ calls) = some r → ∃ r', handleReads fuel b before = some r' := by
  intro before
  induction before with
  | nil => exact fun _ => ⟨_, rfl⟩
  | cons c before ih =>
    intro b r h
    rw [List.cons_append, handleReads] at h
    rw [handleReads]
    cases h₁ : handleRead fuel b c with
    | none => rw [h₁] at h; exact absurd h (by simp)
    | some r₁ =>
      rw [h₁] at h
      dsimp only at h ⊢
      split at h
      · next hd => exact ⟨r₁, if_pos hd⟩
      · next hd =>
        rw [if_neg hd]
        cases h₂ : handleReads fuel r₁.buffer (before ++ calls) with
        | none => rw [h₂] at h; exact absurd h (by simp)
        | some r₂ =>
          obtain ⟨r', hr'⟩ := ih h₂
          rw [hr']
          exact ⟨_, rfl⟩

/-! ## 3. Progress at the end -/

/-- Complete packets and tail make up what has arrived. -/
theorem length_progress : ∀ (ps : List Packet) (x : Bytes),
    (frames (progress ps x).complete).length + (progress ps x).tail.length = x.length
  | [], x => by simp [progress]
  | p :: ps, x => by
    rw [progress]
    split
    · next h =>
      have ih := length_progress ps (x.drop p.frame.length)
      rw [List.length_drop] at ih
      dsimp only
      rw [frames_cons, List.length_append]
      omega
    · simp

/-- Behind the last packet everything is complete. -/
theorem progress_all : ∀ {ps : List Packet} {x : Bytes}, (frames ps).length ≤ x.length →
    progress ps x = ⟨ps, [], x.drop (frames ps).length⟩
  | [], x, _ => by simp [progress]
  | p :: ps, x, h => by
    rw [frames_cons, List.length_append] at h
    rw [progress, if_pos (by omega), progress_all (by rw [List.length_drop]; omega), List.drop_drop,
      frames_cons, List.length_append]

/-- The tail goes on where the packets still coming do. -/
theorem progress_rest : ∀ {ps : List Packet} {x y z : Bytes}, x ++ y = frames ps ++ z →
    (progress ps x).tail ++ y = frames (progress ps x).coming ++ z
  | [], _, _, _, h => h
  | p :: ps, x, y, z, h => by
    by_cases hle : p.frame.length ≤ x.length
    · have hpre : x <+: frames (p :: ps) ++ z := by rw [← h]; exact List.prefix_append _ _
      have hx := (frame_within hpre hle).1
      simp only [progress, if_pos hle]
      refine progress_rest ?_
      rw [hx, frames_cons, List.append_assoc, List.append_assoc] at h
      exact List.append_cancel_left h
    · simp only [progress, if_neg hle]
      exact h

theorem idle_nil (ps : List Packet) : Idle ps [] := by
  cases ps with
  | nil => rfl
  | cons p ps => rw [Idle, progress, if_neg (by rw [Packet.length_frame]; simp)]

theorem fitsBuffer_concat {ps : List Packet} {earlier : List (List Bytes)} {last : List Bytes} :
    FitsBuffer ps (earlier ++ [last]) ↔ FitsFrom ps [] earlier ∧
      (progress ps earlier.flatten.flatten).tail.length + last.flatten.length ≤ 2 ^ 63 := by
  constructor
  · intro h
    exact ⟨fun pre c hp => h pre c (hp.trans (List.prefix_append _ _)), h earlier last (List.prefix_refl _)⟩
  · rintro ⟨h, hlast⟩ pre c hp
    rcases List.prefix_concat_iff.mp hp with heq | hp
    · obtain ⟨rfl, hc⟩ := List.append_inj' heq rfl
      rw [List.singleton_inj.mp hc]
      exact hlast
    · exact h pre c hp

/-- A packet is its type and its body. -/
theorem packet_injective : Function.Injective fun p : Packet => (p.type, p.body) := by
  rintro ⟨type, body, _⟩ ⟨type', body', _⟩ h
  simp only [Prod.mk.injEq] at h
  obtain ⟨rfl, rfl⟩ := h
  rfl

/-! ## 4. The last call -/

/-- The close changes the answer of `recvLoop` and nothing else. -/
theorem recvLoop_closed : ∀ {chunks : List Bytes} {b : PoolRecvBuffer},
    recvLoop b (chunks.map .data ++ [.closed])
      = (recvLoop b (answers chunks)).map fun p => (p.1, true) := by
  intro chunks
  induction chunks with
  | nil => exact fun {_} => rfl
  | cons c cs ih =>
    intro b
    simp only [answers, List.map_cons, List.cons_append, recvLoop]
    cases b.append c with
    | none => rfl
    | some b' => exact ih

theorem nextRound_bad {b : PoolRecvBuffer} {header rest : Bytes} (hok : b.Ok)
    (hbad : InvalidHeader header) (hc : b.content = header ++ rest) : nextRound b = .leave true := by
  have hsz : 4 ≤ b.size := by
    rw [PoolRecvBuffer.size, ← PoolRecvBuffer.length_content, hc, List.length_append, hbad.1]
    omega
  rw [nextRound, if_neg (Nat.not_lt_of_le hsz), PoolRecvBuffer.peek_spec hok hsz,
    List.drop_zero, hc, List.take_left' hbad.1]
  dsimp only
  rw [if_pos hbad.2]

/-- A packet loop that comes back from a bad header asks to disconnect. -/
theorem parseLoop_bad {header rest : Bytes} (hbad : InvalidHeader header) :
    ∀ {ps : List Packet} {b : PoolRecvBuffer} {acc : List Extracted} {fuel : Nat}
      {r : PoolRecvBuffer × List Extracted × Bool}, b.Ok → b.content = frames ps ++ (header ++ rest) →
      parseLoop fuel b acc = some r → r.2.2 = true := by
  intro ps
  induction ps with
  | nil =>
    intro b acc fuel r hok hc hr
    cases fuel with
    | zero => exact absurd hr (by simp [parseLoop])
    | succ fuel =>
      rw [parseLoop, nextRound_bad hok hbad hc] at hr
      simp only [Option.some.injEq] at hr
      rw [← hr]
  | cons p ps ih =>
    intro b acc fuel r hok hc hr
    have hpre : b.content <+: frames (p :: ps) ++ (header ++ rest) := by rw [hc]
    have hfull : p.frame.length ≤ b.content.length := by
      rw [hc, frames_cons, List.append_assoc, List.length_append]
      omega
    obtain ⟨hcok, hcc⟩ := PoolRecvBuffer.consume_spec hok p.frame.length
    cases fuel with
    | zero => exact absurd hr (by simp [parseLoop])
    | succ fuel =>
      rw [parseLoop_complete hok hpre hfull] at hr
      cases hd : decodeProtoToJson fuel p.type p.body with
      | none => rw [hd] at hr; exact absurd hr (by simp)
      | some json =>
        rw [hd] at hr
        refine ih hcok ?_ hr
        rw [hcc, hc, frames_cons, List.append_assoc, List.drop_left]

/-- The last call comes back and disconnects, with nothing handed over. -/
theorem handleRead_last {e : Ending} {b : PoolRecvBuffer} {last : List Bytes} (hok : b.Ok)
    (hfit : b.content.length + last.flatten.length ≤ 2 ^ 63)
    (hend : ∀ header rest, e = .badHeader header rest →
      InvalidHeader header ∧ b.content ++ last.flatten = header ++ rest) :
    ∃ b', ∀ fuel, handleRead (fuel + 1) b (e.lastAnswers last) = some ⟨b', true, []⟩ := by
  obtain ⟨b₁, hrecv, hok₁, hc₁⟩ := recvLoop_fits hok hfit
  refine ⟨b₁, fun fuel => ?_⟩
  cases e with
  | close =>
    have hclosed : recvLoop b (Ending.close.lastAnswers last) = some (b₁, true) := by
      rw [Ending.lastAnswers, Ending.answer, recvLoop_closed, hrecv]
      rfl
    rw [handleRead, hclosed]
  | badHeader header rest =>
    obtain ⟨hbad, hbytes⟩ := hend header rest rfl
    have hrecv' : recvLoop b ((Ending.badHeader header rest).lastAnswers last) = some (b₁, false) := hrecv
    rw [handleRead, hrecv']
    dsimp only
    rw [parseLoop, nextRound_bad hok₁ hbad (hc₁.trans hbytes)]

/-- …and if it comes back, there was room, and it disconnects with nothing handed over. -/
theorem handleRead_last_needs {ps : List Packet} {e : Ending} {b : PoolRecvBuffer}
    {last : List Bytes} {fuel : Nat} {r : ReadResult}
    (hsmall : ∀ x ∈ last, x.length ≤ READ_BUFFER_SIZE) (hok : b.Ok)
    (hend : ∀ header rest, e = .badHeader header rest →
      InvalidHeader header ∧ b.content ++ last.flatten = frames ps ++ (header ++ rest))
    (hr : handleRead fuel b (e.lastAnswers last) = some r) :
    b.content.length + last.flatten.length ≤ 2 ^ 63 ∧ r.disconnected = true ∧ r.packets = [] := by
  cases e with
  | close =>
    have hclosed : recvLoop b (Ending.close.lastAnswers last)
        = (recvLoop b (answers last)).map fun p => (p.1, true) := recvLoop_closed
    rw [handleRead, hclosed] at hr
    cases hrecv : recvLoop b (answers last) with
    | none => rw [hrecv] at hr; exact absurd hr (by simp)
    | some p =>
      rw [hrecv] at hr
      simp only [Option.map_some, Option.some.injEq] at hr
      rw [← hr]
      exact ⟨fits_of_recvLoop hsmall hok hrecv, rfl, rfl⟩
  | badHeader header rest =>
    obtain ⟨hbad, hbytes⟩ := hend header rest rfl
    have hsame : (Ending.badHeader header rest).lastAnswers last = answers last := rfl
    rw [hsame, handleRead] at hr
    cases hrecv : recvLoop b (answers last) with
    | none => rw [hrecv] at hr; exact absurd hr (by simp)
    | some p =>
      have hfit := fits_of_recvLoop hsmall hok hrecv
      obtain ⟨b₁, hrecv₁, hok₁, hc₁⟩ := recvLoop_fits hok hfit
      rw [hrecv₁] at hr
      dsimp only at hr
      cases hparse : parseLoop fuel b₁ [] with
      | none => rw [hparse] at hr; exact absurd hr (by simp)
      | some q =>
        obtain ⟨b₂, xs, flag⟩ := q
        have hflag : flag = true := parseLoop_bad hbad hok₁ (hc₁.trans hbytes) hparse
        rw [hparse, hflag] at hr
        simp only [Option.some.injEq] at hr
        rw [← hr]
        exact ⟨hfit, rfl, rfl⟩

/-! ## 5. The whole stream -/

/-- Before the last call there is at most the beginning of a header behind the packets. -/
theorem Cut.earlier_within {ps : List Packet} {e : Ending} {earlier : List (List Bytes)}
    {last : List Bytes} (hcut : Cut ps e earlier last) :
    ∃ junk : Bytes, junk.length < 4 ∧ earlier.flatten.flatten <+: frames ps ++ junk := by
  have hpre : earlier.flatten.flatten <+: frames ps ++ e.bytes := by
    rw [← hcut.stream, List.flatten_append, List.flatten_append]
    exact List.prefix_append _ _
  cases e with
  | close => exact ⟨[], by simp, hpre⟩
  | badHeader header rest =>
    obtain ⟨⟨hlen, -⟩, hlt⟩ := hcut.ends header rest rfl
    refine ⟨header.take 3, by simp, ?_⟩
    refine List.prefix_of_prefix_length_le hpre ?_ ?_
    · rw [List.prefix_append_right_inj]
      exact (List.take_prefix 3 header).trans (List.prefix_append _ _)
    · rw [List.length_append, List.length_take]
      omega

/-- **The packets of a stream are all handed over exactly when the call that disconnects
    brings no part of them**, however the stream was cut, as long as the calls come back:
    the decoder ends on every packet, and no call has more to hold than fits. -/
theorem delivered_iff {ps : List Packet} {e : Ending} {earlier : List (List Bytes)}
    {last : List Bytes} (hcut : Cut ps e earlier last) (later : List (List RecvResult)) :
    Delivered ps e earlier last later ↔ (frames ps).length ≤ earlier.flatten.flatten.length ∧
      FitsBuffer ps (earlier ++ [last]) ∧ ∀ p ∈ ps, DecodeEnds p.type p.body := by
  obtain ⟨hok, hc⟩ := PoolRecvBuffer.create_spec (show 4096 ≤ 2 ^ 63 by decide)
  obtain ⟨junk, hj, hwithin⟩ := hcut.earlier_within
  have hidle : Idle ps (PoolRecvBuffer.create 4096).content := by rw [hc]; exact idle_nil ps
  have hpre : (PoolRecvBuffer.create 4096).content ++ earlier.flatten.flatten <+: frames ps ++ junk := by
    rw [hc]
    exact hwithin
  have hstream : earlier.flatten.flatten ++ last.flatten = frames ps ++ e.bytes := by
    rw [← hcut.stream, List.flatten_append, List.flatten_append]
    simp
  rw [fitsBuffer_concat]
  constructor
  · rintro ⟨fuel, r, hr, hdisc, hpackets⟩
    obtain ⟨r₀, hr₀⟩ := handleReads_head hr
    obtain ⟨hfit, hdec⟩ := handleReads_needs hj
      (fun c hc x hx => (hcut.sizes c (List.mem_append_left _ hc) x hx).2) hok hidle hpre hr₀
    obtain ⟨n, b, xs, hends, hbok, hbc, hxs⟩ := handleReads_ends hj hok hidle hpre hfit hdec
    rw [hc] at hfit hdec hbc hxs
    rw [List.nil_append] at hbc hxs hdec
    -- With enough fuel for the earlier calls, what is left is the last one.
    have hwhole := handleReads_mono (Nat.le_max_left fuel n) hr
    rw [handleReads_append (hends _ (Nat.le_max_right fuel n)) rfl] at hwhole
    obtain ⟨r₁, hr₁, rfl⟩ := Option.map_eq_some_iff.mp hwhole
    rw [handleReads] at hr₁
    cases hlast : handleRead (max fuel n) b (e.lastAnswers last) with
    | none => rw [hlast] at hr₁; exact absurd hr₁ (by simp)
    | some r₂ =>
      have hend : ∀ header rest, e = .badHeader header rest → InvalidHeader header ∧
          b.content ++ last.flatten
            = frames (progress ps earlier.flatten.flatten).coming ++ (header ++ rest) := by
        intro header rest he
        rw [he] at hstream
        rw [hbc]
        exact ⟨(hcut.ends header rest he).1, progress_rest hstream⟩
      obtain ⟨hroom, hdown, hnone⟩ := handleRead_last_needs
        (fun x hx => (hcut.sizes last (List.mem_append_right _ List.mem_cons_self) x hx).2) hbok hend
        hlast
      rw [hlast] at hr₁
      dsimp only at hr₁
      rw [if_pos hdown, Option.some.injEq] at hr₁
      rw [← hr₁, hnone, List.append_nil, hxs] at hpackets
      have hall : (progress ps earlier.flatten.flatten).complete = ps :=
        List.map_injective_iff.mpr packet_injective hpackets
      have hlen := length_progress ps earlier.flatten.flatten
      rw [hall] at hlen hdec
      refine ⟨by omega, ⟨hfit, ?_⟩, hdec⟩
      rw [← hbc]
      exact hroom
  · rintro ⟨hall, ⟨hfit, hroom⟩, hdec⟩
    have hprog := progress_all hall
    obtain ⟨n, b, xs, hends, hbok, hbc, hxs⟩ := handleReads_ends hj hok hidle hpre
      (by rw [hc]; exact hfit) (by rw [hc, List.nil_append, hprog]; exact hdec)
    rw [hc, List.nil_append] at hbc hxs
    have hend : ∀ header rest, e = .badHeader header rest → InvalidHeader header ∧
        b.content ++ last.flatten = header ++ rest := by
      intro header rest he
      rw [he] at hstream
      have hrest := progress_rest hstream
      rw [hprog] at hrest
      rw [hbc, hprog]
      exact ⟨(hcut.ends header rest he).1, hrest⟩
    obtain ⟨b', hlast⟩ := handleRead_last hbok (by rw [hbc]; exact hroom) hend
    refine ⟨n + 1, ⟨b', true, xs⟩, ?_, rfl, ?_⟩
    · rw [handleReads_append (hends (n + 1) (Nat.le_succ n)) rfl, handleReads, hlast n]
      simp
    · rw [hprog] at hxs
      exact hxs

/-- Two heartbeats in one call, and the close in the next. -/
theorem delivered_heartbeats :
    Delivered [⟨2, [], by decide⟩, ⟨2, [], by decide⟩] .close
      [[[0, 0, 0, 6, 0, 2, 0], [0, 0, 6, 0, 2]]] [] [] := by
  refine (delivered_iff ⟨by decide, by decide, fun _ _ h => absurd h (by simp)⟩ []).mpr
    ⟨by decide, fitsBuffer_of_length (by decide), ?_⟩
  intro p hp
  have hp' : p = ⟨2, [], by decide⟩ := by simpa using hp
  subst hp'
  exact ⟨0, rfl⟩

/-- A chat message, as a client sends it. -/
def hello : Packet := ⟨1, [0x0A, 1, 0x61, 0x1A, 1, 0x62], by decide⟩

/-- **Lost with the close.** If the message and the close that follows it arrive in one
    call, the message is never handed over; if they arrive in two, it is. -/
theorem lost_with_the_close :
    Cut [hello] .close [] [hello.frame] ∧ ¬ Delivered [hello] .close [] [hello.frame] [] ∧
    Cut [hello] .close [[hello.frame]] [] ∧ Delivered [hello] .close [[hello.frame]] [] [] := by
  refine ⟨⟨by decide, by decide, fun _ _ h => absurd h (by simp)⟩, ?_,
    ⟨by decide, by decide, fun _ _ h => absurd h (by simp)⟩, ?_⟩
  · rintro ⟨fuel, r, hr, -, hpackets⟩
    have hcall : handleReads fuel (.create 4096) [Ending.close.lastAnswers [hello.frame]]
        = some ⟨((PoolRecvBuffer.create 4096).append hello.frame).get rfl, true, []⟩ := rfl
    rw [List.map_nil, List.nil_append, hcall, Option.some.injEq] at hr
    rw [← hr] at hpackets
    exact absurd hpackets (by simp)
  · obtain ⟨r, hr, h⟩ := Option.map_eq_some_iff.mp (show (handleReads 12 (.create 4096)
      ([[hello.frame]].map answers ++ [Ending.close.lastAnswers []])).map (fun r =>
        (r.disconnected, r.packets.map fun x => (x.msgType, x.raw)))
          = some (true, [(hello.type, hello.body)]) by decide)
    simp only [Prod.mk.injEq] at h
    exact ⟨12, r, hr, h.1, h.2⟩

end Input
end EpollChat
