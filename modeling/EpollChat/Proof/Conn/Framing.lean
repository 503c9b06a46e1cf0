import EpollChat.Conn.Input
import EpollChat.Proof.Buffer.Recv
import EpollChat.Proof.Wire.Terminates

/-!
# Framing does not depend on chunking

The receive buffer is a byte queue, so all that matters of a chunking is what has arrived.
`progress` says what a stream of packets amounts to after so many bytes; a round of the
packet loop is a step of `progress` (`parseLoop_complete`, `parseLoop_incomplete`), and a
call of `handleRead` takes it from the bytes before the call to the bytes after it
(`progress_append`).

What the code adds to that is two ways not to come back, and `frames_read_iff` says they
are the only ones: a complete packet whose body sends the decoder round in circles, and a
call that has to buffer more than `2 ^ 63` bytes.
-/

namespace EpollChat
namespace Input

open Lib

/-! ## 1. Progress -/

theorem Packet.length_frame (p : Packet) : p.frame.length = 6 + p.body.length := by
  simp [Packet.frame]; omega

@[simp] theorem frames_nil : frames [] = [] := rfl

@[simp] theorem frames_cons (p : Packet) (ps : List Packet) :
    frames (p :: ps) = p.frame ++ frames ps := rfl

/-- More bytes go on from the tail, with the packets still coming. -/
theorem progress_append : ∀ (ps : List Packet) (x y : Bytes),
    progress ps (x ++ y)
      = ⟨(progress ps x).complete ++ (progress (progress ps x).coming ((progress ps x).tail ++ y)).complete,
          (progress (progress ps x).coming ((progress ps x).tail ++ y)).coming,
          (progress (progress ps x).coming ((progress ps x).tail ++ y)).tail⟩
  | [], x, y => rfl
  | p :: ps, x, y => by
    by_cases h : p.frame.length ≤ x.length
    · have h' : p.frame.length ≤ (x ++ y).length := by rw [List.length_append]; omega
      simp only [progress, if_pos h, if_pos h']
      rw [List.drop_append_of_le_length h, progress_append ps]
      rfl
    · simp only [progress, if_neg h, List.nil_append]

/-- Nothing is complete in `x`: it is all tail. -/
def Idle (ps : List Packet) (x : Bytes) : Prop := progress ps x = ⟨[], ps, x⟩

theorem idle_progress (ps : List Packet) (x : Bytes) :
    Idle (progress ps x).coming (progress ps x).tail := by
  have h := progress_append ps x []
  rw [List.append_nil, List.append_nil] at h
  have h₁ : (progress (progress ps x).coming (progress ps x).tail).complete = [] := by
    have hc := congrArg Progress.complete h
    exact List.append_cancel_left (by rw [List.append_nil]; exact hc.symm)
  have h₂ := congrArg Progress.coming h
  have h₃ := congrArg Progress.tail h
  exact Progress.ext h₁ h₂.symm h₃.symm

-- Behind the frames there may be other bytes; where they matter they are too few to be read
-- as a header.
variable {junk : Bytes}

/-- A head of the stream begins with the frames that are complete. -/
theorem frame_within {p : Packet} {ps : List Packet} {x : Bytes}
    (hx : x <+: frames (p :: ps) ++ junk) (h : p.frame.length ≤ x.length) :
    x = p.frame ++ x.drop p.frame.length ∧ x.drop p.frame.length <+: frames ps ++ junk := by
  have hp : p.frame <+: x :=
    List.prefix_of_prefix_length_le
      (by rw [frames_cons, List.append_assoc]; exact List.prefix_append _ _) hx h
  obtain ⟨r, rfl⟩ := hp
  rw [List.drop_left]
  rw [frames_cons, List.append_assoc] at hx
  exact ⟨rfl, (List.prefix_append_right_inj _).mp hx⟩

theorem progress_within : ∀ {ps : List Packet} {x y : Bytes}, x ++ y <+: frames ps ++ junk →
    (progress ps x).tail ++ y <+: frames (progress ps x).coming ++ junk
  | [], _, _, h => h
  | p :: ps, x, y, h => by
    by_cases hle : p.frame.length ≤ x.length
    · have h' := (frame_within h (by rw [List.length_append]; omega)).2
      rw [List.drop_append_of_le_length hle] at h'
      simp only [progress, if_pos hle]
      exact progress_within h'
    · simp only [progress, if_neg hle]
      exact h

/-! ## 2. The packet loop -/

/-- The header is there as soon as four bytes are. -/
theorem header_within {p : Packet} {ps : List Packet} {x : Bytes}
    (hx : x <+: frames (p :: ps) ++ junk) (h : 4 ≤ x.length) : ntohl (x.take 4) = 6 + p.body.length := by
  have h₁ : x.take 4 = (frames (p :: ps) ++ junk).take 4 := by
    refine (hx.take 4).eq_of_length ?_
    have h₂ := hx.length_le
    rw [List.length_take, List.length_take]
    omega
  have h₂ : (frames (p :: ps) ++ junk).take 4 = be32 (6 + p.body.length) := by
    simp only [frames_cons, Packet.frame, List.append_assoc]
    exact List.take_left' (length_be32 _)
  have hfits := p.fits
  unfold MAX_PACKET_SIZE at hfits
  rw [h₁, h₂, ntohl_be32 (by omega)]

/-- No complete packet: the round leaves the loop. -/
theorem nextRound_incomplete {ps : List Packet} {b : PoolRecvBuffer} (hj : junk.length < 4)
    (hok : b.Ok) (hpre : b.content <+: frames ps ++ junk)
    (hnone : (progress ps b.content).complete = []) :
    nextRound b = .leave false := by
  unfold nextRound
  split
  · rfl
  · next hsz =>
    have hsz' : 4 ≤ b.m_size := Nat.le_of_not_lt hsz
    have hlen : 4 ≤ b.content.length := by rw [PoolRecvBuffer.length_content]; exact hsz'
    cases ps with
    | nil =>
      have := hpre.length_le
      rw [frames_nil, List.nil_append] at this
      omega
    | cons p ps =>
      have hfits := p.fits
      have hshort : ¬ p.frame.length ≤ b.content.length := by
        intro h
        rw [progress, if_pos h] at hnone
        exact absurd hnone (by simp)
      rw [Packet.length_frame, PoolRecvBuffer.length_content] at hshort
      have hlt : b.size < 6 + p.body.length := Nat.lt_of_not_le hshort
      rw [PoolRecvBuffer.peek_spec hok (by omega), List.drop_zero]
      dsimp only
      rw [header_within hpre hlen, if_neg (by omega), if_pos hlt]

/-- A complete packet: the round finds its type and its body. -/
theorem nextRound_complete {p : Packet} {ps : List Packet} {b : PoolRecvBuffer} (hok : b.Ok)
    (hpre : b.content <+: frames (p :: ps) ++ junk) (hfull : p.frame.length ≤ b.content.length) :
    nextRound b = .packet p.frame.length p.type p.body := by
  have hfits := p.fits
  have hframe := p.length_frame
  have hsz : 6 + p.body.length ≤ b.m_size := by
    rw [← hframe, ← PoolRecvBuffer.length_content]
    exact hfull
  have hcont := (frame_within hpre hfull).1
  have htype : (b.content.drop 4).take 2 = be16 p.type := by
    rw [hcont, Packet.frame, List.append_assoc, List.drop_left' (length_be32 _), List.append_assoc]
    exact List.take_left' (length_be16 _)
  have hbody : (b.content.drop 6).take p.body.length = p.body := by
    have h : b.content = (be32 (6 + p.body.length) ++ be16 p.type) ++
        (p.body ++ b.content.drop p.frame.length) := by
      conv_lhs => rw [hcont]
      rw [List.append_assoc, ← List.append_assoc (be16 p.type), ← List.append_assoc]
      rfl
    rw [h, List.drop_left' (by simp)]
    exact List.take_left' rfl
  have hsmall : ¬ b.size < 4 := fun h => absurd (show b.m_size < 4 from h) (by omega)
  have hwhole : ¬ b.size < 6 + p.body.length := Nat.not_lt_of_le hsz
  rw [nextRound, if_neg hsmall, PoolRecvBuffer.peek_spec hok (by omega), List.drop_zero]
  dsimp only
  rw [header_within hpre (by rw [PoolRecvBuffer.length_content]; omega), if_neg (by omega),
    if_neg hwhole, PoolRecvBuffer.peek_spec hok (by omega), htype]
  dsimp only
  rw [ntohs_be16, show 6 + p.body.length - 6 = p.body.length by omega,
    PoolRecvBuffer.peekString_spec hok hsz, hbody, hframe]

theorem parseLoop_incomplete {ps : List Packet} {b : PoolRecvBuffer} (hj : junk.length < 4)
    (hok : b.Ok) (hpre : b.content <+: frames ps ++ junk)
    (hnone : (progress ps b.content).complete = [])
    (fuel : Nat) (acc : List Extracted) : parseLoop (fuel + 1) b acc = some (b, acc, false) := by
  rw [parseLoop, nextRound_incomplete hj hok hpre hnone]

theorem parseLoop_complete {p : Packet} {ps : List Packet} {b : PoolRecvBuffer} (hok : b.Ok)
    (hpre : b.content <+: frames (p :: ps) ++ junk) (hfull : p.frame.length ≤ b.content.length)
    (fuel : Nat) (acc : List Extracted) :
    parseLoop (fuel + 1) b acc
      = match decodeProtoToJson fuel p.type p.body with
        | none => none
        | some body =>
            parseLoop fuel (b.consume p.frame.length) (acc ++ [⟨p.type, p.body, body⟩]) := by
  cases hd : decodeProtoToJson fuel p.type p.body with
  | none => simp only [parseLoop, nextRound_complete hok hpre hfull, hd]
  | some body => simp only [parseLoop, nextRound_complete hok hpre hfull, hd]

theorem decodeProtoToJson_mono {msgType : UInt16} {body json : Bytes} {n m : Nat} (hnm : n ≤ m)
    (h : decodeProtoToJson n msgType body = some json) :
    decodeProtoToJson m msgType body = some json := by
  unfold decodeProtoToJson at h ⊢
  split
  · next hb => rw [if_pos hb] at h; exact h
  · next hb =>
    rw [if_neg hb] at h
    cases hl : decodeLoop msgType body n 0 {} with
    | none => rw [hl] at h; exact absurd h (by simp)
    | some r => rw [hl] at h; rw [decodeLoop_mono hnm hl]; exact h

theorem parseLoop_mono : ∀ {n m : Nat} {b : PoolRecvBuffer} {acc : List Extracted}
    {r : PoolRecvBuffer × List Extracted × Bool}, n ≤ m → parseLoop n b acc = some r →
    parseLoop m b acc = some r := by
  intro n
  induction n with
  | zero => intro m b acc r _ h; exact absurd h (by simp [parseLoop])
  | succ n ih =>
    intro m b acc r hm h
    obtain ⟨m, rfl⟩ : ∃ k, m = k + 1 := ⟨m - 1, by omega⟩
    rw [parseLoop] at h ⊢
    cases hround : nextRound b with
    | leave d => rw [hround] at h; exact h
    | packet total msgType raw =>
      rw [hround] at h
      dsimp only at h ⊢
      cases hd : decodeProtoToJson n msgType raw with
      | none => rw [hd] at h; exact absurd h (by simp)
      | some json =>
        rw [hd] at h
        rw [decodeProtoToJson_mono (show n ≤ m by omega) hd]
        exact ih (by omega) h

/-- What the packets look like once extracted. -/
def Reads (xs : List Extracted) (ps : List Packet) : Prop :=
  xs.map (fun x => (x.msgType, x.raw)) = ps.map fun p => (p.type, p.body)

/-- **The loop extracts the complete packets** and keeps the tail, given that the decoder
    ends on each of them. -/
theorem parseLoop_ends (hj : junk.length < 4) : ∀ {ps : List Packet} {b : PoolRecvBuffer}
    (acc : List Extracted), b.Ok → b.content <+: frames ps ++ junk →
    (∀ p ∈ (progress ps b.content).complete, DecodeEnds p.type p.body) →
    ∃ n b' xs, (∀ fuel, n ≤ fuel → parseLoop fuel b acc = some (b', acc ++ xs, false)) ∧ b'.Ok ∧
      b'.content = (progress ps b.content).tail ∧ Reads xs (progress ps b.content).complete := by
  intro ps
  induction ps with
  | nil =>
    intro b acc hok hpre _
    refine ⟨1, b, [], ?_, hok, rfl, rfl⟩
    intro fuel hfuel
    obtain ⟨n, rfl⟩ : ∃ k, fuel = k + 1 := ⟨fuel - 1, by omega⟩
    rw [parseLoop_incomplete hj hok hpre rfl, List.append_nil]
  | cons p ps ih =>
    intro b acc hok hpre hdec
    by_cases hfull : p.frame.length ≤ b.content.length
    · obtain ⟨hcok, hcc⟩ := PoolRecvBuffer.consume_spec hok p.frame.length
      have hprog : progress (p :: ps) b.content
          = ⟨p :: (progress ps (b.consume p.frame.length).content).complete,
              (progress ps (b.consume p.frame.length).content).coming,
              (progress ps (b.consume p.frame.length).content).tail⟩ := by
        rw [progress, if_pos hfull, hcc]
      rw [hprog] at hdec ⊢
      obtain ⟨m, hm⟩ := hdec p List.mem_cons_self
      obtain ⟨json, hjson⟩ := Option.isSome_iff_exists.mp hm
      have hpre' : (b.consume p.frame.length).content <+: frames ps ++ junk := by
        rw [hcc]; exact (frame_within hpre hfull).2
      obtain ⟨n, b', xs, hrun, hok', hc', hx⟩ :=
        @ih (b.consume p.frame.length) (acc ++ [⟨p.type, p.body, json⟩]) hcok hpre'
          fun q hq => hdec q (List.mem_cons_of_mem _ hq)
      refine ⟨max n m + 1, b', ⟨p.type, p.body, json⟩ :: xs, ?_, hok', hc', ?_⟩
      · intro fuel hfuel
        obtain ⟨k, rfl⟩ : ∃ k, fuel = k + 1 := ⟨fuel - 1, by omega⟩
        rw [parseLoop_complete hok hpre hfull, decodeProtoToJson_mono (by omega) hjson]
        dsimp only
        rw [hrun k (by omega), List.append_assoc]
        rfl
      · unfold Reads at hx ⊢
        simp only [List.map_cons, hx]
    · have hprog : progress (p :: ps) b.content = ⟨[], p :: ps, b.content⟩ := by
        rw [progress, if_neg hfull]
      rw [hprog]
      refine ⟨1, b, [], ?_, hok, rfl, rfl⟩
      intro fuel hfuel
      obtain ⟨n, rfl⟩ : ∃ k, fuel = k + 1 := ⟨fuel - 1, by omega⟩
      rw [parseLoop_incomplete hj hok hpre (by rw [hprog]), List.append_nil]

/-- …and it has to: a loop that came back has decoded every complete packet. -/
theorem decodeEnds_of_parseLoop : ∀ {ps : List Packet} {b : PoolRecvBuffer} {acc : List Extracted}
    {fuel : Nat} {r : PoolRecvBuffer × List Extracted × Bool}, b.Ok →
    b.content <+: frames ps ++ junk → parseLoop fuel b acc = some r →
    ∀ p ∈ (progress ps b.content).complete, DecodeEnds p.type p.body := by
  intro ps
  induction ps with
  | nil => intro b acc fuel r _ _ _ p hp; exact absurd hp (by simp [progress])
  | cons q ps ih =>
    intro b acc fuel r hok hpre hr p hp
    by_cases hfull : q.frame.length ≤ b.content.length
    · obtain ⟨hcok, hcc⟩ := PoolRecvBuffer.consume_spec hok q.frame.length
      rw [progress, if_pos hfull] at hp
      cases fuel with
      | zero => exact absurd hr (by simp [parseLoop])
      | succ fuel =>
        rw [parseLoop_complete hok hpre hfull] at hr
        cases hd : decodeProtoToJson fuel q.type q.body with
        | none => rw [hd] at hr; exact absurd hr (by simp)
        | some json =>
          rw [hd] at hr
          rcases List.mem_cons.mp hp with rfl | hp
          · exact ⟨fuel, by rw [hd]; rfl⟩
          · rw [← hcc] at hp
            exact ih hcok (by rw [hcc]; exact (frame_within hpre hfull).2) hr p hp
    · rw [progress, if_neg hfull] at hp
      exact absurd hp (by simp)

/-! ## 3. One call -/

/-- The kernel's answers of a call that ends in `EAGAIN`. -/
def answers (chunks : List Bytes) : List RecvResult := chunks.map .data ++ [.wouldBlock]

theorem recvLoop_fits : ∀ {chunks : List Bytes} {b : PoolRecvBuffer}, b.Ok →
    b.content.length + chunks.flatten.length ≤ 2 ^ 63 →
    ∃ b', recvLoop b (answers chunks) = some (b', false) ∧ b'.Ok ∧
      b'.content = b.content ++ chunks.flatten := by
  intro chunks
  induction chunks with
  | nil => intro b hok _; exact ⟨b, rfl, hok, by simp⟩
  | cons c cs ih =>
    intro b hok hlen
    rw [List.flatten_cons, List.length_append, PoolRecvBuffer.length_content] at hlen
    obtain ⟨b₁, ha, hok₁, hc₁⟩ := PoolRecvBuffer.append_spec hok (show b.m_size + c.length ≤ 2 ^ 63 by omega)
    have hlen₁ : b₁.content.length + cs.flatten.length ≤ 2 ^ 63 := by
      rw [hc₁, List.length_append, PoolRecvBuffer.length_content]
      omega
    obtain ⟨b', hr, hok', hc'⟩ := ih hok₁ hlen₁
    refine ⟨b', ?_, hok', by rw [hc', hc₁, List.flatten_cons, List.append_assoc]⟩
    simp only [answers, List.map_cons, List.cons_append, recvLoop, ha]
    exact hr

/-- A call that came back has stayed within `2 ^ 63` bytes. -/
theorem fits_of_recvLoop : ∀ {chunks : List Bytes} {b : PoolRecvBuffer}
    {r : PoolRecvBuffer × Bool}, (∀ c ∈ chunks, c.length ≤ READ_BUFFER_SIZE) → b.Ok →
    recvLoop b (answers chunks) = some r → b.content.length + chunks.flatten.length ≤ 2 ^ 63 := by
  intro chunks
  induction chunks with
  | nil =>
    intro b r _ hok _
    have h₁ := hok.size_le
    have h₂ := hok.capacity_le
    rw [List.flatten_nil, List.length_nil, PoolRecvBuffer.length_content]
    omega
  | cons c cs ih =>
    intro b r hsmall hok hr
    have hc := hsmall c List.mem_cons_self
    unfold READ_BUFFER_SIZE at hc
    simp only [answers, List.map_cons, List.cons_append, recvLoop] at hr
    by_cases hlen : b.m_size + c.length ≤ 2 ^ 63
    · obtain ⟨b₁, ha, hok₁, hc₁⟩ := PoolRecvBuffer.append_spec hok hlen
      rw [ha] at hr
      have h := ih (fun c' hc' => hsmall c' (List.mem_cons_of_mem _ hc')) hok₁ hr
      rw [hc₁, List.length_append] at h
      rw [List.flatten_cons, List.length_append]
      omega
    · rw [PoolRecvBuffer.append_overflow hok (by omega) (by omega)] at hr
      exact absurd hr (by simp)

/-! ## 4. Successive calls -/

/-- No call has to buffer more than `2 ^ 63` bytes: the tail the calls before it left,
    and what it receives itself. -/
def FitsBuffer (ps : List Packet) (calls : List (List Bytes)) : Prop :=
  ∀ pre c, pre ++ [c] <+: calls →
    (progress ps pre.flatten.flatten).tail.length + c.flatten.length ≤ 2 ^ 63

/-- `FitsBuffer` from a given tail on. -/
def FitsFrom (ps : List Packet) (tail : Bytes) (calls : List (List Bytes)) : Prop :=
  ∀ pre c, pre ++ [c] <+: calls →
    (progress ps (tail ++ pre.flatten.flatten)).tail.length + c.flatten.length ≤ 2 ^ 63

theorem fitsFrom_cons {ps : List Packet} {tail : Bytes} {c : List Bytes} {cs : List (List Bytes)}
    (hidle : Idle ps tail) :
    FitsFrom ps tail (c :: cs) ↔ tail.length + c.flatten.length ≤ 2 ^ 63 ∧
      FitsFrom (progress ps (tail ++ c.flatten)).coming (progress ps (tail ++ c.flatten)).tail cs := by
  have htail : (progress ps tail).tail = tail := by rw [hidle]
  have hgo : ∀ pre : List (List Bytes), (progress ps (tail ++ (c :: pre).flatten.flatten)).tail
      = (progress (progress ps (tail ++ c.flatten)).coming
          ((progress ps (tail ++ c.flatten)).tail ++ pre.flatten.flatten)).tail := by
    intro pre
    rw [List.flatten_cons, List.flatten_append, ← List.append_assoc, progress_append]
  constructor
  · intro h
    refine ⟨?_, ?_⟩
    · have h₀ := h [] c (by simp)
      rw [List.flatten_nil, List.flatten_nil, List.append_nil, htail] at h₀
      exact h₀
    · intro pre c' hp
      have h₁ := h (c :: pre) c' (by simpa using hp)
      rw [hgo] at h₁
      exact h₁
  · rintro ⟨h₀, h₁⟩ pre c' hp
    cases pre with
    | nil =>
      simp only [List.nil_append, List.cons_prefix_cons, List.nil_prefix, and_true] at hp
      subst hp
      rw [List.flatten_nil, List.flatten_nil, List.append_nil, htail]
      exact h₀
    | cons c₁ pre =>
      simp only [List.cons_append, List.cons_prefix_cons] at hp
      obtain ⟨rfl, hp⟩ := hp
      rw [hgo]
      exact h₁ pre c' hp

/-- One call takes the progress from the bytes before it to the bytes after it. -/
theorem handleRead_ends {ps : List Packet} {b : PoolRecvBuffer} {c : List Bytes}
    (hj : junk.length < 4) (hok : b.Ok)
    (hpre : b.content ++ c.flatten <+: frames ps ++ junk)
    (hfit : b.content.length + c.flatten.length ≤ 2 ^ 63)
    (hdec : ∀ p ∈ (progress ps (b.content ++ c.flatten)).complete, DecodeEnds p.type p.body) :
    ∃ n b' xs, (∀ fuel, n ≤ fuel → handleRead fuel b (answers c) = some ⟨b', false, xs⟩) ∧ b'.Ok ∧
      b'.content = (progress ps (b.content ++ c.flatten)).tail ∧
      Reads xs (progress ps (b.content ++ c.flatten)).complete := by
  obtain ⟨b₁, hrecv, hok₁, hc₁⟩ := recvLoop_fits hok hfit
  rw [← hc₁] at hpre hdec ⊢
  obtain ⟨n, b', xs, hparse, hok', hc', hx⟩ := parseLoop_ends hj [] hok₁ hpre hdec
  refine ⟨n, b', xs, ?_, hok', hc', hx⟩
  intro fuel hfuel
  rw [handleRead, hrecv]
  dsimp only
  rw [hparse fuel hfuel]
  rfl

/-- A call that came back met both conditions, and did what `handleRead_ends` says. -/
theorem handleRead_needs {ps : List Packet} {b : PoolRecvBuffer} {c : List Bytes} {fuel : Nat}
    {r : ReadResult} (hj : junk.length < 4) (hsmall : ∀ x ∈ c, x.length ≤ READ_BUFFER_SIZE)
    (hok : b.Ok) (hpre : b.content ++ c.flatten <+: frames ps ++ junk)
    (hr : handleRead fuel b (answers c) = some r) :
    b.content.length + c.flatten.length ≤ 2 ^ 63 ∧
      (∀ p ∈ (progress ps (b.content ++ c.flatten)).complete, DecodeEnds p.type p.body) ∧
      r.disconnected = false ∧ r.buffer.Ok ∧
      r.buffer.content = (progress ps (b.content ++ c.flatten)).tail := by
  have hfit : b.content.length + c.flatten.length ≤ 2 ^ 63 := by
    cases hrecv : recvLoop b (answers c) with
    | none => rw [handleRead, hrecv] at hr; exact absurd hr (by simp)
    | some p => exact fits_of_recvLoop hsmall hok hrecv
  obtain ⟨b₁, hrecv, hok₁, hc₁⟩ := recvLoop_fits hok hfit
  rw [handleRead, hrecv] at hr
  dsimp only at hr
  cases hparse : parseLoop fuel b₁ [] with
  | none => rw [hparse] at hr; exact absurd hr (by simp)
  | some p =>
    rw [← hc₁] at hpre ⊢
    have hdec := decodeEnds_of_parseLoop hok₁ hpre hparse
    obtain ⟨n, b', xs, hends, hok', hc', -⟩ := parseLoop_ends hj [] hok₁ hpre hdec
    have heq := parseLoop_mono (Nat.le_max_left fuel n) hparse
    rw [hends _ (Nat.le_max_right fuel n)] at heq
    rw [hparse, ← Option.some.inj heq] at hr
    simp only [Option.some.injEq] at hr
    subst hr
    exact ⟨hfit, hdec, rfl, hok', hc'⟩

theorem handleReads_ends (hj : junk.length < 4) : ∀ {calls : List (List Bytes)}
    {ps : List Packet} {b : PoolRecvBuffer}, b.Ok → Idle ps b.content → b.content ++ calls.flatten.flatten <+: frames ps ++ junk →
    FitsFrom ps b.content calls →
    (∀ p ∈ (progress ps (b.content ++ calls.flatten.flatten)).complete, DecodeEnds p.type p.body) →
    ∃ n b' xs, (∀ fuel, n ≤ fuel → handleReads fuel b (calls.map answers) = some ⟨b', false, xs⟩) ∧
      b'.Ok ∧ b'.content = (progress ps (b.content ++ calls.flatten.flatten)).tail ∧
      Reads xs (progress ps (b.content ++ calls.flatten.flatten)).complete := by
  intro calls
  induction calls with
  | nil =>
    intro ps b hok hidle _ _ _
    refine ⟨0, b, [], fun _ _ => rfl, hok, ?_, ?_⟩
    · rw [List.flatten_nil, List.flatten_nil, List.append_nil, hidle]
    · rw [List.flatten_nil, List.flatten_nil, List.append_nil, hidle]
      rfl
  | cons c cs ih =>
    intro ps b hok hidle hpre hfit hdec
    obtain ⟨hfit₀, hfit₁⟩ := (fitsFrom_cons hidle).mp hfit
    rw [List.flatten_cons, List.flatten_append, ← List.append_assoc] at hpre hdec ⊢
    rw [progress_append] at hdec ⊢
    obtain ⟨n₀, b₁, xs₁, hrun₁, hok₁, hc₁, hx₁⟩ := handleRead_ends hj hok
      ((List.prefix_append _ _).trans hpre) hfit₀
      fun p hp => hdec p (List.mem_append_left _ hp)
    rw [← hc₁] at hfit₁ hdec ⊢
    obtain ⟨n₁, b', xs, hrun, hok', hc', hx⟩ := ih hok₁ (by rw [hc₁]; exact idle_progress ps _)
      (by rw [hc₁]; exact progress_within hpre) hfit₁
      fun p hp => hdec p (List.mem_append_right _ hp)
    refine ⟨max n₀ n₁, b', xs₁ ++ xs, ?_, hok', hc', ?_⟩
    · intro fuel hfuel
      rw [List.map_cons, handleReads, hrun₁ fuel (by omega)]
      dsimp only
      rw [if_neg (by simp), hrun fuel (by omega)]
    · unfold Reads at hx₁ hx ⊢
      rw [List.map_append, List.map_append, hx₁, hx]

theorem handleReads_needs (hj : junk.length < 4) : ∀ {calls : List (List Bytes)}
    {ps : List Packet} {b : PoolRecvBuffer} {fuel : Nat} {r : ReadResult}, (∀ c ∈ calls, ∀ x ∈ c, x.length ≤ READ_BUFFER_SIZE) → b.Ok →
    Idle ps b.content → b.content ++ calls.flatten.flatten <+: frames ps ++ junk →
    handleReads fuel b (calls.map answers) = some r →
    FitsFrom ps b.content calls ∧
      ∀ p ∈ (progress ps (b.content ++ calls.flatten.flatten)).complete, DecodeEnds p.type p.body := by
  intro calls
  induction calls with
  | nil =>
    intro ps b fuel r _ hok hidle _ _
    refine ⟨fun pre c hp => absurd hp (by simp), ?_⟩
    rw [List.flatten_nil, List.flatten_nil, List.append_nil, hidle]
    intro p hp
    exact absurd hp (by simp)
  | cons c cs ih =>
    intro ps b fuel r hsmall hok hidle hpre hr
    rw [List.flatten_cons, List.flatten_append, ← List.append_assoc] at hpre ⊢
    rw [List.map_cons, handleReads] at hr
    cases h₁ : handleRead fuel b (answers c) with
    | none => rw [h₁] at hr; exact absurd hr (by simp)
    | some r₁ =>
      rw [h₁] at hr
      dsimp only at hr
      obtain ⟨hfit, hdec, hconn, hok₁, hc₁⟩ := handleRead_needs hj (hsmall c List.mem_cons_self) hok
        ((List.prefix_append _ _).trans hpre) h₁
      rw [if_neg (by rw [hconn]; simp)] at hr
      cases h₂ : handleReads fuel r₁.buffer (cs.map answers) with
      | none => rw [h₂] at hr; exact absurd hr (by simp)
      | some r₂ =>
        obtain ⟨hfits, hdecs⟩ := ih (fun c' hc' => hsmall c' (List.mem_cons_of_mem _ hc')) hok₁
          (by rw [hc₁]; exact idle_progress ps _) (by rw [hc₁]; exact progress_within hpre) h₂
        rw [hc₁] at hfits hdecs
        refine ⟨(fitsFrom_cons hidle).mpr ⟨hfit, hfits⟩, ?_⟩
        rw [progress_append]
        intro p hp
        rcases List.mem_append.mp hp with hp | hp
        · exact hdec p hp
        · exact hdecs p hp

/-! ## 5. The stream -/

/-- What the calls are expected to do with the stream they received: come back, extract
    the packets complete by then, in order and with their exact type and raw body, keep
    the rest in the buffer, and not disconnect. -/
def FramesRead (ps : List Packet) (calls : List (List Bytes)) : Prop :=
  ∃ fuel r, handleReads fuel (.create 4096) (calls.map answers) = some r ∧
    r.disconnected = false ∧
    r.packets.map (fun x => (x.msgType, x.raw))
      = (progress ps calls.flatten.flatten).complete.map (fun p => (p.type, p.body)) ∧
    r.buffer.content = (progress ps calls.flatten.flatten).tail

/-- **Framing is independent of chunking**, exactly when the calls come back: for every
    list of packets, every head of their stream, and every way of cutting it into reads
    and calls. -/
theorem frames_read_iff {ps : List Packet} {calls : List (List Bytes)}
    (hcut : ∀ c ∈ calls, ∀ x ∈ c, 1 ≤ x.length ∧ x.length ≤ READ_BUFFER_SIZE)
    (hpre : calls.flatten.flatten <+: frames ps) :
    FramesRead ps calls ↔ FitsBuffer ps calls ∧
      ∀ p ∈ (progress ps calls.flatten.flatten).complete, DecodeEnds p.type p.body := by
  obtain ⟨hok, hc⟩ := PoolRecvBuffer.create_spec (show 4096 ≤ 2 ^ 63 by decide)
  have hidle : Idle ps (PoolRecvBuffer.create 4096).content := by
    rw [hc]
    cases ps with
    | nil => rfl
    | cons p ps => rw [Idle, progress, if_neg (by rw [Packet.length_frame]; simp)]
  have hfrom : FitsFrom ps (PoolRecvBuffer.create 4096).content calls ↔ FitsBuffer ps calls := by
    rw [hc]
    exact Iff.rfl
  have hpre' : (PoolRecvBuffer.create 4096).content ++ calls.flatten.flatten <+: frames ps ++ [] := by
    rw [hc, List.append_nil]
    exact hpre
  constructor
  · rintro ⟨fuel, r, hr, -⟩
    have h := handleReads_needs (by simp) (fun c hc x hx => (hcut c hc x hx).2) hok hidle hpre' hr
    rw [hfrom, hc] at h
    exact h
  · rintro ⟨hfit, hdec⟩
    obtain ⟨n, b', xs, hrun, -, hc', hx⟩ := handleReads_ends (by simp) hok hidle hpre' (hfrom.mpr hfit)
      (by rw [hc]; exact hdec)
    rw [hc] at hc' hx
    exact ⟨n, _, hrun n (Nat.le_refl n), rfl, hx, hc'⟩

/-- A stream of at most `2 ^ 63` bytes always fits. -/
theorem fitsBuffer_of_length {ps : List Packet} {calls : List (List Bytes)}
    (h : calls.flatten.flatten.length ≤ 2 ^ 63) : FitsBuffer ps calls := by
  have htail : ∀ (ps : List Packet) (x : Bytes), (progress ps x).tail.length ≤ x.length := by
    intro ps
    induction ps with
    | nil => intro x; exact Nat.le_refl _
    | cons p ps ih =>
      intro x
      rw [progress]
      split
      · have := ih (x.drop p.frame.length)
        rw [List.length_drop] at this
        dsimp only
        omega
      · exact Nat.le_refl _
  rintro pre c ⟨rest, rfl⟩
  have := htail ps pre.flatten.flatten
  simp only [List.flatten_append, List.length_append, List.flatten_cons, List.flatten_nil,
    List.append_nil] at h
  omega

/-- A heartbeat in two calls, cut inside its length field. -/
theorem frames_read_heartbeat :
    FramesRead [⟨2, [], by decide⟩] [[[0, 0, 0]], [[6, 0], [2]]] := by
  refine (frames_read_iff (by decide) (by decide)).mpr ⟨fitsBuffer_of_length (by decide), ?_⟩
  intro p hp
  have hp' : p ∈ [(⟨2, [], by decide⟩ : Packet)] := hp
  rw [List.mem_singleton] at hp'
  subst hp'
  exact ⟨0, rfl⟩

/-! ## 6. A body the decoder does not come back from -/

/-- **One packet stops the reactor.** Its frame is well formed and arrives in one piece. -/
theorem frames_not_read :
    (∀ c ∈ [[Packet.frame ⟨1, circularBody, by decide⟩]], ∀ x ∈ c,
      1 ≤ x.length ∧ x.length ≤ READ_BUFFER_SIZE) ∧
    [[Packet.frame ⟨1, circularBody, by decide⟩]].flatten.flatten
      <+: frames [⟨1, circularBody, by decide⟩] ∧
    ¬ FramesRead [⟨1, circularBody, by decide⟩] [[Packet.frame ⟨1, circularBody, by decide⟩]] := by
  have hcut : ∀ c ∈ [[Packet.frame ⟨1, circularBody, by decide⟩]], ∀ x ∈ c,
      1 ≤ x.length ∧ x.length ≤ READ_BUFFER_SIZE := by decide
  have hpre : [[Packet.frame ⟨1, circularBody, by decide⟩]].flatten.flatten
      <+: frames [⟨1, circularBody, by decide⟩] := by decide
  refine ⟨hcut, hpre, ?_⟩
  rintro ⟨fuel, r, hr, -⟩
  obtain ⟨hok, hc⟩ := PoolRecvBuffer.create_spec (show 4096 ≤ 2 ^ 63 by decide)
  have hidle : Idle [⟨1, circularBody, by decide⟩] (PoolRecvBuffer.create 4096).content := by
    rw [hc]; rfl
  have hpre' : (PoolRecvBuffer.create 4096).content ++
      [[Packet.frame ⟨1, circularBody, by decide⟩]].flatten.flatten
        <+: frames [⟨1, circularBody, by decide⟩] ++ [] := by
    rw [hc, List.append_nil]
    exact hpre
  obtain ⟨-, hdec⟩ := handleReads_needs (by simp) (fun c hc x hx => (hcut c hc x hx).2) hok hidle
    hpre' hr
  rw [hc] at hdec
  obtain ⟨n, hn⟩ := hdec ⟨1, circularBody, by decide⟩ List.mem_cons_self
  rw [decodeProtoToJson, if_neg (by decide), decodeLoop_circular] at hn
  exact absurd hn (by simp)

end Input
end EpollChat
