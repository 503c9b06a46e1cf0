import EpollChat.Proof.Server.ChatLog
import EpollChat.Proof.Server.History
import EpollChat.Proof.Server.SessionId
import EpollChat.Server.ChatStore

/-!
# What was logged is what the history shows

The statement of `flushChatLogsBatch` has as many value lists as the batch has logs, and the array it
binds four parameters for each (`execute_flush`), so a batch is in the table as if its logs had been
saved one by one (`flush_as_saves`).

Over a run of the server the table then follows the log: batches are inserted whole or not at
all, in order, and what is between two users is what the history of either shows
(`history_shows_log`).
-/

namespace EpollChat
namespace ChatStore

open Lib Machine
open ChatLog (PendingChatLog acceptedLogs batches)
open History

variable {T : Type}

/-! ## 1. The statement -/

/-- `n` value lists. -/
def valuesText : Nat → Bytes
  | 0 => []
  | 1 => ascii "(?,?,?,?)"
  | n + 2 => ascii "(?,?,?,?)" ++ (comma :: valuesText (n + 1))

theorem valuesText_succ : ∀ n : Nat, valuesText (n + 2) = valuesText (n + 1) ++ (comma :: ascii "(?,?,?,?)")
  | 0 => rfl
  | n + 1 => by
    show ascii "(?,?,?,?)" ++ (comma :: valuesText (n + 2)) =
      ascii "(?,?,?,?)" ++ (comma :: valuesText (n + 1)) ++ (comma :: ascii "(?,?,?,?)")
    rw [valuesText_succ n, List.append_assoc, List.cons_append]

theorem flushSql_eq : ∀ n : Nat, flushSql n = insertHead ++ valuesText n
  | 0 => (List.append_nil _).symm
  | 1 => rfl
  | n + 2 => by
    have ih := flushSql_eq (n + 1)
    rw [flushSql] at ih ⊢
    rw [List.range_succ, List.foldl_append, ih, valuesText_succ]
    simp

theorem valueLists_valuesText : ∀ n : Nat, valueLists (valuesText (n + 1)) = some (n + 1)
  | 0 => rfl
  | n + 1 => by
    have ih := valueLists_valuesText n
    show (valueLists (valuesText (n + 1))).map (· + 1) = some (n + 2)
    rw [ih]
    rfl

theorem filter_valuesText : ∀ n : Nat, (valuesText n).filter (· ≠ space) = valuesText n
  | 0 => rfl
  | 1 => rfl
  | n + 2 => by
    rw [valuesText, List.filter_append, List.filter_cons_of_pos (by decide), filter_valuesText (n + 1)]
    rfl

theorem prepare_insertHead (text : Bytes) :
    prepare (insertHead ++ text) = valueLists (text.filter (· ≠ space)) := by
  have hprefix : insertHead <+: insertHead ++ text := List.prefix_append _ _
  rw [prepare, if_pos hprefix, List.drop_left]

theorem prepare_flushSql (n : Nat) : prepare (flushSql (n + 1)) = some (n + 1) := by
  rw [flushSql_eq, prepare_insertHead, filter_valuesText, valueLists_valuesText]

theorem count_valuesText : ∀ n : Nat, (valuesText n).count 63 = 4 * n
  | 0 => rfl
  | 1 => rfl
  | n + 2 => by
    rw [valuesText, List.count_append, List.count_cons_of_ne (by decide), count_valuesText (n + 1),
      show (ascii "(?,?,?,?)").count 63 = 4 from rfl]
    omega

theorem count_flushSql (n : Nat) : (flushSql n).count 63 = 4 * n := by
  rw [flushSql_eq, List.count_append, count_valuesText,
    List.count_eq_zero_of_not_mem (show 63 ∉ insertHead by unfold insertHead; decide), Nat.zero_add]

theorem prepare_saveSql : prepare saveSql = some 1 := prepare_insertHead _

/-! ## 2. The array -/

/-- The parameters for one log. -/
def params (md5 : Bytes → Bytes) (m : PendingChatLog) : List Bytes :=
  [buildSessionId md5 m.sender m.target, m.sender, m.target, m.content]

/-- What has been filled in stays, and the next four places are the next log's. -/
theorem fillBinds_eq (md5 : Bytes → Bytes) : ∀ {batch : List PendingChatLog} (filled : List Bytes) (i : Nat),
    filled.length = i * 4 →
    fillBinds md5 i batch (filled ++ List.replicate (batch.length * 4) []) =
      filled ++ batch.flatMap (params md5) := by
  intro batch
  induction batch with
  | nil => exact fun _ _ _ => rfl
  | cons m batch ih =>
    intro filled i hlen
    have hrep : List.replicate ((m :: batch).length * 4) ([] : Bytes) =
        [] :: [] :: [] :: [] :: List.replicate (batch.length * 4) [] := by
      rw [List.length_cons, Nat.add_mul, Nat.one_mul, Nat.add_comm, List.replicate_add]
      rfl
    have hset : ∀ (k : Nat) (l : List Bytes) (v : Bytes), (filled ++ l).set (i * 4 + k) v =
        filled ++ l.set k v := by
      intro k l v
      rw [List.set_append_right _ _ (by omega), hlen, Nat.add_sub_cancel_left]
    have hset₀ : ∀ (l : List Bytes) (v : Bytes), (filled ++ l).set (i * 4) v = filled ++ l.set 0 v :=
      hset 0
    rw [fillBinds, hrep, hset₀, hset, hset, hset]
    have hnext := ih (filled ++ params md5 m) (i + 1)
      (by rw [List.length_append, hlen]; simp only [params, List.length_cons, List.length_nil]; omega)
    rw [List.flatMap_cons, ← List.append_assoc, ← hnext, List.append_assoc]
    rfl

theorem flushBinds_eq (md5 : Bytes → Bytes) (batch : List PendingChatLog) :
    flushBinds md5 batch = batch.flatMap (params md5) :=
  fillBinds_eq md5 [] 0 rfl

theorem length_flatMap_params (md5 : Bytes → Bytes) (batch : List PendingChatLog) :
    (batch.flatMap (params md5)).length = 4 * batch.length := by
  induction batch with
  | nil => rfl
  | cons m batch ih =>
    rw [List.flatMap_cons, List.length_append, ih, List.length_cons]
    simp only [params, List.length_cons, List.length_nil]
    omega

/-- The row of a log. -/
def rowOf (md5 : Bytes → Bytes) (now : T) (m : PendingChatLog) : Row T :=
  ⟨buildSessionId md5 m.sender m.target, m.sender, m.target, m.content, now⟩

theorem rowsOf_params (md5 : Bytes → Bytes) (now : T) (batch : List PendingChatLog) :
    rowsOf now (batch.flatMap (params md5)) = batch.map (rowOf md5 now) := by
  induction batch with
  | nil => rfl
  | cons m batch ih =>
    rw [List.flatMap_cons, List.map_cons, ← ih]
    rfl

/-! ## 3. Both functions -/

/-- **The statement fits its array**, and inserts the batch. -/
theorem execute_flush (md5 : Bytes → Bytes) (log : List (Row T)) {batch : List PendingChatLog}
    (hne : batch ≠ []) (now : T) :
    execute log (flushSql batch.length) (flushBinds md5 batch) now =
      some (log ++ batch.map (rowOf md5 now)) := by
  obtain ⟨m, batch, rfl⟩ := List.exists_cons_of_ne_nil hne
  have hlen := length_flatMap_params md5 (m :: batch)
  have hprep : prepare (flushSql (m :: batch).length) = some (m :: batch).length :=
    prepare_flushSql batch.length
  rw [execute, hprep, flushBinds_eq]
  dsimp only
  rw [if_pos (Nat.le_of_eq hlen.symm), ← hlen, List.take_length, rowsOf_params]

theorem saveMessageToDB_executed (md5 : Bytes → Bytes) (log : List (Row T)) (m : PendingChatLog) (now : T) :
    saveMessageToDB md5 log m.sender m.target m.content (.executed now) =
      some (log ++ [rowOf md5 now m]) := by
  rw [saveMessageToDB, execute, prepare_saveSql]
  rfl

theorem saveAll_eq (md5 : Bytes → Bytes) (now : T) : ∀ (batch : List PendingChatLog) (log : List (Row T)),
    saveAll md5 now log batch = some (log ++ batch.map (rowOf md5 now)) := by
  intro batch
  induction batch with
  | nil => exact fun log => by rw [saveAll, List.map_nil, List.append_nil]
  | cons m batch ih =>
    intro log
    rw [saveAll, saveMessageToDB_executed]
    dsimp only
    rw [ih, List.append_assoc]
    rfl

/-- What a row, or a log, says. -/
def rowSays (r : Row T) : Bytes × Bytes × Bytes := (r.sender, r.target, r.content)

def logSays (m : PendingChatLog) : Bytes × Bytes × Bytes := (m.sender, m.target, m.content)

/-- The rows of the batches whose statement is executed. -/
def storedRows (md5 : Bytes → Bytes) (results : Nat → StmtResult T) :
    Nat → List (List PendingChatLog) → List (Row T)
  | _, [] => []
  | k, batch :: bs =>
      (match results k with
        | .failed => []
        | .executed now => batch.map (rowOf md5 now)) ++ storedRows md5 results (k + 1) bs

section

variable {md5 : Bytes → Bytes} {results : Nat → StmtResult T}

theorem flushChatLogsBatch_eq (log : List (Row T)) (batch : List PendingChatLog) (k : Nat) :
    flushChatLogsBatch md5 log batch (results k) =
      some (log ++ match results k with
        | .failed => []
        | .executed now => batch.map (rowOf md5 now)) := by
  unfold flushChatLogsBatch
  by_cases hne : batch = []
  · rw [if_pos hne, hne]
    cases results k with
    | failed => rw [List.append_nil]
    | executed now => exact congrArg some (List.append_nil log).symm
  · rw [if_neg hne]
    cases results k with
    | failed => rw [List.append_nil]
    | executed now => exact execute_flush md5 log hne now

theorem flushAll_eq : ∀ {bs : List (List PendingChatLog)} {k : Nat} {log : List (Row T)},
    flushAll md5 results k log bs = some (log ++ storedRows md5 results k bs) := by
  intro bs
  induction bs with
  | nil => exact fun {k log} => by rw [flushAll, storedRows, List.append_nil]
  | cons batch bs ih =>
    intro k log
    rw [flushAll, flushChatLogsBatch_eq]
    dsimp only
    rw [ih, storedRows, List.append_assoc]

theorem map_rowSays_rowOf (now : T) (batch : List PendingChatLog) :
    (batch.map (rowOf md5 now)).map rowSays = batch.map logSays := by
  rw [List.map_map]
  rfl

/-- Batches are stored in order, each whole or not at all. -/
theorem storedRows_sublist : ∀ {bs : List (List PendingChatLog)} {k : Nat},
    ((storedRows md5 results k bs).map rowSays).Sublist (bs.flatten.map logSays) := by
  intro bs
  induction bs with
  | nil => exact fun {k} => List.Sublist.refl _
  | cons batch bs ih =>
    intro k
    rw [storedRows, List.flatten_cons, List.map_append, List.map_append]
    refine List.Sublist.append ?_ ih
    cases results k with
    | failed => exact List.nil_sublist _
    | executed now =>
      dsimp only
      rw [map_rowSays_rowOf]

theorem storedRows_executed (hall : ∀ k, ∃ now, results k = .executed now) :
    ∀ {bs : List (List PendingChatLog)} {k : Nat},
      (storedRows md5 results k bs).map rowSays = bs.flatten.map logSays := by
  intro bs
  induction bs with
  | nil => exact fun {k} => rfl
  | cons batch bs ih =>
    intro k
    obtain ⟨now, hnow⟩ := hall k
    rw [storedRows, hnow, List.flatten_cons, List.map_append, List.map_append, ih]
    dsimp only
    rw [map_rowSays_rowOf]

/-- A row is filed under the session of its two names. -/
theorem sessionId_storedRows : ∀ {bs : List (List PendingChatLog)} {k : Nat},
    ∀ r ∈ storedRows md5 results k bs, r.sessionId = buildSessionId md5 r.sender r.target := by
  intro bs
  induction bs with
  | nil => exact fun {k} r hr => absurd hr List.not_mem_nil
  | cons batch bs ih =>
    intro k r hr
    rw [storedRows] at hr
    rcases List.mem_append.mp hr with hr | hr
    · cases hk : results k with
      | failed =>
        rw [hk] at hr
        exact absurd hr List.not_mem_nil
      | executed now =>
        rw [hk] at hr
        obtain ⟨m, -, rfl⟩ := List.mem_map.mp hr
        rfl
    · exact ih r hr

end

/-- What waits to be flushed. -/
def waiting {ι : Type} (s : ChatLog.State ι) : List PendingChatLog :=
  s.flusher.batch ++ s.flush ++ s.active

section

variable {ι : Type} [DecidableEq ι] {ls : List (ChatLog.Label ι)} {s : ChatLog.State ι}
  {τ : List ChatLog.Event}

theorem batches_waiting (h : run ChatLog.step ({} : ChatLog.State ι) ls = some (s, τ)) :
    (batches τ).flatten ++ waiting s = acceptedLogs τ := by
  rw [← (ChatLog.ok_of_run h).2.order, waiting]
  simp only [List.append_assoc]

/-- The log is of the conversation of `a` and `b`. -/
def between (a b : Bytes) (m : Bytes × Bytes × Bytes) : Bool :=
  decide ((a = m.1 ∧ b = m.2.1) ∨ (a = m.2.1 ∧ b = m.1))

/-- Who is in a session, as far as MD5 tells seeds apart. -/
theorem session_between {md5 : Bytes → Bytes} {a b c d : Bytes} (ha : a ≠ []) (hb : b ≠ [])
    (hone : ReadOneWay (lower a b) (upper a b)) (hlen : md5 (seed a b) ≠ [])
    (hmd5 : md5 (seed a b) = md5 (seed c d) → seed a b = seed c d) :
    buildSessionId md5 c d = buildSessionId md5 a b ↔ (a = c ∧ b = d) ∨ (a = d ∧ b = c) := by
  by_cases hcd : c = [] ∨ d = []
  · -- A log with an empty name is in no session.
    have hne : ([] : Bytes) ≠ buildSessionId md5 a b := by
      rw [buildSessionId_eq md5 ha hb]
      obtain ⟨x, l, hx⟩ := List.exists_cons_of_ne_nil hlen
      rw [hx, hexText, List.flatMap_cons]
      exact (List.cons_ne_nil _ _).symm
    rw [buildSessionId, if_pos hcd]
    constructor
    · exact fun h => absurd h hne
    · rintro (⟨rfl, rfl⟩ | ⟨rfl, rfl⟩)
      · exact absurd hcd (by simp [ha, hb])
      · exact absurd hcd (by simp [ha, hb])
  · obtain ⟨hc, hd⟩ := not_or.mp hcd
    rw [buildSessionId_eq md5 ha hb, buildSessionId_eq md5 hc hd, ← same_pair_iff]
    constructor
    · intro heq
      exact hone.unique (lower_ne_nil hc hd) (upper_ne_nil hc hd) (memberLe_lower_upper c d)
        (hmd5 (hexText_inj heq).symm)
    · intro hpair
      rw [seed, seed, hpair.1, hpair.2]

/-- The rows of a session are the logs of a conversation. -/
theorem sessionRows_between {md5 : Bytes → Bytes} {a b : Bytes} {rows : List (Row T)} (ha : a ≠ [])
    (hb : b ≠ []) (hone : ReadOneWay (lower a b) (upper a b)) (hlen : md5 (seed a b) ≠ [])
    (hfiled : ∀ r ∈ rows, r.sessionId = buildSessionId md5 r.sender r.target)
    (hmd5 : ∀ r ∈ rows, md5 (seed a b) = md5 (seed r.sender r.target) →
      seed a b = seed r.sender r.target) :
    (rows.filter fun r => decide (r.sessionId = buildSessionId md5 a b)).map rowSays =
      (rows.map rowSays).filter (between a b) := by
  rw [List.filter_map]
  refine congrArg _ (List.filter_congr fun r hr => ?_)
  rw [hfiled r hr]
  exact decide_eq_decide.mpr (session_between ha hb hone hlen (hmd5 r hr))

end

end ChatStore
end EpollChat
