import EpollChat.Lib.Paging
import EpollChat.Proof.Wire.ChatBody
import EpollChat.Server.History

/-!
# Reading a conversation page by page

The cursor of a client is a timestamp, and the comparison with it is strict. Two messages with
the same timestamp, one the last of a page and the other the first of the next, are one message
too many: the second is never sent (`equal_timestamps_lost`). `history_complete_iff` says that
this, and a request that meets a full queue or a failed statement and is answered `[]`, are the
only ways to miss a message.

The paging itself is that of `Lib.pageThrough`; what is left to do here is to follow a timestamp
through its text and the JSON body of the next request.

Inside one answer a message can be missed too. The columns are fetched into buffers of fixed
size, and the loop takes a row that does not fit for the end of the rows
(`long_message_ends_answer`).
-/

namespace EpollChat
namespace History

open Lib

/-! ## 1. The request -/

theorem not_mem_of_isTimestamp {v : Bytes} (h : IsTimestamp v) {b : UInt8}
    (hb : isTimeChar b = false) : b ∉ v := by
  intro hm
  rw [h.2.2 b hm] at hb
  exact absurd hb (by simp)

theorem plain_of_isTimestamp {v : Bytes} (h : IsTimestamp v) : Plain v :=
  ⟨h.2.1, not_mem_of_isTimestamp h (by decide), not_mem_of_isTimestamp h (by decide)⟩

/-- A word with a letter in it is no timestamp. -/
theorem ne_of_isTimestamp {v key : Bytes} (h : IsTimestamp v) (hkey : key.all isTimeChar = false) :
    key ≠ v := by
  rintro rfl
  have hall : key.all isTimeChar = true := List.all_eq_true.mpr h.2.2
  rw [hall] at hkey
  exact absurd hkey (by simp)

theorem extract_last_timestamp {v : Bytes} (h : IsTimestamp v) (peer : Bytes) :
    extractJsonValue (historyRequest v peer) (ascii "last_timestamp") = v := by
  have hq : quote ∉ v := not_mem_of_isTimestamp h (by decide)
  refine extractJsonValue_of_seek (r := membersFrom comma [(ascii "peer", peer)]) (by decide) h.1
    (plain_of_isTimestamp h) hq ?_
  rw [historyRequest, objectText, seek_membersFrom (by decide) (by decide) (by decide) hq,
    if_pos rfl]

/-- The search for another key goes behind the timestamp. -/
theorem extract_behind {v key : Bytes} (h : IsTimestamp v) (peer : Bytes) (hk : IsKey key)
    (hne : key ≠ ascii "last_timestamp") (hkey : key.all isTimeChar = false) :
    extractJsonValue (historyRequest v peer) key
      = extractJsonValue (membersFrom comma [(ascii "peer", peer)]) key := by
  have hq : quote ∉ v := not_mem_of_isTimestamp h (by decide)
  rw [extractJsonValue, extractJsonValue, historyRequest, objectText,
    seek_membersFrom hk (by decide) (by decide) hq, if_neg hne, if_neg (ne_of_isTimestamp h hkey)]

/-- The session does not depend on the timestamp, and the timestamp gets through. -/
theorem historyArguments_request {md5 : Bytes → Bytes} {accountID peer v w x session : Bytes}
    (hv : IsTimestamp v) (hw : IsTimestamp w)
    (h : historyArguments md5 accountID (historyRequest v peer) = some (x, session)) :
    historyArguments md5 accountID (historyRequest w peer) = some (w, session) := by
  have hpeer : ∀ {u : Bytes}, IsTimestamp u → extractJsonValue (historyRequest u peer) (ascii "peer")
      = extractJsonValue (membersFrom comma [(ascii "peer", peer)]) (ascii "peer") :=
    fun hu => extract_behind hu peer (by decide) (by decide) (by decide)
  have htarget : ∀ {u : Bytes}, IsTimestamp u →
      extractJsonValue (historyRequest u peer) (ascii "target")
        = extractJsonValue (membersFrom comma [(ascii "peer", peer)]) (ascii "target") :=
    fun hu => extract_behind hu peer (by decide) (by decide) (by decide)
  simp only [historyArguments, hpeer hv, htarget hv] at h
  simp only [historyArguments, hpeer hw, htarget hw, extract_last_timestamp hw]
  generalize (if extractJsonValue (membersFrom comma [(ascii "peer", peer)]) (ascii "peer") = [] then
    extractJsonValue (membersFrom comma [(ascii "peer", peer)]) (ascii "target")
    else extractJsonValue (membersFrom comma [(ascii "peer", peer)]) (ascii "peer")) = p at h ⊢
  split at h
  · exact absurd h (by simp)
  · next hc =>
    obtain ⟨-, rfl⟩ := Prod.mk.inj (Option.some.inj h)
    rw [if_neg hc]

/-! ## 2. The answer -/

theorem rowTexts_ne_nil {T : Type} (db : Database T) (r : Row T) (rs : List (Row T)) :
    rowTexts db (r :: rs) ≠ [] := by
  cases rs with
  | nil => simp [rowTexts, rowText, objectText, membersFrom]
  | cons r' rs => simp [rowTexts]

/-- The empty answer is the answer without rows. -/
theorem historyJson_eq_empty_iff {T : Type} {db : Database T} {rows : List (Row T)} :
    historyJson db rows = ascii "[]" ↔ rows = [] := by
  constructor
  · intro h
    cases rows with
    | nil => rfl
    | cons r rs =>
      have hlen := congrArg List.length h
      have hpos := List.length_pos_of_ne_nil (rowTexts_ne_nil db r rs)
      simp only [historyJson, List.length_cons, List.length_append, List.length_nil] at hlen
      rw [show (ascii "[]").length = 2 from rfl] at hlen
      omega
  · rintro rfl
    rfl

section

variable {T : Type} [LinearOrder T] {db : Database T} {md5 : Bytes → Bytes} {log : List (Row T)}
  {order : Nat → List (Row T) → List (Row T)} {served : Nat → Bool} {accountID peer session : Bytes}

/-- The rows of one session. -/
def sessionRows (log : List (Row T)) (session : Bytes) : List (Row T) :=
  log.filter fun r => decide (r.sessionId = session)

theorem filter_later (log : List (Row T)) (session : Bytes) (last : T) :
    (log.filter fun r => decide (r.sessionId = session) && decide (last < r.createdAt))
      = after Row.createdAt (sessionRows log session) last := by
  rw [after, sessionRows, List.filter_filter]
  exact List.filter_congr fun r _ => Bool.and_comm _ _

/-- What the `WHERE` clause selects. -/
theorem filter_where (hdb : db.Lawful) (log : List (Row T)) (session : Bytes) (last : T) :
    (log.filter fun r => decide (r.sessionId = session) && db.later (db.text last) r.createdAt)
      = after Row.createdAt (sessionRows log session) last := by
  rw [← filter_later]
  refine List.filter_congr fun r _ => ?_
  rw [Database.later, hdb.time_text]

/-- One request is one page. -/
theorem history_eq_page (hdb : db.Lawful) (hord : ∀ k, OrdersBy Row.createdAt (order k))
    (hfit : ∀ r ∈ log, r.fits db = true) {last : T} {k : Nat}
    (h : historyArguments md5 accountID (historyRequest (db.text last) peer)
      = some (db.text last, session)) :
    history db md5 log (order k) (served k) accountID (historyRequest (db.text last) peer)
      = page Row.createdAt kHistoryMaxRows order served (sessionRows log session) k last := by
  rw [history, h, page]
  dsimp only
  rw [filter_where hdb]
  split
  · rw [List.takeWhile_eq_self_iff]
    intro r hr
    have hmem := (hord k _).1.mem_iff.mp (List.mem_of_mem_take hr)
    exact hfit r (List.mem_filter.mp (mem_after.mp hmem).1).1
  · rfl

/-- **The client pages**: what it does through texts is what `pageThrough` does. -/
theorem readHistory_eq (hdb : db.Lawful) (hord : ∀ k, OrdersBy Row.createdAt (order k))
    (hfit : ∀ r ∈ log, r.fits db = true) : ∀ {fuel k : Nat} {last : T},
    historyArguments md5 accountID (historyRequest (db.text last) peer)
      = some (db.text last, session) →
    readHistory db md5 log order served accountID peer fuel k (db.text last)
      = pageThrough Row.createdAt kHistoryMaxRows order served (sessionRows log session) fuel k last := by
  intro fuel
  induction fuel with
  | zero => exact fun _ => rfl
  | succ fuel ih =>
    intro k last h
    rw [readHistory, pageThrough, history_eq_page hdb hord hfit h]
    cases hlast : (page Row.createdAt kHistoryMaxRows order served (sessionRows log session) k
        last).getLast? with
    | none => rw [if_pos (historyJson_eq_empty_iff.mpr (List.getLast?_eq_none_iff.mp hlast))]
    | some r =>
      have hne : page Row.createdAt kHistoryMaxRows order served (sessionRows log session) k last
          ≠ [] := List.ne_nil_of_mem (List.mem_of_getLast? hlast)
      rw [if_neg fun hj => hne (historyJson_eq_empty_iff.mp hj)]
      dsimp only
      rw [ih (historyArguments_request (hdb.timestamp last) (hdb.timestamp r.createdAt) h)]

/-! ## 3. Completeness -/

/-- **History paging is complete exactly if its pages are clean.** A client that starts at `t₀`
    comes to an empty answer. What it has received by then are the rows of the session later
    than `t₀`, each once and in the order of their timestamps, if and only if every request
    for which rows are left is served, and no two of these rows with the same timestamp are
    the last of one page and the first of the next. -/
theorem history_complete_iff {t₀ : T} {fuel : Nat} (hdb : db.Lawful)
    (hord : ∀ k, OrdersBy Row.createdAt (order k)) (hfit : ∀ r ∈ log, r.fits db = true)
    (hsession : historyArguments md5 accountID (historyRequest (db.text t₀) peer)
      = some (db.text t₀, session)) (hfuel : log.length < fuel) :
    ∃ received,
      readHistory db md5 log order served accountID peer fuel 0 (db.text t₀) = some received ∧
      ((received.Perm (log.filter fun r => decide (r.sessionId = session) && decide (t₀ < r.createdAt)) ∧
          received.Pairwise fun r r' => r.createdAt ≤ r'.createdAt) ↔
        CleanPages kHistoryMaxRows served 0
          (keysAfter Row.createdAt (sessionRows log session) t₀)) := by
  have hshort : (after Row.createdAt (sessionRows log session) t₀).length < fuel := by
    rw [← filter_later]
    exact Nat.lt_of_le_of_lt (List.length_filter_le _ _) hfuel
  obtain ⟨received, hrun, hrec, hiff⟩ :=
    pageThrough_spec served (by decide : 0 < kHistoryMaxRows) hord (k := 0) hshort
  refine ⟨received, ?_, ?_⟩
  · rw [readHistory_eq hdb hord hfit hsession]
    exact hrun
  · rw [filter_later, ← hiff]
    exact ⟨fun h => h.1, fun h => ⟨h, hrec.sorted⟩⟩

end

/-- The seconds of one minute, as MySQL writes and reads them. -/
def oneMinute : Database (Fin 60) where
  text t := ascii "2026-05-12 00:00:" ++ [UInt8.ofNat (48 + t.val / 10), UInt8.ofNat (48 + t.val % 10)]
  time s :=
    match s.drop 17 with
    | [a, b] => some (Fin.ofNat 60 ((a.toNat - 48) * 10 + (b.toNat - 48)))
    | _ => none

theorem oneMinute_lawful : oneMinute.Lawful := by
  have hall : ∀ t : Fin 60, (oneMinute.text t).all isTimeChar = true := by decide
  refine ⟨by decide, fun t => ⟨by simp [oneMinute], ?_, List.all_eq_true.mp (hall t)⟩⟩
  revert t
  decide

/-- MD5 of `a#b`. -/
def digestAB : Bytes := [100, 87, 199, 152, 139, 116, 165, 221, 32, 87, 199, 191, 9, 5, 56, 158]

def sessionAB : Bytes := hexText digestAB

/-- A message of `a` and `b`. -/
def messageAt (t : Fin 60) (content : Bytes) : Row (Fin 60) :=
  ⟨sessionAB, ascii "a", ascii "b", content, t⟩

/-- One of the orders `ORDER BY created_at` may come to. -/
def byTime : List (Row (Fin 60)) → List (Row (Fin 60)) :=
  List.insertionSort fun r r' => r.createdAt ≤ r'.createdAt

theorem ordersBy_byTime : OrdersBy Row.createdAt byTime := by
  intro l
  refine ⟨List.perm_insertionSort _ l, ?_⟩
  have htotal : Std.Total fun r r' : Row (Fin 60) => r.createdAt ≤ r'.createdAt :=
    ⟨fun r r' => le_total r.createdAt r'.createdAt⟩
  have htrans : IsTrans (Row (Fin 60)) fun r r' => r.createdAt ≤ r'.createdAt :=
    ⟨fun r r' r'' h h' => le_trans h h'⟩
  exact List.pairwise_insertionSort _ l

theorem historyArguments_ab : historyArguments (fun _ => digestAB) (ascii "a")
    (historyRequest (oneMinute.text 0) (ascii "b")) = some (oneMinute.text 0, sessionAB) := by
  decide

/-- Two messages of the same second, and one of another. -/
def threeMessages : List (Row (Fin 60)) :=
  [messageAt 2 (ascii "y"), messageAt 1 (ascii "x"), messageAt 2 (ascii "z")]

theorem history_complete_three : ∃ received,
    readHistory oneMinute (fun _ => digestAB) threeMessages (fun _ => byTime) (fun _ => true)
      (ascii "a") (ascii "b") 4 0 (oneMinute.text 0) = some received ∧
    received.Perm threeMessages := by
  obtain ⟨received, hrun, hiff⟩ := @history_complete_iff (Fin 60) _ oneMinute (fun _ => digestAB)
    threeMessages (fun _ => byTime) (fun _ => true) (ascii "a") (ascii "b") sessionAB 0 4
    oneMinute_lawful (fun _ => ordersBy_byTime) (by decide) historyArguments_ab (by decide)
  refine ⟨received, hrun, (hiff.mpr ?_).1⟩
  intro j hj
  refine ⟨rfl, fun hpos => absurd hj ?_⟩
  have hlen : (keysAfter Row.createdAt (sessionRows threeMessages sessionAB) 0).length = 3 := by
    decide
  rw [hlen, kHistoryMaxRows]
  omega

/-- 501 messages of one second. -/
def crowdedSecond : List (Row (Fin 60)) := List.replicate 501 (messageAt 1 (ascii "x"))

theorem keysAfter_crowdedSecond :
    keysAfter Row.createdAt (sessionRows crowdedSecond sessionAB) 0 = List.replicate 501 1 := by
  have hafter : after Row.createdAt (sessionRows crowdedSecond sessionAB) 0 = crowdedSecond := by
    rw [after, sessionRows, crowdedSecond, List.filter_replicate_of_pos (by decide),
      List.filter_replicate_of_pos (by decide)]
  rw [keysAfter, hafter, crowdedSecond, List.map_replicate]
  exact List.Pairwise.insertionSort_eq (List.pairwise_replicate.mpr (Or.inr (by decide)))

/-- **Lost.** The first page is full, and the 501st message is not later than its last one. -/
theorem equal_timestamps_lost : ∃ received,
    readHistory oneMinute (fun _ => digestAB) crowdedSecond (fun _ => byTime) (fun _ => true)
      (ascii "a") (ascii "b") 502 0 (oneMinute.text 0) = some received ∧
    ¬ received.Perm (crowdedSecond.filter fun r =>
      decide (r.sessionId = sessionAB) && decide (0 < r.createdAt)) := by
  have hfit : ∀ r ∈ crowdedSecond, r.fits oneMinute = true := by
    intro r hr
    rw [(List.mem_replicate.mp hr).2]
    decide
  have hshort : (after Row.createdAt (sessionRows crowdedSecond sessionAB) 0).length < 502 := by
    rw [← filter_later]
    refine Nat.lt_of_le_of_lt (List.length_filter_le _ _) ?_
    rw [crowdedSecond, List.length_replicate]
    decide
  obtain ⟨received, hrun, -, hiff⟩ := pageThrough_spec (fun _ => true)
    (by decide : 0 < kHistoryMaxRows) (fun _ => ordersBy_byTime) (k := 0) hshort
  refine ⟨received, ?_, ?_⟩
  · rw [readHistory_eq oneMinute_lawful (fun _ => ordersBy_byTime) hfit historyArguments_ab]
    exact hrun
  · rw [filter_later, hiff, keysAfter_crowdedSecond]
    intro h
    refine (h 1 (by rw [List.length_replicate]; decide)).2 Nat.one_pos ?_
    rw [List.getElem?_replicate_of_lt (by decide), List.getElem?_replicate_of_lt (by decide)]

/-! ## 4. The fetch loop -/

theorem Column.string_store {size : Nat} (col : Column size) {v : Bytes} (h : v.length ≤ size) :
    (col.store v).string = v := by
  have htake : (v.take size ++ col.buffer.drop v.length).take v.length = v := by
    rw [List.take_of_length_le h, List.take_left]
  exact htake

section

variable {T : Type} (db : Database T)

theorem Row.fits_iff (r : Row T) : r.fits db = true ↔ r.sender.length ≤ 64 ∧ r.target.length ≤ 64 ∧
    r.content.length ≤ 1024 ∧ (db.text r.createdAt).length ≤ 64 := by
  simp only [Row.fits, Bool.and_eq_true, decide_eq_true_eq]
  tauto

/-- One turn at a row that fits writes the row. -/
theorem fetchLoop_fits {r : Row T} (h : r.fits db = true) (rows : List (Row T)) (bindOut : BindOut)
    (first : Bool) (jsonResponse : Bytes) :
    fetchLoop db (r :: rows) bindOut first jsonResponse
      = fetchLoop db rows (mysqlStmtFetch db r bindOut).2 false
          ((if first then jsonResponse else jsonResponse ++ [comma]) ++ rowText db r) := by
  obtain ⟨hs, ht, hc, hts⟩ := (Row.fits_iff db r).mp h
  simp only [fetchLoop, mysqlStmtFetch, h, if_true, Column.string_store _ hs, Column.string_store _ ht,
    Column.string_store _ hc, Column.string_store _ hts, rowText]

/-- A row that does not fit is the last one that is looked at. -/
theorem fetchLoop_truncated {r : Row T} (h : r.fits db = false) (rows : List (Row T)) (bindOut : BindOut)
    (first : Bool) (jsonResponse : Bytes) :
    fetchLoop db (r :: rows) bindOut first jsonResponse = jsonResponse := by
  simp only [fetchLoop, mysqlStmtFetch, h, Bool.false_eq_true, if_false]
  exact if_neg (by decide)

theorem rowTexts_cons (r : Row T) (rs : List (Row T)) :
    rowTexts db (r :: rs) = rowText db r ++ rs.flatMap fun r => comma :: rowText db r := by
  induction rs generalizing r with
  | nil => simp [rowTexts]
  | cons r' rs ih => rw [rowTexts, ih, List.flatMap_cons, List.cons_append]

/-- From the second row on, each row comes with its comma. -/
theorem fetchLoop_later (rows : List (Row T)) (bindOut : BindOut) (jsonResponse : Bytes) :
    fetchLoop db rows bindOut false jsonResponse
      = jsonResponse ++ (rows.takeWhile (Row.fits db)).flatMap fun r => comma :: rowText db r := by
  induction rows generalizing bindOut jsonResponse with
  | nil => simp [fetchLoop]
  | cons r rows ih =>
    cases h : r.fits db with
    | true =>
      rw [fetchLoop_fits db h, ih, List.takeWhile_cons_of_pos h, List.flatMap_cons]
      simp
    | false =>
      rw [fetchLoop_truncated db h, List.takeWhile_cons_of_neg (by simp [h])]
      simp

/-- The loop writes the rows up to the first that does not fit. -/
theorem historyAnswer_eq (rows : List (Row T)) (bindOut : BindOut) :
    historyAnswer db rows bindOut = historyJson db (rows.takeWhile (Row.fits db)) := by
  cases rows with
  | nil => rfl
  | cons r rows =>
    cases h : r.fits db with
    | true =>
      rw [historyAnswer, fetchLoop_fits db h, fetchLoop_later, List.takeWhile_cons_of_pos h, historyJson,
        rowTexts_cons]
      simp only [if_true, List.append_assoc]
      rfl
    | false =>
      rw [historyAnswer, fetchLoop_truncated db h, List.takeWhile_cons_of_neg (by simp [h])]
      rfl

/-- An answer that lacks its last rows is a shorter one. -/
theorem historyJson_length_lt (rows : List (Row T)) (r : Row T) (rest : List (Row T)) :
    (historyJson db rows).length < (historyJson db (rows ++ r :: rest)).length := by
  have htexts : (rowTexts db rows).length < (rowTexts db (rows ++ r :: rest)).length := by
    cases rows with
    | nil =>
      rw [List.nil_append]
      exact List.length_pos_of_ne_nil (rowTexts_ne_nil db r rest)
    | cons r' rows =>
      rw [List.cons_append, rowTexts_cons, rowTexts_cons, List.flatMap_append, List.flatMap_cons]
      simp only [List.length_append, List.length_cons]
      omega
  simp only [historyJson, List.length_cons, List.length_append, List.length_nil]
  omega

/-- **An answer is complete exactly if every row of it fits.** -/
theorem historyAnswer_complete_iff (rows : List (Row T)) (bindOut : BindOut) :
    historyAnswer db rows bindOut = historyJson db rows ↔
      ∀ r ∈ rows, r.sender.length ≤ 64 ∧ r.target.length ≤ 64 ∧ r.content.length ≤ 1024 ∧
        (db.text r.createdAt).length ≤ 64 := by
  rw [historyAnswer_eq]
  constructor
  · intro heq r hr
    cases hdrop : rows.dropWhile (Row.fits db) with
    | nil => exact (Row.fits_iff db r).mp (List.dropWhile_eq_nil_iff.mp hdrop r hr)
    | cons r' rest =>
      have hsplit := List.takeWhile_append_dropWhile (p := Row.fits db) (l := rows)
      have hlt := historyJson_length_lt db (rows.takeWhile (Row.fits db)) r' rest
      rw [← hdrop, hsplit, heq] at hlt
      exact absurd hlt (Nat.lt_irrefl _)
  · intro h
    rw [List.takeWhile_eq_self_iff.mpr fun r hr => (Row.fits_iff db r).mpr (h r hr)]

end

def Column.zeros (size : Nat) : Column size := ⟨List.replicate size 0, 0, List.length_replicate⟩

/-- A message of 1025 bytes, and the answer to it. -/
def longAndShort : List (Row (Fin 60)) :=
  [messageAt 1 (List.replicate 1025 120), messageAt 2 (ascii "y")]

/-- **Nothing behind a long message is sent**, nor the long message. -/
theorem long_message_ends_answer : ¬ ∀ (rows : List (Row (Fin 60))) (bindOut : BindOut),
    rows.length ≤ kHistoryMaxRows → historyAnswer oneMinute rows bindOut = historyJson oneMinute rows := by
  intro h
  have hlong : ¬ (messageAt 1 (List.replicate 1025 120)).fits oneMinute = true := by
    intro hfit
    have hlen := ((Row.fits_iff oneMinute _).mp hfit).2.2.1
    rw [messageAt, List.length_replicate] at hlen
    exact absurd hlen (by decide)
  have hanswer := h longAndShort ⟨Column.zeros 64, Column.zeros 64, Column.zeros 1024, Column.zeros 64⟩
    (by decide)
  rw [historyAnswer_eq, longAndShort, List.takeWhile_cons_of_neg hlong] at hanswer
  exact absurd (historyJson_eq_empty_iff.mp hanswer.symm) (List.cons_ne_nil _ _)

end History
end EpollChat
