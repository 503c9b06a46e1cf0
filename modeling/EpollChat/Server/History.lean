import EpollChat.Pending.Redis
import EpollChat.Wire.Chat

/-!
# History requests

A request of type 7 names a peer and a timestamp, and is answered with the first 500 messages
of the conversation that are later than it. There is no cursor: a client that wants the rest
asks again with the timestamp of the last message it got (`readHistory`).

MySQL is a parameter. `Database` is what it makes of a `created_at`, of which all that is
assumed is that a timestamp it has written is read back as the same one; `order` is the order
in which `ORDER BY created_at` returns rows, free among equal timestamps and from one request
to the next.
-/

namespace EpollChat
namespace History

def kHistoryMaxRows : Nat := 500

/-! ## 1. The table -/

/-- A row of `all_messages_log`. -/
structure Row (T : Type) where
  sessionId : Bytes
  sender : Bytes
  target : Bytes
  content : Bytes
  createdAt : T
deriving DecidableEq, Repr

/-- `text` is a `created_at` as it is fetched into a string buffer, `time` what a string stands
    for in a comparison with `created_at`. -/
structure Database (T : Type) where
  text : T → Bytes
  time : Bytes → Option T

/-- The characters of `2026-05-12 08:30:00.000`. -/
def isTimeChar (b : UInt8) : Bool := isDigit b || b == 45 || b == colon || b == space || b == 46

/-- A text MySQL may write for a timestamp. -/
def IsTimestamp (v : Bytes) : Prop := v ≠ [] ∧ v.head? ≠ some space ∧ ∀ b ∈ v, isTimeChar b = true

structure Database.Lawful {T : Type} (db : Database T) : Prop where
  time_text : ∀ t, db.time (db.text t) = some t
  timestamp : ∀ t, IsTimestamp (db.text t)

/-! ## 2. `buildSessionId` -/

def hexDigit (n : UInt8) : UInt8 := (ascii "0123456789abcdef").getD n.toNat 0

def hexText (digest : Bytes) : Bytes :=
  digest.flatMap fun b : UInt8 => [hexDigit ((b >>> 4) &&& 0xF), hexDigit (b &&& 0xF)]

/-- `md5` is OpenSSL's. -/
def buildSessionId (md5 : Bytes → Bytes) (sender target : Bytes) : Bytes :=
  if sender = [] ∨ target = [] then []
  else
    hexText (md5 (if memberLe sender target then sender ++ (ascii "#" ++ target)
      else target ++ (ascii "#" ++ sender)))

/-! ## 3. Requests of type 7 -/

/-- The head of the branch: `lastTime` and the session, or `none` for the answer `[]`. -/
def historyArguments (md5 : Bytes → Bytes) (accountID body : Bytes) : Option (Bytes × Bytes) :=
  let lastTime := extractJsonValue body (ascii "last_timestamp")
  let named := extractJsonValue body (ascii "peer")
  let peer := if named = [] then extractJsonValue body (ascii "target") else named
  if accountID = [] ∨ peer = [] then none else some (lastTime, buildSessionId md5 accountID peer)

section

variable {T : Type}

/-- `created_at > ?`; a string that is no timestamp is later than nothing. -/
def Database.later [LT T] [DecidableLT T] (db : Database T) (lastTime : Bytes) (t : T) : Bool :=
  match db.time lastTime with
  | none => false
  | some last => decide (last < t)

/-- The four columns fit `s_buf`, `t_buf`, `c_buf` and `ts_buf`. -/
def Row.fits (db : Database T) (r : Row T) : Bool :=
  decide (r.sender.length ≤ 64) && decide (r.target.length ≤ 64) &&
    decide (r.content.length ≤ 1024) && decide ((db.text r.createdAt).length ≤ 64)

/-- The rows the answer is made of. `served`: the task is queued and `mysql_stmt_execute`, whose
    result is not looked at, comes through; otherwise there is nothing to fetch, and the
    answer is `[]`. A row that does not fit its buffers ends the fetch loop. -/
def history [LT T] [DecidableLT T] (db : Database T) (md5 : Bytes → Bytes) (log : List (Row T))
    (order : List (Row T) → List (Row T)) (served : Bool) (accountID body : Bytes) : List (Row T) :=
  match historyArguments md5 accountID body with
  | none => []
  | some (lastTime, sessionId) =>
      if served then
        ((order (log.filter fun r => decide (r.sessionId = sessionId) && db.later lastTime r.createdAt)).take
          kHistoryMaxRows).takeWhile (Row.fits db)
      else []

def rowText (db : Database T) (r : Row T) : Bytes :=
  objectText [(ascii "sender", r.sender), (ascii "target", r.target), (ascii "content", r.content),
    (ascii "timestamp", db.text r.createdAt)]

def rowTexts (db : Database T) : List (Row T) → Bytes
  | [] => []
  | [r] => rowText db r
  | r :: r' :: rs => rowText db r ++ (comma :: rowTexts db (r' :: rs))

/-- `jsonResponse`. -/
def historyJson (db : Database T) (rows : List (Row T)) : Bytes :=
  openBracket :: (rowTexts db rows ++ [closeBracket])

/-! ## 4. The fetch loop -/

/-- One of the columns bound for the result: its buffer and the variable `length` points to. -/
structure Column (size : Nat) where
  buffer : Bytes
  length : Nat
  sized : buffer.length = size

/-- A value is cut to the buffer, its length is not. -/
def Column.store {size : Nat} (col : Column size) (v : Bytes) : Column size where
  buffer := v.take size ++ col.buffer.drop v.length
  length := v.length
  sized := by
    rw [List.length_append, List.length_take, List.length_drop, col.sized]
    omega

/-- `std::string(s_buf, s_len)`. -/
def Column.string {size : Nat} (col : Column size) : Bytes := col.buffer.take col.length

/-- `bind_out`, with `s_buf`, `t_buf`, `c_buf` and `ts_buf`. -/
structure BindOut where
  s : Column 64
  t : Column 64
  c : Column 1024
  ts : Column 64

def mysqlDataTruncated : Nat := 101

/-- `mysql_stmt_fetch` at a row: what it returns, and what it leaves in the buffers. -/
def mysqlStmtFetch (db : Database T) (r : Row T) (bindOut : BindOut) : Nat × BindOut :=
  (if r.fits db then 0 else mysqlDataTruncated,
    { s := bindOut.s.store r.sender
      t := bindOut.t.store r.target
      c := bindOut.c.store r.content
      ts := bindOut.ts.store (db.text r.createdAt) })

/-- `while (mysql_stmt_fetch(stmt) == 0)`. After the last row it returns `MYSQL_NO_DATA`. -/
def fetchLoop (db : Database T) : List (Row T) → BindOut → Bool → Bytes → Bytes
  | [], _, _, jsonResponse => jsonResponse
  | r :: rows, bindOut, first, jsonResponse =>
      let fetched := mysqlStmtFetch db r bindOut
      if fetched.1 = 0 then
        let separated := if first then jsonResponse else jsonResponse ++ [comma]
        fetchLoop db rows fetched.2 false (separated ++
          objectText [(ascii "sender", fetched.2.s.string), (ascii "target", fetched.2.t.string),
            (ascii "content", fetched.2.c.string), (ascii "timestamp", fetched.2.ts.string)])
      else jsonResponse

/-- The answer of type 8. Nothing is known of what the buffers hold before. -/
def historyAnswer (db : Database T) (rows : List (Row T)) (bindOut : BindOut) : Bytes :=
  fetchLoop db rows bindOut true (ascii "[") ++ ascii "]"

/-! ## 5. A client -/

def historyRequest (lastTime peer : Bytes) : Bytes :=
  objectText [(ascii "last_timestamp", lastTime), (ascii "peer", peer)]

/-- Ask, take the timestamp of the last row, and ask again, up to the answer `[]`. `order k` and
    `served k` are what request number `k` meets with; `none` means that `fuel` requests were
    not enough. -/
def readHistory [LT T] [DecidableLT T] (db : Database T) (md5 : Bytes → Bytes) (log : List (Row T))
    (order : Nat → List (Row T) → List (Row T)) (served : Nat → Bool) (accountID peer : Bytes) :
    Nat → Nat → Bytes → Option (List (Row T))
  | 0, _, _ => none
  | fuel + 1, k, lastTime =>
      let rows := history db md5 log (order k) (served k) accountID (historyRequest lastTime peer)
      if historyJson db rows = ascii "[]" then some []
      else match rows.getLast? with
        | none => none
        | some r =>
            (readHistory db md5 log order served accountID peer fuel (k + 1)
              (db.text r.createdAt)).map (rows ++ ·)

end

end History
end EpollChat
