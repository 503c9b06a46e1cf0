import EpollChat.Server.ChatLog
import EpollChat.Server.History

/-!
# From the chat log to the table

`saveMessageToDB` inserts one row, `flushChatLogsBatch` one for every log of a batch, by one statement
that it puts together for that number of rows. Both prepare their text and bind an array of
parameters to it; MySQL counts the question marks and reads that many parameters, whatever
the length of the array. `prepare` and `execute` are what MySQL does with it, as far as these
statements go.

A statement that is executed inserts all its rows, with one timestamp, and one that is not
inserts none. Neither function looks at the result.
-/

namespace EpollChat
namespace ChatStore

open ChatLog (PendingChatLog)
open History (Row buildSessionId)

variable {T : Type}

/-! ## 1. MySQL -/

/-- What both statements begin with. -/
@[irreducible] def insertHead : Bytes :=
  ascii "INSERT INTO all_messages_log (session_id, sender, target, content) VALUES "

/-- The number of value lists, each of four parameters. -/
def valueLists : Bytes → Option Nat
  | [40, 63, 44, 63, 44, 63, 44, 63, 41] => some 1
  | 40 :: 63 :: 44 :: 63 :: 44 :: 63 :: 44 :: 63 :: 41 :: 44 :: rest => (valueLists rest).map (· + 1)
  | _ => none

/-- `mysql_stmt_prepare`: how many rows the statement inserts, if it is one of ours. Blanks between
    the tokens of the value lists mean nothing. -/
def prepare (sql : Bytes) : Option Nat :=
  if insertHead <+: sql then valueLists ((sql.drop insertHead.length).filter (· ≠ space)) else none

/-- One row for every four parameters. -/
def rowsOf (now : T) : List Bytes → List (Row T)
  | sessionId :: sender :: target :: content :: rest =>
      ⟨sessionId, sender, target, content, now⟩ :: rowsOf now rest
  | _ => []

/-- `mysql_stmt_bind_param` and `mysql_stmt_execute`. `none`: the text is no such statement, or
    MySQL reads beyond the array. -/
def execute (log : List (Row T)) (sql : Bytes) (binds : List Bytes) (now : T) : Option (List (Row T)) :=
  match prepare sql with
  | none => none
  | some n => if 4 * n ≤ binds.length then some (log ++ rowsOf now (binds.take (4 * n))) else none

/-- What comes of a statement. -/
inductive StmtResult (T : Type) where
  /-- `mysql_stmt_init`, `mysql_stmt_prepare`, `mysql_stmt_bind_param` or `mysql_stmt_execute` fails. -/
  | failed
  /-- It is executed at this time. -/
  | executed (now : T)
deriving Repr

/-! ## 2. `saveMessageToDB` -/

def saveSql : Bytes := insertHead ++ ascii "(?, ?, ?, ?)"

def saveMessageToDB (md5 : Bytes → Bytes) (log : List (Row T)) (sender target content : Bytes)
    (result : StmtResult T) : Option (List (Row T)) :=
  match result with
  | .failed => some log
  | .executed now =>
      execute log saveSql [buildSessionId md5 sender target, sender, target, content] now

/-! ## 3. `flushChatLogsBatch` -/

/-- The loop that puts `sql` together. -/
def flushSql (n : Nat) : Bytes :=
  (List.range n).foldl
    (fun sql i => (if 0 < i then sql ++ [comma] else sql) ++ ascii "(?,?,?,?)") insertHead

/-- The loop that fills `binds`, from `i` on. -/
def fillBinds (md5 : Bytes → Bytes) : Nat → List PendingChatLog → List Bytes → List Bytes
  | _, [], binds => binds
  | i, log :: batch, binds =>
      let base := i * 4
      fillBinds md5 (i + 1) batch
        ((((binds.set base (buildSessionId md5 log.sender log.target)).set (base + 1) log.sender).set
          (base + 2) log.target).set (base + 3) log.content)

def flushBinds (md5 : Bytes → Bytes) (batch : List PendingChatLog) : List Bytes :=
  fillBinds md5 0 batch (List.replicate (batch.length * 4) [])

def flushChatLogsBatch (md5 : Bytes → Bytes) (log : List (Row T)) (batch : List PendingChatLog)
    (result : StmtResult T) : Option (List (Row T)) :=
  if batch = [] then some log
  else
    match result with
    | .failed => some log
    | .executed now => execute log (flushSql batch.length) (flushBinds md5 batch) now

/-! ## 4. The calls of `chatLogFlushLoop` -/

/-- The table after these calls; `results k` is what comes of call number `k`. -/
def flushAll (md5 : Bytes → Bytes) (results : Nat → StmtResult T) :
    Nat → List (Row T) → List (List PendingChatLog) → Option (List (Row T))
  | _, log, [] => some log
  | k, log, batch :: batches =>
      match flushChatLogsBatch md5 log batch (results k) with
      | none => none
      | some log' => flushAll md5 results (k + 1) log' batches

/-- The same with one `saveMessageToDB` for each log. -/
def saveAll (md5 : Bytes → Bytes) (now : T) : List (Row T) → List PendingChatLog → Option (List (Row T))
  | log, [] => some log
  | log, m :: batch =>
      match saveMessageToDB md5 log m.sender m.target m.content (.executed now) with
      | none => none
      | some log' => saveAll md5 now log' batch

end ChatStore
end EpollChat
