import EpollChat.Lib.Machine
import EpollChat.Wire.Chat

/-!
# The friends table

`addFriendToDB` executes one prepared statement twice, with the two names in either order and
no transaction around it. What MySQL makes of an execution is the environment's choice: it
inserts the row, ignores it, or fails.

The requests here come one after another. `Server.FriendCache` has the same statements as
steps of threads, beside the cache.
-/

namespace EpollChat
namespace Friends

/-! ## 1. The table and its statements -/

/-- The rows `(user_name, friend_name)`. The pair is the key: no row is there twice. -/
abbrev Table := List (Bytes × Bytes)

/-- What one execution of `INSERT IGNORE` comes to. `ignored` is any error that `IGNORE` turns
    into a warning; a duplicate key, which it also passes over, is seen from the table. -/
inductive Outcome where
  | done
  | ignored
  | failed
deriving DecidableEq, Repr

/-- `mysql_stmt_execute(stmt) == 0`, and `mysql_stmt_affected_rows(stmt)` right after it. -/
structure Executed where
  ok : Bool
  affectedRows : Nat
deriving DecidableEq, Repr

/-- `INSERT IGNORE INTO friends (user_name, friend_name) VALUES (?, ?)`. After an error the
    number of affected rows is `(my_ulonglong)-1`. -/
def insertIgnore (t : Table) (user friendName : Bytes) : Outcome → Executed × Table
  | .done =>
      if t.contains (user, friendName) then (⟨true, 0⟩, t)
      else (⟨true, 1⟩, t ++ [(user, friendName)])
  | .ignored => (⟨true, 0⟩, t)
  | .failed => (⟨false, 2 ^ 64 - 1⟩, t)

/-- `ok1 && ok2 && ((affected1 > 0) || (affected2 > 0))`. -/
def added (e₁ e₂ : Executed) : Bool :=
  e₁.ok && e₂.ok && (decide (0 < e₁.affectedRows) || decide (0 < e₂.affectedRows))

/-- `prepared` says whether `mysql_stmt_prepare` came through. -/
def addFriendToDB (t : Table) (user friendName : Bytes) (prepared : Bool) (o₁ o₂ : Outcome) :
    Bool × Table :=
  if prepared then
    let r₁ := insertIgnore t user friendName o₁
    let r₂ := insertIgnore r₁.2 friendName user o₂
    (added r₁.1 r₂.1, r₂.2)
  else (false, t)

/-- `answered`: prepared, executed and fetched without an error. -/
def userExistsInDB (accounts : List Bytes) (username : Bytes) (answered : Bool) : Bool :=
  answered && accounts.contains username

/-! ## 2. Requests of type 9 -/

/-- A literal of the source with Chinese text in it. -/
def utf8 (s : String) : Bytes := s.toUTF8.toList

def failText (message : Bytes) : Bytes :=
  objectText [(ascii "result", ascii "fail"), (ascii "message", message)]

def cannotAddSelf : Bytes := failText (utf8 "不能添加自己")

def noSuchUser : Bytes := failText (utf8 "用户不存在")

def alreadyFriends : Bytes := failText (utf8 "已经是好友")

def busy : Bytes := failText (utf8 "系统繁忙")

def successText (targetFriend : Bytes) : Bytes :=
  objectText [(ascii "result", ascii "success"), (ascii "friend", targetFriend)]

structure State where
  accounts : List Bytes
  friends : Table

/-- One packet, from the connection of `accountID`, with what the rest of the server and the
    database do about it: `enqueueDbTask`, `isCurrentSessionValid` at the time of the answer, the
    `SELECT` of `userExistsInDB`, and the statements of `addFriendToDB`. -/
structure Request where
  accountID : Bytes
  body : Bytes
  enqueued : Bool := true
  valid : Bool := true
  answered : Bool := true
  prepared : Bool := true
  first : Outcome := .done
  second : Outcome := .done
deriving DecidableEq, Repr

/-- `called` is a call of `addFriendToDB`, with the table before and after it. -/
inductive Event where
  | called (before : Table) (result : Bool) (after : Table)
  | invalidate (user : Bytes)
  | reply (text : Bytes)
deriving DecidableEq, Repr

def Request.targetFriend (r : Request) : Bytes := extractJsonValue r.body (ascii "friend")

/-- The answer to a client whose session is still the same. -/
def Request.answer (r : Request) (text : Bytes) : List Event := if r.valid then [.reply text] else []

/-- The branch of `processPacket` for `msgType == 9`, its task included. -/
def step (s : State) (r : Request) : Option (State × List Event) :=
  let currentUser := r.accountID
  let targetFriend := r.targetFriend
  if currentUser = [] then some (s, [])
  else if targetFriend = currentUser then some (s, [.reply cannotAddSelf])
  else if r.enqueued = false then some (s, r.answer busy)
  else if userExistsInDB s.accounts targetFriend r.answered = false then
    some (s, r.answer noSuchUser)
  else
    let c := addFriendToDB s.friends currentUser targetFriend r.prepared r.first r.second
    some ({ s with friends := c.2 },
      .called s.friends c.1 c.2 ::
        if c.1 then
          .invalidate currentUser :: .invalidate targetFriend :: r.answer (successText targetFriend)
        else r.answer alreadyFriends)

/-- The request gets as far as `addFriendToDB`. -/
def Request.Calls (s : State) (r : Request) : Prop :=
  r.accountID ≠ [] ∧ r.targetFriend ≠ r.accountID ∧ r.enqueued = true ∧
    userExistsInDB s.accounts r.targetFriend r.answered = true

instance (s : State) (r : Request) : Decidable (r.Calls s) := inferInstanceAs (Decidable (_ ∧ _ ∧ _ ∧ _))

/-! ## 3. What the table is for -/

/-- Friendship is mutual. -/
def Symmetric (t : Table) : Prop := ∀ u f, (u, f) ∈ t → (f, u) ∈ t

end Friends
end EpollChat
