import EpollChat.Server.Friends
import Mathlib.Data.List.Perm.Basic
import Mathlib.Logic.Function.Basic

/-!
# The friend list and its cache

A list of friends is read through Redis: `getFriendListJson` takes the cached text if there is
one, else it asks MySQL and leaves the answer in the cache for 300 seconds. An addition
inserts two rows and then has a Redis task delete both users' entries.

Each SQL statement and each Redis command is a step, whichever thread takes it. The label
carries what MySQL, Redis and the queues answer. MySQL returns the rows of a `SELECT` in any
order, and `fetched` is how many of them come through before an error.

`invalidated` and `settled` are not part of the server: they record whose invalidations have
been executed, one user's and both users', so that a call can say what it owes (`due`).
-/

namespace EpollChat
namespace FriendCache

open Friends

/-! ## 1. Texts -/

/-- The names in quotes, with commas between them. -/
def quotedNames : List Bytes → Bytes
  | [] => []
  | [f] => quoted f
  | f :: g :: fs => quoted f ++ (comma :: quotedNames (g :: fs))

def buildFriendListJson (friends : List Bytes) : Bytes :=
  openBrace :: (quoted (ascii "friends") ++
    (colon :: openBracket :: (quotedNames friends ++ [closeBracket, closeBrace])))

/-- `cacheKey.c_str()`. -/
def cacheKey (username : Bytes) : Bytes := cStr (ascii "chat:friends:" ++ username)

/-- `sizeof(friend_buf)`. -/
def friendBufSize : Nat := 128

/-- The `friend_name`s of a user's rows, in the order of the table. -/
def friendsOf (t : Table) (username : Bytes) : List Bytes :=
  (t.filter fun row => row.1 == username).map (·.2)

/-- The fetch loop of `getFriendListFromDB`: a name that does not fit the buffer makes
    `mysql_stmt_fetch` return `MYSQL_DATA_TRUNCATED`, which ends it like an error. -/
def fetchFriends (rows : List Bytes) (fetched : Nat) : List Bytes :=
  (rows.take fetched).takeWhile fun f => decide (f.length ≤ friendBufSize)

/-! ## 2. States -/

/-- Where a thread is in `addFriendToDB` and the rest of its task, in the Redis task that
    invalidates both users, or in `getFriendListJson`. -/
inductive Phase where
  | idle
  | insertingFirst (user friendName : Bytes)
  | insertingSecond (user friendName : Bytes) (e₁ : Executed)
  /-- Before `enqueueRedisTask`. -/
  | queueing (user friendName : Bytes)
  | deletingFirst (user friendName : Bytes)
  /-- `first`: whether the invalidation of `user` has been executed. -/
  | deletingSecond (user friendName : Bytes) (first : Bool)
  | getting (username : Bytes) (due : List Bytes)
  /-- `caching`: there is a Redis connection to store the answer with. -/
  | selecting (username : Bytes) (due : List Bytes) (caching : Bool)
  /-- `seen` is the table the list was read from. -/
  | storing (username : Bytes) (due : List Bytes) (seen : Table) (friends : List Bytes)
deriving DecidableEq, Repr

structure State (ι : Type) where
  friends : Table
  cache : Bytes → Option Bytes
  threads : ι → Phase := fun _ => .idle
  queued : List (Bytes × Bytes) := []
  invalidated : List (Bytes × Bytes) := []
  settled : List (Bytes × Bytes) := []

inductive Label (ι : Type) where
  | addFriend (t : ι) (user friendName : Bytes) (prepared : Bool)
  | insertFirst (t : ι) (o : Outcome)
  | insertSecond (t : ι) (o : Outcome)
  | queueInvalidation (t : ι) (accepted : Bool)
  | takeInvalidation (t : ι)
  | deleteFirst (t : ι) (executed : Bool)
  | deleteSecond (t : ι) (executed : Bool)
  | getFriendList (t : ι) (username : Bytes) (connected : Bool)
  | get (t : ι) (answered : Bool)
  | select (t : ι) (rows : List Bytes) (fetched : Nat)
  | setex (t : ι) (stored : Bool)
  | expire (key : Bytes)
deriving DecidableEq, Repr

/-- `due` are the friends whose additions were settled when the call started. -/
inductive Event (ι : Type) where
  | added (t : ι) (user friendName : Bytes) (result : Bool)
  | returned (t : ι) (username : Bytes) (due : List Bytes) (text : Bytes)
deriving DecidableEq, Repr

/-! ## 3. Steps -/

section

variable {ι : Type} [DecidableEq ι]

def setThread (s : State ι) (t : ι) (p : Phase) : State ι :=
  { s with threads := Function.update s.threads t p }

/-- `invalidateFriendListCache` has been executed: there is nothing to do for an empty name. -/
def invalidates (username : Bytes) (executed : Bool) : Bool := username.isEmpty || executed

/-- The `DEL` of `invalidateFriendListCache(username)`. -/
def deleteKey (s : State ι) (username friendName : Bytes) (executed : Bool) : State ι :=
  { s with
    cache :=
      if username.isEmpty then s.cache
      else if executed then Function.update s.cache (cacheKey username) none
      else s.cache
    invalidated :=
      if invalidates username executed then s.invalidated ++ [(username, friendName)]
      else s.invalidated }

def insertFirst (s : State ι) (t : ι) (user friendName : Bytes) (o : Outcome) : State ι :=
  let r := insertIgnore s.friends user friendName o
  setThread { s with friends := r.2 } t (.insertingSecond user friendName r.1)

def insertSecond (s : State ι) (t : ι) (user friendName : Bytes) (e₁ : Executed) (o : Outcome) :
    State ι × List (Event ι) :=
  let r := insertIgnore s.friends friendName user o
  (setThread { s with friends := r.2 } t
      (if Friends.added e₁ r.1 then .queueing user friendName else .idle),
    [.added t user friendName (Friends.added e₁ r.1)])

/-- Both users' invalidations have been executed: from now on the new friends are owed. -/
def deleteSecond (s : State ι) (t : ι) (user friendName : Bytes) (first executed : Bool) : State ι :=
  let s' := deleteKey s friendName user executed
  setThread { s' with
    settled :=
      if first && invalidates friendName executed then
        s.settled ++ [(user, friendName), (friendName, user)]
      else s.settled } t .idle

/-- The start of `getFriendListJson`. -/
def getFriendList (s : State ι) (t : ι) (username : Bytes) (connected : Bool) : State ι :=
  let due := friendsOf s.settled username
  setThread s t
    (if username.isEmpty || !connected then .selecting username due false
      else .getting username due)

def get (s : State ι) (t : ι) (username : Bytes) (due : List Bytes) (answered : Bool) :
    State ι × List (Event ι) :=
  match if answered then s.cache (cacheKey username) else none with
  | some text => (setThread s t .idle, [.returned t username due (cStr text)])
  | none => (setThread s t (.selecting username due true), [])

def select (s : State ι) (t : ι) (username : Bytes) (due : List Bytes) (caching : Bool)
    (friends : List Bytes) : State ι × List (Event ι) :=
  if caching then (setThread s t (.storing username due s.friends friends), [])
  else (setThread s t .idle, [.returned t username due (buildFriendListJson friends)])

/-- `SETEX key 300 json`, and the return of `jsonResponse`. -/
def setex (s : State ι) (t : ι) (username : Bytes) (due friends : List Bytes) (stored : Bool) :
    State ι × List (Event ι) :=
  (setThread { s with
    cache :=
      if stored then
        Function.update s.cache (cacheKey username) (some (cStr (buildFriendListJson friends)))
      else s.cache } t .idle,
    [.returned t username due (buildFriendListJson friends)])

def step (s : State ι) : Label ι → Option (State ι × List (Event ι))
  | .addFriend t user friendName prepared =>
      match s.threads t with
      | .idle =>
          if prepared then some (setThread s t (.insertingFirst user friendName), [])
          else some (s, [.added t user friendName false])
      | _ => none
  | .insertFirst t o =>
      match s.threads t with
      | .insertingFirst user friendName => some (insertFirst s t user friendName o, [])
      | _ => none
  | .insertSecond t o =>
      match s.threads t with
      | .insertingSecond user friendName e₁ => some (insertSecond s t user friendName e₁ o)
      | _ => none
  | .queueInvalidation t accepted =>
      match s.threads t with
      | .queueing user friendName =>
          some (setThread { s with
            queued := if accepted then s.queued ++ [(user, friendName)] else s.queued } t .idle, [])
      | _ => none
  | .takeInvalidation t =>
      match s.threads t, s.queued with
      | .idle, (user, friendName) :: rest =>
          some (setThread { s with queued := rest } t (.deletingFirst user friendName), [])
      | _, _ => none
  | .deleteFirst t executed =>
      match s.threads t with
      | .deletingFirst user friendName =>
          some (setThread (deleteKey s user friendName executed) t
            (.deletingSecond user friendName (invalidates user executed)), [])
      | _ => none
  | .deleteSecond t executed =>
      match s.threads t with
      | .deletingSecond user friendName first =>
          some (deleteSecond s t user friendName first executed, [])
      | _ => none
  | .getFriendList t username connected =>
      match s.threads t with
      | .idle => some (getFriendList s t username connected, [])
      | _ => none
  | .get t answered =>
      match s.threads t with
      | .getting username due => some (get s t username due answered)
      | _ => none
  | .select t rows fetched =>
      match s.threads t with
      | .selecting username due caching =>
          if rows.isPerm (friendsOf s.friends username) then
            some (select s t username due caching (fetchFriends rows fetched))
          else none
      | _ => none
  | .setex t stored =>
      match s.threads t with
      | .storing username due _ friends => some (setex s t username due friends stored)
      | _ => none
  | .expire key => some ({ s with cache := Function.update s.cache key none }, [])

end

/-! ## 4. What a call owes -/

/-- The text of a list of friends with `f` among them. -/
def Lists (text f : Bytes) : Prop := ∃ friends, text = buildFriendListJson friends ∧ f ∈ friends

end FriendCache
end EpollChat
