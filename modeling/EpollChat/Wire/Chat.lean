import EpollChat.Wire.Codec

/-!
# Chat, login and acknowledgement bodies

The texts a chat packet is made of, and the heads of `processPacket`'s branches for types 1, 4
and 13.
-/

namespace EpollChat

/-- `"key":"value"`. -/
def memberText (k v : Bytes) : Bytes := quoted k ++ (colon :: quoted v)

/-- The rest of an object behind the separator `c`, down to the closing brace. -/
def membersFrom (c : UInt8) : List (Bytes × Bytes) → Bytes
  | [] => [closeBrace]
  | (k, v) :: ms => c :: (memberText k v ++ membersFrom comma ms)

/-- A JSON object whose members are all strings, written without blanks. -/
def objectText : List (Bytes × Bytes) → Bytes
  | [] => [openBrace, closeBrace]
  | m :: ms => membersFrom openBrace (m :: ms)

/-- The object with the three fields of a chat message. -/
def chatJson (sender target message : Bytes) : Bytes :=
  objectText [(ascii "sender", sender), (ascii "target", target), (ascii "message", message)]

/-- `buildEnrichedChatBodyWithMsgId`. -/
def buildEnrichedChatBodyWithMsgId (msgId : Nat) (sender target message ts : Bytes) : Bytes :=
  objectText [(ascii "msg_id", toDecimal msgId), (ascii "sender", sender), (ascii "target", target),
    (ascii "message", message), (ascii "timestamp", ts)]

/-- The protobuf body of a chat packet: the fields that are not empty. -/
def chatBody (sender target message : Bytes) (msgId : Nat) (ts : Bytes) : Bytes :=
  putString 1 sender ++ (putString 2 target ++ (putString 3 message ++ (putUint64 4 msgId ++ putString 5 ts)))

/-- The first lines of `processPacket` for `msgType == 1`: all three fields from the
    fast extractor, or all three from the slow one. -/
def chatFields (body : Bytes) : Bytes × Bytes × Bytes :=
  match parseChatFieldsFast body with
  | some r => r
  | none =>
      (extractJsonValue body (ascii "sender"), extractJsonValue body (ascii "target"),
        extractJsonValue body (ascii "message"))

/-- The first lines of `processPacket` for `msgType == 4`: the name and the password that the
    login task passes to `checkLoginFromDatabase`. -/
def loginArguments (body : Bytes) : Bytes × Bytes :=
  (extractJsonValue body (ascii "username"), extractJsonValue body (ascii "password"))

/-- The branch of `processPacket` for `msgType == MSG_TYPE_ACK`, up to `enqueueRedisTask`: the
    arguments of `ackPendingMessage`. `accountID` is that of the connection, and `none` means
    that it returns without a task. -/
def ackArguments (accountID body : Bytes) : Option (Bytes × List Nat) :=
  let named := extractJsonValue body (ascii "user")
  let user := if named = [] then accountID else named
  if user = [] then none
  else
    let listed := parseJsonUint64ArrayFast body (ascii "msg_ids") 256
    let msgIds :=
      if listed ≠ [] then listed
      else match stoullText (extractJsonValue body (ascii "msg_id")) with
        | some one => if 0 < one then [one] else []
        | none => []
    if msgIds = [] then none else some (user, msgIds)

end EpollChat
