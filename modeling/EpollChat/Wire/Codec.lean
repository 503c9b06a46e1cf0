import EpollChat.Wire.Varint
import EpollChat.Wire.Json

/-!
# `decodeProtoToJson` and `encodeJsonToProto`

Two hand-written tables, one for each direction, from `(msgType, field number)` to a
field name. They do not agree everywhere, and the embedding keeps each as it is
written.

The decoder's field loop is not bounded by anything in the source: `off + len` is
computed modulo `2 ^ 64`, so a length varint close to `2 ^ 64` moves `off` backwards.
The loop therefore takes the number of rounds it is granted, and `none` means that it
is still running after that many (`DecodeEnds` is the statement that some number of
rounds is enough).
-/

namespace EpollChat

open Pb

/-! ## 1. The decoder's variables -/

/-- The locals of `decodeProtoToJson` that a field can set. -/
structure ProtoFields where
  sender : Bytes := []
  target : Bytes := []
  message : Bytes := []
  timestamp : Bytes := []
  result : Bytes := []
  username : Bytes := []
  password : Bytes := []
  user : Bytes := []
  lastTs : Bytes := []
  peer : Bytes := []
  friendName : Bytes := []
  errMsg : Bytes := []
  msgId : Nat := 0
  ackType : Nat := 0
  msgIds : List Nat := []
  deriving DecidableEq

namespace ProtoFields

/-- The branch on `field` for a length-delimited value. -/
def setString (f : ProtoFields) (msgType : UInt16) (field : Nat) (v : Bytes) : ProtoFields :=
  if field = 1 then
    if msgType = 4 then { f with username := v }
    else if msgType = 5 ∨ msgType = 10 then { f with result := v }
    else if msgType = 7 then { f with lastTs := v }
    else if msgType = 9 then { f with friendName := v }
    else if msgType = 13 then { f with result := v }
    else { f with sender := v }
  else if field = 2 then
    if msgType = 4 then { f with password := v }
    else if msgType = 5 ∨ msgType = 10 ∨ msgType = 13 then { f with errMsg := v }
    else { f with peer := v }
  else if field = 3 then
    if msgType = 13 then
      if 0 < parseUint64Safe v then { f with msgId := parseUint64Safe v } else f
    else { f with message := v }
  else if field = 4 then
    if msgType = 13 then { f with user := v }
    else if 0 < parseUint64Safe v then { f with msgId := parseUint64Safe v } else f
  else if field = 5 then
    if msgType = 13 then { f with errMsg := v } else { f with timestamp := v }
  else f

/-- The branch on `field` for a varint value. -/
def setVarint (f : ProtoFields) (msgType : UInt16) (field v : Nat) : ProtoFields :=
  if field = 2 ∧ msgType = 13 then { f with ackType := v }
  else if field = 3 ∧ msgType = 13 then { f with msgId := v }
  else if field = 4 then { f with msgId := v }
  else if field = 5 ∧ msgType = 13 then { f with msgIds := f.msgIds ++ [v] }
  else f

end ProtoFields

/-! ## 2. The field loop -/

/-- One round of `while (off < body.size())`; `none` is `return ""`. -/
def decodeField (msgType : UInt16) (body : Bytes) (off : Nat) (f : ProtoFields) :
    Option (Nat × ProtoFields) :=
  let key := readVarint body off
  if key.ok = false then none
  else
    let field := (key.v >>> 3) % 2 ^ 32
    let wt := key.v &&& 0x7
    if wt = 2 then
      let len := readVarint body key.off
      if len.ok = false then none
      else
        -- `off + len` wraps, and it is the wrapped sum that is compared and assigned
        let stop := (len.off + len.v) % wordSize
        if body.length < stop then none
        else some (stop, f.setString msgType field ((body.drop len.off).take len.v))
    else if wt = 0 then
      let val := readVarint body key.off
      if val.ok = false then none else some (val.off, f.setVarint msgType field val.v)
    else
      let skipped := skipField wt body key.off
      if skipped.1 = false then none else some (skipped.2, f)

/-- The loop, granted `fuel` rounds: `none` is still running, `some none` is `return ""`,
    `some (some f)` is the loop left with `off >= body.size()`. -/
def decodeLoop (msgType : UInt16) (body : Bytes) :
    Nat → Nat → ProtoFields → Option (Option ProtoFields)
  | 0, off, f => if off < body.length then none else some (some f)
  | fuel + 1, off, f =>
      if off < body.length then
        match decodeField msgType body off f with
        | none => some none
        | some (off', f') => decodeLoop msgType body fuel off' f'
      else some (some f)

/-! ## 3. The JSON text -/

/-- `out` and `first` of the rendering code. -/
structure JsonOut where
  out : Bytes
  first : Bool

namespace JsonOut

def addKV (j : JsonOut) (k v : Bytes) : JsonOut :=
  if v = [] then j
  else
    ⟨(if j.first then j.out else j.out ++ [comma]) ++ (quoted k ++ (colon :: quoted v)), false⟩

def addKVNum (j : JsonOut) (k : Bytes) (v : Nat) : JsonOut :=
  if v = 0 then j
  else
    ⟨(if j.first then j.out else j.out ++ [comma]) ++ (quoted k ++ (colon :: quoted (toDecimal v))),
      false⟩

/-- `"msg_ids":[…]`, written when the list is not empty. -/
def addIds (j : JsonOut) (ids : List Nat) : JsonOut :=
  if ids = [] then j
  else
    ⟨(if j.first then j.out else j.out ++ [comma]) ++
      (quoted (ascii "msg_ids") ++ (colon :: openBracket ::
        ((ids.map toDecimal).intersperse [comma]).flatten ++ [closeBracket])), j.first⟩

end JsonOut

/-- The tail of `decodeProtoToJson`: one member list for each client message type. -/
def renderJson (msgType : UInt16) (f : ProtoFields) : Bytes :=
  let start : JsonOut := ⟨[openBrace], true⟩
  let done (j : JsonOut) : Bytes := j.out ++ [closeBrace]
  if msgType = 1 then
    done (((((start.addKV (ascii "sender") f.sender).addKV (ascii "target") f.target).addKV
      (ascii "message") f.message).addKV (ascii "timestamp") f.timestamp).addKVNum
      (ascii "msg_id") f.msgId)
  else if msgType = 3 then done (start.addKV (ascii "sender") f.sender)
  else if msgType = 4 then
    done ((start.addKV (ascii "username") f.username).addKV (ascii "password") f.password)
  else if msgType = 7 then
    done ((start.addKV (ascii "last_timestamp") f.lastTs).addKV (ascii "peer") f.peer)
  else if msgType = 9 then done (start.addKV (ascii "friend") f.friendName)
  else if msgType = 11 then done start
  else if msgType = 13 then
    done ((((((start.addKV (ascii "result") f.result).addKVNum (ascii "type") f.ackType).addKVNum
      (ascii "msg_id") f.msgId).addKV (ascii "user") f.user).addKV (ascii "message") f.errMsg).addIds
      f.msgIds)
  else []

/-- `decodeProtoToJson`, granted `fuel` rounds of its field loop. -/
def decodeProtoToJson (fuel : Nat) (msgType : UInt16) (body : Bytes) : Option Bytes :=
  if body = [] then some []
  else
    match decodeLoop msgType body fuel 0 {} with
    | none => none
    | some none => some []
    | some (some f) => some (renderJson msgType f)

/-- The field loop ends on this body. -/
def DecodeEnds (msgType : UInt16) (body : Bytes) : Prop :=
  ∃ fuel, (decodeProtoToJson fuel msgType body).isSome

/-! ## 4. The encoder -/

/-- The `get` lambda: the fast extractor, and the lite one when that gave nothing. -/
def getField (json key : Bytes) : Bytes :=
  let v := (extractJsonStringFast json key).getD []
  if v = [] then extractJsonValueLite json key else v

/-- `if (!v.empty()) writeString(fieldNo, v, out)`. -/
def putString (fieldNo : Nat) (v : Bytes) : Bytes := if v = [] then [] else writeString fieldNo v

/-- `if (v > 0) writeUint64(fieldNo, v, out)`. -/
def putUint64 (fieldNo v : Nat) : Bytes := if v = 0 then [] else writeUint64 fieldNo v

/-- `encodeJsonToProto`. Types 12 and those without a branch are passed through. -/
def encodeJsonToProto (msgType : UInt16) (json : Bytes) : Bytes :=
  if json = [] then []
  else if msgType = 1 then
    putString 1 (getField json (ascii "sender")) ++ (putString 2 (getField json (ascii "target")) ++
      (putString 3 (getField json (ascii "message")) ++
        (putUint64 4 (parseUint64Safe (getField json (ascii "msg_id"))) ++
          putString 5 (getField json (ascii "timestamp")))))
  else if msgType = 3 then putString 1 (getField json (ascii "sender"))
  else if msgType = 4 then
    putString 1 (getField json (ascii "username")) ++ putString 2 (getField json (ascii "password"))
  else if msgType = 5 then
    putString 1 (getField json (ascii "result")) ++ putString 2 (getField json (ascii "message"))
  else if msgType = 7 then
    let peer := getField json (ascii "peer")
    putString 1 (getField json (ascii "last_timestamp")) ++
      putString 2 (if peer = [] then getField json (ascii "target") else peer)
  else if msgType = 9 then putString 1 (getField json (ascii "friend"))
  else if msgType = 10 then
    putString 1 (getField json (ascii "result")) ++ (putString 2 (getField json (ascii "message")) ++
      putString 3 (getField json (ascii "friend")))
  else if msgType = 12 then json
  else if msgType = 13 then
    putString 1 (getField json (ascii "result")) ++
      (putUint64 2 (parseUint64Safe (getField json (ascii "type"))) ++
        (putUint64 3 (parseUint64Safe (getField json (ascii "msg_id"))) ++
          (putString 4 (getField json (ascii "user")) ++
            (putString 5 (getField json (ascii "message")) ++
              ((parseJsonUint64ArrayFast json (ascii "msg_ids") 256).map (putUint64 5)).flatten))))
  else json

end EpollChat
