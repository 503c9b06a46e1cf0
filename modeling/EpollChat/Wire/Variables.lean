import EpollChat.Wire.Message
import EpollChat.Wire.Codec

/-!
# What a body says, variable by variable

The abstract side of `decodeProtoToJson`. A field of a body assigns to one of the decoder's
variables, or to none if the type of the packet has no such field. The variable a field
assigns to is all that connects it to the others, so a body comes to a *history* for each
variable, the payloads that assign to it in their order, and a variable's value is a fold
of its history. A string variable has the value of its last assignment and `msgIds`
collects them all; `msgId` is assigned by varints, and by strings that hold a number.

There is no `target`: no field of any type assigns to it.
-/

namespace EpollChat

open Pb

inductive Variable where
  | sender
  | message
  | timestamp
  | result
  | username
  | password
  | user
  | lastTs
  | peer
  | friendName
  | errMsg
  | msgId
  | ackType
  | msgIds
deriving DecidableEq, Repr

namespace Variable

/-- The variable of a length-delimited field. -/
def ofString (msgType : UInt16) (number : Nat) : Option Variable :=
  if number = 1 then
    if msgType = 4 then some username
    else if msgType = 5 ∨ msgType = 10 then some result
    else if msgType = 7 then some lastTs
    else if msgType = 9 then some friendName
    else if msgType = 13 then some result
    else some sender
  else if number = 2 then
    if msgType = 4 then some password
    else if msgType = 5 ∨ msgType = 10 ∨ msgType = 13 then some errMsg
    else some peer
  else if number = 3 then
    if msgType = 13 then some msgId else some message
  else if number = 4 then
    if msgType = 13 then some user else some msgId
  else if number = 5 then
    if msgType = 13 then some errMsg else some timestamp
  else none

/-- The variable of a varint field. -/
def ofVarint (msgType : UInt16) (number : Nat) : Option Variable :=
  if number = 2 ∧ msgType = 13 then some ackType
  else if number = 3 ∧ msgType = 13 then some msgId
  else if number = 4 then some msgId
  else if number = 5 ∧ msgType = 13 then some msgIds
  else none

/-- The variable a field assigns to. -/
def ofField (msgType : UInt16) (fd : Field) : Option Variable :=
  match fd.payload with
  | .string _ => ofString msgType fd.number
  | .varint _ => ofVarint msgType fd.number
  | .other _ _ => none

/-- The assignments to `x`, in order. -/
def history (msgType : UInt16) (fs : List Field) (x : Variable) : List Payload :=
  (fs.filter fun fd => ofField msgType fd = some x).map Field.payload

def assignString (v : Bytes) : Payload → Bytes
  | .string w => w
  | _ => v

def assignNumber (n : Nat) : Payload → Nat
  | .varint v => v
  | .string w => if 0 < parseUint64Safe w then parseUint64Safe w else n
  | .other _ _ => n

def assignMore (ns : List Nat) : Payload → List Nat
  | .varint v => ns ++ [v]
  | _ => ns

/-- The decoder's variables after these histories. -/
def valuesOf (w : Variable → List Payload) : ProtoFields where
  sender := (w .sender).foldl assignString []
  message := (w .message).foldl assignString []
  timestamp := (w .timestamp).foldl assignString []
  result := (w .result).foldl assignString []
  username := (w .username).foldl assignString []
  password := (w .password).foldl assignString []
  user := (w .user).foldl assignString []
  lastTs := (w .lastTs).foldl assignString []
  peer := (w .peer).foldl assignString []
  friendName := (w .friendName).foldl assignString []
  errMsg := (w .errMsg).foldl assignString []
  msgId := (w .msgId).foldl assignNumber 0
  ackType := (w .ackType).foldl assignNumber 0
  msgIds := (w .msgIds).foldl assignMore []

end Variable
end EpollChat
