/-
# Records of the Dante session

`dante_protocol_parse_record` turns a record, which is JSON text, into a message. The tree of the
text is json-c's, and the numbers of an address are `inet_pton`'s: both are parameters. What is
made of the tree is modelled with the fields as they are filled one after the other, the texts
that are allocated for addresses, and the text of the error.
-/

import Zstreamer.Rtsp.Text

namespace Zstreamer.DanteSession

open Foundation
open Rtsp (text text_ne cstr)

/-! ## The tree -/

/-- A value of json-c. Of a number with a fraction only the kind is looked at. -/
inductive Json
  | null
  | boolean (value : Bool)
  | double
  | int (number : ℤ)
  | string (bytes : List Byte)
  | array (items : List Json)
  | object (entries : List (List Byte × Json))

namespace Json

/-- `json_object_object_get_ex`. -/
def get (object : Json) (key : List Byte) : Option Json :=
  match object with
  | .object entries => (entries.find? fun entry => entry.1 = key).map Prod.snd
  | _ => none

/-- `json_object_get_int64`: a number outside the 64 bits becomes the nearest one inside. -/
def getInt64 (number : ℤ) : ℤ := max (-2 ^ 63) (min number (2 ^ 63 - 1))

/-- `json_object_get_type` says that a value is an object. -/
def isObject : Json → Bool
  | .object _ => true
  | _ => false

/-- `object_has_exact_keys`. -/
def hasExactKeys (object : Json) (keys : List (List Byte)) : Bool :=
  match object with
  | .object entries => entries.length = keys.length ∧ ∀ key ∈ keys, (object.get key).isSome
  | _ => false

/-- `object_has_required_keys`. -/
def hasRequiredKeys (object : Json) (keys : List (List Byte)) : Bool :=
  object.isObject && keys.all fun key => (object.get key).isSome

/-- `get_uint32`. -/
def getUint32 (object : Json) (key : List Byte) : Option (BitVec 32) :=
  match object.get key with
  | some (.int number) =>
      if getInt64 number < 0 ∨ getInt64 number > 2 ^ 32 - 1 then none
      else some (BitVec.ofInt 32 (getInt64 number))
  | _ => none

/-- The C string of a value that is a string. -/
def getString (object : Json) (key : List Byte) : Option (List Byte) :=
  match object.get key with
  | some (.string bytes) => some (cstr bytes)
  | _ => none

end Json

/-- What json-c says of a text: the tree, whether there was an error, and where it has stopped. -/
structure Parse where
  root : Option Json
  success : Bool
  parseEnd : ℕ

/-- The libraries: `json_tokener_parse_ex`, and `inet_pton` for `AF_INET`, whose address is given
in host order. -/
structure Library where
  parse : List Byte → Parse
  inetPton : List Byte → Option (BitVec 32)

/-- Which allocations succeed while a record is handled: the tokener, the copy of the address
under a key, and the node of the registry. -/
structure Allocations where
  tokener : Bool
  strdup : List Byte → Bool
  node : Bool

/-! ## The message -/

/-- `zst_dante_flow_direction_t`. -/
inductive Direction
  | tx
  | rx
  deriving DecidableEq, Repr

/-- `zst_dante_flow_transport_t`. -/
inductive Transport
  | unicast
  | multicast
  deriving DecidableEq, Repr

/-- `zst_dante_tx_channel_status_t`. -/
inductive ChannelStatus
  | ok
  | extNotConnected
  | extNotReady
  | extConnectionBad
  | extConnectionUnsupported
  | extInvalidConfiguration
  | extSystemFailure
  deriving DecidableEq, Repr

/-- `dante_action_type_t`. -/
inductive ActionType
  | requestConfiguration
  | createFlow
  | deleteFlow
  | reportRxChannelStatus
  | reportConfiguration
  deriving DecidableEq, Repr

/-- `ZST_DANTE_VIDEO_SUBTYPE_LEN`. -/
def videoSubtypeLen : ℕ := 16

/-- `zst_dante_flow_t`. An address is a copy of a C string, the subtype an array of bytes. -/
structure Flow where
  direction : Direction
  transport : Transport
  flowIndex : BitVec 32
  channelIndex : BitVec 32
  port : BitVec 16
  receiverAddress : Option (List Byte)
  multicastAddress : Option (List Byte)
  transmitterAddress : Option (List Byte)
  videoSubtype : List Byte
  deriving DecidableEq, Repr

/-- A flow after `memset`. -/
def Flow.zero : Flow where
  direction := .tx
  transport := .unicast
  flowIndex := 0
  channelIndex := 0
  port := 0
  receiverAddress := none
  multicastAddress := none
  transmitterAddress := none
  videoSubtype := List.replicate videoSubtypeLen 0

/-- `dante_message_t`. -/
structure Message where
  type : ActionType
  flow : Flow
  deleteDirection : Direction
  deleteFlowIndex : BitVec 32
  reportChannelIndex : BitVec 32
  reportChannelStatus : ChannelStatus
  deriving DecidableEq, Repr

/-- A message after `memset`. -/
def Message.zero : Message where
  type := .requestConfiguration
  flow := Flow.zero
  deleteDirection := .tx
  deleteFlowIndex := 0
  reportChannelIndex := 0
  reportChannelStatus := .ok

/-- `dante_protocol_result_t`. -/
inductive Result
  | ok
  | malformed
  | unknownAction
  deriving DecidableEq, Repr

/-- What a parse has to show at some point: the message, the copies of addresses that are
allocated, and the text given to `set_error`. -/
structure State where
  message : Message
  live : List (List Byte)
  error : Option (List Byte)
  deriving DecidableEq, Repr

namespace State

/-- `set_error`. -/
def setError (s : State) (error : List Byte) : State := { s with error := some error }

/-- An assignment to fields of the flow. -/
def setFlow (s : State) (change : Flow → Flow) : State :=
  { s with message := { s.message with flow := change s.message.flow } }

/-- `free` of a pointer, which may be null. -/
def release (s : State) (pointer : Option (List Byte)) : State :=
  { s with live := pointer.elim s.live s.live.erase }

/-- `dante_protocol_message_clear`. -/
def clear (s : State) : State :=
  { ((s.release s.message.flow.receiverAddress).release s.message.flow.multicastAddress).release
      s.message.flow.transmitterAddress with
    message := Message.zero }

end State

/-! ## The actions -/

/-- An address of the range `224.0.0.0/4`. -/
def isMulticast (host : BitVec 32) : Bool := host &&& 0xf0000000 = 0xe0000000

/-- `get_ipv4`: the copy of the address under a key. -/
def getIpv4 (lib : Library) (allocs : Allocations) (object : Json) (key : List Byte)
    (multicast : Bool) : Option (List Byte) :=
  match object.getString key with
  | none => none
  | some address =>
      match lib.inetPton address with
      | none => none
      | some host =>
          if multicast ≠ isMulticast host then none
          else if ¬ multicast ∧ (host = 0 ∨ host = 0xffffffff) then none
          else if allocs.strdup key then some address
          else none

def unicastTxKeys : List (List Byte) :=
  [text "flowIndex", text "channelIndex", text "port", text "receiverAddress", text "videoSubtype"]

def unicastRxKeys : List (List Byte) :=
  [text "flowIndex", text "channelIndex", text "port", text "receiverAddress",
    text "transmitterAddress", text "videoSubtype"]

def multicastTxKeys : List (List Byte) :=
  [text "flowIndex", text "channelIndex", text "port", text "multicastAddress",
    text "videoSubtype"]

def multicastRxKeys : List (List Byte) :=
  [text "flowIndex", text "channelIndex", text "port", text "multicastAddress",
    text "transmitterAddress", text "videoSubtype"]

/-- `strstr(action, "TxFlow")`. -/
def isTx (action : List Byte) : Bool := (Rtsp.strstr action (text "TxFlow")).isSome

/-- `strstr(action, "Multicast")`. -/
def isMulticastAction (action : List Byte) : Bool :=
  (Rtsp.strstr action (text "Multicast")).isSome

/-- The key of the address that the transport needs. -/
def addressKey (multicast : Bool) : List Byte :=
  if multicast then text "multicastAddress" else text "receiverAddress"

/-- `memcpy` of a C string and the byte behind it into the subtype: of a string that is too long,
as many bytes as the array has. -/
def copySubtype (s : List Byte) (old : List Byte) : List Byte :=
  let len := if s.length ≥ videoSubtypeLen then videoSubtypeLen - 1 else s.length
  (s ++ [0]).take (len + 1) ++ old.drop (len + 1)

/-- The end of `parse_create`, where nothing fails any more. -/
def fillOptional (lib : Library) (allocs : Allocations) (parameters : Json) (tx : Bool)
    (port : BitVec 16) (s : State) : State :=
  let transmitter :=
    if tx then none else getIpv4 lib allocs parameters (text "transmitterAddress") false
  let s :=
    match transmitter with
    | none => s
    | some address =>
        { s with live := address :: s.live }.setFlow
          fun flow => { flow with transmitterAddress := some address }
  let s :=
    match parameters.getString (text "videoSubtype") with
    | none => s
    | some subtype =>
        s.setFlow fun flow => { flow with videoSubtype := copySubtype subtype flow.videoSubtype }
  s.setFlow fun flow => { flow with port := port }

/-- `parse_create`. -/
def parseCreate (lib : Library) (allocs : Allocations) (parameters : Json) (action : List Byte)
    (s : State) : Bool × State :=
  let tx := isTx action
  let multicast := isMulticastAction action
  let keys :=
    if multicast then if tx then multicastTxKeys else multicastRxKeys
    else if tx then unicastTxKeys else unicastRxKeys
  let invalid (s : State) : Bool × State :=
    (false, s.setError (action ++ text " parameters have invalid types, ranges, or addresses"))
  if ¬ parameters.hasRequiredKeys keys then
    (false, s.setError (action ++ text " parameters have an invalid shape"))
  else
    let s := { s with message := { s.message with type := .createFlow } }.setFlow fun flow =>
      { flow with
        direction := if tx then .tx else .rx
        transport := if multicast then .multicast else .unicast }
    match parameters.getUint32 (text "flowIndex") with
    | none => invalid s
    | some flowIndex =>
      let s := s.setFlow fun flow => { flow with flowIndex := flowIndex }
      match parameters.getUint32 (text "channelIndex") with
      | none => invalid s
      | some channelIndex =>
        let s := s.setFlow fun flow => { flow with channelIndex := channelIndex }
        match parameters.getUint32 (text "port") with
        | none => invalid s
        | some port =>
          if port = 0 ∨ port.toNat > 65535 then invalid s
          else
            match getIpv4 lib allocs parameters (addressKey multicast) multicast with
            | none => invalid s
            | some address =>
              let s := { s with live := address :: s.live }.setFlow fun flow =>
                if multicast then { flow with multicastAddress := some address }
                else { flow with receiverAddress := some address }
              (true, fillOptional lib allocs parameters tx (port.setWidth 16) s)

/-- `parse_delete`. -/
def parseDelete (parameters : Json) (action : List Byte) (s : State) : Bool × State :=
  let failed :=
    s.setError (action ++ text " parameters have an invalid shape or flowIndex")
  if ¬ parameters.hasRequiredKeys [text "flowIndex"] then (false, failed)
  else
    match parameters.getUint32 (text "flowIndex") with
    | none => (false, failed)
    | some flowIndex =>
        (true, { s with message := { s.message with
          type := .deleteFlow
          deleteFlowIndex := flowIndex
          deleteDirection := if action = text "deleteTxFlow" then .tx else .rx } })

/-- The statuses by their names. -/
def channelStatus (name : List Byte) : Option ChannelStatus :=
  if name = text "statusOK" then some .ok
  else if name = text "statusExtNotConnected" then some .extNotConnected
  else if name = text "statusExtNotReady" then some .extNotReady
  else if name = text "statusExtConnectionBad" then some .extConnectionBad
  else if name = text "statusExtConnectionUnsupported" then some .extConnectionUnsupported
  else if name = text "statusExtInvalidConfiguration" then some .extInvalidConfiguration
  else if name = text "statusExtSystemFailure" then some .extSystemFailure
  else none

/-- The branch of `reportRxChannelStatus`. -/
def parseReport (parameters : Json) (s : State) : Bool × State :=
  let types := s.setError (text "reportRxChannelStatus parameters have invalid types")
  if ¬ parameters.hasRequiredKeys [text "channelIndex", text "channelStatus"] then
    (false, s.setError (text "reportRxChannelStatus parameters have an invalid shape"))
  else
    match parameters.getUint32 (text "channelIndex") with
    | none => (false, types)
    | some channelIndex =>
      match parameters.getString (text "channelStatus") with
      | none => (false, types)
      | some name =>
        let s := { s with message := { s.message with
          type := .reportRxChannelStatus
          reportChannelIndex := channelIndex } }
        match channelStatus name with
        | none =>
            (false, s.setError
              (text "reportRxChannelStatus: unknown channelStatus '" ++ name ++ text "'"))
        | some status =>
            (true, { s with message := { s.message with reportChannelStatus := status } })

/-! ## The record -/

/-- The bytes behind a first byte: each goes on with it, and the value is in the range that so
many bytes are for. -/
def continues (lead : ℕ) (nexts : List Byte) : Bool :=
  let value := nexts.foldl (fun value next => value <<< 6 ||| (next &&& 0x3f).toNat) lead
  (nexts.all fun next => next &&& 0xc0 = 0x80) &&
    ¬ (nexts.length = 2 ∧ value < 0x800 ∨ nexts.length = 3 ∧ value < 0x10000 ∨
      value > 0x10ffff ∨ 0xd800 ≤ value ∧ value ≤ 0xdfff)

/-- `valid_utf8`. -/
def validUtf8 : List Byte → Bool
  | [] => true
  | c :: rest =>
      if c < 0x80 then validUtf8 rest
      else if 0xc2 ≤ c ∧ c ≤ 0xdf then
        match rest with
        | n₁ :: rest => continues (c &&& 0x1f).toNat [n₁] && validUtf8 rest
        | _ => false
      else if 0xe0 ≤ c ∧ c ≤ 0xef then
        match rest with
        | n₁ :: n₂ :: rest => continues (c &&& 0x0f).toNat [n₁, n₂] && validUtf8 rest
        | _ => false
      else if 0xf0 ≤ c ∧ c ≤ 0xf4 then
        match rest with
        | n₁ :: n₂ :: n₃ :: rest =>
            continues (c &&& 0x07).toNat [n₁, n₂, n₃] && validUtf8 rest
        | _ => false
      else false

/-- The bytes that may stand behind the tree. -/
def isBlank (b : Byte) : Bool := b = 0x20 || b = 0x09 || b = 0x0d || b = 0x0a

/-- Where the blanks end that begin at an offset. -/
def skipBlanks (data : List Byte) (parsed : ℕ) : ℕ :=
  parsed + ((data.drop parsed).takeWhile isBlank).length

/-- The action and the parameters of a record that is one envelope. -/
def envelope (parse : Parse) (data : List Byte) : Option (List Byte × Json) :=
  if ¬ parse.success ∨ skipBlanks data parse.parseEnd ≠ data.length then none
  else
    match parse.root with
    | none => none
    | some root =>
        match root.getString (text "action"), root.get (text "parameters") with
        | some action, some parameters =>
            if root.hasRequiredKeys [text "action", text "parameters"] ∧ parameters.isObject then
              some (action, parameters)
            else none
        | _, _ => none

/-- The actions that create a flow. -/
def createActions : List (List Byte) :=
  [text "createVideoUnicastTxFlow", text "createVideoMulticastTxFlow",
    text "createVideoUnicastRxFlow", text "createVideoMulticastRxFlow"]

/-- What an action does to a message; without a result the record is malformed. -/
def dispatch (lib : Library) (allocs : Allocations) (action : List Byte) (parameters : Json)
    (s : State) : Result × State :=
  let checked (done : Bool × State) : Result × State :=
    (if done.1 then .ok else .malformed, done.2)
  if action = text "requestConfiguration" then
    if ¬ parameters.hasExactKeys [] then
      (.malformed, s.setError (text "requestConfiguration parameters must be empty"))
    else (.ok, { s with message := { s.message with type := .requestConfiguration } })
  else if action ∈ createActions then checked (parseCreate lib allocs parameters action s)
  else if action = text "deleteTxFlow" ∨ action = text "deleteRxFlow" then
    checked (parseDelete parameters action s)
  else if action = text "reportRxChannelStatus" then checked (parseReport parameters s)
  else if action = text "reportConfiguration" then
    (.ok, { s with message := { s.message with type := .reportConfiguration } })
  else (.unknownAction, s.setError (text "unsupported Dante action: " ++ action))

/-- What is made of the tree. -/
def interpret (lib : Library) (allocs : Allocations) (data : List Byte) (s : State) :
    Result × State :=
  match envelope (lib.parse data) data with
  | none =>
      (.malformed, s.setError (text "record is not exactly one valid Dante JSON envelope"))
  | some (action, parameters) => dispatch lib allocs action parameters s

/-- The end of the function: the message of a record that is refused is cleared. -/
def finish : Result × State → Result × State
  | (.ok, s) => (.ok, s)
  | (.malformed, s) => (.malformed, s.clear)
  | (.unknownAction, s) => (.unknownAction, s.clear)

/-- A message before anything is parsed. -/
def State.start : State := ⟨Message.zero, [], none⟩

/-- `dante_protocol_parse_record`, for pointers that are not null: the result, and what the
message is then, which holds anything before. -/
def parseRecord (lib : Library) (allocs : Allocations) (data : List Byte) (before : Message) :
    Result × State :=
  if data.length = 0 ∨ data.length > 2 ^ 31 - 1 then
    (.malformed, ⟨before, [], some (text "empty or oversized record")⟩)
  else
    let s := State.start
    if 0 ∈ data then (.malformed, s.setError (text "record contains an embedded NUL"))
    else if ¬ validUtf8 data then (.malformed, s.setError (text "record is not valid UTF-8"))
    else if ¬ allocs.tokener then
      (.malformed, s.setError (text "JSON parser allocation failed"))
    else finish (interpret lib allocs data s)

/-! ## What is read of a record -/

theorem Json.get_cons_self (key : List Byte) (value : Json) (entries : List (List Byte × Json)) :
    (Json.object ((key, value) :: entries)).get key = some value := by
  rw [Json.get, List.find?_cons_of_pos (by simp)]
  rfl

theorem Json.get_cons_of_ne {key other : List Byte} (hkey : other ≠ key) (value : Json)
    (entries : List (List Byte × Json)) :
    (Json.object ((other, value) :: entries)).get key = (Json.object entries).get key := by
  rw [Json.get, List.find?_cons_of_neg (by simpa using hkey)]
  rfl

/-- An object with an action and parameters that was parsed to the end is one envelope. -/
theorem envelope_object {data action : List Byte} {parameters : Json}
    (haction : cstr action = action) (hobject : parameters.isObject = true) :
    envelope ⟨some (.object [(text "action", .string action), (text "parameters", parameters)]),
        true, data.length⟩ data = some (action, parameters) := by
  have hend : skipBlanks data data.length = data.length := by
    rw [skipBlanks, List.drop_length, List.takeWhile_nil, List.length_nil, Nat.add_zero]
  have hfirst : (Json.object [(text "action", .string action),
      (text "parameters", parameters)]).get (text "action") = some (.string action) :=
    Json.get_cons_self _ _ _
  have hsecond : (Json.object [(text "action", .string action),
      (text "parameters", parameters)]).get (text "parameters") = some parameters := by
    rw [Json.get_cons_of_ne (text_ne "action" "parameters" rfl rfl (by decide)), Json.get_cons_self]
  have hkeys : (Json.object [(text "action", .string action),
      (text "parameters", parameters)]).hasRequiredKeys
        [text "action", text "parameters"] = true := by
    rw [Json.hasRequiredKeys, List.all_cons, List.all_cons, List.all_nil, hfirst, hsecond]
    rfl
  have hsuccess : ¬ (¬ True ∨ data.length ≠ data.length) := by simp
  rw [envelope]
  simp only [hend, Json.getString, hfirst, hsecond, haction, hkeys]
  exact (if_neg hsuccess).trans (if_pos ⟨trivial, hobject⟩)

/-- A record of bytes below `0x80` is UTF-8. -/
theorem validUtf8_of_ascii (data : List Byte) (hascii : ∀ b ∈ data, b < 0x80) :
    validUtf8 data = true := by
  induction data with
  | nil => rw [validUtf8]
  | cons b data ih =>
      have hfirst : validUtf8 (b :: data) = validUtf8 data := by
        rw [validUtf8.eq_def (b :: data)]
        exact if_pos (hascii b List.mem_cons_self)
      rw [hfirst]
      exact ih fun c hc => hascii c (List.mem_cons_of_mem b hc)

/-- A record of characters is what its tree is. -/
theorem parseRecord_of_ascii {lib : Library} {allocs : Allocations} {data : List Byte}
    (hsome : data.length ≠ 0) (hlength : data.length ≤ 2 ^ 31 - 1)
    (hbytes : ∀ b ∈ data, b ≠ 0 ∧ b < 0x80) (htokener : allocs.tokener = true)
    (before : Message) :
    parseRecord lib allocs data before = finish (interpret lib allocs data State.start) := by
  have hsize : ¬ (data.length = 0 ∨ data.length > 2 ^ 31 - 1) := by omega
  have hnul : 0 ∉ data := fun hzero => (hbytes 0 hzero).1 rfl
  have hvalid : validUtf8 data = true := validUtf8_of_ascii data fun b hb => (hbytes b hb).2
  rw [parseRecord, if_neg hsize, if_neg hnul, if_neg (not_not_intro hvalid),
    if_neg (not_not_intro htokener)]

end Zstreamer.DanteSession
