/-
# What a record that is accepted says

A message that creates a flow has the numbers of its record, and the address of its transport and
no other. Two things are not checked: the address of the transmitter, which the flow of a receiver
must have, and the length of the subtype, which is cut off without the zero byte at its end.
-/

import Mathlib.Tactic.Common
import Zstreamer.DanteSession.Protocol

namespace Zstreamer.DanteSession

open Foundation List
open Rtsp (text text_chars length_text text_append text_ne forall_mem_text cstr)

/-! ## What a message should say -/

/-- A number is the integer under a key. -/
def IsInteger (parameters : Json) (key : List Byte) (value : BitVec 32) : Prop :=
  ∃ number : ℤ, parameters.get key = some (.int number) ∧ 0 ≤ number ∧ number < 2 ^ 32 ∧
    (value.toNat : ℤ) = number

/-- An address for one receiver. -/
def IsUnicast (host : BitVec 32) : Prop :=
  isMulticast host = false ∧ host ≠ 0 ∧ host ≠ 0xffffffff

/-- A field has the address under a key, which is of a kind. -/
def HasAddress (lib : Library) (parameters : Json) (key : List Byte) (kind : BitVec 32 → Prop)
    (field : Option (List Byte)) : Prop :=
  ∃ address host, field = some address ∧ parameters.getString key = some address ∧
    lib.inetPton address = some host ∧ kind host

/-- The subtype of a record; it is empty when it is not a string. -/
def subtypeOf (parameters : Json) : List Byte :=
  (parameters.getString (text "videoSubtype")).getD []

/-- A flow is what a record says. -/
structure Sound (lib : Library) (parameters : Json) (flow : Flow) : Prop where
  flowIndex : IsInteger parameters (text "flowIndex") flow.flowIndex
  channelIndex : IsInteger parameters (text "channelIndex") flow.channelIndex
  port : 1 ≤ flow.port.toNat ∧ IsInteger parameters (text "port") (flow.port.setWidth 32)
  address :
    flow.transport = .multicast ∧ flow.receiverAddress = none ∧
        HasAddress lib parameters (text "multicastAddress") (fun host => isMulticast host = true)
          flow.multicastAddress ∨
      flow.transport = .unicast ∧ flow.multicastAddress = none ∧
        HasAddress lib parameters (text "receiverAddress") IsUnicast flow.receiverAddress
  transmitter : flow.direction = .rx →
    HasAddress lib parameters (text "transmitterAddress") IsUnicast flow.transmitterAddress
  subtype : flow.videoSubtype.length = videoSubtypeLen ∧ 0 ∈ flow.videoSubtype ∧
    cstr flow.videoSubtype <+: subtypeOf parameters

/-- What a record has to have in addition to what is checked. -/
structure Complete (lib : Library) (allocs : Allocations) (action : List Byte)
    (parameters : Json) : Prop where
  transmitter : isTx action = false →
    HasAddress lib parameters (text "transmitterAddress") IsUnicast
        (parameters.getString (text "transmitterAddress")) ∧
      allocs.strdup (text "transmitterAddress") = true
  subtype : (subtypeOf parameters).length < videoSubtypeLen

/-! ## Numbers and addresses -/

theorem getUint32_integer {parameters : Json} {key : List Byte} {value : BitVec 32}
    (h : parameters.getUint32 key = some value) : IsInteger parameters key value := by
  rw [Json.getUint32] at h
  split at h
  case h_1 number hnumber =>
    split at h
    case isTrue => cases h
    case isFalse hrange =>
      cases h
      have hsame : Json.getInt64 number = number := by
        rw [Json.getInt64] at hrange ⊢
        omega
      rw [hsame] at hrange ⊢
      refine ⟨number, hnumber, by omega, by omega, ?_⟩
      rw [BitVec.toNat_ofInt]
      omega
  case h_2 => cases h

/-- An address that is copied is of the kind asked for. -/
theorem getIpv4_address {lib : Library} {allocs : Allocations} {parameters : Json}
    {key address : List Byte} {multicast : Bool}
    (h : getIpv4 lib allocs parameters key multicast = some address) :
    allocs.strdup key = true ∧ HasAddress lib parameters key
      (fun host => if multicast then isMulticast host = true else IsUnicast host)
      (some address) := by
  rw [getIpv4] at h
  split at h
  case h_1 => cases h
  case h_2 found hfound =>
    split at h
    case h_1 => cases h
    case h_2 host hhost =>
      split at h
      case isTrue => cases h
      case isFalse hkind =>
        split at h
        case isTrue => cases h
        case isFalse hspecial =>
          split at h
          case isFalse => cases h
          case isTrue hcopied =>
            cases h
            refine ⟨hcopied, _, host, rfl, hfound, hhost, ?_⟩
            cases multicast with
            | true => exact (of_not_not hkind).symm
            | false =>
                have hnone : ¬ (host = 0 ∨ host = 0xffffffff) := fun hor => hspecial ⟨by simp, hor⟩
                exact ⟨(of_not_not hkind).symm, not_or.mp hnone⟩

/-- The address of a transmitter is copied when there is one. -/
theorem getIpv4_eq_some {lib : Library} {allocs : Allocations} {parameters : Json}
    {key address : List Byte} (hcopied : allocs.strdup key = true)
    (h : HasAddress lib parameters key IsUnicast (some address)) :
    getIpv4 lib allocs parameters key false = some address := by
  obtain ⟨found, host, hsame, hfound, hhost, hkind, hzero, hall⟩ := h
  cases hsame
  have hnone : ¬ (¬ false = true ∧ (host = 0 ∨ host = 0xffffffff)) :=
    fun hspecial => (not_or.mpr ⟨hzero, hall⟩) hspecial.2
  rw [getIpv4, hfound]
  dsimp only
  rw [hhost]
  dsimp only
  rw [hkind, if_neg (fun hne => hne rfl), if_neg hnone, if_pos hcopied]

/-! ## The subtype -/

theorem copySubtype_of_lt {s : List Byte} (hs : s.length < videoSubtypeLen) (old : List Byte) :
    copySubtype s old = s ++ 0 :: old.drop (s.length + 1) := by
  have hlong : ¬ s.length ≥ videoSubtypeLen := Nat.not_le.mpr hs
  rw [copySubtype]
  simp only [if_neg hlong]
  rw [take_of_length_le (by simp), append_assoc]
  rfl

/-- A string without a zero byte that is too long fills the array, and no zero byte is left. -/
theorem copySubtype_of_ge {s old : List Byte} (hs : videoSubtypeLen ≤ s.length)
    (hold : old.length = videoSubtypeLen) :
    copySubtype s old = s.take videoSubtypeLen := by
  have hlen : videoSubtypeLen - 1 + 1 = videoSubtypeLen := rfl
  rw [copySubtype]
  simp only [if_pos hs, hlen]
  rw [take_append_of_le_length hs, ← hold, drop_length, append_nil]

theorem zero_not_mem_cstr (s : List Byte) : 0 ∉ cstr s := by
  intro hzero
  have hall : (cstr s).all (· ≠ 0) = true := all_takeWhile
  exact absurd (all_eq_true.mp hall 0 hzero) (by decide)

/-- The bytes of a subtype are a string when the string that has been copied is short. -/
theorem subtype_iff {s : List Byte} (hs : 0 ∉ s) :
    ((copySubtype s (replicate videoSubtypeLen 0)).length = videoSubtypeLen ∧
      0 ∈ copySubtype s (replicate videoSubtypeLen 0) ∧
      cstr (copySubtype s (replicate videoSubtypeLen 0)) <+: s) ↔
    s.length < videoSubtypeLen := by
  constructor
  · rintro ⟨_, hzero, _⟩
    by_contra hlong
    rw [copySubtype_of_ge (Nat.le_of_not_lt hlong) length_replicate] at hzero
    exact hs (mem_of_mem_take hzero)
  · intro hshort
    rw [copySubtype_of_lt hshort]
    refine ⟨?_, ?_, ?_⟩
    · rw [length_append, length_cons, length_drop, length_replicate]
      omega
    · exact mem_append_right _ mem_cons_self
    · rw [Rtsp.cstr_zero hs]

/-! ## The flow that is created -/

/-- The copy of the transmitter's address; a flow that is sent has none. -/
def transmitterOf (lib : Library) (allocs : Allocations) (parameters : Json) (tx : Bool) :
    Option (List Byte) :=
  if tx then none else getIpv4 lib allocs parameters (text "transmitterAddress") false

/-- The flow of a record that is accepted. -/
def createdFlow (lib : Library) (allocs : Allocations) (parameters : Json) (tx multicast : Bool)
    (flowIndex channelIndex : BitVec 32) (port : BitVec 16) (address : List Byte) : Flow where
  direction := if tx then .tx else .rx
  transport := if multicast then .multicast else .unicast
  flowIndex := flowIndex
  channelIndex := channelIndex
  port := port
  receiverAddress := if multicast then none else some address
  multicastAddress := if multicast then some address else none
  transmitterAddress := transmitterOf lib allocs parameters tx
  videoSubtype := copySubtype (subtypeOf parameters) (replicate videoSubtypeLen 0)

/-- Without a subtype nothing is copied, and the array is that of an empty string. -/
theorem copySubtype_nil :
    copySubtype [] (replicate videoSubtypeLen 0) = replicate videoSubtypeLen 0 := rfl

/-- The transmitter's address is not looked at again, and no other field is changed. -/
theorem fillOptional_message {lib : Library} {allocs : Allocations} {parameters : Json} {tx : Bool}
    {port : BitVec 16} {s : State} (htransmitter : s.message.flow.transmitterAddress = none)
    (hsubtype : s.message.flow.videoSubtype = replicate videoSubtypeLen 0) :
    (fillOptional lib allocs parameters tx port s).message =
      { s.message with flow := { s.message.flow with
        transmitterAddress := transmitterOf lib allocs parameters tx
        videoSubtype := copySubtype (subtypeOf parameters) (replicate videoSubtypeLen 0)
        port := port } } := by
  rw [fillOptional, subtypeOf, ← transmitterOf]
  cases transmitterOf lib allocs parameters tx with
  | none =>
      cases parameters.getString (text "videoSubtype") with
      | none => simpa [State.setFlow, htransmitter, hsubtype] using copySubtype_nil.symm
      | some subtype => simp [State.setFlow, htransmitter, hsubtype]
  | some address =>
      cases parameters.getString (text "videoSubtype") with
      | none => simpa [State.setFlow, hsubtype] using copySubtype_nil.symm
      | some subtype => simp [State.setFlow, hsubtype]

/-- **What `parse_create` accepts**: the numbers and the address have been found, and the flow has
them. -/
theorem parseCreate_ok {lib : Library} {allocs : Allocations} {parameters : Json}
    {action : List Byte} {s' : State}
    (h : parseCreate lib allocs parameters action State.start = (true, s')) :
    ∃ flowIndex channelIndex port address,
      parameters.getUint32 (text "flowIndex") = some flowIndex ∧
      parameters.getUint32 (text "channelIndex") = some channelIndex ∧
      parameters.getUint32 (text "port") = some port ∧ port ≠ 0 ∧ port.toNat ≤ 65535 ∧
      getIpv4 lib allocs parameters (addressKey (isMulticastAction action))
        (isMulticastAction action) = some address ∧
      s'.message = { Message.zero with
        type := .createFlow
        flow := createdFlow lib allocs parameters (isTx action) (isMulticastAction action) flowIndex
          channelIndex (port.setWidth 16) address } := by
  rw [parseCreate] at h
  generalize hkeys : parameters.hasRequiredKeys _ = shaped at h
  dsimp only at h
  split at h
  case isTrue => cases h
  split at h
  case h_1 => cases h
  case h_2 flowIndex hflow =>
  split at h
  case h_1 => cases h
  case h_2 channelIndex hchannel =>
  split at h
  case h_1 => cases h
  case h_2 port hport =>
  split at h
  case isTrue => cases h
  case isFalse hrange =>
  split at h
  case h_1 => cases h
  case h_2 address haddress =>
  obtain ⟨hzero, hlarge⟩ := not_or.mp hrange
  refine ⟨flowIndex, channelIndex, port, address, hflow, hchannel, hport, hzero,
    Nat.le_of_not_lt hlarge, haddress, ?_⟩
  cases h
  cases hmulticast : isMulticastAction action with
  | true => exact (fillOptional_message rfl rfl).trans rfl
  | false => exact (fillOptional_message rfl rfl).trans rfl

/-- What is accepted: the numbers and the address of a unicast flow are found. -/
theorem parseCreate_accepts {lib : Library} {allocs : Allocations} {parameters : Json}
    {action : List Byte} {flowIndex channelIndex port : BitVec 32} {address : List Byte} (s : State)
    (hunicast : isMulticastAction action = false)
    (hkeys : parameters.hasRequiredKeys
      (if isTx action = true then unicastTxKeys else unicastRxKeys) = true)
    (hflow : parameters.getUint32 (text "flowIndex") = some flowIndex)
    (hchannel : parameters.getUint32 (text "channelIndex") = some channelIndex)
    (hport : parameters.getUint32 (text "port") = some port)
    (hrange : ¬ (port = 0 ∨ port.toNat > 65535))
    (haddress : getIpv4 lib allocs parameters (text "receiverAddress") false = some address) :
    (parseCreate lib allocs parameters action s).1 = true := by
  have haddress' : getIpv4 lib allocs parameters (addressKey false) false = some address := haddress
  rw [parseCreate]
  simp only [hunicast, hflow, hchannel, hport, if_neg hrange, haddress', Bool.false_eq_true,
    if_false, hkeys, not_true]

/-- A port of two bytes is not changed when it is stored. -/
theorem setWidth_port {port : BitVec 32} (hport : port.toNat ≤ 65535) :
    (port.setWidth 16).toNat = port.toNat ∧ (port.setWidth 16).setWidth 32 = port := by
  have hstored : (port.setWidth 16).toNat = port.toNat := by
    rw [BitVec.toNat_setWidth]
    omega
  refine ⟨hstored, BitVec.eq_of_toNat_eq ?_⟩
  rw [BitVec.toNat_setWidth, hstored]
  omega

section Created

variable {lib : Library} {allocs : Allocations} {parameters : Json} {action : List Byte}

/-- The transmitter of a flow that is received has its address when the record has one. -/
theorem transmitterOf_iff :
    HasAddress lib parameters (text "transmitterAddress") IsUnicast
        (transmitterOf lib allocs parameters false) ↔
      HasAddress lib parameters (text "transmitterAddress") IsUnicast
          (parameters.getString (text "transmitterAddress")) ∧
        allocs.strdup (text "transmitterAddress") = true := by
  constructor
  · intro hsound
    obtain ⟨address, host, hfield, hfound, hhost, hkind⟩ := hsound
    exact ⟨⟨address, host, hfound, hfound, hhost, hkind⟩, (getIpv4_address hfield).1⟩
  · rintro ⟨⟨address, host, hfound, hsame, hhost, hkind⟩, hcopied⟩
    exact ⟨address, host, getIpv4_eq_some hcopied ⟨address, host, rfl, hsame, hhost, hkind⟩, hsame,
      hhost, hkind⟩

/-- The subtype of a record has no zero byte. -/
theorem zero_not_mem_subtypeOf (parameters : Json) : 0 ∉ subtypeOf parameters := by
  rw [subtypeOf, Json.getString]
  split
  case h_1 bytes _ => exact zero_not_mem_cstr bytes
  case h_2 => exact not_mem_nil

/-- **A flow that is created is what its record says when the record is complete.** -/
theorem sound_iff_complete {flowIndex channelIndex port : BitVec 32} {address : List Byte}
    (hflow : parameters.getUint32 (text "flowIndex") = some flowIndex)
    (hchannel : parameters.getUint32 (text "channelIndex") = some channelIndex)
    (hport : parameters.getUint32 (text "port") = some port) (hzero : port ≠ 0)
    (hlarge : port.toNat ≤ 65535)
    (haddress : getIpv4 lib allocs parameters (addressKey (isMulticastAction action))
      (isMulticastAction action) = some address) :
    Sound lib parameters (createdFlow lib allocs parameters (isTx action)
        (isMulticastAction action) flowIndex channelIndex (port.setWidth 16) address) ↔
      Complete lib allocs action parameters := by
  obtain ⟨hstored, hback⟩ := setWidth_port hlarge
  constructor
  · intro hsound
    refine ⟨fun hrx => ?_, (subtype_iff (zero_not_mem_subtypeOf parameters)).mp hsound.subtype⟩
    have htransmitter := hsound.transmitter (by rw [createdFlow, hrx]; rfl)
    rw [createdFlow, hrx] at htransmitter
    exact transmitterOf_iff.mp htransmitter
  · intro hcomplete
    refine
      { flowIndex := getUint32_integer hflow
        channelIndex := getUint32_integer hchannel
        port := ⟨?_, ?_⟩
        address := ?_
        transmitter := ?_
        subtype := (subtype_iff (zero_not_mem_subtypeOf parameters)).mpr hcomplete.subtype }
    · show 1 ≤ (port.setWidth 16).toNat
      have hpos : port.toNat ≠ 0 := fun hnone => hzero (BitVec.eq_of_toNat_eq hnone)
      omega
    · show IsInteger parameters (text "port") ((port.setWidth 16).setWidth 32)
      rw [hback]
      exact getUint32_integer hport
    · have hfield := (getIpv4_address haddress).2
      cases hmulticast : isMulticastAction action with
      | true =>
          rw [hmulticast] at hfield
          exact Or.inl ⟨rfl, rfl, hfield⟩
      | false =>
          rw [hmulticast] at hfield
          exact Or.inr ⟨rfl, rfl, hfield⟩
    · intro hdirection
      cases htx : isTx action with
      | true =>
          rw [htx] at hdirection
          cases hdirection
      | false => exact transmitterOf_iff.mpr (hcomplete.transmitter htx)

end Created

/-! ## A record that is refused -/

/-- No address has been copied. -/
structure State.Bare (s : State) : Prop where
  live : s.live = []
  receiver : s.message.flow.receiverAddress = none
  multicast : s.message.flow.multicastAddress = none
  transmitter : s.message.flow.transmitterAddress = none

/-- What is cleared then is zero, and nothing is allocated. -/
theorem State.Bare.clear {s : State} (h : s.Bare) :
    s.clear.message = Message.zero ∧ s.clear.live = [] := by
  refine ⟨rfl, ?_⟩
  simp [State.clear, State.release, h.receiver, h.multicast, h.transmitter, h.live]

/-- `parse_create` fails before it copies an address. -/
theorem parseCreate_bare {lib : Library} {allocs : Allocations} {parameters : Json}
    {action : List Byte} {s s' : State} (hs : s.Bare)
    (h : parseCreate lib allocs parameters action s = (false, s')) : s'.Bare := by
  rw [parseCreate] at h
  generalize hkeys : parameters.hasRequiredKeys _ = shaped at h
  dsimp only at h
  split at h
  case isTrue =>
    cases h
    exact ⟨hs.live, hs.receiver, hs.multicast, hs.transmitter⟩
  split at h
  case h_1 =>
    cases h
    exact ⟨hs.live, hs.receiver, hs.multicast, hs.transmitter⟩
  split at h
  case h_1 =>
    cases h
    exact ⟨hs.live, hs.receiver, hs.multicast, hs.transmitter⟩
  split at h
  case h_1 =>
    cases h
    exact ⟨hs.live, hs.receiver, hs.multicast, hs.transmitter⟩
  split at h
  case isTrue =>
    cases h
    exact ⟨hs.live, hs.receiver, hs.multicast, hs.transmitter⟩
  split at h
  case h_1 =>
    cases h
    exact ⟨hs.live, hs.receiver, hs.multicast, hs.transmitter⟩
  case h_2 => cases h

theorem parseDelete_bare {parameters : Json} {action : List Byte} {s : State} (hs : s.Bare) :
    (parseDelete parameters action s).2.Bare := by
  rw [parseDelete]
  dsimp only
  split
  case isTrue => exact ⟨hs.live, hs.receiver, hs.multicast, hs.transmitter⟩
  case isFalse =>
    split
    case h_1 => exact ⟨hs.live, hs.receiver, hs.multicast, hs.transmitter⟩
    case h_2 => exact ⟨hs.live, hs.receiver, hs.multicast, hs.transmitter⟩

theorem parseReport_bare {parameters : Json} {s : State} (hs : s.Bare) :
    (parseReport parameters s).2.Bare := by
  rw [parseReport]
  dsimp only
  split
  case isTrue => exact ⟨hs.live, hs.receiver, hs.multicast, hs.transmitter⟩
  split
  case h_1 => exact ⟨hs.live, hs.receiver, hs.multicast, hs.transmitter⟩
  split
  case h_1 => exact ⟨hs.live, hs.receiver, hs.multicast, hs.transmitter⟩
  split
  case h_1 => exact ⟨hs.live, hs.receiver, hs.multicast, hs.transmitter⟩
  case h_2 => exact ⟨hs.live, hs.receiver, hs.multicast, hs.transmitter⟩

/-- An action that is refused has copied nothing. -/
theorem dispatch_bare {lib : Library} {allocs : Allocations} {action : List Byte}
    {parameters : Json} {s : State} (hs : s.Bare)
    (hrefused : (dispatch lib allocs action parameters s).1 ≠ .ok) :
    (dispatch lib allocs action parameters s).2.Bare := by
  rw [dispatch] at hrefused ⊢
  split
  case isTrue =>
    split
    case isTrue => exact ⟨hs.live, hs.receiver, hs.multicast, hs.transmitter⟩
    case isFalse => exact ⟨hs.live, hs.receiver, hs.multicast, hs.transmitter⟩
  case isFalse hrequest =>
    rw [if_neg hrequest] at hrefused
    split
    case isTrue hcreate =>
      rw [if_pos hcreate] at hrefused
      cases hdone : parseCreate lib allocs parameters action s with
      | mk done s' =>
          cases done with
          | true =>
              rw [hdone] at hrefused
              exact absurd rfl hrefused
          | false => exact parseCreate_bare hs hdone
    case isFalse =>
      split
      case isTrue => exact parseDelete_bare hs
      case isFalse =>
        split
        case isTrue => exact parseReport_bare hs
        case isFalse =>
          split
          case isTrue => exact ⟨hs.live, hs.receiver, hs.multicast, hs.transmitter⟩
          case isFalse => exact ⟨hs.live, hs.receiver, hs.multicast, hs.transmitter⟩

theorem parseDelete_type {parameters : Json} {action : List Byte} {s s' : State}
    (h : parseDelete parameters action s = (true, s')) : s'.message.type = .deleteFlow := by
  rw [parseDelete] at h
  dsimp only at h
  split at h
  case isTrue => cases h
  split at h
  case h_1 => cases h
  case h_2 =>
    cases h
    rfl

theorem parseReport_type {parameters : Json} {s s' : State}
    (h : parseReport parameters s = (true, s')) : s'.message.type = .reportRxChannelStatus := by
  rw [parseReport] at h
  dsimp only at h
  split at h
  case isTrue => cases h
  split at h
  case h_1 => cases h
  split at h
  case h_1 => cases h
  split at h
  case h_1 => cases h
  case h_2 =>
    cases h
    rfl

/-- A message that creates a flow is that of an action that creates one. -/
theorem dispatch_create {lib : Library} {allocs : Allocations} {action : List Byte}
    {parameters : Json} {s s' : State} (h : dispatch lib allocs action parameters s = (.ok, s'))
    (htype : s'.message.type = .createFlow) :
    parseCreate lib allocs parameters action s = (true, s') := by
  have hdone : ∀ {parsed : Bool × State},
      ((if parsed.1 then Result.ok else .malformed), parsed.2) = (Result.ok, s') →
      parsed = (true, s') := by
    rintro ⟨done, s''⟩ hsame
    cases done with
    | true =>
        cases hsame
        rfl
    | false => cases hsame
  rw [dispatch] at h
  split at h
  case isTrue =>
    split at h
    case isTrue => cases h
    case isFalse =>
      cases h
      cases htype
  split at h
  case isTrue => exact hdone h
  split at h
  case isTrue =>
    rw [parseDelete_type (hdone h)] at htype
    cases htype
  split at h
  case isTrue =>
    rw [parseReport_type (hdone h)] at htype
    cases htype
  split at h
  case isTrue =>
    cases h
    cases htype
  case isFalse => cases h

/-! ## The record -/

theorem State.start_bare : State.start.Bare := ⟨rfl, rfl, rfl, rfl⟩

theorem finish_ok {parsed : Result × State} {s' : State} (h : finish parsed = (.ok, s')) :
    parsed = (.ok, s') := by
  obtain ⟨result, s⟩ := parsed
  cases result with
  | ok => exact h
  | malformed => cases h
  | unknownAction => cases h

theorem finish_refused {parsed : Result × State} (hbare : parsed.1 ≠ .ok → parsed.2.Bare)
    (hrefused : (finish parsed).1 ≠ .ok) :
    (finish parsed).2.message = Message.zero ∧ (finish parsed).2.live = [] := by
  obtain ⟨result, s⟩ := parsed
  cases result with
  | ok => exact absurd rfl hrefused
  | malformed => exact (hbare fun hok => by cases hok).clear
  | unknownAction => exact (hbare fun hok => by cases hok).clear

theorem interpret_bare {lib : Library} {allocs : Allocations} {data : List Byte}
    (hrefused : (interpret lib allocs data State.start).1 ≠ .ok) :
    (interpret lib allocs data State.start).2.Bare := by
  rw [interpret] at hrefused ⊢
  cases henvelope : envelope (lib.parse data) data with
  | none => exact ⟨rfl, rfl, rfl, rfl⟩
  | some found =>
      rw [henvelope] at hrefused
      exact dispatch_bare State.start_bare hrefused

/-- A record that is accepted is one envelope whose action has been accepted. -/
theorem parseRecord_ok {lib : Library} {allocs : Allocations} {data : List Byte} {before : Message}
    {s' : State} (h : parseRecord lib allocs data before = (.ok, s')) :
    ∃ action parameters, envelope (lib.parse data) data = some (action, parameters) ∧
      dispatch lib allocs action parameters State.start = (.ok, s') := by
  rw [parseRecord] at h
  split at h
  case isTrue => cases h
  dsimp only at h
  split at h
  case isTrue => cases h
  split at h
  case isTrue => cases h
  split at h
  case isTrue => cases h
  case isFalse =>
  have hrun : interpret lib allocs data State.start = (.ok, s') := finish_ok h
  rw [interpret] at hrun
  split at hrun
  case h_1 => cases hrun
  case h_2 action parameters henvelope => exact ⟨action, parameters, henvelope, hrun⟩

/-- A record of an admissible length that is refused leaves the message zero, and nothing
allocated. -/
theorem parseRecord_refused {lib : Library} {allocs : Allocations} {data : List Byte}
    {before : Message} (hlow : 0 < data.length) (hhigh : data.length ≤ 2 ^ 31 - 1)
    (hrefused : (parseRecord lib allocs data before).1 ≠ .ok) :
    (parseRecord lib allocs data before).2.message = Message.zero ∧
      (parseRecord lib allocs data before).2.live = [] := by
  have hsize : ¬ (data.length = 0 ∨ data.length > 2 ^ 31 - 1) := by omega
  rw [parseRecord, if_neg hsize] at hrefused ⊢
  dsimp only at hrefused ⊢
  split
  case isTrue => exact ⟨rfl, rfl⟩
  case isFalse hnul =>
    rw [if_neg hnul] at hrefused
    split
    case isTrue => exact ⟨rfl, rfl⟩
    case isFalse hutf =>
      rw [if_neg hutf] at hrefused
      split
      case isTrue => exact ⟨rfl, rfl⟩
      case isFalse htokener =>
        rw [if_neg htokener] at hrefused
        exact finish_refused interpret_bare hrefused

/-! ## What is accepted, and what is refused -/

/-- **A record that creates a flow is parsed to what it says exactly when it is complete**, and a
record that is refused leaves a message of zeros that owns nothing. -/
theorem parseRecord_sound_iff (lib : Library) (allocs : Allocations) (data : List Byte)
    (before : Message) (hlow : 0 < data.length) (hhigh : data.length ≤ 2 ^ 31 - 1) :
    ((parseRecord lib allocs data before).1 = .ok →
      (parseRecord lib allocs data before).2.message.type = .createFlow →
      ∃ action parameters, envelope (lib.parse data) data = some (action, parameters) ∧
        (Sound lib parameters (parseRecord lib allocs data before).2.message.flow ↔
          Complete lib allocs action parameters)) ∧
    ((parseRecord lib allocs data before).1 ≠ .ok →
      (parseRecord lib allocs data before).2.message = Message.zero ∧
        (parseRecord lib allocs data before).2.live = []) := by
  refine ⟨fun hok htype => ?_, parseRecord_refused hlow hhigh⟩
  obtain ⟨action, parameters, henvelope, hrun⟩ :=
    parseRecord_ok (Prod.ext hok rfl : parseRecord lib allocs data before = (.ok, _))
  obtain ⟨flowIndex, channelIndex, port, address, hflow, hchannel, hport, hzero, hlarge,
    haddress, hmessage⟩ := parseCreate_ok (dispatch_create hrun htype)
  refine ⟨action, parameters, henvelope, ?_⟩
  rw [hmessage]
  exact sound_iff_complete hflow hchannel hport hzero hlarge haddress

/-- A record that creates a unicast flow, with an address for the transmitter and a subtype. -/
def unicastRecord (action transmitter subtype : String) : List Byte :=
  text ("\x7b\"action\":\"" ++ action ++ "\",\"parameters\":\x7b\"flowIndex\":7," ++
    "\"channelIndex\":0,\"port\":5004,\"receiverAddress\":\"10.0.0.1\"," ++
    "\"transmitterAddress\":\"" ++ transmitter ++ "\",\"videoSubtype\":\"" ++ subtype ++
    "\"\x7d\x7d")

/-- Its tree. -/
def unicastTree (action transmitter subtype : String) : Json :=
  .object [(text "action", .string (text action)),
    (text "parameters", .object [(text "flowIndex", .int 7), (text "channelIndex", .int 0),
      (text "port", .int 5004), (text "receiverAddress", .string (text "10.0.0.1")),
      (text "transmitterAddress", .string (text transmitter)),
      (text "videoSubtype", .string (text subtype))])]

/-- The libraries for such a record. -/
def unicastLibrary (action transmitter subtype : String) : Library where
  parse data :=
    if data = unicastRecord action transmitter subtype then
      ⟨some (unicastTree action transmitter subtype), true, data.length⟩
    else ⟨none, false, 0⟩
  inetPton address :=
    if address = text "10.0.0.1" then some 0x0a000001
    else if address = text "10.0.0.2" then some 0x0a000002
    else none

def Allocations.all : Allocations := ⟨true, fun _ => true, true⟩

/-- The flow of such a record, when it is accepted. -/
def unicastFlow (action transmitter subtype : String) : Result × Flow :=
  let parsed := parseRecord (unicastLibrary action transmitter subtype) Allocations.all
    (unicastRecord action transmitter subtype) Message.zero
  (parsed.1, parsed.2.message.flow)

theorem unicastRecord_eq (action transmitter subtype : String) :
    unicastRecord action transmitter subtype =
      text "\x7b\"action\":\"" ++ text action ++ text "\",\"parameters\":\x7b\"flowIndex\":7," ++
        text "\"channelIndex\":0,\"port\":5004,\"receiverAddress\":\"10.0.0.1\"," ++
        text "\"transmitterAddress\":\"" ++ text transmitter ++ text "\",\"videoSubtype\":\"" ++
        text subtype ++ text "\"\x7d\x7d" := by
  simp only [unicastRecord, text_append]

theorem length_unicastRecord (action transmitter subtype : String) :
    (unicastRecord action transmitter subtype).length =
      142 + (text action).length + (text transmitter).length + (text subtype).length := by
  simp only [unicastRecord_eq, length_append, length_text "\x7b\"action\":\"" rfl,
    length_text "\",\"parameters\":\x7b\"flowIndex\":7," rfl,
    length_text "\"channelIndex\":0,\"port\":5004,\"receiverAddress\":\"10.0.0.1\"," rfl,
    length_text "\"transmitterAddress\":\"" rfl, length_text "\",\"videoSubtype\":\"" rfl,
    length_text "\"\x7d\x7d" rfl, length_cons, length_nil, Nat.reduceAdd]
  omega

/-- The bytes of the record are characters when those of its texts are. -/
theorem unicastRecord_bytes {action transmitter subtype : String}
    (haction : ∀ b ∈ text action, b ≠ 0 ∧ b < 0x80)
    (htransmitter : ∀ b ∈ text transmitter, b ≠ 0 ∧ b < 0x80)
    (hsubtype : ∀ b ∈ text subtype, b ≠ 0 ∧ b < 0x80) :
    ∀ b ∈ unicastRecord action transmitter subtype, b ≠ 0 ∧ b < 0x80 := by
  rw [unicastRecord_eq]
  have hopen : ∀ b ∈ text "\x7b\"action\":\"", b ≠ 0 ∧ b < 0x80 := forall_mem_text _ rfl rfl
  have hflow : ∀ b ∈ text "\",\"parameters\":\x7b\"flowIndex\":7,", b ≠ 0 ∧ b < 0x80 :=
    forall_mem_text _ rfl rfl
  have hnumbers : ∀ b ∈ text "\"channelIndex\":0,\"port\":5004,\"receiverAddress\":\"10.0.0.1\",",
      b ≠ 0 ∧ b < 0x80 := forall_mem_text _ rfl rfl
  have hkey : ∀ b ∈ text "\"transmitterAddress\":\"", b ≠ 0 ∧ b < 0x80 := forall_mem_text _ rfl rfl
  have hnext : ∀ b ∈ text "\",\"videoSubtype\":\"", b ≠ 0 ∧ b < 0x80 := forall_mem_text _ rfl rfl
  have hclose : ∀ b ∈ text "\"\x7d\x7d", b ≠ 0 ∧ b < 0x80 := forall_mem_text _ rfl rfl
  simp only [forall_mem_append]
  exact ⟨⟨⟨⟨⟨⟨⟨⟨hopen, haction⟩, hflow⟩, hnumbers⟩, hkey⟩, htransmitter⟩, hnext⟩, hsubtype⟩, hclose⟩

/-- The parameters of such a record. -/
def unicastParameters (transmitter subtype : String) : Json :=
  .object [(text "flowIndex", .int 7), (text "channelIndex", .int 0), (text "port", .int 5004),
    (text "receiverAddress", .string (text "10.0.0.1")),
    (text "transmitterAddress", .string (text transmitter)),
    (text "videoSubtype", .string (text subtype))]

theorem unicastTree_eq (action transmitter subtype : String) :
    unicastTree action transmitter subtype =
      .object [(text "action", .string (text action)),
        (text "parameters", unicastParameters transmitter subtype)] := rfl

section Unicast

variable (transmitter subtype : String)

theorem unicastParameters_eq : unicastParameters transmitter subtype =
    .object [(text "flowIndex", .int 7), (text "channelIndex", .int 0), (text "port", .int 5004),
      (text "receiverAddress", .string (text "10.0.0.1")),
      (text "transmitterAddress", .string (text transmitter)),
      (text "videoSubtype", .string (text subtype))] := rfl

theorem get_flowIndex_unicast :
    (unicastParameters transmitter subtype).get (text "flowIndex") = some (.int 7) :=
  Json.get_cons_self _ _ _

theorem get_channelIndex_unicast :
    (unicastParameters transmitter subtype).get (text "channelIndex") = some (.int 0) := by
  rw [unicastParameters_eq, Json.get_cons_of_ne (text_ne "flowIndex" "channelIndex" rfl rfl (by decide)),
    Json.get_cons_self]

theorem get_port_unicast :
    (unicastParameters transmitter subtype).get (text "port") = some (.int 5004) := by
  rw [unicastParameters_eq, Json.get_cons_of_ne (text_ne "flowIndex" "port" rfl rfl (by decide)),
    Json.get_cons_of_ne (text_ne "channelIndex" "port" rfl rfl (by decide)), Json.get_cons_self]

theorem get_receiverAddress_unicast :
    (unicastParameters transmitter subtype).get (text "receiverAddress") =
      some (.string (text "10.0.0.1")) := by
  rw [unicastParameters_eq, Json.get_cons_of_ne (text_ne "flowIndex" "receiverAddress" rfl rfl (by decide)),
    Json.get_cons_of_ne (text_ne "channelIndex" "receiverAddress" rfl rfl (by decide)),
    Json.get_cons_of_ne (text_ne "port" "receiverAddress" rfl rfl (by decide)), Json.get_cons_self]

theorem get_transmitterAddress_unicast :
    (unicastParameters transmitter subtype).get (text "transmitterAddress") =
      some (.string (text transmitter)) := by
  rw [unicastParameters_eq, Json.get_cons_of_ne (text_ne "flowIndex" "transmitterAddress" rfl rfl (by decide)),
    Json.get_cons_of_ne (text_ne "channelIndex" "transmitterAddress" rfl rfl (by decide)),
    Json.get_cons_of_ne (text_ne "port" "transmitterAddress" rfl rfl (by decide)),
    Json.get_cons_of_ne (text_ne "receiverAddress" "transmitterAddress" rfl rfl (by decide)), Json.get_cons_self]

theorem get_videoSubtype_unicast :
    (unicastParameters transmitter subtype).get (text "videoSubtype") =
      some (.string (text subtype)) := by
  rw [unicastParameters_eq, Json.get_cons_of_ne (text_ne "flowIndex" "videoSubtype" rfl rfl (by decide)),
    Json.get_cons_of_ne (text_ne "channelIndex" "videoSubtype" rfl rfl (by decide)),
    Json.get_cons_of_ne (text_ne "port" "videoSubtype" rfl rfl (by decide)),
    Json.get_cons_of_ne (text_ne "receiverAddress" "videoSubtype" rfl rfl (by decide)),
    Json.get_cons_of_ne (text_ne "transmitterAddress" "videoSubtype" rfl rfl (by decide)), Json.get_cons_self]

/-- The numbers, the address and the keys that the parser asks for. -/
theorem unicastParameters_complete (action : String) :
    (unicastParameters transmitter subtype).getUint32 (text "flowIndex") = some 7 ∧
    (unicastParameters transmitter subtype).getUint32 (text "channelIndex") = some 0 ∧
    (unicastParameters transmitter subtype).getUint32 (text "port") = some 5004 ∧
    getIpv4 (unicastLibrary action transmitter subtype) Allocations.all
        (unicastParameters transmitter subtype) (text "receiverAddress") false =
      some (text "10.0.0.1") ∧
    ∀ tx : Bool, (unicastParameters transmitter subtype).hasRequiredKeys
      (if tx = true then unicastTxKeys else unicastRxKeys) = true := by
  have hnumber (number : ℕ) (hnumber : number < 2 ^ 32) (key : List Byte)
      (hget : (unicastParameters transmitter subtype).get key = some (.int number)) :
      (unicastParameters transmitter subtype).getUint32 key = some (BitVec.ofNat 32 number) := by
    have hsame : Json.getInt64 number = number := by
      rw [Json.getInt64]
      omega
    rw [Json.getUint32, hget]
    dsimp only
    rw [hsame, if_neg (by omega), BitVec.ofInt_natCast]
  refine ⟨hnumber 7 (by decide) _ (get_flowIndex_unicast _ _),
    hnumber 0 (by decide) _ (get_channelIndex_unicast _ _),
    hnumber 5004 (by decide) _ (get_port_unicast _ _), ?_, ?_⟩
  · have hstring : cstr (text "10.0.0.1") = text "10.0.0.1" := by
      rw [text_chars "10.0.0.1" rfl]
      rfl
    have hhost : (unicastLibrary action transmitter subtype).inetPton (text "10.0.0.1") =
        some 0x0a000001 := by
      simp only [unicastLibrary, if_true]
    have hkind : ¬ false ≠ isMulticast 0x0a000001 := by decide
    have hspecial : ¬ (¬ false = true ∧
        ((0x0a000001 : BitVec 32) = 0 ∨ (0x0a000001 : BitVec 32) = 0xffffffff)) := by decide
    have hcopied : Allocations.all.strdup (text "receiverAddress") = true := by
      rw [Allocations.all]
    rw [getIpv4, Json.getString, get_receiverAddress_unicast]
    dsimp only
    rw [hstring, hhost]
    dsimp only
    rw [if_neg hkind, if_neg hspecial, if_pos hcopied]
  · intro tx
    have hobject : (unicastParameters transmitter subtype).isObject = true := by
      rw [unicastParameters_eq, Json.isObject]
    rw [Json.hasRequiredKeys, hobject, unicastTxKeys, unicastRxKeys]
    cases tx with
    | false =>
        simp only [Bool.false_eq_true, if_false, all_cons, all_nil,
          get_flowIndex_unicast, get_channelIndex_unicast, get_port_unicast,
          get_receiverAddress_unicast, get_transmitterAddress_unicast, get_videoSubtype_unicast]
        rfl
    | true =>
        simp only [if_true, all_cons, all_nil, get_flowIndex_unicast,
          get_channelIndex_unicast, get_port_unicast, get_receiverAddress_unicast,
          get_videoSubtype_unicast]
        rfl

end Unicast

/-- The record creates the flow that its parameters say. -/
theorem parseRecord_unicastRecord {action transmitter subtype : String}
    (hlength : (text action).length + (text transmitter).length + (text subtype).length ≤ 100)
    (haction : ∀ b ∈ text action, b ≠ 0 ∧ b < 0x80)
    (htransmitter : ∀ b ∈ text transmitter, b ≠ 0 ∧ b < 0x80)
    (hsubtype : ∀ b ∈ text subtype, b ≠ 0 ∧ b < 0x80)
    (hcreate : text action ≠ text "requestConfiguration" ∧ text action ∈ createActions)
    (hunicast : isMulticastAction (text action) = false) :
    ∃ s, parseRecord (unicastLibrary action transmitter subtype) Allocations.all
        (unicastRecord action transmitter subtype) Message.zero = (.ok, s) ∧
      s.message.type = .createFlow ∧
      s.message.flow = createdFlow (unicastLibrary action transmitter subtype) Allocations.all
        (unicastParameters transmitter subtype) (isTx (text action)) false 7 0 5004
        (text "10.0.0.1") := by
  have hwhole := length_unicastRecord action transmitter subtype
  have hparse : (unicastLibrary action transmitter subtype).parse
      (unicastRecord action transmitter subtype) =
        ⟨some (unicastTree action transmitter subtype), true,
          (unicastRecord action transmitter subtype).length⟩ := by
    simp only [unicastLibrary, if_true]
  have hobject : (unicastParameters transmitter subtype).isObject = true := by
    rw [unicastParameters_eq, Json.isObject]
  have hstring : cstr (text action) = text action :=
    (congrArg cstr (append_nil _)).symm.trans <|
      (Rtsp.cstr_append (fun hzero => (haction 0 hzero).1 rfl) []).trans (append_nil _)
  have henvelope : envelope ((unicastLibrary action transmitter subtype).parse
      (unicastRecord action transmitter subtype)) (unicastRecord action transmitter subtype) =
        some (text action, unicastParameters transmitter subtype) := by
    rw [hparse, unicastTree_eq, envelope_object hstring hobject]
  have hbytes := unicastRecord_bytes haction htransmitter hsubtype
  have htokener : Allocations.all.tokener = true := by rw [Allocations.all]
  obtain ⟨hflow, hchannel, hport, haddress, hkeys⟩ :=
    unicastParameters_complete transmitter subtype action
  have haccepts := parseCreate_accepts State.start hunicast (hkeys _) hflow hchannel hport
    (by decide) haddress
  obtain ⟨s, hrun⟩ : ∃ s, parseCreate (unicastLibrary action transmitter subtype) Allocations.all
      (unicastParameters transmitter subtype) (text action) State.start = (true, s) :=
    ⟨_, Prod.ext haccepts rfl⟩
  obtain ⟨flowIndex, channelIndex, port, address, hflow', hchannel', hport', _, _, haddress',
    hmessage⟩ := parseCreate_ok hrun
  rw [hunicast] at haddress' hmessage
  cases hflow.symm.trans hflow'
  cases hchannel.symm.trans hchannel'
  cases hport.symm.trans hport'
  cases haddress.symm.trans haddress'
  refine ⟨s, ?_, ?_, ?_⟩
  · rw [parseRecord_of_ascii (by omega) (by omega) hbytes htokener, interpret, henvelope]
    dsimp only
    rw [dispatch, if_neg hcreate.1, if_pos hcreate.2, hrun]
    rfl
  · rw [hmessage]
  · rw [hmessage]
    rfl

/-- The actions of the examples create unicast flows. -/
theorem rxAction : (text "createVideoUnicastRxFlow" ≠ text "requestConfiguration" ∧
      text "createVideoUnicastRxFlow" ∈ createActions) ∧
    isMulticastAction (text "createVideoUnicastRxFlow") = false ∧
    isTx (text "createVideoUnicastRxFlow") = false := by
  rw [text_chars "createVideoUnicastRxFlow" rfl, text_chars "requestConfiguration" rfl]
  decide

theorem txAction : (text "createVideoUnicastTxFlow" ≠ text "requestConfiguration" ∧
      text "createVideoUnicastTxFlow" ∈ createActions) ∧
    isMulticastAction (text "createVideoUnicastTxFlow") = false ∧
    isTx (text "createVideoUnicastTxFlow") = true := by
  rw [text_chars "createVideoUnicastTxFlow" rfl, text_chars "requestConfiguration" rfl]
  decide

theorem parseRecord_sound_unicastRx :
    ∃ action parameters,
      envelope
          ((unicastLibrary "createVideoUnicastRxFlow" "10.0.0.2" "raw").parse
            (unicastRecord "createVideoUnicastRxFlow" "10.0.0.2" "raw"))
          (unicastRecord "createVideoUnicastRxFlow" "10.0.0.2" "raw") =
        some (action, parameters) ∧
      (Sound (unicastLibrary "createVideoUnicastRxFlow" "10.0.0.2" "raw") parameters
          (parseRecord (unicastLibrary "createVideoUnicastRxFlow" "10.0.0.2" "raw")
            Allocations.all (unicastRecord "createVideoUnicastRxFlow" "10.0.0.2" "raw")
            Message.zero).2.message.flow ↔
        Complete (unicastLibrary "createVideoUnicastRxFlow" "10.0.0.2" "raw") Allocations.all
          action parameters) := by
  obtain ⟨s, hrun, htype, -⟩ := parseRecord_unicastRecord
    (by rw [length_text "createVideoUnicastRxFlow" rfl, length_text "10.0.0.2" rfl, length_text "raw" rfl]
        decide)
    (forall_mem_text "createVideoUnicastRxFlow" rfl rfl) (forall_mem_text "10.0.0.2" rfl rfl)
    (forall_mem_text "raw" rfl rfl) rxAction.1 rxAction.2.1
  have hlength := length_unicastRecord "createVideoUnicastRxFlow" "10.0.0.2" "raw"
  rw [length_text "createVideoUnicastRxFlow" rfl, length_text "10.0.0.2" rfl, length_text "raw" rfl] at hlength
  dsimp only [length_cons, length_nil] at hlength
  exact (parseRecord_sound_iff (unicastLibrary "createVideoUnicastRxFlow" "10.0.0.2" "raw")
    Allocations.all (unicastRecord "createVideoUnicastRxFlow" "10.0.0.2" "raw") Message.zero
    (by omega) (by omega)).1 (congrArg Prod.fst hrun) ((congrArg (·.2.message.type) hrun).trans htype)

/-- What is not an address is not copied. -/
theorem transmitterOf_unset {action subtype : String} :
    transmitterOf (unicastLibrary action "unset" subtype) Allocations.all
      (unicastParameters "unset" subtype) false = none := by
  have hstring : cstr (text "unset") = text "unset" := by
    rw [text_chars "unset" rfl]
    rfl
  have hhost : (unicastLibrary action "unset" subtype).inetPton (text "unset") = none := by
    simp only [unicastLibrary, if_neg (text_ne "unset" "10.0.0.1" rfl rfl (by decide)),
      if_neg (text_ne "unset" "10.0.0.2" rfl rfl (by decide))]
  rw [transmitterOf, if_neg Bool.false_ne_true, getIpv4, Json.getString,
    get_transmitterAddress_unicast]
  dsimp only
  rw [hstring, hhost]

/-- A subtype of sixteen letters leaves no zero byte. -/
theorem zero_not_mem_copySubtype {transmitter : String} :
    0 ∉ copySubtype (subtypeOf (unicastParameters transmitter "raw-422-10bit-be"))
      (replicate videoSubtypeLen 0) := by
  have hstring : subtypeOf (unicastParameters transmitter "raw-422-10bit-be") =
      text "raw-422-10bit-be" := by
    rw [subtypeOf, Json.getString, get_videoSubtype_unicast, text_chars "raw-422-10bit-be" rfl]
    rfl
  have hlength : (text "raw-422-10bit-be").length = videoSubtypeLen :=
    (length_text "raw-422-10bit-be" rfl).trans rfl
  have hletters : ∀ b ∈ text "raw-422-10bit-be", b ≠ 0 := forall_mem_text _ rfl rfl
  rw [hstring, copySubtype_of_ge hlength.ge length_replicate]
  exact fun hzero => hletters 0 (mem_of_mem_take hzero) rfl

/-- A flow that is received without the address of its transmitter, and a subtype of sixteen
letters without a zero byte. -/
theorem parseRecord_unsound :
    (unicastFlow "createVideoUnicastRxFlow" "unset" "raw").1 = .ok ∧
      (∀ parameters, ¬ Sound (unicastLibrary "createVideoUnicastRxFlow" "unset" "raw") parameters
        (unicastFlow "createVideoUnicastRxFlow" "unset" "raw").2) ∧
      (unicastFlow "createVideoUnicastTxFlow" "10.0.0.2" "raw-422-10bit-be").1 = .ok ∧
      ∀ parameters, ¬ Sound
        (unicastLibrary "createVideoUnicastTxFlow" "10.0.0.2" "raw-422-10bit-be") parameters
        (unicastFlow "createVideoUnicastTxFlow" "10.0.0.2" "raw-422-10bit-be").2 := by
  obtain ⟨rx, hrx, -, hrxFlow⟩ := parseRecord_unicastRecord
    (by rw [length_text "createVideoUnicastRxFlow" rfl, length_text "unset" rfl, length_text "raw" rfl]
        decide)
    (forall_mem_text "createVideoUnicastRxFlow" rfl rfl) (forall_mem_text "unset" rfl rfl)
    (forall_mem_text "raw" rfl rfl) rxAction.1 rxAction.2.1
  obtain ⟨tx, htx, -, htxFlow⟩ := parseRecord_unicastRecord
    (by rw [length_text "createVideoUnicastTxFlow" rfl, length_text "10.0.0.2" rfl,
          length_text "raw-422-10bit-be" rfl]
        decide)
    (forall_mem_text "createVideoUnicastTxFlow" rfl rfl) (forall_mem_text "10.0.0.2" rfl rfl)
    (forall_mem_text "raw-422-10bit-be" rfl rfl) txAction.1 txAction.2.1
  rw [unicastFlow, unicastFlow, hrx, htx]
  dsimp only
  rw [hrxFlow, htxFlow]
  refine ⟨rfl, fun parameters hsound => ?_, rfl, fun parameters hsound => ?_⟩
  · obtain ⟨address, _, hfield, _⟩ := hsound.transmitter (by rw [rxAction.2.2, createdFlow]; rfl)
    rw [createdFlow, rxAction.2.2] at hfield
    dsimp only at hfield
    rw [transmitterOf_unset] at hfield
    cases hfield
  · have hzero := hsound.subtype.2.1
    rw [createdFlow] at hzero
    exact zero_not_mem_copySubtype hzero

end Zstreamer.DanteSession
