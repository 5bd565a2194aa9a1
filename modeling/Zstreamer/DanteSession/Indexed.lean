/-
# A record for every index

Records that create one flow each, of which every index a flow can have is the index of one. They
are JSON texts that differ in a number, and the parser makes of each the flow with that number.
-/

import Zstreamer.DanteSession.Records

namespace Zstreamer.DanteSession

open Foundation
open Rtsp (text text_chars length_text forall_mem_text text_ne text_append cstr)
open Rtsp.Printf (decimal decimal_digits number_decimal length_decimal)

/-! ## The records -/

/-- The record that creates the flow with an index: what stands in front of the index, and what
stands behind it. -/
def indexedHead : List Byte :=
  text ("\x7b\"action\":\"createVideoUnicastTxFlow\",\"parameters\":\x7b\"channelIndex\":0," ++
    "\"port\":5004,\"receiverAddress\":\"10.0.0.1\",\"videoSubtype\":\"raw\",\"flowIndex\":")

def indexedTail : List Byte := text "\x7d\x7d"

def indexedRecord (index : ℕ) : List Byte := indexedHead ++ decimal index ++ indexedTail

/-- The tree of the record. -/
def indexedParameters (index : ℕ) : Json :=
  .object [(text "channelIndex", .int 0), (text "port", .int 5004),
    (text "receiverAddress", .string (text "10.0.0.1")), (text "videoSubtype", .string (text "raw")),
    (text "flowIndex", .int index)]

def indexedTree (index : ℕ) : Json :=
  .object [(text "action", .string (text "createVideoUnicastTxFlow")),
    (text "parameters", indexedParameters index)]

/-- The libraries for such records: the index is read from the digits behind the head. -/
def indexedLibrary : Library where
  parse data :=
    let index := Rtsp.number ((data.drop indexedHead.length).takeWhile Rtsp.isDigit)
    if data = indexedRecord index then ⟨some (indexedTree index), true, data.length⟩
    else ⟨none, false, 0⟩
  inetPton address := if address = text "10.0.0.1" then some 0x0a000001 else none

theorem indexedHead_eq : indexedHead =
    text "\x7b\"action\":\"createVideoUnicastTxFlow\",\"parameters\":\x7b\"channelIndex\":0," ++
      text "\"port\":5004,\"receiverAddress\":\"10.0.0.1\",\"videoSubtype\":\"raw\",\"flowIndex\":" :=
  text_append _ _

theorem length_indexedHead : indexedHead.length = 142 := by
  rw [indexedHead_eq, List.length_append, length_text
    "\x7b\"action\":\"createVideoUnicastTxFlow\",\"parameters\":\x7b\"channelIndex\":0," rfl, length_text
    "\"port\":5004,\"receiverAddress\":\"10.0.0.1\",\"videoSubtype\":\"raw\",\"flowIndex\":" rfl]
  rfl

theorem parse_indexedRecord (index : ℕ) :
    indexedLibrary.parse (indexedRecord index) =
      ⟨some (indexedTree index), true, (indexedRecord index).length⟩ := by
  have hdigits : ((indexedRecord index).drop indexedHead.length).takeWhile Rtsp.isDigit =
      decimal index := by
    rw [indexedRecord, List.append_assoc, List.drop_left,
      List.takeWhile_append_of_pos (decimal_digits index)]
    have htail : indexedTail.takeWhile Rtsp.isDigit = [] := by
      rw [indexedTail, text_chars "\x7d\x7d" rfl]
      rfl
    rw [htail, List.append_nil]
  simp only [indexedLibrary, hdigits, number_decimal, if_true]

section Parameters

variable (index : ℕ)

theorem get_channelIndex :
    (indexedParameters index).get (text "channelIndex") = some (.int 0) :=
  Json.get_cons_self _ _ _

theorem get_port : (indexedParameters index).get (text "port") = some (.int 5004) := by
  rw [indexedParameters, Json.get_cons_of_ne (text_ne "channelIndex" "port" rfl rfl (by decide)), Json.get_cons_self]

theorem get_receiverAddress : (indexedParameters index).get (text "receiverAddress") =
    some (.string (text "10.0.0.1")) := by
  rw [indexedParameters, Json.get_cons_of_ne (text_ne "channelIndex" "receiverAddress" rfl rfl (by decide)),
    Json.get_cons_of_ne (text_ne "port" "receiverAddress" rfl rfl (by decide)), Json.get_cons_self]

theorem get_videoSubtype :
    (indexedParameters index).get (text "videoSubtype") = some (.string (text "raw")) := by
  rw [indexedParameters, Json.get_cons_of_ne (text_ne "channelIndex" "videoSubtype" rfl rfl (by decide)),
    Json.get_cons_of_ne (text_ne "port" "videoSubtype" rfl rfl (by decide)),
    Json.get_cons_of_ne (text_ne "receiverAddress" "videoSubtype" rfl rfl (by decide)), Json.get_cons_self]

theorem get_flowIndex : (indexedParameters index).get (text "flowIndex") = some (.int index) := by
  rw [indexedParameters, Json.get_cons_of_ne (text_ne "channelIndex" "flowIndex" rfl rfl (by decide)),
    Json.get_cons_of_ne (text_ne "port" "flowIndex" rfl rfl (by decide)),
    Json.get_cons_of_ne (text_ne "receiverAddress" "flowIndex" rfl rfl (by decide)),
    Json.get_cons_of_ne (text_ne "videoSubtype" "flowIndex" rfl rfl (by decide)), Json.get_cons_self]

end Parameters

/-- The record is one envelope. -/
theorem envelope_indexedRecord (index : ℕ) :
    envelope (indexedLibrary.parse (indexedRecord index)) (indexedRecord index) =
      some (text "createVideoUnicastTxFlow", indexedParameters index) := by
  have hstring : cstr (text "createVideoUnicastTxFlow") = text "createVideoUnicastTxFlow" := by
    rw [text_chars "createVideoUnicastTxFlow" rfl]
    rfl
  rw [parse_indexedRecord]
  exact envelope_object hstring rfl

/-! ## What is made of them -/

/-- The bytes of the record are characters. -/
theorem indexedRecord_bytes (index : ℕ) : ∀ b ∈ indexedRecord index, b ≠ 0 ∧ b < 0x80 := by
  have hhead : ∀ b ∈ indexedHead, b ≠ 0 ∧ b < 0x80 := by
    rw [indexedHead_eq]
    exact List.forall_mem_append.mpr ⟨forall_mem_text _ rfl rfl, forall_mem_text _ rfl rfl⟩
  have htail : ∀ b ∈ indexedTail, b ≠ 0 ∧ b < 0x80 := forall_mem_text "\x7d\x7d" rfl rfl
  have hdigit : ∀ b : Byte, Rtsp.isDigit b = true → b ≠ 0 ∧ b < 0x80 := by decide +kernel
  intro b hb
  rcases List.mem_append.mp hb with hb | hb
  · rcases List.mem_append.mp hb with hb | hb
    · exact hhead b hb
    · exact hdigit b (decimal_digits index b hb)
  · exact htail b hb

/-- **The record is parsed to the flow with its index.** -/
theorem parseRecord_indexedRecord {index : ℕ} (hindex : index < 2 ^ 32) (before : Message) :
    ∃ s, parseRecord indexedLibrary Allocations.all (indexedRecord index) before = (.ok, s) ∧
      s.message.type = .createFlow ∧ s.message.flow.direction = .tx ∧
      s.message.flow.channelIndex = 0 ∧ s.message.flow.flowIndex = BitVec.ofNat 32 index := by
  have hbytes := indexedRecord_bytes index
  have hlength : (indexedRecord index).length ≤ 2 ^ 31 - 1 := by
    have hhead := length_indexedHead
    have htail : (text "\x7d\x7d").length = 2 :=
      (length_text "\x7d\x7d" rfl).trans rfl
    have hdigits := length_decimal hindex
    rw [indexedRecord, indexedTail, List.length_append, List.length_append]
    omega
  have hsome : (indexedRecord index).length ≠ 0 := by
    have hhead := length_indexedHead
    rw [indexedRecord, List.length_append, List.length_append]
    omega
  have hflow : (indexedParameters index).getUint32 (text "flowIndex") =
      some (BitVec.ofNat 32 index) := by
    have hsame : Json.getInt64 index = index := by
      rw [Json.getInt64]
      omega
    rw [Json.getUint32, get_flowIndex]
    dsimp only
    rw [hsame, if_neg (by omega), BitVec.ofInt_natCast]
  have hchannel : (indexedParameters index).getUint32 (text "channelIndex") = some 0 := by
    rw [Json.getUint32, get_channelIndex]
    rfl
  have hport : (indexedParameters index).getUint32 (text "port") = some 5004 := by
    rw [Json.getUint32, get_port]
    rfl
  have haddress : getIpv4 indexedLibrary Allocations.all (indexedParameters index)
      (text "receiverAddress") false = some (text "10.0.0.1") := by
    have hstring : cstr (text "10.0.0.1") = text "10.0.0.1" := by
      rw [text_chars "10.0.0.1" rfl]
      rfl
    rw [getIpv4, Json.getString, get_receiverAddress]
    dsimp only
    rw [hstring]
    decide +kernel
  have hkeys : (indexedParameters index).hasRequiredKeys unicastTxKeys = true := by
    rw [Json.hasRequiredKeys, unicastTxKeys]
    simp only [List.all_cons, List.all_nil, get_flowIndex, get_channelIndex, get_port,
      get_receiverAddress, get_videoSubtype]
    rfl
  have haction : isTx (text "createVideoUnicastTxFlow") = true ∧
      isMulticastAction (text "createVideoUnicastTxFlow") = false ∧
      text "createVideoUnicastTxFlow" ≠ text "requestConfiguration" ∧
      text "createVideoUnicastTxFlow" ∈ createActions := by
    rw [text_chars "createVideoUnicastTxFlow" rfl, text_chars "requestConfiguration" rfl]
    decide
  obtain ⟨htx, hunicast, hrequest, hcreate⟩ := haction
  have hneeded : (indexedParameters index).hasRequiredKeys
      (if isTx (text "createVideoUnicastTxFlow") = true then unicastTxKeys
        else unicastRxKeys) = true := by
    rw [if_pos htx, hkeys]
  have haccepts := parseCreate_accepts State.start hunicast hneeded hflow hchannel hport
    (by decide) haddress
  obtain ⟨s, hrun⟩ : ∃ s, parseCreate indexedLibrary Allocations.all (indexedParameters index)
      (text "createVideoUnicastTxFlow") State.start = (true, s) :=
    ⟨_, Prod.ext haccepts rfl⟩
  obtain ⟨flowIndex, channelIndex, port, address, hflow', hchannel', _, _, _, _, hmessage⟩ :=
    parseCreate_ok hrun
  cases hflow.symm.trans hflow'
  cases hchannel.symm.trans hchannel'
  have hinterpret : interpret indexedLibrary Allocations.all (indexedRecord index) State.start =
      (.ok, s) := by
    rw [interpret, envelope_indexedRecord]
    dsimp only
    rw [dispatch, if_neg hrequest, if_pos hcreate, hrun]
    rfl
  refine ⟨s, ?_, ?_, ?_, ?_, ?_⟩
  · rw [parseRecord_of_ascii hsome hlength hbytes rfl before, hinterpret, finish]
  · rw [hmessage]
  · rw [hmessage, htx]
    rfl
  · rw [hmessage]
    rfl
  · rw [hmessage]
    rfl

end Zstreamer.DanteSession
