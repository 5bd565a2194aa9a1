/-
# The registry of flows

A session keeps the flows that have been created and not deleted: a list, and two counters beside
it. Records create and delete single flows, a disconnect deletes them all, and each change posts
an event. Whatever the records are, and whichever allocations fail, the list, the counters and the
events stay in step.
-/

import Mathlib.Data.Fintype.Card
import Zstreamer.DanteSession.Indexed
import Zstreamer.Foundation.Lifetimes

namespace Zstreamer.DanteSession

open Foundation List
open Rtsp (text)

/-! ## The session -/

/-- `zst_dante_session_state_t`. -/
inductive SessionState
  | stopped
  | connecting
  | connected
  | reconnectWait
  deriving DecidableEq, Repr

/-- The events that a session posts while it handles records. -/
inductive Event
  | warning (message : List Byte)
  | configurationRequested
  | flowCreated (flow : Flow)
  | flowDeleted (flow : Flow)
  | disconnected
  deriving DecidableEq, Repr

/-- The fields of `dante_session_t` that records and disconnects read and write, and the events
posted so far. -/
structure Session where
  txVideoChannels : BitVec 32
  rxVideoChannels : BitVec 32
  sessionState : SessionState
  flows : List Flow
  activeTxFlows : BitVec 32
  activeRxFlows : BitVec 32
  events : List Event

/-- What a flow is found by. -/
def Flow.key (flow : Flow) : Direction × BitVec 32 := (flow.direction, flow.flowIndex)

namespace Session

/-- `zst_dante_session_create`, with the channels that are advertised. -/
def create (txVideoChannels rxVideoChannels : BitVec 32) : Session where
  txVideoChannels := txVideoChannels
  rxVideoChannels := rxVideoChannels
  sessionState := .stopped
  flows := []
  activeTxFlows := 0
  activeRxFlows := 0
  events := []

/-- `post_event`; events are always created and posted. -/
def post (s : Session) (event : Event) : Session := { s with events := s.events ++ [event] }

/-- `post_warning`. -/
def warn (s : Session) (message : List Byte) : Session := s.post (.warning message)

/-- The channels that are advertised for a direction. -/
def channelCount (s : Session) : Direction → BitVec 32
  | .tx => s.txVideoChannels
  | .rx => s.rxVideoChannels

/-- The counter of a direction. -/
def active (s : Session) : Direction → BitVec 32
  | .tx => s.activeTxFlows
  | .rx => s.activeRxFlows

/-- An assignment to the counter of a direction. -/
def setActive (s : Session) (direction : Direction) (count : BitVec 32) : Session :=
  match direction with
  | .tx => { s with activeTxFlows := count }
  | .rx => { s with activeRxFlows := count }

/-- `find_flow`. -/
def findFlow (s : Session) (key : Direction × BitVec 32) : Option Flow :=
  s.flows.find? fun flow => flow.key = key

/-- `handle_create`. `node` says whether the allocation of the node succeeds. -/
def handleCreate (s : Session) (node : Bool) (flow : Flow) : Session :=
  if flow.channelIndex ≥ s.channelCount flow.direction then
    s.warn (text "Dante flow channelIndex is not advertised by this session")
  else if ¬ node then s.warn (text "Dante flow registry allocation failed")
  else
    match s.findFlow flow.key with
    | some _ => s.warn (text "duplicate Dante flow create rejected")
    | none =>
        let s := { s with flows := flow :: s.flows }
        let s := s.setActive flow.direction (s.active flow.direction + 1)
        s.post (.flowCreated flow)

/-- `handle_delete`: the first node with the key is taken out of the list. -/
def handleDelete (s : Session) (key : Direction × BitVec 32) : Session :=
  match s.findFlow key with
  | none => s.warn (text "delete for unknown Dante flow ignored")
  | some flow =>
      let s := { s with flows := s.flows.eraseP fun flow => flow.key = key }
      let s := s.setActive flow.direction (s.active flow.direction - 1)
      s.post (.flowDeleted flow)

/-- `invalidate_flows`. -/
def invalidateFlows (s : Session) (stopRequested postDisconnected : Bool) : Session :=
  let flows := s.flows
  let s := { s with
    flows := []
    activeTxFlows := 0
    activeRxFlows := 0
    sessionState := if stopRequested then .stopped else .reconnectWait
    events := s.events ++ flows.map Event.flowDeleted }
  if postDisconnected then s.post .disconnected else s

end Session

/-- The number of a status. -/
def ChannelStatus.code : ChannelStatus → ℕ
  | .ok => 0
  | .extNotConnected => 1
  | .extNotReady => 2
  | .extConnectionBad => 3
  | .extConnectionUnsupported => 4
  | .extInvalidConfiguration => 5
  | .extSystemFailure => 6

/-- The warning for `reportRxChannelStatus`, in an array of 128 bytes. -/
def reportText (message : Message) : List Byte :=
  (text ("reportRxChannelStatus ch=" ++ toString message.reportChannelIndex.toNat ++ " status=" ++
    toString message.reportChannelStatus.code)).take 127

namespace Session

/-- What is done with a message. -/
def handleMessage (s : Session) (node : Bool) (message : Message) : Session :=
  match message.type with
  | .requestConfiguration => s.post .configurationRequested
  | .reportRxChannelStatus => s.warn (reportText message)
  | .reportConfiguration => s
  | .createFlow => s.handleCreate node message.flow
  | .deleteFlow => s.handleDelete (message.deleteDirection, message.deleteFlowIndex)

/-- `handle_record`. The text of an error is in an array of 192 bytes; the message is a local
variable that is not read unless the parser has filled it. -/
def handleRecord (lib : Library) (allocs : Allocations) (s : Session) (data : List Byte) :
    Session :=
  let (result, parsed) := parseRecord lib allocs data Message.zero
  match result with
  | .ok => s.handleMessage allocs.node parsed.message
  | _ => s.warn ((parsed.error.getD []).take 191)

end Session

/-- What happens to a session: a record arrives, while some allocations succeed, or the connection
is lost or closed. -/
inductive Action
  | record (data : List Byte) (allocs : Allocations)
  | disconnect (stopRequested postDisconnected : Bool)

/-- The session after an action. -/
def Session.act (lib : Library) (s : Session) : Action → Session
  | .record data allocs => s.handleRecord lib allocs data
  | .disconnect stopRequested postDisconnected =>
      s.invalidateFlows stopRequested postDisconnected

/-- The session after actions. -/
def Session.run (lib : Library) (s : Session) (actions : List Action) : Session :=
  actions.foldl (Session.act lib) s

/-! ## What stays in step -/

/-- The creation or deletion that an event tells of. -/
def Event.change? : Event → Option (Change Flow)
  | .flowCreated flow => some (.created flow)
  | .flowDeleted flow => some (.deleted flow)
  | _ => none

/-- The creations and deletions under a key. -/
def history (key : Direction × BitVec 32) (events : List Event) : List (Change Flow) :=
  (events.filterMap Event.change?).filter fun change => change.thing.key = key

/-- The number of flows of a direction. -/
def Session.registered (s : Session) (direction : Direction) : ℕ :=
  s.flows.countP fun flow => flow.direction = direction

/-- The list, the counters and the events say the same. -/
structure Session.Consistent (s : Session) : Prop where
  distinct : (s.flows.map Flow.key).Nodup
  active : ∀ direction, s.active direction = BitVec.ofNat 32 (s.registered direction)
  channels : ∀ flow ∈ s.flows, flow.channelIndex < s.channelCount flow.direction
  alternates : ∀ key, Alternates (history key s.events) (s.findFlow key)

theorem history_append (key : Direction × BitVec 32) (events more : List Event) :
    history key (events ++ more) = history key events ++ history key more := by
  rw [history, filterMap_append, filter_append]
  rfl

namespace Session

variable {s : Session}

@[simp] theorem channelCount_setActive (direction : Direction) (count : BitVec 32) :
    (s.setActive direction count).channelCount = s.channelCount := by
  cases direction <;> rfl

@[simp] theorem flows_setActive (direction : Direction) (count : BitVec 32) :
    (s.setActive direction count).flows = s.flows := by
  cases direction <;> rfl

@[simp] theorem events_setActive (direction : Direction) (count : BitVec 32) :
    (s.setActive direction count).events = s.events := by
  cases direction <;> rfl

@[simp] theorem channelCount_post (event : Event) :
    (s.post event).channelCount = s.channelCount := by
  funext direction
  cases direction <;> rfl

@[simp] theorem active_post (event : Event) : (s.post event).active = s.active := by
  funext direction
  cases direction <;> rfl

theorem create_consistent (txVideoChannels rxVideoChannels : BitVec 32) :
    (create txVideoChannels rxVideoChannels).Consistent where
  distinct := nodup_nil
  active direction := by cases direction <;> rfl
  channels _ hflow := absurd hflow not_mem_nil
  alternates _ := Alternates.nil

/-- An event that is about no flow changes nothing. -/
theorem Consistent.post (h : s.Consistent) {event : Event} (hevent : event.change? = none) :
    (s.post event).Consistent where
  distinct := h.distinct
  active direction := by
    rw [active_post]
    exact h.active direction
  channels := by
    rw [channelCount_post]
    exact h.channels
  alternates key := by
    have hnone : history key [event] = [] := by
      rw [history, filterMap_cons_none hevent]
      rfl
    have hsame : history key (s.post event).events = history key s.events := by
      rw [Session.post, history_append, hnone, append_nil]
    rw [hsame]
    exact h.alternates key

theorem Consistent.warn (h : s.Consistent) (message : List Byte) : (s.warn message).Consistent :=
  h.post rfl

/-- The registry with other flows, with the counter of one direction changed for them, and with the
event of the change. -/
def changed (s : Session) (flows : List Flow) (direction : Direction) (count : BitVec 32)
    (event : Event) : Session :=
  ({ s with flows := flows }.setActive direction count).post event

section Changed

variable {flows : List Flow} {direction : Direction} {count : BitVec 32} {event : Event}

theorem flows_changed : (s.changed flows direction count event).flows = flows := by
  cases direction <;> rfl

theorem events_changed :
    (s.changed flows direction count event).events = s.events ++ [event] := by
  cases direction <;> rfl

theorem channelCount_changed :
    (s.changed flows direction count event).channelCount = s.channelCount := by
  funext other
  cases direction <;> cases other <;> rfl

theorem active_changed (other : Direction) :
    (s.changed flows direction count event).active other =
      if other = direction then count else s.active other := by
  cases direction <;> cases other <;> rfl

end Changed

/-- The flow is put in front of the others, and its creation is the last event. -/
theorem handleCreate_cases (s : Session) (node : Bool) (flow : Flow) :
    (∃ message, s.handleCreate node flow = s.warn message) ∨
      flow.channelIndex < s.channelCount flow.direction ∧ s.findFlow flow.key = none ∧
        s.handleCreate node flow = s.changed (flow :: s.flows) flow.direction
          (s.active flow.direction + 1) (.flowCreated flow) := by
  rw [handleCreate]
  split
  case isTrue => exact Or.inl ⟨_, rfl⟩
  case isFalse hchannel =>
    split
    case isTrue => exact Or.inl ⟨_, rfl⟩
    case isFalse =>
      split
      case h_1 => exact Or.inl ⟨_, rfl⟩
      case h_2 hfind =>
        refine Or.inr ⟨BitVec.not_le.mp hchannel, hfind, ?_⟩
        cases flow.direction <;> rfl

theorem handleDelete_cases (s : Session) (key : Direction × BitVec 32) :
    (∃ message, s.handleDelete key = s.warn message) ∨
      ∃ flow, s.findFlow key = some flow ∧ s.handleDelete key =
        s.changed (s.flows.eraseP fun flow => flow.key = key) flow.direction
          (s.active flow.direction - 1) (.flowDeleted flow) := by
  rw [handleDelete]
  split
  case h_1 => exact Or.inl ⟨_, rfl⟩
  case h_2 flow hfind =>
    refine Or.inr ⟨flow, hfind, ?_⟩
    cases flow.direction <;> rfl

/-- A change of one flow: what is left to show when the events are those before and the change. -/
theorem history_change (key : Direction × BitVec 32) (events : List Event) {event : Event}
    {change : Change Flow} (hevent : event.change? = some change) :
    history key (events ++ [event]) =
      if change.thing.key = key then history key events ++ [change] else history key events := by
  have hlast : history key [event] = if change.thing.key = key then [change] else [] := by
    rw [history, filterMap_cons_some hevent, filterMap_nil]
    split
    case isTrue hkey => exact filter_cons_of_pos (by simpa using hkey)
    case isFalse hkey => exact filter_cons_of_neg (by simpa using hkey)
  rw [history_append, hlast]
  split
  case isTrue => rfl
  case isFalse => exact append_nil _

theorem Consistent.create (h : s.Consistent) (node : Bool) (flow : Flow) :
    (s.handleCreate node flow).Consistent := by
  rcases s.handleCreate_cases node flow with ⟨message, hwarn⟩ | ⟨hchannel, hfind, hsame⟩
  · rw [hwarn]
    exact h.warn message
  have hfresh : ∀ other ∈ s.flows, other.key ≠ flow.key := fun other hother hkey =>
    find?_eq_none.mp hfind other hother (by simpa using hkey)
  rw [hsame]
  refine ⟨?_, ?_, ?_, ?_⟩
  · rw [flows_changed, map_cons]
    refine nodup_cons.mpr ⟨?_, h.distinct⟩
    intro hmem
    obtain ⟨other, hother, hkey⟩ := mem_map.mp hmem
    exact hfresh other hother hkey
  · intro direction
    rw [active_changed, registered, flows_changed]
    split
    case isTrue hdirection =>
      rw [countP_cons_of_pos (by simpa using hdirection.symm), BitVec.ofNat_add, hdirection,
        h.active, registered]
      rfl
    case isFalse hdirection =>
      rw [countP_cons_of_neg (by simpa using Ne.symm hdirection)]
      exact h.active direction
  · rw [flows_changed, channelCount_changed]
    intro other hother
    rcases mem_cons.mp hother with rfl | hrest
    · exact hchannel
    · exact h.channels other hrest
  · intro key
    have hbefore := h.alternates key
    rw [events_changed, history_change key s.events rfl, findFlow, flows_changed]
    split
    case isTrue hkey =>
      have hkey : flow.key = key := hkey
      rw [find?_cons_of_pos (by simpa using hkey)]
      rw [← hkey, hfind] at hbefore
      exact hkey ▸ hbefore.create flow
    case isFalse hkey =>
      have hkey : ¬ flow.key = key := hkey
      rw [find?_cons_of_neg (by simpa using hkey)]
      exact hbefore

/-- The node that is found is taken out. -/
theorem erase_found {flows : List Flow} {flow : Flow} {key : Direction × BitVec 32}
    (hfind : flows.find? (fun flow => flow.key = key) = some flow) :
    ∃ before behind, flows = before ++ flow :: behind ∧
      flows.eraseP (fun flow => flow.key = key) = before ++ behind := by
  obtain ⟨hkey, before, behind, hflows, hbefore⟩ := find?_eq_some_iff_append.mp hfind
  have hnone : ∀ other ∈ before, ¬ (decide (other.key = key) = true) := by
    intro other hother
    simpa using hbefore other hother
  refine ⟨before, behind, hflows, ?_⟩
  rw [hflows, eraseP_append_right _ hnone]
  exact congrArg (before ++ ·) (eraseP_cons_of_pos hkey)

theorem Consistent.delete (h : s.Consistent) (key : Direction × BitVec 32) :
    (s.handleDelete key).Consistent := by
  rcases s.handleDelete_cases key with ⟨message, hwarn⟩ | ⟨flow, hfind, hsame⟩
  · rw [hwarn]
    exact h.warn message
  have hmem : flow ∈ s.flows := mem_of_find?_eq_some hfind
  have hkey : flow.key = key := by simpa using find?_some hfind
  rw [hsame]
  refine ⟨?_, ?_, ?_, ?_⟩
  · rw [flows_changed]
    exact h.distinct.sublist (eraseP_sublist.map Flow.key)
  · intro direction
    obtain ⟨before, behind, hflows, herase⟩ := erase_found hfind
    have hactive := h.active direction
    rw [registered, hflows, countP_append] at hactive
    rw [active_changed, registered, flows_changed, herase, countP_append]
    split
    case isTrue hdirection =>
      rw [countP_cons_of_pos (by simpa using hdirection.symm), ← Nat.add_assoc,
        BitVec.ofNat_add] at hactive
      rw [← hdirection, hactive]
      exact BitVec.add_sub_cancel _ _
    case isFalse hdirection =>
      rw [countP_cons_of_neg (by simpa using Ne.symm hdirection)] at hactive
      exact hactive
  · rw [flows_changed, channelCount_changed]
    exact fun other hother => h.channels other (mem_of_mem_eraseP hother)
  · intro other
    have hbefore := h.alternates other
    rw [events_changed, history_change other s.events rfl, findFlow, flows_changed,
      find?_eraseP_key Flow.key key other s.flows h.distinct]
    by_cases hother : key = other
    · have hdeleted : (Change.deleted flow).thing.key = other := hkey.trans hother
      rw [if_pos hdeleted, if_pos hother.symm]
      rw [← hother, hfind] at hbefore
      exact hother ▸ hbefore.delete
    · have hdeleted : ¬ (Change.deleted flow).thing.key = other :=
        fun hsame => hother (hkey.symm.trans hsame)
      rw [if_neg hdeleted, if_neg (Ne.symm hother)]
      exact hbefore

/-- The deletions of all the flows are, under a key, that of the flow registered under it. -/
theorem history_deleted (key : Direction × BitVec 32) {flows : List Flow}
    (hkeys : (flows.map Flow.key).Nodup) :
    history key (flows.map Event.flowDeleted) =
      (flows.find? fun flow => flow.key = key).toList.map Change.deleted := by
  have hchanges : (flows.map Event.flowDeleted).filterMap Event.change? =
      flows.map Change.deleted := by
    rw [filterMap_map]
    exact congrFun filterMap_eq_map flows
  rw [history, hchanges, filter_map, ← filter_key_eq_find? Flow.key key flows hkeys]
  rfl

/-- **All the flows are deleted.** -/
theorem Consistent.invalidate (h : s.Consistent) (stopRequested postDisconnected : Bool) :
    (s.invalidateFlows stopRequested postDisconnected).Consistent ∧
      (s.invalidateFlows stopRequested postDisconnected).flows = [] := by
  have hcleared : Consistent { s with
      flows := []
      activeTxFlows := 0
      activeRxFlows := 0
      sessionState := if stopRequested then .stopped else .reconnectWait
      events := s.events ++ s.flows.map Event.flowDeleted } := by
    refine ⟨nodup_nil, ?_, fun flow hflow => absurd hflow not_mem_nil, ?_⟩
    · intro direction
      cases direction <;> rfl
    · intro key
      rw [history_append, history_deleted key h.distinct]
      exact (h.alternates key).close
  rw [invalidateFlows]
  cases postDisconnected with
  | true => exact ⟨hcleared.post rfl, rfl⟩
  | false => exact ⟨hcleared, rfl⟩

theorem Consistent.message (h : s.Consistent) (node : Bool) (message : Message) :
    (s.handleMessage node message).Consistent := by
  rw [handleMessage]
  split
  case h_1 => exact h.post rfl
  case h_2 => exact h.warn _
  case h_3 => exact h
  case h_4 => exact h.create node message.flow
  case h_5 => exact h.delete _

theorem Consistent.record (h : s.Consistent) (lib : Library) (allocs : Allocations)
    (data : List Byte) : (s.handleRecord lib allocs data).Consistent := by
  rw [handleRecord]
  cases parseRecord lib allocs data Message.zero with
  | mk result parsed =>
      cases result with
      | ok => exact h.message allocs.node parsed.message
      | malformed => exact h.warn _
      | unknownAction => exact h.warn _

theorem Consistent.act (h : s.Consistent) (lib : Library) (action : Action) :
    (s.act lib action).Consistent := by
  cases action with
  | record data allocs => exact h.record lib allocs data
  | disconnect stopRequested postDisconnected =>
      exact (h.invalidate stopRequested postDisconnected).1

theorem Consistent.run (lib : Library) (actions : List Action) :
    ∀ {s : Session}, s.Consistent → (s.run lib actions).Consistent := by
  induction actions with
  | nil => exact fun h => h
  | cons action actions ih => exact fun h => ih (h.act lib action)

/-- A direction has a flow for each index at most. -/
theorem Consistent.registered_le (h : s.Consistent) (direction : Direction) :
    s.registered direction ≤ 2 ^ 32 := by
  have hindices : ((s.flows.filter fun flow => flow.direction = direction).map
      fun flow => flow.flowIndex.toFin).Nodup := by
    have hkeys : ((s.flows.filter fun flow => flow.direction = direction).map Flow.key).Nodup :=
      h.distinct.sublist (filter_sublist.map Flow.key)
    refine List.Nodup.map_on ?_ (List.Nodup.of_map Flow.key hkeys)
    intro flow hflow other hother hindex
    refine inj_on_of_nodup_map hkeys hflow hother (Prod.ext ?_ (BitVec.toFin_inj.mp hindex))
    have hfirst : flow.direction = direction := by simpa using of_mem_filter hflow
    have hsecond : other.direction = direction := by simpa using of_mem_filter hother
    exact hfirst.trans hsecond.symm
  have hcard := hindices.length_le_card
  rw [length_map, Fintype.card_fin, ← countP_eq_length_filter] at hcard
  exact hcard

/-- The counters are those of the flows, as far as they have bits. -/
theorem Consistent.toNat_active (h : s.Consistent) (direction : Direction) :
    (s.active direction).toNat = s.registered direction % 2 ^ 32 := by
  rw [h.active, BitVec.toNat_ofNat]

/-- What is advertised does not change. -/
theorem channelCount_act (lib : Library) (action : Action) :
    (s.act lib action).channelCount = s.channelCount := by
  cases action with
  | disconnect stopRequested postDisconnected =>
      cases postDisconnected <;> exact funext fun direction => by cases direction <;> rfl
  | record data allocs =>
      rw [act, handleRecord]
      cases parseRecord lib allocs data Message.zero with
      | mk result parsed =>
          cases result with
          | malformed => exact channelCount_post _
          | unknownAction => exact channelCount_post _
          | ok =>
              show (s.handleMessage allocs.node parsed.message).channelCount = _
              rw [handleMessage]
              split
              case h_1 => exact channelCount_post _
              case h_2 => exact channelCount_post _
              case h_3 => rfl
              case h_4 =>
                rcases s.handleCreate_cases allocs.node parsed.message.flow with
                  ⟨message, hsame⟩ | ⟨_, _, hsame⟩
                · exact hsame ▸ channelCount_post _
                · exact hsame ▸ channelCount_changed
              case h_5 =>
                rcases s.handleDelete_cases
                    (parsed.message.deleteDirection, parsed.message.deleteFlowIndex) with
                  ⟨message, hsame⟩ | ⟨flow, _, hsame⟩
                · exact hsame ▸ channelCount_post _
                · exact hsame ▸ channelCount_changed

theorem channelCount_run (lib : Library) (actions : List Action) :
    ∀ {s : Session}, (s.run lib actions).channelCount = s.channelCount := by
  induction actions with
  | nil => exact rfl
  | cons action actions ih => exact ih.trans (channelCount_act lib action)

end Session

/-! ## All records -/

/-- As long as there are indices, each record puts a flow into the registry. -/
theorem run_indexedRecords (n : ℕ) (hn : n ≤ 2 ^ 32) :
    let s := (Session.create 1 1).run indexedLibrary
      ((range n).map fun index => Action.record (indexedRecord index) Allocations.all)
    s.flows.length = n ∧ ∀ flow ∈ s.flows, flow.direction = .tx ∧ flow.flowIndex.toNat < n := by
  induction n with
  | zero => exact ⟨rfl, fun flow hflow => absurd hflow not_mem_nil⟩
  | succ n ih =>
      intro s
      obtain ⟨hlength, hflows⟩ := ih (by omega)
      obtain ⟨parsed, hparsed, htype, hdirection, hchannel, hindex⟩ :=
        parseRecord_indexedRecord (show n < 2 ^ 32 by omega) Message.zero
      generalize hbefore : (Session.create 1 1).run indexedLibrary
        ((range n).map fun index =>
          Action.record (indexedRecord index) Allocations.all) = before at hlength hflows
      have hcount : before.channelCount = (Session.create 1 1).channelCount := by
        rw [← hbefore]
        exact Session.channelCount_run _ _
      have hlast : s = before.handleCreate true parsed.message.flow := by
        show (Session.create 1 1).run indexedLibrary _ = _
        rw [range_succ, map_append, Session.run, foldl_append]
        rw [Session.run] at hbefore
        rw [hbefore, map_cons, map_nil, foldl_cons, foldl_nil, Session.act,
          Session.handleRecord, hparsed]
        dsimp only
        rw [Session.handleMessage, htype]
        rfl
      have htoNat : parsed.message.flow.flowIndex.toNat = n := by
        rw [hindex, BitVec.toNat_ofNat]
        omega
      have hadvertised : ¬ parsed.message.flow.channelIndex ≥
          before.channelCount parsed.message.flow.direction := by
        rw [hcount, hdirection, hchannel]
        decide
      have hfresh : before.findFlow parsed.message.flow.key = none := by
        refine find?_eq_none.mpr ?_
        intro other hother hkey
        have hsame : other.flowIndex = parsed.message.flow.flowIndex :=
          congrArg Prod.snd (of_decide_eq_true hkey)
        have hless := (hflows other hother).2
        rw [hsame, htoNat] at hless
        exact absurd hless (Nat.lt_irrefl n)
      have hafter : s.flows = parsed.message.flow :: before.flows := by
        rw [hlast, Session.handleCreate, if_neg hadvertised, if_neg (by decide), hfresh]
        exact Session.flows_setActive _ _
      rw [hafter, length_cons, hlength]
      refine ⟨rfl, ?_⟩
      intro flow hflow
      rcases mem_cons.mp hflow with rfl | hrest
      · exact ⟨hdirection, by omega⟩
      · exact ⟨(hflows flow hrest).1, Nat.lt_succ_of_lt (hflows flow hrest).2⟩

/-- **The registry is consistent after any records and disconnects.** The counters are the numbers
of flows modulo `2 ^ 32`, and after a disconnect every creation has its deletion. -/
theorem registry_consistent (lib : Library) (txVideoChannels rxVideoChannels : BitVec 32)
    (actions : List Action) :
    let s := (Session.create txVideoChannels rxVideoChannels).run lib actions
    (s.flows.map Flow.key).Nodup ∧
    (∀ direction, (s.active direction).toNat = s.registered direction % 2 ^ 32 ∧
      s.registered direction ≤ 2 ^ 32) ∧
    (∀ flow ∈ s.flows, flow.channelIndex <
      (Session.create txVideoChannels rxVideoChannels).channelCount flow.direction) ∧
    (∀ key, Alternates (history key s.events) (s.findFlow key)) ∧
    ∀ before stopRequested postDisconnected,
      actions = before ++ [.disconnect stopRequested postDisconnected] →
      s.flows = [] ∧ ∀ key, Alternates (history key s.events) none ∧
        (history key s.events).countP Change.isCreated =
          (history key s.events).countP Change.isDeleted := by
  intro s
  have hconsistent : s.Consistent :=
    Session.Consistent.run lib actions (Session.create_consistent _ _)
  refine ⟨hconsistent.distinct,
    fun direction => ⟨hconsistent.toNat_active direction, hconsistent.registered_le direction⟩, ?_,
    hconsistent.alternates, ?_⟩
  · intro flow hflow
    rw [← Session.channelCount_run lib actions]
    exact hconsistent.channels flow hflow
  · intro before stopRequested postDisconnected hactions
    have hlast : s = ((Session.create txVideoChannels rxVideoChannels).run lib
        before).invalidateFlows stopRequested postDisconnected := by
      show (Session.create txVideoChannels rxVideoChannels).run lib actions = _
      rw [hactions, Session.run, foldl_append]
      rfl
    have hflows : s.flows = [] := by
      rw [hlast]
      exact ((Session.Consistent.run lib before (Session.create_consistent _ _)).invalidate
        stopRequested postDisconnected).2
    refine ⟨hflows, fun key => ?_⟩
    have hclosed : Alternates (history key s.events) none := by
      have hnow := hconsistent.alternates key
      rw [Session.findFlow, hflows] at hnow
      exact hnow
    exact ⟨hclosed, hclosed.balanced⟩

/-- **With a flow under every index the counter is zero again.** -/
theorem registry_wraps :
    let s := (Session.create 1 1).run indexedLibrary
      ((range (2 ^ 32)).map fun index => Action.record (indexedRecord index) Allocations.all)
    s.registered .tx = 2 ^ 32 ∧ (s.active .tx).toNat = 0 := by
  intro s
  obtain ⟨hlength, hflows⟩ := run_indexedRecords (2 ^ 32) (Nat.le_refl _)
  have hconsistent : s.Consistent :=
    Session.Consistent.run _ _ (Session.create_consistent 1 1)
  have hregistered : s.registered .tx = 2 ^ 32 := by
    rw [Session.registered, countP_eq_length.mpr fun flow hflow => by
      simpa using (hflows flow hflow).1]
    exact hlength
  refine ⟨hregistered, ?_⟩
  rw [hconsistent.toNat_active, hregistered]
  exact Nat.mod_self _

end Zstreamer.DanteSession
