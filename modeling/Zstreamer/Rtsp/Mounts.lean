/-
# Clients and their mount points

Mount points come and go, and each client that has asked for one keeps a pointer to it.
Removing a mount point moves the ones behind it to the front, so a client of one of these
then has the wrong one, or one that is no longer there.  As long as nobody is attached
behind a mount point that is removed, every client has the one that it has asked for.

What a client has asked for is written down beside it.  A mount callback may add and remove
mount points while a request waits for it.
-/

import Zstreamer.Rtsp.Identifier

namespace Zstreamer.Rtsp

open Foundation

/-- A client, and the mount of the request that has set its session. -/
structure Attached where
  client : Client
  mounted : Option (List Byte)

/-- `rtsp_server_priv_t`. -/
structure Server where
  mounts : Mounts
  clients : List Attached

/-- A call of the API. -/
inductive SessionOp
  /-- `zst_rtsp_server_add_session`, and whether the element takes the pads -/
  | add (name : List Byte) (padsAdded : Bool)
  /-- `zst_rtsp_server_remove_session` -/
  | remove (name : List Byte)

/-- What a mount callback does, and whether it returns `ZST_OK`. -/
structure Callback where
  ops : List SessionOp
  ok : Bool

namespace Server

/-- `zst_rtsp_server_add_session`. -/
def addSession (srv : Server) (name : List Byte) (padsAdded : Bool) : Server :=
  let m := srv.mounts
  if name = [] then srv
  else if m.sessionCount ≥ maxSessions then srv
  else if (m.findSession name).isSome then srv
  else
    { srv with
      mounts :=
        { slots := Function.update m.slots m.sessionCount ⟨copied 64 name, padsAdded, padsAdded⟩
          sessionCount := if padsAdded then m.sessionCount + 1 else m.sessionCount } }

/-- A client of a mount point that is removed is disconnected. -/
def detach (target : ℕ) (a : Attached) : Attached :=
  if a.client.session = some target then
    ⟨{ a.client with session := none, playState := .init, running := false }, none⟩
  else a

/-- The mount points behind one move to the front. -/
def compact (m : Mounts) (target : ℕ) : Mounts where
  slots j := if target ≤ j ∧ j < m.sessionCount - 1 then m.slots (j + 1) else m.slots j
  sessionCount := m.sessionCount - 1

/-- `zst_rtsp_server_remove_session`. -/
def removeSession (srv : Server) (name : List Byte) : Server :=
  match srv.mounts.findSession name with
  | none => srv
  | some target => ⟨compact srv.mounts target, srv.clients.map (detach target)⟩

def op (srv : Server) : SessionOp → Server
  | .add name padsAdded => srv.addSession name padsAdded
  | .remove name => srv.removeSession name

/-- `find_or_mount_session`. -/
def findOrMountSession (srv : Server) (callback : Option Callback) (mount : List Byte) :
    Server × Option ℕ :=
  match srv.mounts.findSession mount with
  | some i => (srv, some i)
  | none =>
      match callback with
      | none => (srv, none)
      | some cb =>
          let srv := cb.ops.foldl op srv
          (srv, if cb.ok then srv.mounts.findSession mount else none)

/-- `zst_rtsp_server_session_client_count`. -/
def sessionClientCount (srv : Server) (name : List Byte) : ℕ :=
  (srv.clients.filter fun a =>
    match a.client.session with
    | none => false
    | some i => (srv.mounts.slots i).name = name).length

/-- The clients that `session_deliver` sends the media of a mount point to. -/
def receivers (srv : Server) (i : ℕ) : List Attached :=
  srv.clients.filter fun a => a.client.session = some i ∧ a.client.playState = .playing

end Server

/-- The mount that a request has the server look for. -/
def Client.neededMount (cl : Client) : Option (List Byte) :=
  if SameCase cl.request.method (text "DESCRIBE") ∨
      (SameCase cl.request.method (text "SETUP") ∧ cl.session = none) then
    extractMountClean cl.request.uri
  else none

/-- The request has set the session of the client: a DESCRIBE that is answered with 200, or any
that finds the client without a session and leaves it with one. -/
def Client.Sets (cl : Client) (reply : Reply) : Prop :=
  cl.session = none ∨ (SameCase cl.request.method (text "DESCRIBE") ∧ reply.code = 200)

instance (cl : Client) (reply : Reply) : Decidable (cl.Sets reply) :=
  inferInstanceAs (Decidable (_ ∨ _))

/-- A client that has got an answer: what it has asked for is written down. -/
def Attached.answered (a : Attached) (answer : Client × Reply) : Attached where
  client := answer.1
  mounted :=
    if answer.1.session = none then none
    else if a.client.Sets answer.2 then extractMountClean a.client.request.uri
    else a.mounted

/-- What happens to the server. -/
inductive Event
  | session (op : SessionOp)
  | connect
  | disconnect (k : ℕ)
  | request (k : ℕ) (request : Request) (callback : Option Callback)
      (parse : List Byte → Transport) (forceTcp : Bool) (outside : Outside)

namespace Server

/-- A client gets its answer. -/
def answer (srv : Server) (k : ℕ) (found : Option ℕ) (parse : List Byte → Transport)
    (forceTcp : Bool) (outside : Outside) : Server :=
  { srv with
    clients := srv.clients.modify k fun a =>
      a.answered (a.client.dispatch srv.mounts.slots (fun _ => found) parse forceTcp outside) }

/-- The request is parsed into the client. -/
def receive (srv : Server) (k : ℕ) (request : Request) : Server :=
  { srv with clients := srv.clients.modify k fun a => { a with client := { a.client with request } } }

/-- The mount that the request of a client has the server look for. -/
def needed (srv : Server) (k : ℕ) : Option (List Byte) :=
  srv.clients[k]?.bind fun a => a.client.neededMount

/-- A request of the client at this place of the list, if there is one. -/
def request (srv : Server) (k : ℕ) (request : Request) (callback : Option Callback)
    (parse : List Byte → Transport) (forceTcp : Bool) (outside : Outside) : Server :=
  let srv := srv.receive k request
  let looked :=
    match srv.needed k with
    | none => (srv, none)
    | some mount => srv.findOrMountSession callback mount
  looked.1.answer k looked.2 parse forceTcp outside

def step (srv : Server) : Event → Server
  | .session o => srv.op o
  | .connect => { srv with clients := ⟨.connected, none⟩ :: srv.clients }
  | .disconnect k => { srv with clients := srv.clients.eraseIdx k }
  | .request k r callback parse forceTcp outside => srv.request k r callback parse forceTcp outside

/-- `zst_rtsp_server_create`. -/
def created : Server := ⟨⟨fun _ => ⟨[], false, false⟩, 0⟩, []⟩

end Server

/-! ## What is right -/

/-- A client has the mount point that it has asked for. -/
def Attached.Right (m : Mounts) (a : Attached) : Prop :=
  match a.client.session with
  | none => a.mounted = none
  | some i => i < m.sessionCount ∧ a.mounted = some (m.slots i).name

/-- Every client has the mount point that it has asked for, so the media of a mount point goes to
those who have asked for it, and they are counted. -/
structure Server.Right (srv : Server) : Prop where
  attached : ∀ a ∈ srv.clients, a.Right srv.mounts
  delivered : ∀ i < srv.mounts.sessionCount, ∀ a ∈ srv.receivers i,
    a.mounted = some (srv.mounts.slots i).name
  counted : ∀ name, srv.sessionClientCount name =
    (srv.clients.filter fun a => a.mounted = some name).length

/-- Nobody is attached behind a mount point that is removed. -/
def Server.Harmless (srv : Server) : SessionOp → Prop
  | .add _ _ => True
  | .remove name => ∀ target, srv.mounts.findSession name = some target →
      ∀ a ∈ srv.clients, ∀ i, a.client.session = some i → i ≤ target

/-- All calls of a list are harmless. -/
def Server.AllHarmless : List SessionOp → Server → Prop
  | [], _ => True
  | o :: ops, srv => srv.Harmless o ∧ AllHarmless ops (srv.op o)

/-- The calls that an event makes are harmless. -/
def Server.HarmlessEvent (srv : Server) : Event → Prop
  | .session o => srv.Harmless o
  | .connect => True
  | .disconnect _ => True
  | .request k r callback _ _ _ => ∀ mount cb, (srv.receive k r).needed k = some mount →
      srv.mounts.findSession mount = none → callback = some cb → (srv.receive k r).AllHarmless cb.ops

/-- The events of a run are harmless. -/
def Server.HarmlessRun : List Event → Server → Prop
  | [], _ => True
  | e :: events, srv => srv.HarmlessEvent e ∧ HarmlessRun events (srv.step e)

/-! ## Mount points -/

theorem Mounts.of_findFrom {m : Mounts} {mount : List Byte} {left i j : ℕ}
    (h : m.findFrom mount left i = some j) : j < i + left ∧ (m.slots j).name = mount := by
  induction left generalizing i with
  | zero => cases h
  | succ left ih =>
      rw [findFrom] at h
      split at h
      case isTrue hname =>
        cases h
        exact ⟨by omega, hname⟩
      case isFalse =>
        obtain ⟨hless, hname⟩ := ih h
        exact ⟨by omega, hname⟩

/-- What is found is there, under its name. -/
theorem Mounts.of_findSession {m : Mounts} {mount : List Byte} {i : ℕ}
    (h : m.findSession mount = some i) : i < m.sessionCount ∧ (m.slots i).name = mount := by
  have hfound := of_findFrom h
  rw [Nat.zero_add] at hfound
  exact hfound

namespace Server

/-- All clients have what they have asked for. -/
def AllAttached (srv : Server) : Prop := ∀ a ∈ srv.clients, a.Right srv.mounts

theorem AllAttached.addSession {srv : Server} (h : srv.AllAttached) (name : List Byte)
    (padsAdded : Bool) : (srv.addSession name padsAdded).AllAttached := by
  rw [Server.addSession]
  split
  · exact h
  · split
    · exact h
    · split
      · exact h
      · intro a ha
        have hright := h a ha
        rw [Attached.Right] at hright ⊢
        cases hsession : a.client.session with
        | none =>
            rw [hsession] at hright
            exact hright
        | some i =>
            rw [hsession] at hright
            obtain ⟨hless, hmounted⟩ := hright
            refine ⟨?_, ?_⟩
            · dsimp only
              split <;> omega
            · dsimp only
              rw [Function.update_of_ne hless.ne]
              exact hmounted

theorem AllAttached.removeSession {srv : Server} (h : srv.AllAttached) {name : List Byte}
    (hharmless : srv.Harmless (.remove name)) : (srv.removeSession name).AllAttached := by
  rw [Server.removeSession]
  cases hfind : srv.mounts.findSession name with
  | none => exact h
  | some target =>
      have htarget := (Mounts.of_findSession hfind).1
      intro b hb
      obtain ⟨a, ha, rfl⟩ := List.mem_map.mp hb
      have hright := h a ha
      by_cases hremoved : a.client.session = some target
      · rw [detach, if_pos hremoved]
        rfl
      · rw [detach, if_neg hremoved]
        rw [Attached.Right] at hright ⊢
        cases hsession : a.client.session with
        | none =>
            rw [hsession] at hright
            exact hright
        | some i =>
            rw [hsession] at hright hremoved
            obtain ⟨hless, hmounted⟩ := hright
            have hbefore : i < target :=
              lt_of_le_of_ne (hharmless target hfind a ha i hsession) fun hsame =>
                hremoved (congrArg some hsame)
            have hslot : (compact srv.mounts target).slots i = srv.mounts.slots i :=
              if_neg fun hmoved => absurd hmoved.1 (not_le.mpr hbefore)
            refine ⟨?_, ?_⟩
            · show i < srv.mounts.sessionCount - 1
              omega
            · rw [hslot]
              exact hmounted

theorem AllAttached.op {srv : Server} (h : srv.AllAttached) {o : SessionOp}
    (hharmless : srv.Harmless o) : (srv.op o).AllAttached := by
  cases o with
  | add name padsAdded => exact h.addSession name padsAdded
  | remove name => exact h.removeSession hharmless

theorem AllAttached.ops {srv : Server} (h : srv.AllAttached) {ops : List SessionOp}
    (hharmless : AllHarmless ops srv) : (ops.foldl Server.op srv).AllAttached := by
  induction ops generalizing srv with
  | nil => exact h
  | cons o ops ih => exact ih (h.op hharmless.1) hharmless.2

/-! ## What calls leave of a client -/

/-- The request is the same, and a client without a session stays so. -/
def Keeps (a b : Attached) : Prop :=
  b.client.request = a.client.request ∧ (a.client.session = none → b.client.session = none)

theorem Keeps.refl (a : Attached) : Keeps a a := ⟨rfl, fun hnone => hnone⟩

theorem Keeps.trans {a b c : Attached} (hab : Keeps a b) (hbc : Keeps b c) : Keeps a c :=
  ⟨hbc.1.trans hab.1, fun hnone => hbc.2 (hab.2 hnone)⟩

theorem detach_keeps (target : ℕ) (a : Attached) : Keeps a (detach target a) := by
  rw [detach]
  split
  · exact ⟨rfl, fun _ => rfl⟩
  · exact .refl a

theorem addSession_clients (srv : Server) (name : List Byte) (padsAdded : Bool) :
    (srv.addSession name padsAdded).clients = srv.clients := by
  rw [addSession]
  split
  · rfl
  · split
    · rfl
    · split <;> rfl

theorem op_keeps {srv : Server} {o : SessionOp} {k : ℕ} {b : Attached}
    (h : (srv.op o).clients[k]? = some b) : ∃ a, srv.clients[k]? = some a ∧ Keeps a b := by
  cases o with
  | add name padsAdded =>
      rw [op, addSession_clients] at h
      exact ⟨b, h, .refl b⟩
  | remove name =>
      rw [op, removeSession] at h
      cases hfind : srv.mounts.findSession name with
      | none =>
          rw [hfind] at h
          exact ⟨b, h, .refl b⟩
      | some target =>
          rw [hfind] at h
          dsimp only at h
          rw [List.getElem?_map] at h
          obtain ⟨a, ha, rfl⟩ := Option.map_eq_some_iff.mp h
          exact ⟨a, ha, detach_keeps target a⟩

theorem ops_keeps {ops : List SessionOp} {srv : Server} {k : ℕ} {b : Attached}
    (h : (ops.foldl op srv).clients[k]? = some b) :
    ∃ a, srv.clients[k]? = some a ∧ Keeps a b := by
  induction ops generalizing srv with
  | nil => exact ⟨b, h, .refl b⟩
  | cons o ops ih =>
      obtain ⟨c, hc, hcb⟩ := ih h
      obtain ⟨a, ha, hac⟩ := op_keeps hc
      exact ⟨a, ha, hac.trans hcb⟩

end Server

/-! ## Requests -/

namespace Client

theorem neededMount_keeps {a b : Attached} (h : Server.Keeps a b) {mount : List Byte}
    (hneeded : a.client.neededMount = some mount) : b.client.neededMount = some mount := by
  rw [neededMount] at hneeded ⊢
  rw [h.1]
  split at hneeded
  case isTrue hasked =>
    rw [if_pos (hasked.imp_right (And.imp_right h.2))]
    exact hneeded
  case isFalse => cases hneeded

theorem establish_session (cl : Client) (random : BitVec 32) (wanted : Transport)
    (hasTransport : Bool) :
    (cl.establish random wanted hasTransport).session = cl.session := by
  rw [establish]
  cases wanted.transportType with
  | multicast => rfl
  | tcp => rfl
  | udp =>
      dsimp only
      split
      · split <;> rfl
      · rfl

theorem firstSetup_session (cl : Client) (random : BitVec 32) (wanted : Transport) :
    (cl.firstSetup random wanted).session = cl.session := by
  rw [firstSetup]
  split
  · exact cl.establish_session random wanted _
  · rfl

variable {cl : Client} {slots : ℕ → Mount} {find : List Byte → Option ℕ}
  {parse : List Byte → Transport} {forceTcp : Bool} {outside : Outside}

theorem onSetup_session :
    (cl.onSetup slots find parse forceTcp outside).1.session = cl.bindSession find := by
  rw [onSetup]
  cases hbind : cl.bindSession find with
  | none => rfl
  | some i => exact firstSetup_session _ _ _

theorem dispatch_describe (h : SameCase cl.request.method (text "DESCRIBE")) :
    cl.dispatch slots find parse forceTcp outside = cl.onDescribe find := by
  rw [dispatch, if_neg (not_sameCase h (by decide)), if_pos h]

/-- No other request sets the session. -/
theorem dispatch_session_same (hdescribe : ¬ SameCase cl.request.method (text "DESCRIBE"))
    (hsetup : ¬ SameCase cl.request.method (text "SETUP")) :
    (cl.dispatch slots find parse forceTcp outside).1.session = cl.session := by
  rw [dispatch, if_neg hdescribe, if_neg hsetup]
  split
  · rfl
  · split
    · rw [onPlay]
      split <;> rfl
    · split
      · rw [onPause]
        split <;> rfl
      · split <;> rfl

/-- What a request does to the session of a client: nothing, or it is gone, or it is the one that
has been found. -/
theorem dispatch_session (cl : Client) (slots : ℕ → Mount) (find : List Byte → Option ℕ)
    (parse : List Byte → Transport) (forceTcp : Bool) (outside : Outside) :
    let answer := cl.dispatch slots find parse forceTcp outside
    (answer.1.session = cl.session ∧
        ¬ (SameCase cl.request.method (text "DESCRIBE") ∧ answer.2.code = 200)) ∨
      answer.1.session = none ∨
      ∃ mount i, cl.neededMount = some mount ∧ extractMountClean cl.request.uri = some mount ∧
        find mount = some i ∧ answer.1.session = some i ∧ cl.Sets answer.2 := by
  dsimp only
  by_cases hdescribe : SameCase cl.request.method (text "DESCRIBE")
  · rw [dispatch_describe hdescribe, onDescribe]
    cases hmount : extractMountClean cl.request.uri with
    | none => exact .inl ⟨rfl, fun h => absurd h.2 (by decide : ¬ 404 = 200)⟩
    | some mount =>
        dsimp only
        cases hfind : find mount with
        | none => exact .inl ⟨rfl, fun h => absurd h.2 (by decide : ¬ 404 = 200)⟩
        | some i =>
            refine .inr (.inr ⟨mount, i, ?_, rfl, hfind, rfl, .inr ⟨hdescribe, rfl⟩⟩)
            rw [neededMount, if_pos (.inl hdescribe), hmount]
  · by_cases hsetup : SameCase cl.request.method (text "SETUP")
    · rw [dispatch_setup hsetup, onSetup_session, bindSession]
      cases hsession : cl.session with
      | some i => exact .inl ⟨rfl, fun h => hdescribe h.1⟩
      | none =>
          cases hmount : extractMountClean cl.request.uri with
          | none => exact .inr (.inl rfl)
          | some mount =>
              cases hfind : find mount with
              | none => exact .inr (.inl hfind)
              | some i =>
                  refine .inr (.inr ⟨mount, i, ?_, rfl, hfind, hfind, .inl hsession⟩)
                  rw [neededMount, if_pos (.inr ⟨hsetup, hsession⟩), hmount]
    · exact .inl ⟨dispatch_session_same hdescribe hsetup, fun h => hdescribe h.1⟩

end Client

/-- A client that was right is right after its answer, if what has been found for it is the mount
point that it has asked for. -/
theorem Attached.Right.answered {a : Attached} {m : Mounts} (h : a.Right m) {found : Option ℕ}
    (hfound : ∀ i, found = some i →
      ∃ mount, a.client.neededMount = some mount ∧ m.findSession mount = some i)
    (parse : List Byte → Transport) (forceTcp : Bool) (outside : Outside) :
    (a.answered (a.client.dispatch m.slots (fun _ => found) parse forceTcp outside)).Right m := by
  have hcases := a.client.dispatch_session m.slots (fun _ => found) parse forceTcp outside
  revert hcases
  generalize a.client.dispatch m.slots (fun _ => found) parse forceTcp outside = answer
  intro hcases
  rw [Attached.Right, Attached.answered]
  dsimp only
  rcases hcases with ⟨hsame, hnot⟩ | hnone | ⟨mount, i, hneeded, hextract, hfind, hsession, hsets⟩
  · rw [Attached.Right] at h
    rw [hsame]
    cases hsession : a.client.session with
    | none => exact if_pos rfl
    | some i =>
        rw [hsession] at h
        have hunset : ¬ a.client.Sets answer.2 := by
          rintro (hnone | hdescribed)
          · rw [hsession] at hnone
            cases hnone
          · exact hnot hdescribed
        dsimp only
        rw [if_neg (Option.some_ne_none i), if_neg hunset]
        exact h
  · rw [hnone]
    exact if_pos rfl
  · obtain ⟨mount', hneeded', hplace⟩ := hfound i hfind
    obtain rfl := Option.some.inj (hneeded.symm.trans hneeded')
    obtain ⟨hless, hname⟩ := Mounts.of_findSession hplace
    rw [hsession]
    dsimp only
    rw [if_neg (Option.some_ne_none i), if_pos hsets, hname]
    exact ⟨hless, hextract⟩

namespace Server

/-- A mount callback that makes harmless calls leaves all clients attached, and what is found then
is there. -/
theorem AllAttached.findOrMountSession {srv : Server} (h : srv.AllAttached)
    {callback : Option Callback} {mount : List Byte}
    (hharmless : ∀ cb, srv.mounts.findSession mount = none → callback = some cb →
      srv.AllHarmless cb.ops) :
    (srv.findOrMountSession callback mount).1.AllAttached ∧
      (∀ i, (srv.findOrMountSession callback mount).2 = some i →
        (srv.findOrMountSession callback mount).1.mounts.findSession mount = some i) ∧
      ∀ (k : ℕ) (b : Attached), (srv.findOrMountSession callback mount).1.clients[k]? = some b →
        ∃ a, srv.clients[k]? = some a ∧ Keeps a b := by
  unfold Server.findOrMountSession
  cases hfind : srv.mounts.findSession mount with
  | some i => exact ⟨h, fun j hj => hfind.trans hj, fun k b hb => ⟨b, hb, .refl b⟩⟩
  | none =>
      cases hcallback : callback with
      | none => exact ⟨h, fun j hj => (by cases hj), fun k b hb => ⟨b, hb, .refl b⟩⟩
      | some cb =>
          refine ⟨h.ops (hharmless cb hfind hcallback), fun j hj => ?_, fun k b hb => ops_keeps hb⟩
          dsimp only at hj ⊢
          split at hj
          · exact hj
          · cases hj

theorem mem_modify {α : Type} {f : α → α} {l : List α} {k : ℕ} {b : α} (h : b ∈ l.modify k f) :
    b ∈ l ∨ ∃ a, l[k]? = some a ∧ b = f a := by
  obtain ⟨j, hj⟩ := List.mem_iff_getElem?.mp h
  rw [List.getElem?_modify] at hj
  obtain ⟨a, ha, hb⟩ := Option.map_eq_some_iff.mp hj
  split at hb
  case isTrue hplace =>
    subst hplace
    exact .inr ⟨a, ha, hb.symm⟩
  case isFalse =>
    obtain rfl := hb
    exact .inl (List.mem_of_getElem? ha)

theorem AllAttached.receive {srv : Server} (h : srv.AllAttached) (k : ℕ) (request : Request) :
    (srv.receive k request).AllAttached := by
  intro b hb
  rcases mem_modify hb with hb | ⟨a, ha, rfl⟩
  · exact h b hb
  · exact h a (List.mem_of_getElem? ha)

theorem AllAttached.answer {srv : Server} (h : srv.AllAttached) {k : ℕ} {found : Option ℕ}
    (hfound : ∀ a, srv.clients[k]? = some a → ∀ i, found = some i →
      ∃ mount, a.client.neededMount = some mount ∧ srv.mounts.findSession mount = some i)
    (parse : List Byte → Transport) (forceTcp : Bool) (outside : Outside) :
    (srv.answer k found parse forceTcp outside).AllAttached := by
  intro b hb
  rcases mem_modify hb with hb | ⟨a, ha, rfl⟩
  · exact h b hb
  · exact (h a (List.mem_of_getElem? ha)).answered (hfound a ha) parse forceTcp outside

theorem AllAttached.request {srv : Server} (h : srv.AllAttached) {k : ℕ} {r : Request}
    {callback : Option Callback} {parse : List Byte → Transport} {forceTcp : Bool}
    {outside : Outside}
    (hharmless : srv.HarmlessEvent (.request k r callback parse forceTcp outside)) :
    (srv.request k r callback parse forceTcp outside).AllAttached := by
  have hreceived := h.receive k r
  rw [Server.request]
  cases hneeded : (srv.receive k r).needed k with
  | none => exact hreceived.answer (fun _ _ _ hfound => (by cases hfound)) parse forceTcp outside
  | some mount =>
      obtain ⟨hattached, hthere, hkeeps⟩ :=
        hreceived.findOrMountSession (fun cb => hharmless mount cb hneeded)
      refine hattached.answer (fun b hb i hfound => ⟨mount, ?_, hthere i hfound⟩) parse forceTcp
        outside
      obtain ⟨a, ha, hab⟩ := hkeeps k b hb
      rw [needed, ha] at hneeded
      exact Client.neededMount_keeps hab hneeded

theorem AllAttached.step {srv : Server} (h : srv.AllAttached) {e : Event}
    (hharmless : srv.HarmlessEvent e) : (srv.step e).AllAttached := by
  cases e with
  | session o => exact h.op hharmless
  | connect =>
      intro a ha
      rcases List.mem_cons.mp ha with rfl | ha
      · exact rfl
      · exact h a ha
  | disconnect k => exact fun a ha => h a (List.mem_of_mem_eraseIdx ha)
  | request k r callback parse forceTcp outside => exact h.request hharmless

theorem AllAttached.run {srv : Server} (h : srv.AllAttached) {events : List Event}
    (hharmless : HarmlessRun events srv) : (events.foldl Server.step srv).AllAttached := by
  induction events generalizing srv with
  | nil => exact h
  | cons e events ih => exact ih (h.step hharmless.1) hharmless.2

/-- What it means for the media and for the count that all clients are attached. -/
theorem AllAttached.right {srv : Server} (h : srv.AllAttached) : srv.Right where
  attached := h
  delivered i hi a ha := by
    obtain ⟨hmem, hreceives⟩ := List.mem_filter.mp ha
    have hright := h a hmem
    rw [Attached.Right, (of_decide_eq_true hreceives).1] at hright
    exact hright.2
  counted name := by
    rw [sessionClientCount]
    refine congrArg List.length (List.filter_congr fun a ha => ?_)
    have hright := h a ha
    rw [Attached.Right] at hright
    cases hsession : a.client.session with
    | none =>
        rw [hsession] at hright
        rw [hright]
        rfl
    | some i =>
        rw [hsession] at hright
        rw [hright.2]
        simp only [Option.some.injEq]

/-- As long as no mount point is removed while a client is attached behind it, every client has
the mount point that it has asked for. -/
theorem clients_stay_attached (events : List Event) (h : HarmlessRun events created) :
    (events.foldl step created).Right :=
  (AllAttached.run (fun _ ha => absurd ha List.not_mem_nil) h).right

/-- A client asks for the mount point b. -/
def describesB : Event :=
  .request 0 ⟨text "DESCRIBE", text "rtsp://host/b", 1, [], []⟩ none (fun _ => .default) false
    ⟨0, true⟩

/-- It has been added last, and it is removed. -/
def lastRemoved : List Event :=
  [.session (.add (text "a") true), .session (.add (text "b") true), .connect, describesB,
    .session (.remove (text "b"))]

theorem stays_attached_lastRemoved : (lastRemoved.foldl step created).Right := by
  refine clients_stay_attached lastRemoved
    ⟨trivial, trivial, trivial, fun _ _ _ _ hnone => (by cases hnone), ?_, trivial⟩
  intro target htarget a ha i hsession
  obtain rfl := Option.some.inj (Eq.trans (by decide) htarget : some 1 = some target)
  obtain rfl := List.mem_singleton.mp ha
  obtain rfl := Option.some.inj (Eq.trans (by decide) hsession : some 1 = some i)
  exact le_rfl

/-- The one in front of it is removed, and another one is added. -/
def frontRemoved : List Event :=
  [.session (.add (text "a") true), .session (.add (text "b") true), .connect, describesB,
    .session (.remove (text "a")), .session (.add (text "c") true)]

/-- Nobody has asked for the mount point c, and it has a client. -/
theorem client_of_another : ¬ ∀ events : List Event, (events.foldl step created).Right := by
  intro hright
  have hcounted := (hright frontRemoved).counted (text "c")
  exact absurd hcounted (by decide)

end Server

end Zstreamer.Rtsp
