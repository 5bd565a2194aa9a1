/-
# Messages over the wire

What a peer sends is a list of frames, each behind the header that `zst_ws_send`
writes, with or without a mask.  A session is a client together with a history: the
bytes that have arrived for it and the calls of `on_message`.

The message is handed over in place, so a terminator stands behind it for the time of
the call, where the next frame may already begin.
-/

import Zstreamer.WebSocket.Bounds

namespace Zstreamer.WebSocket

open Foundation

/-! ## Calls of `on_message` -/

/-- A call: the memory from the message on up to its terminator, and the length. -/
structure Call where
  text : List UInt8
  len : ℕ
  deriving DecidableEq, Repr

/-- What is in the buffer. -/
def Client.contents (c : Client) : List UInt8 := (List.range c.rxLen).map c.rxBuf

/-- A byte is written. -/
def Client.put (i : ℕ) (b : UInt8) (c : Client) : Client :=
  { c with rxBuf := fun j => if j = i then b else c.rxBuf j }

/-- The terminator is written, the callback called, and the byte written back. -/
def Client.callBack (h : Header) (c : Client) : Client × List Call :=
  let stop := h.dataAt + h.payloadLen
  let saved := c.rxBuf stop
  let c := c.put stop 0
  let text := (List.range (h.payloadLen + 1)).map fun i => c.rxBuf (h.dataAt + i)
  (c.put stop saved, [⟨text, h.payloadLen⟩])

/-- The loop body for a client after the handshake, with the calls that it makes. -/
def Client.deliver (onMessage : Bool) (c : Client) : Client × List Call :=
  match c.header with
  | none => ({ c with phase := .polling }, [])
  | some h =>
      if c.rxLen < h.totalRequired then ({ c with phase := .polling }, [])
      else if h.opcode = 8 then (c.disconnect, [])
      else
        let c := if h.masked then c.unmask h else c
        let called := if h.opcode = 1 ∧ onMessage = true then c.callBack h else (c, [])
        ((called.1.consume h.totalRequired).1, called.2)

theorem Client.callBack_fst (h : Header) (c : Client) : (c.callBack h).1 = c := by
  have hbuf : ((c.callBack h).1).rxBuf = c.rxBuf := by
    funext j
    simp only [callBack, put]
    split
    · rename_i hstop
      rw [hstop]
    · rfl
  calc (c.callBack h).1 = { c with rxBuf := ((c.callBack h).1).rxBuf } := rfl
    _ = c := by rw [hbuf]

/-- **The callback leaves no trace**: the loop body does what it does without the terminator. -/
theorem Client.deliver_fst (onMessage : Bool) (c : Client) :
    (c.deliver onMessage).1 = (c.frame onMessage).1 := by
  rw [deliver, frame]
  cases c.header with
  | none => rfl
  | some h =>
      dsimp only
      by_cases hshort : c.rxLen < h.totalRequired
      · rw [if_pos hshort, if_pos hshort]
      · rw [if_neg hshort, if_neg hshort]
        by_cases hclose : h.opcode = 8
        · rw [if_pos hclose, if_pos hclose]
        · rw [if_neg hclose, if_neg hclose]
          dsimp only
          split
          · rw [callBack_fst]
          · rfl

/-! ## Frames -/

/-- The frames of the peer. -/
inductive Kind
  | text
  | ping
  | pong
  deriving DecidableEq, Repr

/-- The first byte, with the FIN bit. -/
def Kind.first : Kind → UInt8
  | .text => 0x81
  | .ping => 0x89
  | .pong => 0x8A

/-- The length as `zst_ws_send` writes it behind the first byte. -/
def lengthBytes (len : ℕ) : List UInt8 :=
  if len ≤ 125 then [UInt8.ofNat len]
  else if len ≤ 65535 then [126, UInt8.ofNat (len >>> 8), UInt8.ofNat len]
  else 127 :: (List.range 8).map fun i => UInt8.ofNat (len >>> ((7 - i) * 8))

/-- A frame.  Its payload has fewer than 2⁶⁴ bytes, or its length could not be written. -/
structure Frame where
  kind : Kind
  key : Option (Fin 4 → UInt8)
  payload : List UInt8
  length_lt : payload.length < 2 ^ 64

namespace Frame

/-- The length, with the mask bit. -/
def length (f : Frame) : List UInt8 :=
  match f.key, lengthBytes f.payload.length with
  | some _, b :: rest => (b ||| 0x80) :: rest
  | _, bytes => bytes

/-- The mask key. -/
def keyBytes (f : Frame) : List UInt8 :=
  match f.key with
  | none => []
  | some key => List.ofFn key

/-- The payload, masked with the key. -/
def body (f : Frame) : List UInt8 :=
  match f.key with
  | none => f.payload
  | some key => f.payload.mapIdx fun i b => b ^^^ key ⟨i % 4, Nat.mod_lt i (by decide)⟩

/-- The bytes of a frame. -/
def bytes (f : Frame) : List UInt8 := f.kind.first :: (f.length ++ (f.keyBytes ++ f.body))

/-- What `on_message` is to be called with. -/
def calls (f : Frame) : List Call :=
  match f.kind with
  | .text => [⟨f.payload ++ [0], f.payload.length⟩]
  | _ => []

end Frame

/-- The bytes of frames. -/
def encode (frames : List Frame) : List UInt8 := frames.flatMap Frame.bytes

/-! ## Sessions -/

/-- A client, what has arrived for it and what `on_message` has been called with. -/
structure Session where
  client : Client
  arrived : List UInt8
  calls : List Call

/-- The bytes that a step brings. -/
def Action.bytes : Action → List UInt8
  | .receive _ bytes => bytes
  | _ => []

@[simp]
theorem Action.bytes_process (onMessage : Bool) : (Action.process onMessage).bytes = [] := rfl

/-- The calls that a step makes. -/
def Client.calls (c : Client) : Action → List Call
  | .process onMessage => if c.handshaked then (c.deliver onMessage).2 else []
  | _ => []

@[simp]
theorem Client.calls_receive (c : Client) (realloc : Bool) (bytes : List UInt8) :
    c.calls (.receive realloc bytes) = [] := rfl

/-- The peer sends these frames, and a callback is installed. -/
def Session.Sends (frames : List Frame) (s : Session) : Action → Prop
  | .receive _ bytes => s.arrived ++ bytes <+: encode frames
  | .hangUp => True
  | .process onMessage => onMessage = true

instance (frames : List Frame) (s : Session) (a : Action) : Decidable (s.Sends frames a) :=
  match a with
  | .receive _ _ => inferInstanceAs (Decidable (_ <+: _))
  | .hangUp => isTrue trivial
  | .process _ => inferInstanceAs (Decidable (_ = _))

/-- The handshake is done, and what is in the buffer came behind it. -/
structure Session.Begins (frames : List Frame) (s : Session) : Prop where
  handshaked : s.client.handshaked = true
  fits : Fits s.client
  arrived : s.arrived = s.client.contents
  sent : s.arrived <+: encode frames
  calls : s.calls = []
  phase : s.client.phase = .processing ∨ s.client.phase = .polling ∧ s.client.rxLen = 0

/-- A client after the handshake, with a peer that sends these frames. -/
def session (frames : List Frame) : System Session Action where
  init s := s.Begins frames
  next s a :=
    if s.Sends frames a then
      (turn s.client a).map fun r => ⟨r.1, s.arrived ++ a.bytes, s.calls ++ s.client.calls a⟩
    else none

/-- The size of a frame that is parsed wraps, and the little it wraps to has arrived. -/
def Wraps (c : Client) : Action → Prop
  | .process _ =>
      c.handshaked = true ∧ ∃ h, c.header = some h ∧ h.totalRequired ≤ c.rxLen ∧
        2 ^ 64 ≤ h.dataAt + h.payloadLen
  | _ => False

end Zstreamer.WebSocket
