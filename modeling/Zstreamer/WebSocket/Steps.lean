/-
# A client of the WebSocket server

`zst_ws_server.c` collects what a client sends in a growing buffer.  The server
thread makes room and receives (`ws_server_thread`); `process_client_rx` then takes
the handshake and after it one frame after another off the front of the buffer,
until what is there is not a whole frame.  A step here is one receive or one turn
of that loop, and comes with every access it makes to the buffer.

Sizes are `size_t` and `uint64_t`: natural numbers with the arithmetic taken
modulo 2⁶⁴.  An access is an offset and a length as the code computes them,
whether or not they lie inside the buffer, together with the number of bytes
allocated at that moment.
-/

import Mathlib.Algebra.Ring.Nat
import Zstreamer.Foundation.Runs
import Mathlib.Data.List.Range

namespace Zstreamer.WebSocket

open Foundation

/-- `INITIAL_RX_CAP`. -/
def initialRxCap : ℕ := 4096

/-- Addition of `size_t`. -/
def addSize (a b : ℕ) : ℕ := (a + b) % 2 ^ 64

/-- Subtraction of `size_t`. -/
def subSize (a b : ℕ) : ℕ := (a + 2 ^ 64 - b) % 2 ^ 64

/-- Bytes `offset, …, offset + length - 1` of a buffer of `room` bytes. -/
structure Access where
  offset : ℕ
  length : ℕ
  room : ℕ
  deriving DecidableEq, Repr

/-- The access stays inside the buffer. -/
def Access.InBounds (a : Access) : Prop := a.offset + a.length ≤ a.room

instance (a : Access) : Decidable a.InBounds := inferInstanceAs (Decidable (_ ≤ _))

/-- What the server thread is doing for the client. -/
inductive Phase
  | polling
  | processing
  | closed
  deriving DecidableEq, Repr

/-- `ws_client_t`.  `allocated` is the number of bytes `rx_buf` points to, none for a null
pointer. -/
structure Client where
  phase : Phase
  handshaked : Bool
  rxBuf : ℕ → UInt8
  allocated : ℕ
  rxLen : ℕ
  rxCap : ℕ

/-- A client as it is accepted.  Nobody looks whether the buffer could be allocated. -/
def Client.accept (malloc : Bool) : Client where
  phase := .polling
  handshaked := false
  rxBuf := fun _ => 0
  allocated := if malloc then initialRxCap + 1 else 0
  rxLen := 0
  rxCap := initialRxCap

/-- `disconnect_client_unlocked`. -/
def Client.disconnect (c : Client) : Client :=
  { c with phase := .closed, handshaked := false, allocated := 0, rxLen := 0, rxCap := 0 }

/-- An access to the client's buffer. -/
def Client.access (c : Client) (offset length : ℕ) : Access := ⟨offset, length, c.allocated⟩

/-! ## Making room and receiving -/

/-- Set every bit below the highest one, as the growth rule does. -/
def smear (x : ℕ) : ℕ :=
  let x := x ||| x >>> 1
  let x := x ||| x >>> 2
  let x := x ||| x >>> 4
  let x := x ||| x >>> 8
  let x := x ||| x >>> 16
  x ||| x >>> 32

/-- The capacity asked for when `need` bytes are wanted. -/
def grownCap (need : ℕ) : ℕ :=
  let newCap := addSize (smear (subSize need 1)) 1
  if newCap < initialRxCap then initialRxCap else newCap

/-- Make room for at least 4096 bytes more, or fail.  No allocation of `PTRDIFF_MAX` bytes
or more succeeds. -/
def Client.grow (realloc : Bool) (c : Client) : Option Client :=
  let need := addSize c.rxLen 4096
  if need ≥ c.rxCap then
    let newCap := grownCap need
    let size := addSize newCap 1
    if realloc = true ∧ size < 2 ^ 63 then
      some { c with rxCap := newCap, allocated := size }
    else none
  else some c

/-- Put received bytes behind those already there. -/
def Client.append (bytes : List UInt8) (c : Client) : Client :=
  { c with
    rxBuf := fun i => if c.rxLen ≤ i then bytes.getD (i - c.rxLen) (c.rxBuf i) else c.rxBuf i
    rxLen := addSize c.rxLen bytes.length }

/-- The client's socket is readable.  `recv` is offered the free part of the buffer and fills
some of it; no bytes stand for a receive that would block. -/
def Client.receive (realloc : Bool) (bytes : List UInt8) (c : Client) :
    Option (Client × List Access) :=
  match c.grow realloc with
  | none => some (c.disconnect, [])
  | some c =>
      if bytes.length ≤ subSize c.rxCap c.rxLen then
        if bytes = [] then some (c, [])
        else some ({ c.append bytes with phase := .processing }, [c.access c.rxLen bytes.length])
      else none

/-! ## The handshake -/

/-- The first place where `needle` occurs. -/
def strstr (needle : List UInt8) : List UInt8 → Option ℕ
  | [] => if needle = [] then some 0 else none
  | a :: s => if needle.isPrefixOf (a :: s) then some 0 else (strstr needle s).map (· + 1)

/-- An empty line, CR LF CR LF. -/
def emptyLine : List UInt8 := [13, 10, 13, 10]

/-- `Sec-WebSocket-Key:` -/
def keyHeader : List UInt8 :=
  [83, 101, 99, 45, 87, 101, 98, 83, 111, 99, 107, 101, 116, 45, 75, 101, 121, 58]

/-- The buffer as a string, once a terminator stands behind the received bytes. -/
def Client.text (c : Client) : List UInt8 :=
  ((List.range c.rxLen).map c.rxBuf).takeWhile (· ≠ 0)

/-- The length of the key after its header: blanks skipped, up to the end of the line. -/
def keyLength (afterHeader : List UInt8) : ℕ :=
  ((afterHeader.dropWhile fun b => b = 32 ∨ b = 9).takeWhile fun b => b ≠ 13 ∧ b ≠ 10).length

/-- Take the first `total` bytes off the buffer with `memmove`. -/
def Client.consume (total : ℕ) (c : Client) : Client × List Access :=
  let rest := subSize c.rxLen total
  ({ c with
      rxBuf := fun i => if i < rest then c.rxBuf (total + i) else c.rxBuf i
      rxLen := rest },
    [c.access total rest, c.access 0 rest])

/-- The loop body for a client that has not finished the handshake.  The string functions
read the text and its terminator. -/
def Client.handshake (c : Client) : Client × List Access :=
  let text := c.text
  let reads := [c.access c.rxLen 1, c.access 0 (text.length + 1)]
  match strstr emptyLine text with
  | none =>
      if c.rxLen ≥ subSize c.rxCap 1 then (c.disconnect, reads)
      else ({ c with phase := .polling }, reads)
  | some lineAt =>
      match strstr keyHeader text with
      | none => (c.disconnect, reads)
      | some keyAt =>
          if keyLength (text.drop (keyAt + 18)) ≥ 128 then (c.disconnect, reads)
          else
            let rest := c.consume (lineAt + 4)
            ({ rest.1 with handshaked := true }, reads ++ rest.2)

/-! ## Frames -/

/-- What the first bytes of a frame say. -/
structure Header where
  opcode : UInt8
  masked : Bool
  headerLen : ℕ
  payloadLen : ℕ
  deriving DecidableEq, Repr

/-- The 64-bit length, byte by byte. -/
def Client.longLength (c : Client) : ℕ :=
  (List.range 8).foldl (fun len k => ((len <<< 8) % 2 ^ 64) ||| (c.rxBuf (2 + k)).toNat) 0

/-- The header at the front of the buffer, if it has arrived. -/
def Client.header (c : Client) : Option Header :=
  if c.rxLen < 2 then none
  else
    let opcode := c.rxBuf 0 &&& 0x0F
    let masked := (c.rxBuf 1 &&& 0x80) != 0
    let len7 := c.rxBuf 1 &&& 0x7F
    if len7 ≤ 125 then some ⟨opcode, masked, 2, len7.toNat⟩
    else if len7 = 126 then
      if c.rxLen < 4 then none
      else some ⟨opcode, masked, 4, ((c.rxBuf 2).toNat <<< 8) ||| (c.rxBuf 3).toNat⟩
    else if c.rxLen < 10 then none
    else some ⟨opcode, masked, 10, c.longLength⟩

/-- The accesses made to read it: the first two bytes once they are there, and the length
bytes once those are. -/
def Client.headerReads (c : Client) : List Access :=
  if c.rxLen < 2 then []
  else
    match c.header with
    | none => [c.access 0 2]
    | some h => [c.access 0 2, c.access 2 (h.headerLen - 2)]

/-- Where the payload starts. -/
def Header.dataAt (h : Header) : ℕ := h.headerLen + if h.masked then 4 else 0

/-- `total_required`, with the wrap of `size_t`. -/
def Header.totalRequired (h : Header) : ℕ := addSize h.dataAt h.payloadLen

/-- The unmasking loop. -/
def Client.unmask (h : Header) (c : Client) : Client :=
  { c with rxBuf := fun i =>
      if h.dataAt ≤ i ∧ i < h.dataAt + h.payloadLen then
        c.rxBuf i ^^^ c.rxBuf (h.headerLen + (i - h.dataAt) % 4)
      else c.rxBuf i }

/-- The accesses made to unmask a payload: copying the mask key, and the loop. -/
def Client.maskAccesses (h : Header) (c : Client) : List Access :=
  if h.masked then [c.access h.headerLen 4, c.access h.dataAt h.payloadLen] else []

/-- The terminator put behind a text payload while a callback reads it. -/
def Client.terminator (onMessage : Bool) (h : Header) (c : Client) : List Access :=
  if h.opcode = 1 ∧ onMessage = true then [c.access (h.dataAt + h.payloadLen) 1] else []

/-- The loop body for a client after the handshake.  `onMessage` is whether a message
callback is installed. -/
def Client.frame (onMessage : Bool) (c : Client) : Client × List Access :=
  match c.header with
  | none => ({ c with phase := .polling }, c.headerReads)
  | some h =>
      if c.rxLen < h.totalRequired then ({ c with phase := .polling }, c.headerReads)
      else if h.opcode = 8 then (c.disconnect, c.headerReads ++ c.maskAccesses h)
      else
        let rest := (if h.masked then c.unmask h else c).consume h.totalRequired
        (rest.1, c.headerReads ++ c.maskAccesses h ++ c.terminator onMessage h ++ rest.2)

/-- One turn of the loop of `process_client_rx`. -/
def Client.process (onMessage : Bool) (c : Client) : Client × List Access :=
  if c.handshaked then c.frame onMessage else c.handshake

/-- What can happen: the socket is readable, it hangs up or fails, the loop takes a turn. -/
inductive Action
  | receive (realloc : Bool) (bytes : List UInt8)
  | hangUp
  | process (onMessage : Bool)
  deriving DecidableEq, Repr

/-- A step and the accesses it makes. -/
def turn (c : Client) : Action → Option (Client × List Access)
  | .receive realloc bytes => if c.phase = .polling then c.receive realloc bytes else none
  | .hangUp => if c.phase = .polling then some (c.disconnect, []) else none
  | .process onMessage => if c.phase = .processing then some (c.process onMessage) else none

/-- One client, from being accepted. -/
def client : System Client Action where
  init c := ∃ malloc, c = Client.accept malloc
  next c a := (turn c a).map Prod.fst

end Zstreamer.WebSocket
