/-
# The receive loop of a client

`client_thread` of `rtsp_server.c` reads from the socket into an array, and takes requests and
interleaved frames off its front.  The array keeps what was in it: `parse_rtsp_request`
searches it with the functions of the C library, which stop at a zero byte and know nothing
of `buf_len`, and writes zero bytes into it.

A pointer into the array is what is left of it from there.  How far a search looks is part of
what is modelled.  Behind a negative `buf_len` the next read would write in front of the
array; nothing is said of what happens then.
-/

import Zstreamer.Rtsp.Connection

namespace Zstreamer.Rtsp

open Foundation

/-- `RTSP_BUF_SIZE`. -/
def rtspBufSize : ℕ := 8192

/-- The end of a line. -/
def crlf : List Byte := [0x0d, 0x0a]

/-- A search for `\r\n\r\n` looks as far as the place behind it, or as the zero byte. -/
def looked (buf : List Byte) : ℕ :=
  match strstr buf (crlf ++ crlf) with
  | some i => i + 4
  | none => (cstr buf).length + 1

/-- The value of a header, which begins behind the colon and some spaces. -/
def headerValue (line : List Byte) (colon : ℕ) : ℕ :=
  colon + 1 + ((line.drop (colon + 1)).takeWhile (· = 0x20)).length

/-- The body of the loop over the headers, for one whose end has been replaced by a zero byte.
`h` is the memory from its beginning on. -/
def parseHeader (h : List Byte) (req : Request) : List Byte × Request :=
  match strchr h 0x3a with
  | none => (h, req)
  | some colon =>
      let h := h.set colon 0
      let hv := headerValue h colon
      if SameCase (cstr h) (text "CSeq") then
        (h, { req with cseq := atoi (cstr (h.drop hv)) })
      else if SameCase (cstr h) (text "Session") then
        let h :=
          match strchr (h.drop hv) 0x3b with
          | none => h
          | some sp => h.set (hv + sp) 0
        (h, { req with sessionId := copied 32 (cstr (h.drop hv)) })
      else if SameCase (cstr h) (text "Transport") then
        (h, { req with transportHdr := copied 256 (cstr (h.drop hv)) })
      else (h, req)

/-- The loop over the headers, for so many turns at most: `left` is how far it is to the end of the
headers.  The memory from `h` on, and the fields. -/
def parseHeaders : ℕ → ℕ → List Byte → Request → List Byte × Request
  | 0, _, h, req => (h, req)
  | turns + 1, left, h, req =>
      if 0 < left then
        match strstr h crlf with
        | none => (h, req)
        | some he =>
            if he > left then (h, req)
            else
              let one := parseHeader (h.set he 0) req
              let rest := parseHeaders turns (left - (he + 2)) (one.1.drop (he + 2)) one.2
              (one.1.take (he + 2) ++ rest.1, rest.2)
      else (h, req)

/-- The receive buffer of a client. -/
structure Receiver where
  buf : List Byte
  bufLen : ℤ

/-- What `parse_rtsp_request` returns. -/
inductive Parsed
  | needMore
  | error (code : ℕ) (buf : List Byte)
  | request (r : Receiver) (req : Request)

namespace Receiver

/-- A client that has connected. -/
def fresh : Receiver := ⟨List.replicate rtspBufSize 0, 0⟩

/-- So many bytes are consumed, if there are more behind them. -/
def moveFront (buf : List Byte) (len : ℤ) (size : ℕ) : List Byte :=
  if size < len then
    (buf.drop size).take (len - size).toNat ++ buf.drop (len - size).toNat
  else buf

/-- `parse_rtsp_request`. -/
def parseRtspRequest (r : Receiver) : Parsed :=
  match strstr r.buf (crlf ++ crlf) with
  | none => .needMore
  | some eoh =>
      match strstr r.buf crlf with
      | none => .error 400 r.buf
      | some eol =>
          let buf := r.buf.set eol 0
          match strchr buf 0x20 with
          | none => .error 400 buf
          | some space1 =>
              let buf := buf.set space1 0
              match strchr (buf.drop (space1 + 1)) 0x20 with
              | none => .error 400 buf
              | some i =>
                  let space2 := space1 + 1 + i
                  let buf := buf.set space2 0
                  let method := cstr buf
                  let uri := cstr (buf.drop (space1 + 1))
                  let ver := cstr (buf.drop (space2 + 1))
                  if method = [] ∨ uri = [] ∨ ver = [] then .error 400 buf
                  else
                    let headers := parseHeaders buf.length (eoh - (eol + 2)) (buf.drop (eol + 2))
                      ⟨copied 16 method, copied 512 uri, 0, [], []⟩
                    let buf := buf.take (eol + 2) ++ headers.1
                    .request ⟨moveFront buf r.bufLen (eoh + 4), r.bufLen - (eoh + 4 : ℕ)⟩ headers.2

/-- `read` puts some bytes behind those that are there. -/
def read (r : Receiver) (chunk : List Byte) : Receiver :=
  let n := r.bufLen.toNat
  ⟨r.buf.take n ++ (chunk ++ r.buf.drop (n + chunk.length)), r.bufLen + chunk.length⟩

/-- An interleaved frame is skipped. -/
def skip (r : Receiver) (total : ℕ) : Receiver :=
  ⟨(r.buf.drop total).take (r.bufLen - total).toNat ++ r.buf.drop (r.bufLen - total).toNat,
    r.bufLen - total⟩

/-- How long the interleaved frame at the front is. -/
def frameSize (r : Receiver) : ℕ := 4 + (be16 (r.buf.getD 2 0) (r.buf.getD 3 0)).toNat

end Receiver

/-- What can be seen of a client at work. -/
inductive Observed
  /-- `parse_rtsp_request` is called with so many bytes in the buffer, and looks at so many. -/
  | parses (bufLen : ℤ) (looked : ℕ)
  /-- `buf_len` has changed. -/
  | holds (bufLen : ℤ)
  /-- `dispatch_rtsp` is called. -/
  | dispatches (req : Request)
  deriving DecidableEq, Repr

namespace Receiver

/-- The loop over the messages that are complete, for so many turns at most. -/
def process : ℕ → Receiver → Receiver × List Observed
  | 0, r => (r, [])
  | turns + 1, r =>
      if r.bufLen ≤ 0 then (r, [])
      else if r.buf.getD 0 0 = 0x24 then
        if r.bufLen < 4 then (r, [])
        else if r.bufLen < r.frameSize then (r, [])
        else
          let rest := process turns (r.skip r.frameSize)
          (rest.1, .holds (r.skip r.frameSize).bufLen :: rest.2)
      else
        let call := Observed.parses r.bufLen (looked r.buf)
        match r.parseRtspRequest with
        | .needMore => (r, [call])
        | .error _ buf => ({ r with buf }, [call])
        | .request r req =>
            let rest := process turns r
            (rest.1, call :: .holds r.bufLen :: .dispatches req :: rest.2)

/-- What a `read` and the loop behind it do.  Every turn takes some bytes. -/
def receive (r : Receiver) (chunk : List Byte) : Receiver × List Observed :=
  let r := r.read chunk
  let out := r.process r.bufLen.toNat
  (out.1, .holds r.bufLen :: out.2)

/-- `client_thread`: the results of `read` one after the other. -/
def run : List (List Byte) → Receiver → List Observed
  | [], _ => []
  | chunk :: chunks, r =>
      if r.bufLen < 0 then []
      else (r.receive chunk).2 ++ run chunks (r.receive chunk).1

/-- `read` returns some bytes, and no more than there is room for. -/
def Reads : List (List Byte) → Receiver → Prop
  | [], _ => True
  | chunk :: chunks, r =>
      0 ≤ r.bufLen → (chunk ≠ [] ∧ r.bufLen + chunk.length ≤ rtspBufSize) ∧
        Reads chunks (r.receive chunk).1

end Receiver

end Zstreamer.Rtsp
