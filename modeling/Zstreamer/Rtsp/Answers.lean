/-
# The handlers answer with well framed replies

When the reply of a handler is well framed: always, but for a PLAY whose headers do not fit in their
array, and a SETUP that asks for no transport where the client is set up for multicast.
-/

import Zstreamer.Rtsp.Framing

namespace Zstreamer.Rtsp

open Foundation List

/-- What `parse_rtsp_request` leaves of a request: the URI has no control characters, and what was
on a line has no end of a line in it. -/
structure ParsedRequest (req : Request) : Prop where
  uri : ∀ b ∈ req.uri, 0x20 ≤ b ∧ b ≠ 0x7f
  uri_length : req.uri.length ≤ 511
  session : NoBreak req.sessionId
  session_length : req.sessionId.length < 32
  transport : NoBreak req.transportHdr
  transport_length : req.transportHdr.length < 256

/-- A handler answers: it sends bytes that are well framed, and no array counts more than it has. -/
def Answered (cl : Client) (site : Site) (w : Wire) (outside : Outside) (h : Handler) : Prop :=
  ((cl.playPieces w).foldl (appendSnprintf 512) []).length ≤ 512 ∧
    ∃ bytes, cl.sent site w outside h = some bytes ∧ WellFramed bytes ∧ bytes.length ≤ 8192

/-- When it does: the headers of a PLAY fit in their array, and a SETUP of a client that is set up
for multicast has a Transport header. -/
def Answers (cl : Client) (site : Site) (w : Wire) : Handler → Prop
  | .play => cl.request.sessionId = [] ∨ (cl.playPieces w).flatten.length < 512
  | .setup => cl.bindSession site.find ≠ none → ¬ cl.NoTrack → cl.transportType = .multicast →
      cl.request.transportHdr ≠ []
  | _ => True

/-! ## Text -/

theorem ParsedRequest.uri_text {req : Request} (h : ParsedRequest req) : IsText req.uri := by
  have hchar : ∀ b : Byte, 0x20 ≤ b → b ≠ 0 ∧ b ≠ 0x0a := by
    decide +kernel
  exact fun b hb => hchar b (h.uri b hb).1

theorem IsText.take {l : List Byte} (h : IsText l) (n : ℕ) : IsText (l.take n) :=
  fun b hb => h b (mem_of_mem_take hb)

theorem cstr_of_notMem {l : List Byte} (hl : 0 ∉ l) : cstr l = l := by
  have hall := cstr_append hl []
  rwa [append_nil, show cstr [] = [] from rfl, append_nil] at hall

/-- An array that is full stays as it is. -/
theorem foldl_append_full {size : ℕ} (strs : List (List Byte)) {buf : List Byte}
    (hfull : buf.length = size) : strs.foldl (appendSnprintf size) buf = buf := by
  induction strs with
  | nil => rfl
  | cons str strs ih =>
      rw [foldl_cons, appendSnprintf, if_neg (by omega)]
      exact ih

/-- Text that is written behind each other into an array is all of it, as far as it fits. -/
theorem cstr_foldl_append {size : ℕ} (strs : List (List Byte)) {buf : List Byte} (hbuf : 0 ∉ buf)
    (hlength : buf.length < size) (hstrs : ∀ str ∈ strs, 0 ∉ str) :
    cstr (strs.foldl (appendSnprintf size) buf) = (buf ++ strs.flatten).take (size - 1) := by
  induction strs generalizing buf with
  | nil =>
      rw [foldl_nil, cstr_of_notMem hbuf, flatten_nil, append_nil,
        take_of_length_le (by omega)]
  | cons str strs ih =>
      rw [forall_mem_cons] at hstrs
      rw [foldl_cons, flatten_cons, appendSnprintf, if_pos hlength]
      by_cases hfits : buf.length + str.length < size
      · rw [if_pos hfits, ih (fun hmem => (mem_append.mp hmem).elim hbuf hstrs.1)
          (by rwa [length_append]) hstrs.2, append_assoc]
      · have hcut : (0 : Byte) ∉ buf ++ str.take (size - 1 - buf.length) := fun hmem =>
          (mem_append.mp hmem).elim hbuf fun hmem => hstrs.1 (mem_of_mem_take hmem)
        have hcount : (buf ++ str.take (size - 1 - buf.length) ++ [0]).length = size := by
          rw [length_append, length_append, length_take, length_singleton]
          omega
        have hrest : (buf ++ (str ++ strs.flatten)).take (size - 1) =
            buf ++ str.take (size - 1 - buf.length) := by
          rw [take_append, take_of_length_le (show buf.length ≤ size - 1 by omega),
            take_append_of_le_length (show size - 1 - buf.length ≤ str.length by omega)]
        rw [if_neg hfits, foldl_append_full strs hcount, cstr_zero hcut, hrest]

/-! ## The headers of a PLAY -/

/-- The header that says which part is played. -/
def rangeField : Field := ⟨text "Range", text "npt=0.000-"⟩

/-- The header that says where the streams are. -/
def rtpInfo (info : List Byte) : Field := ⟨text "RTP-Info", info⟩

theorem rangeField_sound : rangeField.Sound ∧ rangeField.name ≠ contentLength :=
  ⟨sound_of "Range" rfl (cons_ne_nil _ _) rfl (isText_text "npt=0.000-" rfl rfl).noBreak,
    ne_contentLength "Range" rfl (by decide)⟩

theorem rtpInfo_sound {info : List Byte} (h : IsText info) :
    (rtpInfo info).Sound ∧ (rtpInfo info).name ≠ contentLength :=
  ⟨sound_of "RTP-Info" rfl (cons_ne_nil _ _) rfl h.noBreak,
    ne_contentLength "RTP-Info" rfl (by decide)⟩

/-- What the headers of a PLAY are written in: some text on the streams between other headers. -/
theorem playPieces_eq (cl : Client) (w : Wire) (huri : IsText cl.request.uri) :
    ∃ infos : List (List Byte), (∀ info ∈ infos, IsText info) ∧
      cl.playPieces w = [header "Range" (text "npt=0.000-") ++ (text "RTP-Info" ++ [0x3a, 0x20])] ++
        infos ++ [crlf] := by
  have hslash : IsText (text (if cl.request.uri.getLast? = some 0x2f then "" else "/")) := by
    split
    · exact isText_text "" rfl rfl
    · exact isText_text "/" rfl rfl
  have hrest : ∀ (track : String) (st : StreamState), IsText (text track) →
      IsText (text "url=" ++ cl.request.uri ++
        text (if cl.request.uri.getLast? = some 0x2f then "" else "/") ++ text track ++
          text ";seq=" ++ hu st.seq ++ text ";rtptime=" ++ Printf.decimal st.timestamp.toNat) := by
    intro track st htrack
    exact (((((((isText_text "url=" rfl rfl).append huri).append hslash).append htrack).append
      (isText_text ";seq=" rfl rfl)).append (isText_decimal _)).append
        (isText_text ";rtptime=" rfl rfl)).append (isText_decimal _)
  have hall : ∀ {video audio : List Byte}, IsText video → IsText audio →
      ∀ info ∈ (if cl.videoSetUp then [video] else []) ++
        (if cl.audioSetUp then (if cl.videoSetUp then [text ","] else []) ++ [audio] else []),
        IsText info := by
    intro video audio hvideo haudio
    have hcomma := isText_text "," rfl rfl
    rw [forall_mem_append]
    constructor
    · split <;> simp only [forall_mem_singleton, not_mem_nil, false_imp_iff, implies_true, hvideo]
    · split
      · split <;> simp only [nil_append, cons_append, forall_mem_cons, not_mem_nil,
          false_imp_iff, implies_true, and_true, haudio, hcomma]
      · exact nofun
  refine ⟨_, hall (hrest "trackID=0" w.video (isText_text "trackID=0" rfl rfl))
    (hrest "trackID=1" w.audio (isText_text "trackID=1" rfl rfl)), ?_⟩
  rw [Client.playPieces]
  simp only [append_assoc]

/-- The headers of a PLAY end in the end of a line where they fit, and else within `RTP-Info`. -/
theorem playHeaders_spec (cl : Client) (w : Wire) (huri : IsText cl.request.uri) :
    ∃ info, IsText info ∧ (cl.playHeaders w).length ≤ 511 ∧
      if (cl.playPieces w).flatten.length < 512 then
        cl.playHeaders w = fieldBytes [rangeField, rtpInfo info]
      else cl.playHeaders w = fieldBytes [rangeField] ++ (rtpInfo info).line := by
  obtain ⟨infos, hinfos, hpieces⟩ := playPieces_eq cl w huri
  have hnotZero : ∀ {l : List Byte}, IsText l → 0 ∉ l := fun h hmem => (h 0 hmem).1 rfl
  have hhead : (0 : Byte) ∉ header "Range" (text "npt=0.000-") ++ (text "RTP-Info" ++ [0x3a, 0x20]) := by
    rw [header_eq "Range", mem_append, mem_append, mem_append]
    rintro ((hline | hend) | (hname | hcolon))
    · exact rangeField_sound.1.noBreak.1 hline
    · exact absurd hend (by decide)
    · exact not_mem_text "RTP-Info" rfl rfl hname
    · exact absurd hcolon (by decide)
  have hall : ∀ str ∈ cl.playPieces w, 0 ∉ str := by
    rw [hpieces, forall_mem_append, forall_mem_append]
    exact ⟨⟨forall_mem_singleton.mpr hhead, fun info hinfo => hnotZero (hinfos info hinfo)⟩,
      forall_mem_singleton.mpr (by decide)⟩
  have htext : IsText infos.flatten := by
    intro b hb
    obtain ⟨info, hinfo, hmem⟩ := mem_flatten.mp hb
    exact hinfos info hinfo b hmem
  have hflat : (cl.playPieces w).flatten =
      (fieldBytes [rangeField] ++ (text "RTP-Info" ++ [0x3a, 0x20])) ++ (infos.flatten ++ crlf) := by
    rw [hpieces, header_eq "Range", flatten_append, flatten_append]
    simp only [flatten_cons, flatten_nil, append_nil, append_assoc, fieldBytes,
      flatMap_cons, flatMap_nil, rangeField]
  have hlength : (fieldBytes [rangeField] ++ (text "RTP-Info" ++ [0x3a, 0x20])).length = 29 := by
    have hname : (text "Range").length = 5 := (length_text _ rfl).trans rfl
    have hvalue : (text "npt=0.000-").length = 10 := (length_text _ rfl).trans rfl
    have hinfo : (text "RTP-Info").length = 8 := (length_text _ rfl).trans rfl
    simp only [fieldBytes, rangeField, Field.line, flatMap_cons, flatMap_nil, length_append,
      length_cons, length_nil, hname, hvalue, hinfo]
    rfl
  have hheaders : cl.playHeaders w = (cl.playPieces w).flatten.take 511 := by
    rw [Client.playHeaders, cstr_foldl_append _ not_mem_nil (by decide) hall]
    rfl
  have hshort : (cl.playHeaders w).length ≤ 511 := by
    rw [hheaders]
    exact length_take_le _ _
  by_cases hfits : (cl.playPieces w).flatten.length < 512
  · refine ⟨infos.flatten, htext, hshort, ?_⟩
    rw [if_pos hfits, hheaders, take_of_length_le (by omega), hflat]
    simp only [fieldBytes, rtpInfo, Field.line, flatMap_cons, flatMap_nil, append_nil,
      append_assoc, cons_append, nil_append]
  · refine ⟨(infos.flatten ++ [0x0d]).take 482,
      (htext.append (show IsText [0x0d] by decide)).take 482, hshort, ?_⟩
    have hlong : 482 ≤ (infos.flatten ++ [0x0d]).length := by
      rw [hflat, length_append, hlength, length_append] at hfits
      rw [length_append, length_singleton]
      have hend : crlf.length = 2 := rfl
      omega
    have hsplit : infos.flatten ++ crlf = (infos.flatten ++ [0x0d]) ++ [0x0a] := by
      rw [append_assoc]
      rfl
    rw [if_neg hfits, hheaders, hflat, take_append, hlength,
      take_of_length_le (show _ ≤ 511 by omega), hsplit, take_append_of_le_length hlong,
      rtpInfo, Field.line]
    simp only [append_assoc, cons_append, nil_append]

/-! ## The header of a SETUP -/

theorem isText_hexId (x : BitVec 32) : IsText (Client.hexId x) ∧ (Client.hexId x).length = 8 := by
  have hdigit : ∀ n < 16, BitVec.ofNat 8 (if n < 10 then 0x30 + n else 0x57 + n) ≠ (0 : Byte) ∧
      BitVec.ofNat 8 (if n < 10 then 0x30 + n else 0x57 + n) ≠ (0x0a : Byte) := by
    decide
  refine ⟨fun b hb => ?_, by rw [Client.hexId, length_map, length_range]⟩
  obtain ⟨i, -, rfl⟩ := mem_map.mp hb
  exact hdigit _ (Nat.mod_lt _ (by decide))

/-- A group that has been found is a part of the header, and has a place. -/
theorem parseMulticast_destination {hdr : List Byte} (h : NoBreak hdr) :
    NoBreak (Client.parseMulticast hdr).destination ∧
      (Client.parseMulticast hdr).destination.length ≤ 63 := by
  have hstep : ∀ (m : Client.Multicast) (tok : List Byte), NoBreak tok →
      (NoBreak m.destination ∧ m.destination.length ≤ 63) →
      NoBreak (Client.parseMulticastToken m tok).destination ∧
        (Client.parseMulticastToken m tok).destination.length ≤ 63 := by
    intro m tok htok hm
    have hpart : (((tok.dropWhile (· = 0x20)).drop 12).take 63) <:+: tok :=
      (List.take_prefix _ _).isInfix.trans
        (((drop_suffix _ _).trans (dropWhile_suffix _)).isInfix)
    rw [Client.parseMulticastToken]
    split
    · split <;> exact hm
    · split
      · exact ⟨htok.part hpart, length_take_le _ _⟩
      · exact hm
  have hrun : ∀ (toks : List (List Byte)) (m : Client.Multicast), (∀ tok ∈ toks, NoBreak tok) →
      (NoBreak m.destination ∧ m.destination.length ≤ 63) →
      NoBreak (toks.foldl Client.parseMulticastToken m).destination ∧
        (toks.foldl Client.parseMulticastToken m).destination.length ≤ 63 := by
    intro toks
    induction toks with
    | nil => exact fun _ _ hm => hm
    | cons tok toks ih =>
        intro m htoks hm
        rw [forall_mem_cons] at htoks
        exact ih _ htoks.2 (hstep m tok htoks.1 hm)
  exact hrun _ _ (fun tok htok => h.part (infix_of_mem_splitOnP htok))
    ⟨noBreak_of_notMem not_mem_nil not_mem_nil, Nat.zero_le _⟩

/-- The value of a Transport header is on one line, and has a place. -/
theorem transportValue_spec (cl : Client) (w : Wire) (asked : Transport) (audio : Bool)
    (h : NoBreak cl.request.transportHdr) :
    NoBreak (cl.transportValue w asked audio) ∧ (cl.transportValue w asked audio).length ≤ 200 := by
  have hport : ∀ x : BitVec 16, IsText (hu x) ∧ (hu x).length ≤ 10 := fun x =>
    ⟨isText_decimal _, Printf.length_decimal (show x.toNat < 2 ^ 32 by omega)⟩
  have hdash : IsText (text "-") ∧ (text "-").length = 1 :=
    ⟨isText_text "-" rfl rfl, (length_text _ rfl).trans rfl⟩
  have hnumber : ∀ x : BitVec 32, IsText (d x) ∧ (d x).length ≤ 11 := fun x =>
    ⟨isText_int x, Printf.length_int x⟩
  rw [Client.transportValue]
  dsimp only
  split
  case h_1 =>
    have hname : IsText (text "RTP/AVP/UDP;unicast;client_port=") ∧
        (text "RTP/AVP/UDP;unicast;client_port=").length = 32 :=
      ⟨isText_text _ rfl rfl, (length_text _ rfl).trans rfl⟩
    have hserver : IsText (text ";server_port=") ∧ (text ";server_port=").length = 13 :=
      ⟨isText_text _ rfl rfl, (length_text _ rfl).trans rfl⟩
    generalize (if audio = true then w.audio else w.video) = st
    obtain ⟨h₁, h₁'⟩ := hport st.clientRtpPort
    obtain ⟨h₂, h₂'⟩ := hport st.clientRtcpPort
    obtain ⟨h₃, h₃'⟩ := hport st.serverRtpPort
    obtain ⟨h₄, h₄'⟩ := hport st.serverRtcpPort
    refine ⟨(((((((hname.1.append h₁).append hdash.1).append h₂).append hserver.1).append h₃).append
      hdash.1).append h₄).noBreak, ?_⟩
    simp only [length_append, hname.2, hserver.2, hdash.2]
    omega
  case h_2 =>
    have hname : IsText (text "RTP/AVP;multicast;destination=") ∧
        (text "RTP/AVP;multicast;destination=").length = 30 :=
      ⟨isText_text _ rfl rfl, (length_text _ rfl).trans rfl⟩
    have hp : IsText (text ";port=") ∧ (text ";port=").length = 6 :=
      ⟨isText_text _ rfl rfl, (length_text _ rfl).trans rfl⟩
    have ht : IsText (text ";ttl=") ∧ (text ";ttl=").length = 5 :=
      ⟨isText_text _ rfl rfl, (length_text _ rfl).trans rfl⟩
    obtain ⟨hfound, hlength⟩ := parseMulticast_destination h
    have hgroup : NoBreak (if (Client.parseMulticast cl.request.transportHdr).destination = [] then
          w.multicastAddress else (Client.parseMulticast cl.request.transportHdr).destination) ∧
        (if (Client.parseMulticast cl.request.transportHdr).destination = [] then
          w.multicastAddress else (Client.parseMulticast cl.request.transportHdr).destination).length ≤
            63 := by
      split
      · exact ⟨(isText_of_oneLine w.multicastAddress_line).noBreak,
          Nat.le_of_lt_succ w.multicastAddress_length⟩
      · exact ⟨hfound, hlength⟩
    generalize (if audio = true then w.audio else w.video) = st
    generalize (if (Client.parseMulticast cl.request.transportHdr).destination = [] then
      w.multicastAddress else (Client.parseMulticast cl.request.transportHdr).destination) = group at hgroup ⊢
    generalize (if 0 < (Client.parseMulticast cl.request.transportHdr).ttl.toInt then
      (Client.parseMulticast cl.request.transportHdr).ttl else w.multicastTtl) = ttl
    obtain ⟨h₁, h₁'⟩ := hport st.serverRtpPort
    obtain ⟨h₂, h₂'⟩ := hport st.serverRtcpPort
    obtain ⟨h₃, h₃'⟩ := hnumber ttl
    have hback : IsText (text ";port=" ++ (hu st.serverRtpPort ++ (text "-" ++
        (hu st.serverRtcpPort ++ (text ";ttl=" ++ d ttl))))) :=
      hp.1.append (h₁.append (hdash.1.append (h₂.append (ht.1.append h₃))))
    have hfront : NoBreak (text "RTP/AVP;multicast;destination=" ++ group) :=
      hname.1.noBreak.append hgroup.1 (.inl fun hcr =>
        not_mem_text "RTP/AVP;multicast;destination=" rfl rfl (mem_of_getLast? hcr))
    constructor
    · have hall := hfront.append hback.noBreak (.inr fun hlf =>
        (hback _ (mem_of_mem_head? hlf)).2 rfl)
      simp only [append_assoc] at hall ⊢
      exact hall
    · simp only [length_append, hname.2, hp.2, ht.2, hdash.2]
      omega
  case h_3 =>
    have hname : IsText (text "RTP/AVP/TCP;interleaved=") ∧
        (text "RTP/AVP/TCP;interleaved=").length = 24 :=
      ⟨isText_text _ rfl rfl, (length_text _ rfl).trans rfl⟩
    refine ⟨(((hname.1.append (hnumber _).1).append hdash.1).append (hnumber _).1).noBreak, ?_⟩
    have h₁ := fun x => (hnumber x).2
    simp only [length_append, hname.2, hdash.2]
    exact Nat.add_le_add (Nat.add_le_add (Nat.add_le_add (Nat.le_refl 24) (h₁ _)) (Nat.le_refl 1))
      (h₁ _) |>.trans (by decide)

/-- A first SETUP leaves the header that it has read, and has an identifier. -/
theorem establish_spec (cl : Client) (random : BitVec 32) (wanted : Transport) (hasTransport : Bool) :
    (cl.establish random wanted hasTransport).request =
        { cl.request with sessionId := Client.hexId random } ∧
      (wanted.transportType = .tcp → (cl.establish random wanted hasTransport).transportType = .tcp) := by
  rw [Client.establish]
  dsimp only
  split
  case h_1 htype => exact ⟨rfl, fun h => absurd (h.symm.trans htype) (by decide)⟩
  case h_2 => exact ⟨rfl, fun _ => rfl⟩
  case h_3 htype =>
    refine ⟨?_, fun h => absurd (h.symm.trans htype) (by decide)⟩
    split
    · split <;> rfl
    · rfl

/-- The same of a SETUP that may be the first one. -/
theorem firstSetup_spec (cl : Client) (random : BitVec 32) (wanted : Transport)
    (hwanted : cl.request.transportHdr = [] → wanted.transportType = .tcp) :
    ((cl.firstSetup random wanted).request.sessionId = cl.request.sessionId ∨
        (cl.firstSetup random wanted).request.sessionId = Client.hexId random) ∧
      (cl.firstSetup random wanted).request.transportHdr = cl.request.transportHdr ∧
      (cl.request.transportHdr = [] → ((cl.firstSetup random wanted).transportType = .multicast ↔
        ¬ cl.NoTrack ∧ cl.transportType = .multicast)) := by
  rw [Client.firstSetup]
  split
  case isTrue hnone =>
    obtain ⟨hrequest, htcp⟩ := establish_spec cl random wanted (cl.request.transportHdr ≠ [])
    rw [hrequest]
    refine ⟨.inr rfl, rfl, fun hhdr => ?_⟩
    rw [htcp (hwanted hhdr)]
    exact ⟨fun hmulticast => (by cases hmulticast), fun h => absurd hnone h.1⟩
  case isFalse hsome => exact ⟨.inl rfl, rfl, fun _ => ⟨fun h => ⟨hsome, h⟩, And.right⟩⟩

/-- What a SETUP with a mount point replies, and leaves in the client. -/
theorem onSetup_spec (cl : Client) (site : Site) (forceTcp : Bool) (outside : Outside) {i : ℕ}
    (hbind : cl.bindSession site.find = some i) :
    let out := cl.onSetup site.slots site.find parseTransportHeader forceTcp outside
    (out.2.code = 200 ∨ out.2.code = 500) ∧
      (out.2.session = cl.request.sessionId ∨ out.2.session = Client.hexId outside.random) ∧
      out.1.request.transportHdr = cl.request.transportHdr ∧
      (cl.request.transportHdr = [] → (out.1.transportType = .multicast ↔
        ¬ cl.NoTrack ∧ cl.transportType = .multicast)) := by
  have hwanted : cl.request.transportHdr = [] →
      (cl.wantedTransport parseTransportHeader forceTcp).transportType = .tcp := by
    intro hhdr
    rw [Client.wantedTransport, if_pos hhdr]
    split <;> rfl
  rw [Client.onSetup, hbind]
  refine ⟨?_, firstSetup_spec { cl with session := some i } outside.random _ hwanted⟩
  dsimp only [Client.reply]
  split
  · exact .inr rfl
  · exact .inl rfl

/-! ## The replies -/

/-- A reply without headers of its own is well framed. -/
theorem sendReply_plain (w : Wire) (cseq : BitVec 32) {reply : Reply} (hcode : reply.code < 1000)
    (hsession : NoBreak reply.session ∧ reply.session.length < 32) :
    WellFramed (sendReply w cseq reply [] []) ∧ (sendReply w cseq reply [] []).length ≤ 8192 :=
  @sendReply_wellFramed w cseq reply [] [] hcode hsession.2 hsession.1 nofun (by decide) (Nat.zero_le _)

/-- A reply with one header of its own is well framed. -/
theorem sendReply_field (w : Wire) (cseq : BitVec 32) {reply : Reply} (hcode : reply.code < 1000)
    (hsession : NoBreak reply.session ∧ reply.session.length < 32) {f : Field}
    (hf : f.Sound ∧ f.name ≠ contentLength) (hlength : (f.line ++ crlf).length < 1200) :
    WellFramed (sendReply w cseq reply (f.line ++ crlf) []) ∧
      (sendReply w cseq reply (f.line ++ crlf) []).length ≤ 8192 := by
  have hall := @sendReply_wellFramed w cseq reply [f] [] hcode hsession.2 hsession.1
    (forall_mem_singleton.mpr hf)
  rw [show fieldBytes [f] = f.line ++ crlf from append_nil _] at hall
  exact hall hlength (Nat.zero_le _)

/-- The headers of a description. -/
theorem describeHeaders_spec (cl : Client) (w : Wire) (huri : IsText cl.request.uri) :
    ∃ base, IsText base ∧ base.length ≤ 1023 ∧
      cl.describeHeaders w = fieldBytes
        [⟨text "Content-Type", text "application/sdp"⟩, ⟨text "Content-Base", base⟩] := by
  have hslash : IsText (text "/") := isText_text "/" rfl rfl
  have hbase : IsText (cl.baseUrl w) := by
    rw [Client.baseUrl]
    dsimp only [snprintf]
    split
    · refine IsText.take ?_ _
      split
      · exact huri
      · exact huri.append hslash
    · refine IsText.take ?_ _
      exact (((((isText_text "rtsp://" rfl rfl).append (isText_of_oneLine w.localIp_line)).append
        (isText_text ":" rfl rfl)).append (isText_decimal _)).append hslash).append
          (fun b hb => huri b ((dropWhile_suffix _).subset hb)) |>.append hslash
  have hlength : (cl.baseUrl w).length ≤ 1023 := by
    rw [Client.baseUrl]
    dsimp only [snprintf]
    split <;> exact length_take_le _ _
  have h₁ : (text "Content-Type").length = 12 := (length_text _ rfl).trans rfl
  have h₂ : (text "application/sdp").length = 15 := (length_text _ rfl).trans rfl
  have h₃ : (text "Content-Base").length = 12 := (length_text _ rfl).trans rfl
  refine ⟨cl.baseUrl w, hbase, hlength, ?_⟩
  rw [Client.describeHeaders, snprintf, take_of_length_le, header_eq "Content-Type",
    header_eq "Content-Base"]
  · simp only [fieldBytes, flatMap_cons, flatMap_nil, append_nil]
  · rw [length_append, length_header, length_header]
    omega

/-! ## The handlers -/

variable {cl : Client} {site : Site} {w : Wire} {outside : Outside}

/-- Handlers that send a well framed reply answer. -/
theorem answered_of {h : Handler} {bytes : List Byte} (hsent : cl.sent site w outside h = some bytes)
    (hframed : WellFramed bytes ∧ bytes.length ≤ 8192) : Answered cl site w outside h :=
  ⟨length_foldl_append_le _ (Nat.zero_le _), bytes, hsent, hframed⟩

theorem answered_options (hreq : ParsedRequest cl.request) : Answered cl site w outside .options := by
  refine answered_of rfl ?_
  have hvalue : IsText (text "DESCRIBE, SETUP, TEARDOWN, PLAY, PAUSE, OPTIONS") := isText_text _ rfl rfl
  rw [header_eq "Public"]
  refine sendReply_field w _ (show 200 < 1000 by decide) ⟨hreq.session, hreq.session_length⟩
    ⟨sound_of "Public" rfl (cons_ne_nil _ _) rfl hvalue.noBreak,
      ne_contentLength "Public" rfl (by decide)⟩ ?_
  rw [← header_eq, length_header, (length_text "Public" rfl).trans rfl,
    (length_text "DESCRIBE, SETUP, TEARDOWN, PLAY, PAUSE, OPTIONS" rfl).trans rfl]
  decide

theorem answered_describe (hreq : ParsedRequest cl.request) :
    Answered cl site w outside .describe := by
  have hsession : NoBreak cl.request.sessionId ∧ cl.request.sessionId.length < 32 :=
    ⟨hreq.session, hreq.session_length⟩
  obtain ⟨base, hbase, hlength, hheaders⟩ := describeHeaders_spec cl w hreq.uri_text
  have hdescribed : ∀ i, WellFramed (sendReply w cl.request.cseq ⟨200, cl.request.sessionId⟩
        (cl.describeHeaders w) (makeSdp w.now (site.slots i) (w.media i))) ∧
      (sendReply w cl.request.cseq ⟨200, cl.request.sessionId⟩ (cl.describeHeaders w)
        (makeSdp w.now (site.slots i) (w.media i))).length ≤ 8192 := by
    intro i
    rw [hheaders]
    refine sendReply_wellFramed w _ (show 200 < 1000 by decide) hsession.2 hsession.1 ?_ ?_
      (length_foldl_append_le _ (Nat.zero_le _))
    · rw [forall_mem_cons, forall_mem_singleton]
      have htype : IsText (text "application/sdp") := isText_text _ rfl rfl
      exact ⟨⟨sound_of "Content-Type" rfl (cons_ne_nil _ _) rfl htype.noBreak,
          ne_contentLength "Content-Type" rfl (by decide)⟩,
        ⟨sound_of "Content-Base" rfl (cons_ne_nil _ _) rfl hbase.noBreak,
          ne_contentLength "Content-Base" rfl (by decide)⟩⟩
    · have h₁ : (text "Content-Type").length = 12 := (length_text _ rfl).trans rfl
      have h₂ : (text "application/sdp").length = 15 := (length_text _ rfl).trans rfl
      have h₃ : (text "Content-Base").length = 12 := (length_text _ rfl).trans rfl
      simp only [fieldBytes, Field.line, flatMap_cons, flatMap_nil, length_append,
        length_cons, length_nil, h₁, h₂, h₃]
      have hend : crlf.length = 2 := rfl
      omega
  have hmissing := @sendReply_plain w cl.request.cseq ⟨404, cl.request.sessionId⟩
    (show 404 < 1000 by decide) hsession
  obtain ⟨bytes, hsent, hframed⟩ : ∃ bytes, cl.sent site w outside .describe = some bytes ∧
      WellFramed bytes ∧ bytes.length ≤ 8192 := by
    rw [Client.sent, Client.onDescribe]
    cases extractMountClean cl.request.uri with
    | none => exact ⟨_, rfl, hmissing⟩
    | some mount =>
        dsimp only
        cases site.find mount with
        | none => exact ⟨_, rfl, hmissing⟩
        | some i => exact ⟨_, rfl, hdescribed i⟩
  exact answered_of hsent hframed

theorem answered_play_iff (hreq : ParsedRequest cl.request) :
    Answered cl site w outside .play ↔ Answers cl site w .play := by
  have hsession : NoBreak cl.request.sessionId ∧ cl.request.sessionId.length < 32 :=
    ⟨hreq.session, hreq.session_length⟩
  by_cases hnone : cl.request.sessionId = []
  · have hsent : cl.sent site w outside .play =
        some (sendReply w cl.request.cseq ⟨454, cl.request.sessionId⟩ [] []) := by
      rw [Client.sent, Client.onPlay, if_pos hnone]
      rfl
    exact iff_of_true (answered_of hsent (sendReply_plain w _ (show 454 < 1000 by decide) hsession)) (.inl hnone)
  · have hsent : cl.sent site w outside .play =
        some (sendReply w cl.request.cseq ⟨200, cl.request.sessionId⟩ (cl.playHeaders w) []) := by
      rw [Client.sent, Client.onPlay, if_neg hnone]
      rfl
    obtain ⟨info, hinfo, hshort, hheaders⟩ := playHeaders_spec cl w hreq.uri_text
    by_cases hfits : (cl.playPieces w).flatten.length < 512
    · rw [if_pos hfits] at hheaders
      refine iff_of_true (answered_of hsent ?_) (.inr hfits)
      rw [hheaders] at hshort ⊢
      refine sendReply_wellFramed w _ (show 200 < 1000 by decide) hsession.2 hsession.1 ?_
        (lt_of_le_of_lt hshort (by decide)) (Nat.zero_le _)
      rw [forall_mem_cons, forall_mem_singleton]
      exact ⟨rangeField_sound, rtpInfo_sound hinfo⟩
    · rw [if_neg hfits] at hheaders
      refine iff_of_false (fun hans => ?_) (fun h => h.elim hnone hfits)
      obtain ⟨-, bytes, hbytes, hframed, -⟩ := hans
      obtain rfl := Option.some.inj (hsent.symm.trans hbytes)
      rw [hheaders] at hframed hshort
      exact sendReply_not_wellFramed w _ (show 200 < 1000 by decide) hsession.2 hsession.1
        (forall_mem_singleton.mpr rangeField_sound) (rtpInfo_sound hinfo) hinfo
        (lt_of_le_of_lt hshort (by decide)) hframed

theorem answered_setup_iff (hreq : ParsedRequest cl.request) :
    Answered cl site w outside .setup ↔ Answers cl site w .setup := by
  have hsession : NoBreak cl.request.sessionId ∧ cl.request.sessionId.length < 32 :=
    ⟨hreq.session, hreq.session_length⟩
  cases hbind : cl.bindSession site.find with
  | none =>
      have hsent : cl.sent site w outside .setup =
          some (sendReply w cl.request.cseq ⟨454, cl.request.sessionId⟩ [] []) := by
        rw [Client.sent, Client.onSetup, hbind]
        rfl
      refine iff_of_true (answered_of hsent (sendReply_plain w _ (show 454 < 1000 by decide) hsession)) ?_
      exact fun h => absurd hbind h
  | some i =>
      obtain ⟨hcode, hid, hhdr, hmulticast⟩ := onSetup_spec cl site w.forceTcp outside hbind
      have hidentifier : NoBreak (cl.onSetup site.slots site.find parseTransportHeader w.forceTcp
            outside).2.session ∧
          (cl.onSetup site.slots site.find parseTransportHeader w.forceTcp outside).2.session.length <
            32 := by
        rcases hid with hid | hid
        · exact hid ▸ hsession
        · obtain ⟨htext, hlength⟩ := isText_hexId outside.random
          exact hid ▸ ⟨htext.noBreak, by omega⟩
      have hbound : cl.bindSession site.find ≠ none := by
        rw [hbind]
        exact Option.some_ne_none i
      by_cases hunread : (cl.onSetup site.slots site.find parseTransportHeader w.forceTcp
          outside).1.transportType = .multicast ∧ cl.request.transportHdr = []
      · have hsent : cl.sent site w outside .setup = none := by
          rw [Client.sent, hbind]
          exact if_pos hunread
        refine iff_of_false (fun hans => ?_) (fun h => ?_)
        · obtain ⟨-, bytes, hbytes, -⟩ := hans
          rw [hsent] at hbytes
          cases hbytes
        · obtain ⟨htrack, htype⟩ := (hmulticast hunread.2).mp hunread.1
          exact h hbound htrack htype hunread.2
      have hasked : Answers cl site w .setup := fun _ htrack htype hhdr =>
        hunread ⟨(hmulticast hhdr).mpr ⟨htrack, htype⟩, hhdr⟩
      · rcases hcode with hcode | hcode
        · have hsent : cl.sent site w outside .setup = some (sendReply w cl.request.cseq
              (cl.onSetup site.slots site.find parseTransportHeader w.forceTcp outside).2
              (snprintf 256 (header "Transport" ((cl.onSetup site.slots site.find parseTransportHeader
                w.forceTcp outside).1.transportValue w
                  (if cl.request.transportHdr = [] then .default
                    else parseTransportHeader cl.request.transportHdr)
                  (Client.wantedTrack cl.request.uri (site.slots i)).2))) []) := by
            rw [Client.sent, hbind]
            exact (if_neg hunread).trans (if_pos hcode)
          have htransport : NoBreak (cl.onSetup site.slots site.find parseTransportHeader w.forceTcp
              outside).1.request.transportHdr := hhdr ▸ hreq.transport
          obtain ⟨hvalue, hlength⟩ := transportValue_spec (cl.onSetup site.slots site.find
              parseTransportHeader w.forceTcp outside).1 w
            (if cl.request.transportHdr = [] then .default
              else parseTransportHeader cl.request.transportHdr)
            (Client.wantedTrack cl.request.uri (site.slots i)).2 htransport
          generalize (cl.onSetup site.slots site.find parseTransportHeader w.forceTcp
            outside).1.transportValue w _ _ = value at hsent hvalue hlength
          have hname : (text "Transport").length = 9 := (length_text _ rfl).trans rfl
          have hfits : (header "Transport" value).length ≤ 255 := by
            rw [length_header, hname]
            omega
          rw [snprintf, take_of_length_le hfits, header_eq "Transport"] at hsent
          rw [header_eq "Transport"] at hfits
          refine iff_of_true (answered_of hsent (sendReply_field w _ ?_ hidentifier
            ⟨sound_of "Transport" rfl (cons_ne_nil _ _) rfl hvalue,
              ne_contentLength "Transport" rfl (by decide)⟩
            (lt_of_le_of_lt hfits (by decide)))) hasked
          rw [hcode]
          decide
        · have hsent : cl.sent site w outside .setup = some (sendReply w cl.request.cseq
              (cl.onSetup site.slots site.find parseTransportHeader w.forceTcp outside).2 [] []) := by
            rw [Client.sent, hbind]
            exact (if_neg hunread).trans (if_neg fun hok => absurd (hcode.symm.trans hok) (by decide))
          refine iff_of_true (answered_of hsent (sendReply_plain w _ ?_ hidentifier)) hasked
          rw [hcode]
          decide

/-- **When the handlers answer**: a PLAY where its headers fit, a SETUP where the address that it
replies with has been written, and all others always. -/
theorem answered_iff (hreq : ParsedRequest cl.request) (h : Handler) :
    Answered cl site w outside h ↔ Answers cl site w h := by
  have hsession : NoBreak cl.request.sessionId ∧ cl.request.sessionId.length < 32 :=
    ⟨hreq.session, hreq.session_length⟩
  cases h with
  | options => exact iff_of_true (answered_options hreq) trivial
  | describe => exact iff_of_true (answered_describe hreq) trivial
  | setup => exact answered_setup_iff hreq
  | play => exact answered_play_iff hreq
  | pause =>
      have hcode : cl.onPause.2.code < 1000 ∧ cl.onPause.2.session = cl.request.sessionId := by
        rw [Client.onPause]
        split
        · exact ⟨show 454 < 1000 by decide, rfl⟩
        · exact ⟨show 200 < 1000 by decide, rfl⟩
      refine iff_of_true (answered_of rfl (sendReply_plain w _ hcode.1 ?_)) trivial
      exact hcode.2 ▸ hsession
  | teardown =>
      exact iff_of_true (answered_of rfl (sendReply_plain w _ (show 200 < 1000 by decide) hsession)) trivial

/-- The URI is printed once for each track. -/
theorem length_playPieces_ge (cl : Client) (w : Wire) (hvideo : cl.videoSetUp = true)
    (haudio : cl.audioSetUp = true) : 2 * cl.request.uri.length ≤ (cl.playPieces w).flatten.length := by
  rw [Client.playPieces, if_pos hvideo, if_pos hvideo, if_pos haudio]
  simp only [flatten_append, flatten_cons, flatten_nil, length_append, length_nil]
  omega

/-- A client that has both tracks set up, of a session with a long URI. -/
def Client.longUri : Client :=
  { Client.connected with
    request := ⟨text "PLAY", replicate 300 0x61, 3, [0x31], []⟩
    videoSetUp := true
    audioSetUp := true
    session := some 0 }

theorem Client.longUri_parsed : ParsedRequest Client.longUri.request where
  uri b hb := by
    obtain rfl := eq_of_mem_replicate hb
    decide
  uri_length := by
    rw [show Client.longUri.request.uri = replicate 300 0x61 from rfl, length_replicate]
    decide
  session := noBreak_of_notMem (l := [0x31]) (by decide) (by decide)
  session_length := show 1 < 32 by decide
  transport := noBreak_of_notMem not_mem_nil not_mem_nil
  transport_length := show 0 < 256 by decide

/-- A server on this machine. -/
def Wire.here : Wire where
  date := text "Thu, 01 Jan 1970 00:00:00 GMT"
  date_line := ⟨not_mem_text _ rfl rfl, not_mem_text _ rfl rfl, not_mem_text _ rfl rfl⟩
  date_length := (length_text _ rfl).trans_lt (by decide)
  now := 2208988800
  localIp := text "127.0.0.1"
  localIp_line := ⟨not_mem_text _ rfl rfl, not_mem_text _ rfl rfl, not_mem_text _ rfl rfl⟩
  localIp_length := (length_text _ rfl).trans_lt (by decide)
  localPort := 8554
  multicastAddress := text "239.255.0.1"
  multicastAddress_line := ⟨not_mem_text _ rfl rfl, not_mem_text _ rfl rfl, not_mem_text _ rfl rfl⟩
  multicastAddress_length := (length_text _ rfl).trans_lt (by decide)
  multicastTtl := 1
  forceTcp := false
  media _ := ⟨true, none, 44100, 2⟩
  video := ⟨0, 0, 0, 0, 0, 0⟩
  audio := ⟨0, 0, 0, 0, 0, 0⟩

/-- A server with one mount point. -/
def Site.one : Site := ⟨fun _ => ⟨text "live", true, true⟩, fun _ => some 0⟩

/-- That client is described what there is. -/
theorem answered_iff_describe :
    Answered Client.longUri Site.one Wire.here ⟨0, true⟩ .describe :=
  (answered_iff Client.longUri_parsed .describe).mpr trivial

/-- Its PLAY is not answered: the line of `RTP-Info` is cut off, and has the length in it. -/
theorem long_play_unanswered : ParsedRequest Client.longUri.request ∧
    ¬ Answered Client.longUri Site.one Wire.here ⟨0, true⟩ .play := by
  refine ⟨Client.longUri_parsed, fun hans => ?_⟩
  have hlong := length_playPieces_ge Client.longUri Wire.here rfl rfl
  rw [show Client.longUri.request.uri = replicate 300 0x61 from rfl, length_replicate] at hlong
  rcases (answered_play_iff Client.longUri_parsed).mp hans with hnone | hfits
  · exact absurd hnone (cons_ne_nil _ _)
  · omega

end Zstreamer.Rtsp
