/-
# The identifier of an RTSP session

The first SETUP of a client makes an identifier and sends it in its reply.  The field that it
is in is also where the parser puts the `Session` header of every request, and PLAY and PAUSE
ask only whether that header is there.  So the server does what the identifier is for exactly
as long as the client never sends any other one.
-/

import Zstreamer.Rtsp.Connection

namespace Zstreamer.Rtsp

open Foundation

/-- A request, and what there is around the client when it comes. -/
structure Ask where
  request : Request
  slots : ℕ → Mount
  find : List Byte → Option ℕ
  parse : List Byte → Transport
  forceTcp : Bool
  outside : Outside

/-- A request that was answered. -/
structure Exchange where
  before : Client
  request : Request
  reply : Reply
  after : Client

/-- A request is parsed and dispatched. -/
def Client.exchange (cl : Client) (ask : Ask) : Exchange :=
  let answer := { cl with request := ask.request }.dispatch ask.slots ask.find ask.parse
    ask.forceTcp ask.outside
  ⟨cl, ask.request, answer.2, answer.1⟩

/-- The requests of a connection, one after the other. -/
def exchanges : List Ask → Client → List Exchange
  | [], _ => []
  | ask :: asks, cl => cl.exchange ask :: exchanges asks (cl.exchange ask).after

namespace Exchange

/-- It is a request of this method. -/
def Is (e : Exchange) (method : String) : Prop := SameCase e.request.method (text method)

instance (e : Exchange) (method : String) : Decidable (e.Is method) :=
  inferInstanceAs (Decidable (SameCase _ _))

/-- A SETUP that is answered with 200, has set up a track and has an identifier in its reply. -/
def Issues (e : Exchange) : Prop :=
  e.Is "SETUP" ∧ e.reply.code = 200 ∧ e.reply.session ≠ [] ∧
    ((e.before.videoSetUp = false ∧ e.after.videoSetUp = true) ∨
      (e.before.audioSetUp = false ∧ e.after.audioSetUp = true))

instance (e : Exchange) : Decidable e.Issues := inferInstanceAs (Decidable (_ ∧ _))

/-- The request has the identifier that some SETUP before it has sent. -/
def Knows (history : List Exchange) (e : Exchange) : Prop :=
  ∃ setup ∈ history, setup.Issues ∧ setup.reply.session = e.request.sessionId

/-- What the identifier is for: only a PLAY that knows it starts to play; a PLAY or PAUSE that does
not is answered with 454 and changes nothing; and no other identifier is in a later reply. -/
structure Right (history : List Exchange) (e : Exchange) : Prop where
  starts : e.after.playState = .playing → e.before.playState ≠ .playing →
    e.Is "PLAY" ∧ e.Knows history
  refused : (e.Is "PLAY" ∨ e.Is "PAUSE") → ¬ e.Knows history →
    e.reply.code = 454 ∧ e.after.playState = e.before.playState
  same : ∀ setup ∈ history, setup.Issues →
    e.reply.session = [] ∨ e.reply.session = setup.reply.session

/-- The client does not make up an identifier: a PLAY or PAUSE with a `Session` header knows the
identifier, and behind the SETUP that has sent it no request has another one. -/
structure Honest (history : List Exchange) (e : Exchange) : Prop where
  knows : (e.Is "PLAY" ∨ e.Is "PAUSE") → e.request.sessionId ≠ [] → e.Knows history
  same : ∀ setup ∈ history, setup.Issues →
    e.request.sessionId = [] ∨ e.request.sessionId = setup.reply.session

end Exchange

/-! ## What the handlers do -/

theorem not_sameCase {method : List Byte} {s t : String} (h : SameCase method (text s))
    (hne : (text s).map lower ≠ (text t).map lower) : ¬ SameCase method (text t) :=
  fun h' => hne (h.symm.trans h')

namespace Client

variable {cl : Client} {slots : ℕ → Mount} {find : List Byte → Option ℕ}
  {parse : List Byte → Transport} {forceTcp : Bool} {outside : Outside}

theorem dispatch_setup (h : SameCase cl.request.method (text "SETUP")) :
    cl.dispatch slots find parse forceTcp outside = cl.onSetup slots find parse forceTcp outside := by
  rw [dispatch, if_neg (not_sameCase h (by decide)), if_neg (not_sameCase h (by decide)), if_pos h]

theorem dispatch_play (h : SameCase cl.request.method (text "PLAY")) :
    cl.dispatch slots find parse forceTcp outside = cl.onPlay := by
  rw [dispatch, if_neg (not_sameCase h (by decide)), if_neg (not_sameCase h (by decide)),
    if_neg (not_sameCase h (by decide)), if_pos h]

theorem dispatch_pause (h : SameCase cl.request.method (text "PAUSE")) :
    cl.dispatch slots find parse forceTcp outside = cl.onPause := by
  rw [dispatch, if_neg (not_sameCase h (by decide)), if_neg (not_sameCase h (by decide)),
    if_neg (not_sameCase h (by decide)), if_neg (not_sameCase h (by decide)), if_pos h]

theorem establish_spec (cl : Client) (random : BitVec 32) (wanted : Transport) (hasTransport : Bool) :
    (cl.establish random wanted hasTransport).playState = cl.playState ∧
      (cl.establish random wanted hasTransport).videoSetUp = cl.videoSetUp ∧
      (cl.establish random wanted hasTransport).audioSetUp = cl.audioSetUp := by
  rw [establish]
  cases wanted.transportType with
  | multicast => exact ⟨rfl, rfl, rfl⟩
  | tcp => exact ⟨rfl, rfl, rfl⟩
  | udp =>
      dsimp only
      split
      · split <;> exact ⟨rfl, rfl, rfl⟩
      · exact ⟨rfl, rfl, rfl⟩

theorem firstSetup_spec (cl : Client) (random : BitVec 32) (wanted : Transport) :
    (cl.firstSetup random wanted).playState = cl.playState ∧
      (cl.firstSetup random wanted).videoSetUp = cl.videoSetUp ∧
      (cl.firstSetup random wanted).audioSetUp = cl.audioSetUp := by
  rw [firstSetup]
  split
  · exact cl.establish_spec random wanted _
  · exact ⟨rfl, rfl, rfl⟩

/-- What a SETUP leaves: the play state as it was, no track less, and the identifier of the request
in the reply unless it is the first one. -/
theorem onSetup_spec (cl : Client) (slots : ℕ → Mount) (find : List Byte → Option ℕ)
    (parse : List Byte → Transport) (forceTcp : Bool) (outside : Outside) :
    let answer := cl.onSetup slots find parse forceTcp outside
    answer.1.playState = cl.playState ∧
      (cl.videoSetUp = true → answer.1.videoSetUp = true) ∧
      (cl.audioSetUp = true → answer.1.audioSetUp = true) ∧
      (¬ cl.NoTrack → answer.2.session = cl.request.sessionId) := by
  rw [onSetup]
  cases cl.bindSession find with
  | none => exact ⟨rfl, id, id, fun _ => rfl⟩
  | some i =>
      obtain ⟨hplay, hvideo, haudio⟩ := firstSetup_spec { cl with session := some i } outside.random
        (cl.wantedTransport parse forceTcp)
      refine ⟨hplay, fun h => ?_, fun h => ?_, fun htrack => ?_⟩
      · exact Bool.or_eq_true_iff.mpr (.inl (hvideo.trans h))
      · exact Bool.or_eq_true_iff.mpr (.inl (haudio.trans h))
      · have hlater : ¬ NoTrack { cl with session := some i } := htrack
        dsimp only
        rw [firstSetup, if_neg hlater]
        rfl

/-- What any other request leaves. -/
theorem dispatch_spec (cl : Client) (slots : ℕ → Mount) (find : List Byte → Option ℕ)
    (parse : List Byte → Transport) (forceTcp : Bool) (outside : Outside)
    (h : ¬ SameCase cl.request.method (text "SETUP")) :
    let answer := cl.dispatch slots find parse forceTcp outside
    answer.1.videoSetUp = cl.videoSetUp ∧ answer.1.audioSetUp = cl.audioSetUp ∧
      answer.2.session = cl.request.sessionId ∧
      (answer.1.playState = .playing → cl.playState ≠ .playing →
        SameCase cl.request.method (text "PLAY") ∧ cl.request.sessionId ≠ []) := by
  have hsame : ∀ code, let answer := cl.reply code
      answer.1.videoSetUp = cl.videoSetUp ∧ answer.1.audioSetUp = cl.audioSetUp ∧
        answer.2.session = cl.request.sessionId ∧
        (answer.1.playState = .playing → cl.playState ≠ .playing →
          SameCase cl.request.method (text "PLAY") ∧ cl.request.sessionId ≠ []) :=
    fun code => ⟨rfl, rfl, rfl, fun hplays hplay => absurd hplays hplay⟩
  rw [dispatch]
  split
  · exact hsame 200
  split
  · rw [onDescribe]
    split
    · exact hsame 404
    · split
      · exact hsame 404
      · exact ⟨rfl, rfl, rfl, fun hplays hplay => absurd hplays hplay⟩
  split
  case isTrue hplay =>
    rw [onPlay]
    split
    · exact hsame 454
    · exact ⟨rfl, rfl, rfl, fun _ _ => ⟨hplay, ‹_›⟩⟩
  split
  · rw [onPause]
    split
    · exact hsame 454
    · exact ⟨rfl, rfl, rfl, nofun⟩
  split
  · exact ⟨rfl, rfl, rfl, nofun⟩
  · exact hsame 501

end Client

/-! ## The invariant -/

/-- The tracks that are set up stay so. -/
theorem tracks_exchange (cl : Client) (ask : Ask) :
    (cl.videoSetUp = true → (cl.exchange ask).after.videoSetUp = true) ∧
      (cl.audioSetUp = true → (cl.exchange ask).after.audioSetUp = true) := by
  by_cases hsetup : SameCase ask.request.method (text "SETUP")
  · rw [Client.exchange, Client.dispatch_setup hsetup]
    obtain ⟨-, hvideo, haudio, -⟩ := Client.onSetup_spec { cl with request := ask.request } ask.slots
      ask.find ask.parse ask.forceTcp ask.outside
    exact ⟨hvideo, haudio⟩
  · obtain ⟨hvideo, haudio, -⟩ := Client.dispatch_spec { cl with request := ask.request }
      ask.slots ask.find ask.parse ask.forceTcp ask.outside hsetup
    exact ⟨hvideo.trans, haudio.trans⟩

/-- Once an identifier was sent, a track is set up. -/
def Marked (history : List Exchange) (cl : Client) : Prop :=
  (∃ setup ∈ history, setup.Issues) → ¬ cl.NoTrack

theorem Marked.exchange {history : List Exchange} {cl : Client} (h : Marked history cl) (ask : Ask) :
    Marked (history ++ [cl.exchange ask]) (cl.exchange ask).after := by
  obtain ⟨hvideo, haudio⟩ := tracks_exchange cl ask
  rintro ⟨setup, hsetup, hissues⟩ ⟨hnovideo, hnoaudio⟩
  rcases List.mem_append.mp hsetup with hold | hnew
  · refine h ⟨setup, hold, hissues⟩ ⟨?_, ?_⟩
    · exact Bool.eq_false_of_not_eq_true fun hset =>
        Bool.false_ne_true (hnovideo.symm.trans (hvideo hset))
    · exact Bool.eq_false_of_not_eq_true fun hset =>
        Bool.false_ne_true (hnoaudio.symm.trans (haudio hset))
  · obtain rfl := List.mem_singleton.mp hnew
    rcases hissues.2.2.2 with ⟨-, hset⟩ | ⟨-, hset⟩
    · exact Bool.false_ne_true (hnovideo.symm.trans hset)
    · exact Bool.false_ne_true (hnoaudio.symm.trans hset)

/-- The exchanges of a run, each with those before it. -/
theorem marked_of_split {asks : List Ask} {cl : Client} {done front : List Exchange} {e : Exchange}
    {back : List Exchange} (h : Marked done cl) (hrun : exchanges asks cl = front ++ e :: back) :
    ∃ cl' ask, e = cl'.exchange ask ∧ Marked (done ++ front) cl' := by
  induction asks generalizing cl done front with
  | nil => exact absurd hrun.symm (List.append_ne_nil_of_right_ne_nil _ (List.cons_ne_nil e back))
  | cons ask asks ih =>
      rw [exchanges] at hrun
      cases front with
      | nil =>
          rw [List.append_nil]
          exact ⟨cl, ask, (List.cons.inj hrun).1.symm, h⟩
      | cons first front =>
          obtain ⟨rfl, hrest⟩ := List.cons.inj hrun
          obtain ⟨cl', ask', he, hmarked⟩ := ih (h.exchange ask) hrest
          rw [List.append_assoc] at hmarked
          exact ⟨cl', ask', he, hmarked⟩

/-! ## One request -/

/-- Behind the SETUP that has sent an identifier, a reply has the identifier of its request. -/
theorem session_exchange {history : List Exchange} {cl : Client} (h : Marked history cl) (ask : Ask)
    (hissued : ∃ setup ∈ history, setup.Issues) :
    (cl.exchange ask).reply.session = ask.request.sessionId := by
  by_cases hsetup : SameCase ask.request.method (text "SETUP")
  · rw [Client.exchange, Client.dispatch_setup hsetup]
    exact (Client.onSetup_spec { cl with request := ask.request } ask.slots ask.find ask.parse
      ask.forceTcp ask.outside).2.2.2 (h hissued)
  · exact (Client.dispatch_spec { cl with request := ask.request } ask.slots ask.find ask.parse
      ask.forceTcp ask.outside hsetup).2.2.1

/-- Only a PLAY with a `Session` header starts to play. -/
theorem starts_exchange (cl : Client) (ask : Ask)
    (hplays : (cl.exchange ask).after.playState = .playing) (hplay : cl.playState ≠ .playing) :
    (cl.exchange ask).Is "PLAY" ∧ ask.request.sessionId ≠ [] := by
  by_cases hsetup : SameCase ask.request.method (text "SETUP")
  · rw [Client.exchange, Client.dispatch_setup hsetup] at hplays
    have hsame := (Client.onSetup_spec { cl with request := ask.request } ask.slots ask.find
      ask.parse ask.forceTcp ask.outside).1
    exact absurd (hsame.symm.trans hplays) hplay
  · exact (Client.dispatch_spec { cl with request := ask.request } ask.slots ask.find ask.parse
      ask.forceTcp ask.outside hsetup).2.2.2 hplays hplay

/-- A PLAY or PAUSE is answered with 454 and changes nothing if and only if it has no `Session`
header. -/
theorem refused_exchange (cl : Client) (ask : Ask)
    (hmethod : (cl.exchange ask).Is "PLAY" ∨ (cl.exchange ask).Is "PAUSE") :
    ((cl.exchange ask).reply.code = 454 ∧ (cl.exchange ask).after.playState = cl.playState) ↔
      ask.request.sessionId = [] := by
  rcases hmethod with hplay | hpause
  · have hmethod : SameCase ask.request.method (text "PLAY") := hplay
    rw [Client.exchange, Client.dispatch_play hmethod, Client.onPlay]
    split
    case isTrue hnone => exact iff_of_true ⟨rfl, rfl⟩ hnone
    case isFalse hsome => exact iff_of_false (fun hand => absurd hand.1 (by decide : ¬ 200 = 454)) hsome
  · have hmethod : SameCase ask.request.method (text "PAUSE") := hpause
    rw [Client.exchange, Client.dispatch_pause hmethod, Client.onPause]
    split
    case isTrue hnone => exact iff_of_true ⟨rfl, rfl⟩ hnone
    case isFalse hsome => exact iff_of_false (fun hand => absurd hand.1 (by decide : ¬ 200 = 454)) hsome

/-- A request is answered rightly if and only if it is honest. -/
theorem right_iff_honest {history : List Exchange} {cl : Client} (h : Marked history cl) (ask : Ask) :
    (cl.exchange ask).Right history ↔ (cl.exchange ask).Honest history := by
  have hsame : ∀ setup ∈ history, setup.Issues →
      (cl.exchange ask).reply.session = ask.request.sessionId :=
    fun setup hsetup hissues => session_exchange h ask ⟨setup, hsetup, hissues⟩
  constructor
  · intro hright
    refine ⟨fun hmethod hheader => ?_, fun setup hsetup hissues => ?_⟩
    · by_contra hknows
      exact hheader ((refused_exchange cl ask hmethod).mp (hright.refused hmethod hknows))
    · have hreply := hright.same setup hsetup hissues
      rw [hsame setup hsetup hissues] at hreply
      exact hreply
  · intro hhonest
    refine ⟨fun hplays hplay => ?_, fun hmethod hknows => ?_, fun setup hsetup hissues => ?_⟩
    · obtain ⟨hmethod, hheader⟩ := starts_exchange cl ask hplays hplay
      exact ⟨hmethod, hhonest.knows (.inl hmethod) hheader⟩
    · refine (refused_exchange cl ask hmethod).mpr ?_
      by_contra hheader
      exact hknows (hhonest.knows hmethod hheader)
    · rw [hsame setup hsetup hissues]
      exact hhonest.same setup hsetup hissues

/-- **The server is right in every exchange of a connection** if and only if the client is honest in
every one. -/
theorem right_iff_honest_all (asks : List Ask) :
    (∀ front e back, exchanges asks .connected = front ++ e :: back → Exchange.Right front e) ↔
      ∀ front e back, exchanges asks .connected = front ++ e :: back → Exchange.Honest front e := by
  have hnone : Marked [] .connected := fun ⟨_, hsetup, _⟩ => (nomatch hsetup)
  have heach : ∀ front e back, exchanges asks .connected = front ++ e :: back →
      (Exchange.Right front e ↔ Exchange.Honest front e) := by
    intro front e back hrun
    obtain ⟨cl, ask, rfl, hmarked⟩ := marked_of_split hnone hrun
    exact right_iff_honest hmarked ask
  exact ⟨fun hright front e back hrun => (heach front e back hrun).mp (hright front e back hrun),
    fun hhonest front e back hrun => (heach front e back hrun).mpr (hhonest front e back hrun)⟩

/-- A PLAY with a `Session` header that nobody has issued. -/
def unaskedPlay : Ask where
  request := ⟨text "PLAY", text "rtsp://host/camera", 1, text "1", []⟩
  slots := fun _ => ⟨[], false, false⟩
  find := fun _ => none
  parse := fun _ => .default
  forceTcp := false
  outside := ⟨0, true⟩

/-- It is the first request of its connection, and the client plays. -/
theorem plays_without_setup :
    exchanges [unaskedPlay] .connected = [Client.connected.exchange unaskedPlay] ∧
      (Client.connected.exchange unaskedPlay).reply = ⟨200, text "1"⟩ ∧
      (Client.connected.exchange unaskedPlay).after.playState = .playing ∧
      ¬ (Client.connected.exchange unaskedPlay).Right [] := by
  refine ⟨rfl, by decide, by decide, fun hright => ?_⟩
  obtain ⟨-, setup, hsetup, -⟩ := hright.starts (by decide) (by decide)
  cases hsetup

end Zstreamer.Rtsp
