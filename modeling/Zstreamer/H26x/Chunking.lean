/-
# How the stream is cut

A stream that is pushed in buffers, and ended, is read as its NAL units are in one piece.
So the caps and the bytes that go out do not depend on where the stream is cut; without
access units the bytes are the NAL units of the stream, when the format that the parser
takes it for is the format that it has.
-/

import Zstreamer.H26x.Alike
import Zstreamer.H26x.Calls
import Zstreamer.H26x.Streams

namespace Zstreamer.H26x

open Foundation List

/-- NAL units as they come in, with no times. -/
def arrivals (nals : List Nal) : List Arrival := nals.map fun nal => ⟨nal, ⟨0, 0, 0⟩, false⟩

theorem arrivals_nal (nals : List Nal) : (arrivals nals).map Arrival.nal = nals := by
  rw [arrivals, map_map]
  exact map_id nals

theorem arrivals_append (nals more : List Nal) : arrivals (nals ++ more) = arrivals nals ++ arrivals more :=
  map_append

namespace Assembler

theorem andThen_assoc (result : Assembler × Bool) (f g : Assembler → Assembler × Bool) :
    andThen (andThen result f) g = andThen result fun s => andThen (f s) g := by
  cases hresult : result.2 with
  | true => rw [andThen_true _ hresult, andThen_true _ hresult]
  | false => rw [andThen_false _ hresult, andThen_false _ hresult, andThen_false _ hresult]

theorem handleEach_append (answers : ℕ → Bool) (as bs : List Arrival) (s : Assembler) :
    s.handleEach answers (as ++ bs) = andThen (s.handleEach answers as) (handleEach answers bs) := by
  induction as generalizing s with
  | nil => rfl
  | cons a as ih =>
      rw [cons_append, handleEach, handleEach, andThen_assoc]
      congr 1
      funext s
      exact ih s

/-- When all of some NAL units are handled, so are the first of them. -/
theorem handleEach_ok_of_append {answers : ℕ → Bool} {as bs : List Arrival} {s : Assembler}
    (hok : (s.handleEach answers (as ++ bs)).2 = true) : (s.handleEach answers as).2 = true := by
  rw [handleEach_append, andThen] at hok
  split at hok
  · assumption
  · exact hok

end Assembler

namespace Parser

/-- The parser when it has detected the format of a stream. -/
def reader (p : Parser) (data : List Byte) : Parser :=
  { p with inputFormat := p.inputFormat.detected data }

/-- The NAL units of a stream in the format that the parser takes it for. -/
def streamUnits (p : Parser) (data : List Byte) : List Nal := (p.reader data).unitsOf 0 data true

/-- The parser that has read the beginning of a stream. -/
structure Reads (p : Parser) (data : List Byte) (s : Parser) : Prop where
  inputFormat : s.inputFormat = p.inputFormat.detected data
  nalLengthSize : s.nalLengthSize = p.nalLengthSize
  maxNalSize : s.maxNalSize = p.maxNalSize
  maxBufferedBytes : s.maxBufferedBytes = p.maxBufferedBytes
  adapter : s.adapter = s.scanner.rest data
  position : s.adapterPosition = s.scanner.used data
  room : s.adapter.length ≤ s.maxBufferedBytes
  assembler : Assembler.Alike s.assembler
    (p.assembler.handleEach Assembler.always (arrivals ((s.scanner.tokens 0 data).map toNal))).1

variable {p s : Parser} {data more : List Byte}

theorem detect_inputFormat (s : Parser) :
    s.detect = { s with inputFormat := s.inputFormat.detected s.adapter } := by
  rw [detect, StreamFormat.detected]
  split <;> rfl

/-- As long as nothing is detected, nothing is read. -/
theorem Reads.undetected (h : Reads p data s) (hauto : s.inputFormat = .auto) :
    data.length < 4 ∧ p.inputFormat = .auto ∧ s.adapter = data ∧ s.adapterPosition = 0 ∧
      s.scanner.tokens 0 data = [] := by
  have hscanner : s.scanner = idleScanner := by
    rw [scanner, hauto]
  have hstep : idleScanner.step data = none := rfl
  have hshort : data.length < 4 := by
    by_contra hlong
    exact detected_ne_auto p.inputFormat (Nat.le_of_not_lt hlong) (h.inputFormat.symm.trans hauto)
  refine ⟨hshort, ?_, ?_, ?_, ?_⟩
  · rw [← hauto, h.inputFormat, detected_of_lt _ hshort]
  · rw [h.adapter, hscanner, Scanner.rest, Scanner.used_none hstep, drop_zero]
  · rw [h.position, hscanner, Scanner.used_none hstep]
  · rw [hscanner, Scanner.tokens_none hstep]

/-- What is detected does not change. -/
theorem Reads.detected (h : Reads p data s) (hdetected : s.inputFormat ≠ .auto) (more : List Byte) :
    p.inputFormat.detected (data ++ more) = s.inputFormat := by
  rw [h.inputFormat] at hdetected ⊢
  by_cases hlength : 4 ≤ data.length
  · exact detected_append p.inputFormat hlength more
  · rw [detected_of_lt _ (Nat.lt_of_not_le hlength)] at hdetected ⊢
    exact detected_of_ne hdetected _

/-- The format that is detected when more bytes come. -/
theorem Reads.detect (h : Reads p data s) (more : List Byte) :
    s.inputFormat.detected (s.adapter ++ more) = p.inputFormat.detected (data ++ more) := by
  by_cases hauto : s.inputFormat = .auto
  · obtain ⟨-, hp, hadapter, -⟩ := h.undetected hauto
    rw [hauto, hp, hadapter]
  · rw [detected_of_ne hauto, h.detected hauto]

/-- The NAL units that are found behind those that have been read. -/
theorem Reads.tokens (h : Reads p data s) (more : List Byte) (t : Parser)
    (hformat : t.inputFormat = p.inputFormat.detected (data ++ more))
    (hsize : t.nalLengthSize = s.nalLengthSize) (hmax : t.maxNalSize = s.maxNalSize) :
    s.scanner.tokens 0 data ++ t.scanner.tokens s.adapterPosition (s.adapter ++ more) =
        t.scanner.tokens 0 (data ++ more) ∧
      s.adapterPosition + t.scanner.used (s.adapter ++ more) = t.scanner.used (data ++ more) ∧
      t.scanner.rest (s.adapter ++ more) = t.scanner.rest (data ++ more) := by
  by_cases hauto : s.inputFormat = .auto
  · obtain ⟨-, -, hadapter, hposition, htokens⟩ := h.undetected hauto
    rw [htokens, hadapter, hposition, Nat.zero_add]
    exact ⟨rfl, rfl, rfl⟩
  · have hscanner : t.scanner = s.scanner := by
      rw [scanner, scanner, hformat, h.detected hauto, hsize, hmax]
    rw [hscanner, h.adapter, h.position, Scanner.tokens_append 0 data more, Nat.zero_add,
      Scanner.used_append data more, Scanner.rest_append data more]
    exact ⟨rfl, rfl, rfl⟩

/-- What is read of the beginning of a stream is the beginning of its NAL units. -/
theorem exists_streamUnits (p : Parser) (data more : List Byte) :
    ∃ later, p.streamUnits (data ++ more) =
      ((p.reader data).scanner.tokens 0 data).map toNal ++ later := by
  by_cases hauto : p.inputFormat.detected data = .auto
  · have hstep : (p.reader data).scanner.step data = none := by
      rw [scanner, reader, hauto]
      rfl
    exact ⟨p.streamUnits (data ++ more), by rw [Scanner.tokens_none hstep]; rfl⟩
  · have hdetected : p.inputFormat.detected (data ++ more) = p.inputFormat.detected data := by
      by_cases hlength : 4 ≤ data.length
      · exact detected_append p.inputFormat hlength more
      · rw [detected_of_lt _ (Nat.lt_of_not_le hlength)] at hauto ⊢
        exact detected_of_ne hauto _
    have hreader : p.reader (data ++ more) = p.reader data := by
      rw [reader, reader, hdetected]
    rw [streamUnits, hreader]
    exact ⟨_, unitsOf_append (p.reader data) 0 data more true⟩

/-- The format is that of a well-formed stream, or none has been detected, or a stream behind
lengths is taken to have start codes. -/
theorem format_of_stream {kind : StreamFormat} {nals : List (List Byte)}
    (hstream : WellFormedStream p.nalLengthSize p.maxNalSize kind data nals)
    (hformat : p.inputFormat = kind ∨ p.inputFormat = .auto)
    (hlength : p.inputFormat.detected data = .length) : kind = .length := by
  cases hstream with
  | length hnals => rfl
  | annexB hcode =>
      exfalso
      rcases hformat with hset | hauto
      · rw [hset, detected_of_ne (by decide)] at hlength
        cases hlength
      · rw [hauto, StreamFormat.detected, hcode] at hlength
        split at hlength
        · cases hlength
        · cases hlength

/-- The parser with more bytes in the adapter. -/
structure Loads (s : Parser) (more : List Byte) (t : Parser) : Prop where
  inputFormat : t.inputFormat = s.inputFormat
  nalLengthSize : t.nalLengthSize = s.nalLengthSize
  maxNalSize : t.maxNalSize = s.maxNalSize
  maxBufferedBytes : t.maxBufferedBytes = s.maxBufferedBytes
  adapter : t.adapter = s.adapter ++ more
  position : t.adapterPosition = s.adapterPosition
  assembler : Assembler.Alike t.assembler s.assembler

/-- NAL units that are handled in a parse are handled behind those before. -/
theorem Reads.handled (h : Reads p data s) {t : Parser} (ht : Loads s more t) (stamp : Stamp)
    {units : List (Nal × Bool)} {nals : List Nal} (hunits : units.map Prod.fst = nals)
    (hok : (p.assembler.handleEach Assembler.always
      (arrivals ((s.scanner.tokens 0 data).map toNal ++ nals))).2 = true) :
    Assembler.Agree (t.assembler.handleAll Assembler.always stamp units)
      (p.assembler.handleEach Assembler.always
        (arrivals ((s.scanner.tokens 0 data).map toNal ++ nals))) := by
  rw [arrivals_append] at hok ⊢
  have hbefore := Assembler.handleEach_ok_of_append hok
  rw [Assembler.handleEach_append, Assembler.andThen_true _ hbefore]
  exact Assembler.handleAll_agree (ht.assembler.trans h.assembler) stamp
    (hunits.trans (arrivals_nal nals).symm)

/-- **A parse reads on**, when its NAL units are handled and the next length is not a bad one. -/
theorem Reads.parse (h : Reads p data s) {t : Parser} (ht : Loads s more t)
    (hroom : t.adapter.length ≤ t.maxBufferedBytes)
    (hok : (p.assembler.handleEach Assembler.always
      (arrivals ((t.detect.scanner.tokens 0 (data ++ more)).map toNal))).2 = true)
    (hgood : t.detect.inputFormat = .length → ¬ BadLength t.nalLengthSize t.maxNalSize
      (t.detect.scanner.rest (data ++ more))) :
    (t.parseAdapter Assembler.always false).2 = true ∧
      Reads p (data ++ more) (t.parseAdapter Assembler.always false).1 := by
  obtain ⟨units, hunits, houtcome⟩ := parseAdapter_outcome Assembler.always t false
  generalize t.parseAdapter Assembler.always false = result at houtcome ⊢
  have hformat : t.detect.inputFormat = p.inputFormat.detected (data ++ more) := by
    rw [detect_inputFormat]
    dsimp only
    rw [ht.inputFormat, ht.adapter, h.detect]
  have hsame : t.detect.nalLengthSize = t.nalLengthSize ∧ t.detect.maxNalSize = t.maxNalSize ∧
      t.detect.maxBufferedBytes = t.maxBufferedBytes ∧ t.detect.adapter = t.adapter ∧
      t.detect.adapterPosition = t.adapterPosition ∧ t.detect.assembler = t.assembler := by
    rw [detect_inputFormat]
    exact ⟨rfl, rfl, rfl, rfl, rfl, rfl⟩
  generalize t.detect = t' at *
  obtain ⟨hsize, hmax, hlimit, hadapter, hposition, hassembler⟩ := hsame
  obtain ⟨htokens, hused, hrest⟩ := h.tokens more t' hformat (hsize.trans ht.nalLengthSize)
    (hmax.trans ht.maxNalSize)
  rw [found, unitsOf_false, hposition, ht.position, hadapter, ht.adapter] at hunits
  rw [← htokens, map_append] at hok
  rw [hassembler] at houtcome
  have hagree := h.handled ht t'.adapterStamp hunits hok
  rw [← map_append, htokens] at hagree hok
  have hhandled := hagree.ok.trans hok
  cases houtcome with
  | failed hfail =>
      rw [hhandled] at hfail
      cases hfail
  | refused asm hok' hwork hrefused =>
      exfalso
      rcases hrefused with ⟨-, hlong⟩ | ⟨hlength, hbad | ⟨heos, -⟩⟩
      · rw [hadapter, hlimit] at hlong
        exact absurd hroom (Nat.not_le.mpr hlong)
      · rw [hadapter, ht.adapter, hrest, hsize, hmax] at hbad
        exact hgood hlength hbad
      · cases heos
  | ended hok' heos => cases heos
  | dropped asm hok' hwork hformat' heos hrest' => cases heos
  | kept hok' =>
      refine ⟨rfl, ?_⟩
      have hleft : (t'.adapter.drop (t'.scanner.used t'.adapter)) = t'.scanner.rest (data ++ more) := by
        rw [hadapter, ht.adapter]
        exact hrest
      exact
        { inputFormat := hformat
          nalLengthSize := hsize.trans (ht.nalLengthSize.trans h.nalLengthSize)
          maxNalSize := hmax.trans (ht.maxNalSize.trans h.maxNalSize)
          maxBufferedBytes := hlimit.trans (ht.maxBufferedBytes.trans h.maxBufferedBytes)
          adapter := hleft
          position := by
            change t'.adapterPosition + t'.scanner.used t'.adapter = t'.scanner.used (data ++ more)
            rw [hposition, ht.position, hadapter, ht.adapter]
            exact hused
          room := by
            change (t'.adapter.drop _).length ≤ t'.maxBufferedBytes
            rw [length_drop, hadapter, hlimit]
            exact (Nat.sub_le _ _).trans hroom
          assembler := hagree.alike }

/-- **The end of the stream reads what is left**, when it is handled and no bytes are left over. -/
theorem Reads.parse_end (h : Reads p data s)
    (hok : (p.assembler.handleEach Assembler.always (arrivals (p.streamUnits data))).2 = true)
    (hgood : s.inputFormat = .length → 1 ≤ s.nalLengthSize ∧ s.scanner.rest data = []) :
    (s.parseAdapter Assembler.always true).2 = true ∧
      Assembler.Alike (s.parseAdapter Assembler.always true).1.assembler
        (p.assembler.handleEach Assembler.always (arrivals (p.streamUnits data))).1 := by
  obtain ⟨units, hunits, houtcome⟩ := parseAdapter_outcome Assembler.always s true
  generalize s.parseAdapter Assembler.always true = result at houtcome ⊢
  have hformat : s.inputFormat.detected s.adapter = s.inputFormat := by
    have hsame := h.detect []
    rw [append_nil, append_nil, ← h.inputFormat] at hsame
    exact hsame
  have hdetect : s.detect = s := by
    rw [detect_inputFormat, hformat]
  rw [hdetect] at hunits houtcome
  have hscanner : ({ p with inputFormat := s.inputFormat } : Parser).scanner = s.scanner := by
    rw [scanner, scanner, h.nalLengthSize, h.maxNalSize]
  have hstream : p.streamUnits data = (s.scanner.tokens 0 data).map toNal ++ s.found true := by
    have happend := unitsOf_append { p with inputFormat := s.inputFormat } 0 data [] true
    have hcongr := @unitsOf_congr { p with inputFormat := s.inputFormat } s rfl h.nalLengthSize.symm
      h.maxNalSize.symm
    rw [append_nil, append_nil, hscanner, hcongr, Nat.zero_add] at happend
    rw [streamUnits, reader, ← h.inputFormat, found, h.adapter, h.position, ← happend, hcongr]
  have hload : Loads s [] s := ⟨rfl, rfl, rfl, rfl, (append_nil _).symm, rfl, .refl _⟩
  rw [hstream] at hok ⊢
  have hagree := h.handled hload s.adapterStamp hunits hok
  have hhandled := hagree.ok.trans hok
  have hrest : s.scanner.rest s.adapter = s.scanner.rest data := by
    rw [h.adapter]
    have hsame := Scanner.rest_append (s := s.scanner) data []
    rw [append_nil, append_nil] at hsame
    exact hsame.symm
  cases houtcome with
  | failed hfail =>
      rw [hhandled] at hfail
      cases hfail
  | refused asm hok' hwork hrefused =>
      exfalso
      rcases hrefused with ⟨-, hlong⟩ | ⟨hlength, hbad | ⟨-, hleft⟩⟩
      · exact absurd h.room (Nat.not_le.mpr hlong)
      · obtain ⟨hsize, hnone⟩ := hgood hlength
        have hshort := hbad.1
        rw [hrest, hnone, length_nil] at hshort
        exact absurd (hsize.trans hshort) (by decide)
      · exact hleft (hrest.trans (hgood hlength).2)
  | ended hok' heos => exact ⟨rfl, hagree.alike⟩
  | dropped asm hok' hwork hlength heos hleft => exact absurd (hrest.trans (hgood hlength).2) hleft
  | kept hok' => exact ⟨rfl, hagree.alike⟩

/-- The beginning of a stream that can be read so far. -/
structure Readable (p : Parser) (front : List Byte) : Prop where
  handled : (p.assembler.handleEach Assembler.always
    (arrivals (((p.reader front).scanner.tokens 0 front).map toNal))).2 = true
  good : (p.reader front).inputFormat = .length →
    ¬ BadLength p.nalLengthSize p.maxNalSize ((p.reader front).scanner.rest front)

/-- **A buffer reads on.** -/
theorem Reads.push (h : Reads p data s) {buf : Input} (heos : buf.eos = false)
    (hdrop : buf.drop = false) (hspace : s.adapter.length + buf.data.length ≤ s.maxBufferedBytes)
    (hreadable : Readable p (data ++ buf.data)) :
    Reads p (data ++ buf.data) (s.call Assembler.always (.push buf)).1 := by
  obtain ⟨t, hload, hcall⟩ : ∃ t, Loads s buf.data t ∧
      s.call Assembler.always (.push buf) =
        if ¬ (countError (t.parseAdapter Assembler.always false)).2 then
          countError (t.parseAdapter Assembler.always false)
        else countError (t.parseAdapter Assembler.always false) := by
    refine ⟨{ s with
        adapterStamp := s.stampFor buf.stamp
        haveTimestamp := true
        adapter := s.adapter ++ buf.data
        taken := s.taken ++ [buf]
        assembler := (s.assembler.ask Assembler.always).1 }, ?_, ?_⟩
    · exact ⟨rfl, rfl, rfl, rfl, rfl, rfl, .symm (.mk _ _ _ _ _ rfl)⟩
    · have hroom := Assembler.hasRoom_of_le hspace
      change s.parserPush Assembler.always buf = _
      rw [parserPush, hdrop, if_neg Bool.false_ne_true, keepStamp_eq, append,
        if_neg (not_not.mpr hroom), heos]
      rfl
  have hformat : t.detect.inputFormat = p.inputFormat.detected (data ++ buf.data) := by
    rw [detect_inputFormat]
    dsimp only
    rw [hload.inputFormat, hload.adapter, h.detect]
  have hscanner : t.detect.scanner = (p.reader (data ++ buf.data)).scanner := by
    rw [scanner, scanner, hformat, detect_inputFormat]
    dsimp only
    rw [hload.nalLengthSize, hload.maxNalSize, h.nalLengthSize, h.maxNalSize]
    rfl
  obtain ⟨hok, hreads⟩ := h.parse hload
    (by rw [hload.adapter, length_append, hload.maxBufferedBytes]; exact hspace)
    (by rw [hscanner]; exact hreadable.handled)
    (by
      rw [hscanner, hformat, hload.nalLengthSize, hload.maxNalSize, h.nalLengthSize, h.maxNalSize]
      exact hreadable.good)
  have hcounted : countError (t.parseAdapter Assembler.always false) =
      t.parseAdapter Assembler.always false := if_pos hok
  rw [hcall, hcounted, ite_self]
  exact hreads

/-! ## Streams in buffers -/

/-- The calls of a stream that is pushed in buffers, and ended. -/
def streamCalls (bufs : List Input) : List Call := bufs.map Call.push ++ [.eos]

/-- There is room in the adapter for the bytes of a call. -/
def HasSpace (s : Parser) (c : Call) : Prop :=
  s.adapter.length + c.data.length ≤ s.maxBufferedBytes

instance (s : Parser) (c : Call) : Decidable (s.HasSpace c) := inferInstanceAs (Decidable (_ ≤ _))

/-- Buffers that a stream is cut into, none of them flagged, each of which there is room for. -/
structure CutInto (p : Parser) (data : List Byte) (bufs : List Input) : Prop where
  data : bufs.flatMap Input.data = data
  plain : ∀ buf ∈ bufs, buf.eos = false ∧ buf.drop = false
  space : Follows Assembler.always HasSpace (streamCalls bufs) p

/-- A stream that can be read to its end. -/
structure ReadableStream (p : Parser) (data : List Byte) : Prop where
  readable : ∀ front back, front ++ back = data → Readable p front
  handled : (p.assembler.handleEach Assembler.always (arrivals (p.streamUnits data))).2 = true
  left : (p.reader data).inputFormat = .length →
    1 ≤ p.nalLengthSize ∧ (p.reader data).scanner.rest data = []

/-- **However a stream is cut, its NAL units are handled one after the other.** -/
theorem Reads.calls {front : List Byte} (hstream : ReadableStream p data) {bufs : List Input}
    (h : Reads p front s) (hdata : front ++ bufs.flatMap Input.data = data)
    (hplain : ∀ buf ∈ bufs, buf.eos = false ∧ buf.drop = false)
    (hspace : Follows Assembler.always HasSpace (streamCalls bufs) s) :
    Assembler.Alike (s.calls Assembler.always (streamCalls bufs)).assembler
      (Assembler.andThen
        (p.assembler.handleEach Assembler.always (arrivals (p.streamUnits data)))
        (Assembler.finish Assembler.always)).1 := by
  induction bufs generalizing front s with
  | nil =>
      obtain rfl : front = data := (append_nil front).symm.trans hdata
      have hscanner : s.scanner = (p.reader front).scanner := by
        rw [scanner, scanner, h.inputFormat, h.nalLengthSize, h.maxNalSize]
        rfl
      obtain ⟨hok, halike⟩ := h.parse_end hstream.handled (by
        rw [h.inputFormat, h.nalLengthSize, hscanner]
        exact hstream.left)
      change Assembler.Alike (s.eosEvent Assembler.always).1.assembler _
      rw [eosEvent, if_pos hok, Assembler.andThen_true _ hstream.handled]
      exact (Assembler.finish_agree halike).alike
  | cons buf bufs ih =>
      obtain ⟨⟨heos, hdrop⟩, hlater⟩ := forall_mem_cons.mp hplain
      rw [flatMap_cons, ← append_assoc] at hdata
      exact ih (h.push heos hdrop hspace.1 (hstream.readable _ _ hdata)) hdata hlater hspace.2

/-- What is detected at the beginning of a stream is its format. -/
theorem detected_length_append {format : StreamFormat} {front : List Byte}
    (hlength : format.detected front = .length) (back : List Byte) :
    format.detected (front ++ back) = .length := by
  by_cases hlong : 4 ≤ front.length
  · rw [detected_append format hlong, hlength]
  · rw [detected_of_lt _ (Nat.lt_of_not_le hlong)] at hlength
    rw [hlength]
    exact detected_of_ne (by decide) _

/-- A well-formed stream can be read to its end. -/
theorem readableStream {kind : StreamFormat} {nals : List (List Byte)}
    (hstream : WellFormedStream p.nalLengthSize p.maxNalSize kind data nals)
    (hformat : p.inputFormat = kind ∨ p.inputFormat = .auto) (hsize : 1 ≤ p.nalLengthSize)
    (hhandled : (p.assembler.handleEach Assembler.always (arrivals (p.streamUnits data))).2 = true) :
    ReadableStream p data := by
  have hscanner (front : List Byte) (hlength : (p.reader front).inputFormat = .length) :
      (p.reader front).scanner = lengthScanner p.nalLengthSize p.maxNalSize := by
    rw [scanner, hlength]
    rfl
  refine ⟨fun front back hdata => ⟨?_, fun hlength => ?_⟩, hhandled, fun hlength => ⟨hsize, ?_⟩⟩
  · obtain ⟨later, hlater⟩ := exists_streamUnits p front back
    rw [← hdata, hlater, arrivals_append] at hhandled
    exact Assembler.handleEach_ok_of_append hhandled
  · have hwhole : p.inputFormat.detected data = .length := hdata ▸ detected_length_append hlength back
    obtain rfl := format_of_stream hstream hformat hwhole
    rw [hscanner front hlength]
    generalize hkind : StreamFormat.length = kind at hstream
    cases hstream with
    | annexB hcode => cases hkind
    | length hnals => exact not_badLength hnals hsize hdata
  · obtain rfl := format_of_stream hstream hformat hlength
    rw [hscanner data hlength]
    generalize hkind : StreamFormat.length = kind at hstream
    cases hstream with
    | annexB hcode => cases hkind
    | length hnals => exact (read_lengthPrefixed hnals hsize 0).2

end Parser

/-! ## NAL units by themselves -/

namespace Work

variable {w : Work}

theorem fits_of_not_aggregate (haggregate : w.aggregateAu = false) (as : List Arrival) : w.Fits as := by
  induction as generalizing w with
  | nil => trivial
  | cons a as ih =>
      have hsettings := handle_settings w a.nal a.stamp
      refine ⟨fun htrue => ?_, ih ((aggregateAu_of_settings hsettings).trans haggregate)⟩
      rw [haggregate] at htrue
      cases htrue

/-- A NAL unit goes out by itself. -/
theorem handle_of_not_aggregate (haggregate : w.aggregateAu = false) (hvcl : w.auHasVcl = false)
    (nal : Nal) (stamp : Stamp) : w.handle nal stamp = (w.count nal).send nal stamp := by
  have hclose (kind : Kind) : w.close kind = w := if_neg fun hand => by
    rw [haggregate] at hand
    exact Bool.false_ne_true hand.1
  have hnext (kind : Kind) : (w.count nal).next kind = w.count nal := if_neg fun hand => by
    have hcount : (w.count nal).auHasVcl = false := hvcl
    rw [hcount] at hand
    exact Bool.false_ne_true hand.2.2
  have hcount : (w.count nal).aggregateAu = false := haggregate
  rw [handle, ready, hclose, hnext, deliver, hcount, if_neg Bool.false_ne_true]

/-- **Without access units, the NAL units go out one by one.** -/
theorem run_of_not_aggregate (haggregate : w.aggregateAu = false) (hvcl : w.auHasVcl = false)
    (hau : w.au = []) (as : List Arrival) :
    (w.run as).au = [] ∧
      (w.run as).buffers.map Out.data = w.buffers.map Out.data ++ as.map fun a => a.nal.framed := by
  induction as generalizing w with
  | nil => exact ⟨hau, (append_nil _).symm⟩
  | cons a as ih =>
      have hhandle := handle_of_not_aggregate haggregate hvcl a.nal a.stamp
      change ((w.handle a.nal a.stamp).run as).au = [] ∧
        ((w.handle a.nal a.stamp).run as).buffers.map Out.data = _
      rw [hhandle]
      obtain ⟨hempty, hbuffers⟩ := @ih ((w.count a.nal).send a.nal a.stamp) haggregate hvcl hau
      refine ⟨hempty, hbuffers.trans ?_⟩
      change (w.buffers ++ [_]).map Out.data ++ _ = _
      rw [map_append, append_assoc]
      rfl

end Work

/-! ## What goes out -/

/-- The caps and the bytes that go out. -/
def Event.content : Event → Caps ⊕ List Byte
  | .caps c => .inl c
  | .buffer b => .inr b.data
  | .dropped data => .inr data

theorem content_untimed (event : Event) : event.untimed.content = event.content := by
  cases event with
  | caps c => rfl
  | buffer b => rfl
  | dropped data => rfl

namespace Assembler

theorem Alike.sent {a b : Assembler} (h : Alike a b) :
    a.sent.map Event.untimed = b.sent.map Event.untimed := by
  cases h with
  | mk stamp flags sent calls hsent => exact hsent

theorem Alike.content {a b : Assembler} (h : Alike a b) :
    a.sent.map Event.content = b.sent.map Event.content := by
  have huntimed := congrArg (List.map Event.content) h.sent
  rw [map_map, map_map] at huntimed
  rw [← funext content_untimed]
  exact huntimed

theorem Alike.payloads {a b : Assembler} (h : Alike a b) :
    (buffersOf a.sent).map Out.data = (buffersOf b.sent).map Out.data := by
  have hcontent (sent : List Event) : (buffersOf sent).map Out.data =
      (buffersOf (sent.map Event.untimed)).map Out.data := by
    rw [buffersOf, buffersOf, filterMap_map, map_filterMap, map_filterMap]
    congr 1
    funext event
    cases event <;> rfl
  rw [hcontent, h.sent, ← hcontent]

end Assembler

namespace Parser

variable {p : Parser} {data : List Byte}

theorem unitsOf_bytes (s : Parser) (place : ℕ) (data : List Byte) :
    (s.unitsOf place data true).map Nal.bytes =
      (s.scanner.tokens place data).map Prod.fst ++
        if s.last (s.scanner.rest data) ≠ [] then [s.last (s.scanner.rest data)] else [] := by
  rw [unitsOf, map_append, map_map]
  congr 1
  by_cases hlast : s.last (s.scanner.rest data) = []
  · rw [if_neg fun hand => hand.2 hlast, if_neg (not_not.mpr hlast)]
    rfl
  · rw [if_pos ⟨rfl, hlast⟩, if_pos hlast]
    rfl

/-- **The NAL units that are read are those of the stream**, when one behind lengths is taken for
what it is. -/
theorem streamUnits_bytes {kind : StreamFormat} {nals : List (List Byte)}
    (hstream : WellFormedStream p.nalLengthSize p.maxNalSize kind data nals)
    (hformat : p.inputFormat = kind ∨ p.inputFormat = .auto) (hsize : 1 ≤ p.nalLengthSize)
    (htold : kind = .length → nals ≠ [] → p.inputFormat.detected data = .length) :
    (p.streamUnits data).map Nal.bytes = nals := by
  cases hstream with
  | annexB hcode =>
      have hcases : p.inputFormat.detected data = .annexB ∨
          p.inputFormat.detected data = .auto ∧ data = [0, 0, 1] := by
        rcases hformat with hset | hauto
        · exact .inl (by rw [hset]; exact detected_of_ne (by decide) data)
        · by_cases hlength : 4 ≤ data.length
          · rw [StreamFormat.detected, if_pos ⟨hauto, hlength⟩, hcode]
            exact .inl rfl
          · refine .inr ⟨by rw [detected_of_lt _ (Nat.lt_of_not_le hlength), hauto], ?_⟩
            rcases findStartCode_eq_zero_iff.mp (congrArg (Option.map Prod.fst) hcode) with hthree | hfour
            · rw [take_of_length_le (by omega)] at hthree
              exact hthree
            · have := congrArg List.length hfour
              rw [length_take] at this
              exact absurd (Nat.min_le_right 4 data.length) (by rw [this]; exact hlength)
      rcases hcases with hannexB | ⟨hauto, hdata⟩
      · have hscanner : (p.reader data).scanner = annexBScanner := by
          rw [scanner, reader, hannexB]
        have hlast (rest : List Byte) : (p.reader data).last rest = lastAnnexB rest := by
          rw [last, reader, hannexB]
        rw [streamUnits, unitsOf_bytes, hscanner, hlast]
        exact read_betweenCodes hcode 0
      · have hscanner : (p.reader data).scanner = idleScanner := by
          rw [scanner, reader, hauto]
        have hlast (rest : List Byte) : (p.reader data).last rest = [] := by
          rw [last, reader, hauto]
        have hstep : idleScanner.step data = none := rfl
        rw [streamUnits, unitsOf_bytes, hscanner, hlast, Scanner.tokens_none hstep, hdata]
        decide
  | length hnals =>
      by_cases hnone : nals = []
      · rw [hnone]
        change ((p.reader []).unitsOf 0 [] true).map Nal.bytes = []
        rw [unitsOf_nil]
        rfl
      · have hlength := htold rfl hnone
        have hscanner : (p.reader (lengthPrefixed p.nalLengthSize nals)).scanner =
            lengthScanner p.nalLengthSize p.maxNalSize := by
          rw [scanner, reader, hlength]
        have hlast (rest : List Byte) :
            (p.reader (lengthPrefixed p.nalLengthSize nals)).last rest = [] := by
          rw [last, reader, hlength]
        rw [streamUnits, unitsOf_bytes, hscanner, hlast, (read_lengthPrefixed hnals hsize 0).1]
        exact append_nil nals

/-- The NAL units of a stream are handled, when no access unit is too large. -/
theorem streamUnits_handled {codec : Codec} {aggregateAu : Bool} {maxAuSize : ℕ} {units : List Nal}
    (hbytes : ∀ nal ∈ units, nal.bytes ≠ [])
    (hunits : aggregateAu = true → ∀ unit ∈ accessUnits codec [] (arrivals units),
      (framed unit).length ≤ maxAuSize) :
    ((Assembler.create codec aggregateAu maxAuSize).handleEach Assembler.always
        (arrivals units)).2 = true ∧
      ((Assembler.create codec aggregateAu maxAuSize).handleEach Assembler.always
        (arrivals units)).1.work = (Assembler.create codec aggregateAu maxAuSize).work.run
          (arrivals units) := by
  have hbytes' : ∀ a ∈ arrivals units, a.nal.bytes ≠ [] := by
    intro a ha
    obtain ⟨nal, hnal, rfl⟩ := mem_map.mp ha
    exact hbytes nal hnal
  refine Assembler.handleEach_work (fun _ => rfl) _ _ hbytes' ?_
  cases aggregateAu with
  | false => exact Work.fits_of_not_aggregate rfl _
  | true =>
      have hholds : (Assembler.create codec true maxAuSize).work.Holds [] :=
        ⟨rfl, fun hne => absurd rfl hne, rfl, rfl⟩
      exact hholds.fits rfl _ (hunits rfl)

/-- What the parser comes to at the end of a stream. -/
theorem calls_alike {codec : Codec} {aggregateAu : Bool} {maxAuSize : ℕ}
    {kind inputFormat : StreamFormat} {size maxNalSize maxBufferedBytes : ℕ} {policy : Policy}
    {nals : List (List Byte)} {bufs : List Input}
    (hp : p = create inputFormat size maxNalSize maxBufferedBytes policy
      (Assembler.create codec aggregateAu maxAuSize))
    (hsize : 1 ≤ size) (hstream : WellFormedStream size maxNalSize kind data nals)
    (hformat : inputFormat = kind ∨ inputFormat = .auto)
    (hunits : aggregateAu = true → ∀ unit ∈ accessUnits codec [] (arrivals (p.streamUnits data)),
      (framed unit).length ≤ maxAuSize)
    (hcut : CutInto p data bufs) :
    Assembler.Alike (p.calls Assembler.always (streamCalls bufs)).assembler
      (Assembler.andThen
        (p.assembler.handleEach Assembler.always (arrivals (p.streamUnits data)))
        (Assembler.finish Assembler.always)).1 := by
  obtain ⟨hhandled, -⟩ := streamUnits_handled (fun nal => (p.reader data).bytes_ne_nil) hunits
  subst hp
  have hreads : Reads (create inputFormat size maxNalSize maxBufferedBytes policy
      (Assembler.create codec aggregateAu maxAuSize)) []
      (create inputFormat size maxNalSize maxBufferedBytes policy
        (Assembler.create codec aggregateAu maxAuSize)) := by
    generalize hp : create inputFormat size maxNalSize maxBufferedBytes policy
      (Assembler.create codec aggregateAu maxAuSize) = p
    have hnone (s : Scanner Byte (List Byte)) : s.step [] = none := by
      cases hstep : s.step [] with
      | none => rfl
      | some found => exact absurd (s.step_le hstep) (Nat.not_le.mpr (s.step_pos hstep))
    have hempty : p.adapter = [] ∧ p.adapterPosition = 0 := by
      rw [← hp]
      exact ⟨rfl, rfl⟩
    exact
      { inputFormat := (detected_of_lt _ (by decide)).symm
        nalLengthSize := rfl
        maxNalSize := rfl
        maxBufferedBytes := rfl
        adapter := by rw [hempty.1, Scanner.rest, drop_nil]
        position := by rw [hempty.2, Scanner.used_none (hnone _)]
        room := by rw [hempty.1]; exact Nat.zero_le _
        assembler := by
          rw [Scanner.tokens_none (hnone _)]
          exact .refl _ }
  exact hreads.calls (readableStream hstream hformat hsize hhandled) hcut.data hcut.plain hcut.space

/-- Two NAL units behind three bytes of length each, the first of which is a start code. -/
def lengthsLikeCode : List Byte := [0, 0, 1, 0x65, 0, 0, 2, 0x41, 0x42]

/-- The stream in one buffer. -/
def inOneBuffer (data : List Byte) : List Input := [⟨data, ⟨0, 0, 0⟩, false, false⟩]

/-- The stream in two buffers, cut in its first length. -/
def inTwoBuffers (data : List Byte) : List Input := inOneBuffer (data.take 2) ++ inOneBuffer (data.drop 2)

theorem wellFormedStream_lengthsLikeCode :
    WellFormedStream 3 64 .length lengthsLikeCode [[0x65], [0x41, 0x42]] := by
  change WellFormedStream 3 64 .length (lengthPrefixed 3 [[0x65], [0x41, 0x42]]) _
  exact .length (by decide)

end Parser

end Zstreamer.H26x
