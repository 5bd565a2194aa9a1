/-
# The ST 2110-20 depayloader

`st2110_20_depayloader.c` copies the segments of the packets into a frame of 8 MiB, at
the line and the pixel that their headers say, and hands the frame on at a marker or when
the time changes.  The frame then gets the size that its highest line asks for.

The check before a copy is about the end of the copy, and the size of the frame is
checked nowhere.  A copy outside of the allocation and a number that is not one of the
machine are faults.  What an allocation holds at first is an argument of every call, and
`none` when there is no memory.
-/

import Zstreamer.Foundation.Canvas
import Zstreamer.St2110.VideoPayloader

namespace Zstreamer.St2110.Video

open Foundation Rtp

/-- Bytes that a frame is allocated with. -/
def capacity : ℕ := 8 * 1024 * 1024

/-- A frame: `memory.size`, what the memory holds, and the flag. -/
structure Frame where
  size : ℤ
  mem : ℕ → Byte
  pts : BitVec 64
  eos : Bool

/-- The bytes of a frame that was handed on. -/
def Frame.bytes (f : Frame) : List Byte := (List.range f.size.toNat).map f.mem

/-- An entry of `headers`. -/
structure Segment where
  length : ℕ
  lineNo : ℕ
  pOffset : ℕ
  deriving DecidableEq, Repr

/-- `st2110_20_depayloader_t`, without the reordering that nothing uses. -/
structure Depayloader where
  expectedLineLength : ℤ
  currentFrame : Option Frame
  currentTs : BitVec 32
  maxY : ℕ
  bpp : ℤ

/-- The headers, for so many entries that are left, and the offset behind them. -/
def readHeaders (data : List Byte) : ℕ → ℕ → List Segment × ℕ
  | 0, offset => ([], offset)
  | left + 1, offset =>
      let p (i : ℕ) : Byte := data.getD i 0
      let length := be16 (p offset) (p (offset + 1))
      let fLine := be16 (p (offset + 2)) (p (offset + 3))
      let cOff := be16 (p (offset + 4)) (p (offset + 5))
      let header : Segment :=
        { length := length.toNat
          lineNo := (fLine &&& 0x7fff).toNat
          pOffset := (cOff &&& 0x7fff).toNat }
      if offset + 6 ≤ data.length then
        if cOff &&& 0x8000 ≠ 0 then
          let rest := readHeaders data left (offset + 6)
          (header :: rest.1, rest.2)
        else ([header], offset + 6)
      else ([], offset)

/-- The headers of the segments that are in the packet, from an offset on, and where each of them
begins.  With the first that is not, the loop ends. -/
def carriedFrom (size : ℕ) : List Segment → ℕ → List (Segment × ℕ)
  | [], _ => []
  | h :: headers, offset =>
      if size < offset + h.length then []
      else (h, offset) :: carriedFrom size headers (offset + h.length)

/-- The segments of a packet. -/
def carried (data : List Byte) : List (Segment × ℕ) :=
  let headers := readHeaders data 32 14
  carriedFrom data.length headers.1 headers.2

namespace Depayloader

/-- `line_stride` -/
def lineStride (s : Depayloader) : ℤ :=
  if s.expectedLineLength > 0 then s.expectedLineLength else 1920 * s.bpp

/-- `memory.size` of a frame that is handed on. -/
def finalSize (s : Depayloader) : Except Fault ℤ :=
  if IsInt (s.lineStride * (s.maxY + 1)) then .ok (s.lineStride * (s.maxY + 1)) else .error .overflow

/-- The frame that is handed on when the time changes. -/
def pushCurrent (s : Depayloader) : Except Fault (List Frame) :=
  match s.currentFrame with
  | none => .ok []
  | some frame => s.finalSize.map fun size => [{ frame with size := size }]

/-- The frame of another time. -/
def newFrame (s : Depayloader) (fresh : Option (ℕ → Byte)) (ts : BitVec 32) : Depayloader :=
  match fresh with
  | none => { s with currentFrame := none }
  | some mem =>
      { s with
        currentFrame := some { size := capacity, mem := mem, pts := ts.setWidth 64, eos := false }
        currentTs := ts
        maxY := 0
        bpp := 2 }

/-- The frame before the packet, when it is of another time, and the frame of the packet. -/
def changeFrame (s : Depayloader) (fresh : Option (ℕ → Byte)) (ts : BitVec 32) :
    Except Fault (Depayloader × List Frame) :=
  if s.currentFrame.isSome ∧ s.currentTs = ts then .ok (s, [])
  else s.pushCurrent.map fun pushed => (s.newFrame fresh ts, pushed)

/-- `memcpy` of a segment into the frame, behind the check. -/
def copyInto (frame : Frame) (dest : ℤ) (segment : List Byte) : Except Fault Frame :=
  if ¬ IsInt (dest + segment.length) then .error .overflow
  else if 0 ≤ dest + segment.length ∧ dest + segment.length ≤ frame.size then
    if dest < 0 ∨ capacity < dest + segment.length then .error .outside
    else .ok { frame with mem := (Copy.mk dest.toNat segment).put frame.mem }
  else .ok frame

/-- `dest_pos` -/
def destPos (s : Depayloader) (h : Segment) : ℤ := h.lineNo * s.lineStride + h.pOffset * s.bpp

/-- A turn of the loop over the segments. -/
def takeSegment (s : Depayloader) (data : List Byte) (frame : Frame) (h : Segment × ℕ) :
    Except Fault (Depayloader × Frame) :=
  if ¬ (IsInt (h.1.lineNo * s.lineStride) ∧ IsInt (h.1.pOffset * s.bpp) ∧
      IsInt (s.destPos h.1)) then .error .overflow
  else
    (copyInto frame (s.destPos h.1) ((data.drop h.2).take h.1.length)).map fun frame =>
      ({ s with maxY := max s.maxY h.1.lineNo }, frame)

/-- The loop over the segments. -/
def takeSegments (data : List Byte) :
    List (Segment × ℕ) → Depayloader → Frame → Except Fault (Depayloader × Frame)
  | [], s, frame => .ok (s, frame)
  | h :: headers, s, frame => do
      let next ← s.takeSegment data frame h
      takeSegments data headers next.1 next.2

/-- The end of the call: with a marker the frame is handed on. -/
def finish (s : Depayloader) (frame : Frame) (mBit : Bool) :
    Except Fault (Depayloader × List Frame) :=
  if mBit then
    s.finalSize.map fun size => ({ s with currentFrame := none }, [{ frame with size := size }])
  else .ok ({ s with currentFrame := some frame }, [])

/-- The packet, behind the change of the frame. -/
def takePacket (s : Depayloader) (data : List Byte) : Except Fault (Depayloader × List Frame) :=
  match s.currentFrame with
  | none => .ok (s, [])
  | some frame => do
      let taken ← takeSegments data (carried data) s frame
      taken.1.finish taken.2 (data.getD 1 0 &&& 0x80 ≠ 0)

/-- The timestamp of a packet. -/
def timestampOf (data : List Byte) : BitVec 32 :=
  let p (i : ℕ) : Byte := data.getD i 0
  be32 (p 4) (p 5) (p 6) (p 7)

/-- `st2110_20_depayloader_pad_push`: the frames that it hands on. -/
def padPush (s : Depayloader) (fresh : Option (ℕ → Byte)) (buf : Rtp.Buffer) :
    Except Fault (Depayloader × List Frame) :=
  if buf.eos then .ok (s, [{ size := 0, mem := fun _ => 0, pts := 0, eos := true }])
  else if buf.data.length < 20 then .ok (s, [])
  else do
    let changed ← s.changeFrame fresh (timestampOf buf.data)
    let taken ← changed.1.takePacket buf.data
    return (taken.1, changed.2 ++ taken.2)

/-- Packets one after the other, with what their allocations hold. -/
def padPushAll : List (Rtp.Buffer × Option (ℕ → Byte)) → Depayloader →
    Except Fault (Depayloader × List Frame)
  | [], s => .ok (s, [])
  | (buf, fresh) :: packets, s => do
      let one ← s.padPush fresh buf
      let rest ← padPushAll packets one.1
      return (rest.1, one.2 ++ rest.2)

/-- A depayloader that has seen no packet. -/
def initial (expectedLineLength : ℤ) : Depayloader where
  expectedLineLength := expectedLineLength
  currentFrame := none
  currentTs := 0
  maxY := 0
  bpp := 0

end Depayloader

/-! ## Headers -/

/-- The numbers of a header are below what their fields can say. -/
structure Segment.Field (h : Segment) : Prop where
  length : h.length < 2 ^ 16
  lineNo : h.lineNo < 2 ^ 15
  pOffset : h.pOffset < 2 ^ 15

theorem toNat_and_lt (x : BitVec 16) : (x &&& 0x7fff).toNat < 2 ^ 15 := by
  rw [BitVec.toNat_and]
  exact Nat.lt_of_le_of_lt Nat.and_le_right (by decide)

theorem field_of_mem_readHeaders {data : List Byte} {left offset : ℕ} {h : Segment}
    (hh : h ∈ (readHeaders data left offset).1) : h.Field := by
  induction left generalizing offset with
  | zero => cases hh
  | succ left ih =>
      rw [readHeaders] at hh
      dsimp only at hh
      split at hh
      · split at hh
        · rcases List.mem_cons.mp hh with rfl | hrest
          · exact ⟨BitVec.isLt _, toNat_and_lt _, toNat_and_lt _⟩
          · exact ih hrest
        · obtain rfl := List.mem_singleton.mp hh
          exact ⟨BitVec.isLt _, toNat_and_lt _, toNat_and_lt _⟩
      · cases hh

theorem mem_of_mem_carriedFrom {size : ℕ} {headers : List Segment} {offset : ℕ} {h : Segment × ℕ}
    (hh : h ∈ carriedFrom size headers offset) : h.1 ∈ headers := by
  induction headers generalizing offset with
  | nil => cases hh
  | cons first headers ih =>
      rw [carriedFrom] at hh
      split at hh
      · cases hh
      · rcases List.mem_cons.mp hh with rfl | hrest
        · exact List.mem_cons_self
        · exact List.mem_cons_of_mem _ (ih hrest)

theorem field_of_mem_carried {data : List Byte} {h : Segment × ℕ} (hh : h ∈ carried data) :
    h.1.Field :=
  field_of_mem_readHeaders (mem_of_mem_carriedFrom hh)

namespace Depayloader

variable {s : Depayloader} {frame : Frame} {data : List Byte} {h : Segment × ℕ}

/-! ## A segment -/

/-- A copy that ends at a number of the machine stays within the frame, or is left out. -/
theorem copyInto_eq {dest : ℤ} {segment : List Byte} (hsize : frame.size = capacity)
    (hdest : 0 ≤ dest) (hend : dest + segment.length < 2 ^ 31) :
    copyInto frame dest segment = .ok
      { frame with
        mem := putAll (if dest + segment.length ≤ capacity then [⟨dest.toNat, segment⟩] else [])
          frame.mem } := by
  have hint : IsInt (dest + segment.length) := ⟨by omega, hend⟩
  rw [copyInto, if_neg (not_not.mpr hint)]
  by_cases hfits : dest + segment.length ≤ capacity
  · rw [if_pos ⟨by omega, hsize ▸ hfits⟩, if_neg (by omega), if_pos hfits]
    rfl
  · rw [if_neg fun hand => hfits (hsize ▸ hand.2), if_neg hfits]
    rfl

/-- The lines of the depayloader are as long as expected, or as 1920 pixels are. -/
def strideFor (expectedLineLength : ℤ) : ℤ :=
  if expectedLineLength > 0 then expectedLineLength else 3840

theorem strideFor_pos (expectedLineLength : ℤ) : 1 ≤ strideFor expectedLineLength := by
  rw [strideFor]
  split <;> omega

theorem lineStride_eq (hbpp : s.bpp = 2) : s.lineStride = strideFor s.expectedLineLength := by
  rw [lineStride, strideFor, hbpp]
  rfl

/-- The segment is copied to where its header says, when its line begins at a number of the machine
that leaves room for the rest. -/
theorem takeSegment_eq (hbpp : s.bpp = 2) (hsize : frame.size = capacity) (hfield : h.1.Field)
    (hline : h.1.lineNo * s.lineStride < 2 ^ 30) :
    s.takeSegment data frame h = .ok
      ({ s with maxY := max s.maxY h.1.lineNo },
        { frame with
          mem := putAll
            (if s.destPos h.1 + ((data.drop h.2).take h.1.length).length ≤ capacity then
              [⟨(s.destPos h.1).toNat, (data.drop h.2).take h.1.length⟩] else []) frame.mem }) := by
  obtain ⟨hlength, -, hoffset⟩ := hfield
  have hstride : 0 ≤ s.lineStride := by
    rw [lineStride_eq hbpp]
    have := strideFor_pos s.expectedLineLength
    omega
  have hrow : 0 ≤ (h.1.lineNo : ℤ) * s.lineStride := Int.mul_nonneg (by omega) hstride
  have hdest : s.destPos h.1 = h.1.lineNo * s.lineStride + h.1.pOffset * 2 := by
    rw [destPos, hbpp]
  have hbytes : ((data.drop h.2).take h.1.length).length ≤ h.1.length := List.length_take_le _ _
  have hints : IsInt (h.1.lineNo * s.lineStride) ∧ IsInt (h.1.pOffset * s.bpp) ∧
      IsInt (s.destPos h.1) := by
    rw [hdest, hbpp]
    exact ⟨⟨by omega, by omega⟩, ⟨by omega, by omega⟩, by omega, by omega⟩
  rw [takeSegment, if_neg (not_not.mpr hints), copyInto_eq hsize (by omega) (by omega)]
  rfl

/-! ## The condition -/

/-- A line fits into the frame, and so does the picture down to every line that a segment of the
packet is for. -/
def Fits (expectedLineLength : ℤ) (data : List Byte) : Prop :=
  strideFor expectedLineLength ≤ capacity ∧
    ∀ h ∈ carried data, strideFor expectedLineLength * (h.1.lineNo + 1) ≤ capacity

instance (expectedLineLength : ℤ) (data : List Byte) : Decidable (Fits expectedLineLength data) :=
  inferInstanceAs (Decidable (_ ∧ _))

/-- The frame has all of its allocation, and its lines so far fit. -/
structure Within (expectedLineLength : ℤ) (s : Depayloader) (frame : Frame) : Prop where
  setting : s.expectedLineLength = expectedLineLength
  bpp : s.bpp = 2
  size : frame.size = capacity
  lines : strideFor expectedLineLength * (s.maxY + 1) ≤ capacity

variable {expectedLineLength : ℤ}

theorem Within.finalSize (hwithin : Within expectedLineLength s frame) :
    s.finalSize = .ok (strideFor expectedLineLength * (s.maxY + 1)) := by
  have hstride := strideFor_pos expectedLineLength
  have hpos : 0 ≤ strideFor expectedLineLength * ((s.maxY : ℤ) + 1) :=
    Int.mul_nonneg (by omega) (by omega)
  have hlines := hwithin.lines
  have hroom : (capacity : ℤ) = 8388608 := rfl
  rw [Depayloader.finalSize, lineStride_eq hwithin.bpp, hwithin.setting,
    if_pos ⟨by omega, by omega⟩]

/-- **A segment of a line that fits keeps the frame within its allocation.** -/
theorem Within.takeSegment (hwithin : Within expectedLineLength s frame) (hfield : h.1.Field)
    (hfits : strideFor expectedLineLength * (h.1.lineNo + 1) ≤ capacity) (data : List Byte) :
    ∃ s' frame', s.takeSegment data frame h = .ok (s', frame') ∧
      Within expectedLineLength s' frame' := by
  obtain ⟨hsetting, hbpp, hsize, hlines⟩ := hwithin
  have hstride := strideFor_pos expectedLineLength
  have hroom : (capacity : ℤ) = 8388608 := rfl
  have hline : h.1.lineNo * s.lineStride < 2 ^ 30 := by
    rw [lineStride_eq hbpp, hsetting, mul_comm]
    rw [mul_add, mul_one] at hfits
    omega
  refine ⟨_, _, takeSegment_eq hbpp hsize hfield hline, hsetting, hbpp, hsize, ?_⟩
  rcases max_choice s.maxY h.1.lineNo with hmax | hmax
  · rw [hmax]
    exact hlines
  · rw [hmax]
    exact hfits

theorem Within.takeSegments (data : List Byte) {headers : List (Segment × ℕ)} :
    ∀ {s : Depayloader} {frame : Frame}, Within expectedLineLength s frame →
      (∀ h ∈ headers, h.1.Field) →
      (∀ h ∈ headers, strideFor expectedLineLength * (h.1.lineNo + 1) ≤ capacity) →
      ∃ s' frame', takeSegments data headers s frame = .ok (s', frame') ∧
        Within expectedLineLength s' frame' := by
  induction headers with
  | nil => exact fun hwithin _ _ => ⟨_, _, rfl, hwithin⟩
  | cons h headers ih =>
      intro s frame hwithin hfield hfits
      obtain ⟨s₁, frame₁, hfirst, hwithin₁⟩ := hwithin.takeSegment (hfield h List.mem_cons_self)
        (hfits h List.mem_cons_self) data
      obtain ⟨s₂, frame₂, hrest, hwithin₂⟩ := ih hwithin₁
        (fun h' hh' => hfield h' (List.mem_cons_of_mem h hh'))
        (fun h' hh' => hfits h' (List.mem_cons_of_mem h hh'))
      exact ⟨s₂, frame₂, by rw [Depayloader.takeSegments, hfirst]; exact hrest, hwithin₂⟩

/-! ## Runs -/

/-- The frame that is being filled, if there is one, is within its allocation. -/
structure Open (expectedLineLength : ℤ) (s : Depayloader) : Prop where
  setting : s.expectedLineLength = expectedLineLength
  within : ∀ frame, s.currentFrame = some frame → Within expectedLineLength s frame

theorem open_initial (expectedLineLength : ℤ) : Open expectedLineLength (initial expectedLineLength) :=
  ⟨rfl, fun _ hframe => nomatch hframe⟩

/-- The call goes through, every frame that it hands on has its bytes, and so has the one that
is left. -/
def Keeps (expectedLineLength : ℤ) (result : Except Fault (Depayloader × List Frame)) : Prop :=
  ∃ s frames, result = .ok (s, frames) ∧ Open expectedLineLength s ∧
    ∀ f ∈ frames, f.size ≤ capacity

theorem newFrame_open (hsetting : s.expectedLineLength = expectedLineLength)
    (hline : strideFor expectedLineLength ≤ capacity) (fresh : Option (ℕ → Byte))
    (ts : BitVec 32) : Open expectedLineLength (s.newFrame fresh ts) := by
  cases fresh with
  | none => exact ⟨hsetting, fun _ hframe => nomatch hframe⟩
  | some mem =>
      refine ⟨hsetting, fun frame hframe => ?_⟩
      cases hframe
      refine ⟨hsetting, rfl, rfl, ?_⟩
      rw [newFrame, Nat.cast_zero, zero_add, mul_one]
      exact hline

theorem Open.changeFrame (hopen : Open expectedLineLength s)
    (hline : strideFor expectedLineLength ≤ capacity) (fresh : Option (ℕ → Byte))
    (ts : BitVec 32) : Keeps expectedLineLength (s.changeFrame fresh ts) := by
  rw [Depayloader.changeFrame]
  split
  · exact ⟨s, [], rfl, hopen, nofun⟩
  · have hnew := newFrame_open hopen.setting hline fresh ts
    cases hcurrent : s.currentFrame with
    | none => exact ⟨_, [], by rw [pushCurrent, hcurrent]; rfl, hnew, nofun⟩
    | some frame =>
        have hwithin := hopen.within frame hcurrent
        refine ⟨_, _, by rw [pushCurrent, hcurrent]; simp only [hwithin.finalSize]; rfl, hnew, ?_⟩
        intro f hf
        obtain rfl := List.mem_singleton.mp hf
        exact hwithin.lines

theorem Open.takePacket (hopen : Open expectedLineLength s) (hfits : Fits expectedLineLength data) :
    Keeps expectedLineLength (s.takePacket data) := by
  rw [Depayloader.takePacket]
  cases hcurrent : s.currentFrame with
  | none => exact ⟨s, [], rfl, hopen, nofun⟩
  | some frame =>
      obtain ⟨s', frame', htaken, hwithin⟩ := (hopen.within frame hcurrent).takeSegments data
        (fun _ => field_of_mem_carried) hfits.2
      dsimp only
      rw [htaken]
      change Keeps expectedLineLength (s'.finish frame' (data.getD 1 0 &&& 0x80 ≠ 0))
      rw [finish]
      split
      · rw [hwithin.finalSize]
        refine ⟨_, _, rfl, ⟨hwithin.setting, fun _ hframe => nomatch hframe⟩, fun f hf => ?_⟩
        obtain rfl := List.mem_singleton.mp hf
        exact hwithin.lines
      · refine ⟨_, _, rfl, ⟨hwithin.setting, fun f hf => ?_⟩, nofun⟩
        cases hf
        exact ⟨hwithin.setting, hwithin.bpp, hwithin.size, hwithin.lines⟩

/-- The condition on a buffer: one that is looked at has only lines that fit. -/
def Accepts (expectedLineLength : ℤ) (buf : Rtp.Buffer) : Prop :=
  buf.eos = true ∨ buf.data.length < 20 ∨ Fits expectedLineLength buf.data

instance (expectedLineLength : ℤ) (buf : Rtp.Buffer) : Decidable (Accepts expectedLineLength buf) :=
  inferInstanceAs (Decidable (_ ∨ _))

/-- **One packet.** -/
theorem Open.padPush {buf : Rtp.Buffer} (hopen : Open expectedLineLength s)
    (haccepts : Accepts expectedLineLength buf) (fresh : Option (ℕ → Byte)) :
    Keeps expectedLineLength (s.padPush fresh buf) := by
  rw [Depayloader.padPush]
  split
  · refine ⟨s, _, rfl, hopen, fun f hf => ?_⟩
    obtain rfl := List.mem_singleton.mp hf
    decide
  · rename_i heos
    split
    · exact ⟨s, [], rfl, hopen, nofun⟩
    · rename_i hlong
      have hfits := (haccepts.resolve_left heos).resolve_left hlong
      obtain ⟨s₁, pushed, hchange, hopen₁, hpushed⟩ :=
        hopen.changeFrame hfits.1 fresh (timestampOf buf.data)
      obtain ⟨s₂, taken, htake, hopen₂, htaken⟩ := hopen₁.takePacket hfits
      refine ⟨s₂, pushed ++ taken, ?_, hopen₂, fun f hf => ?_⟩
      · rw [hchange]
        change (s₁.takePacket buf.data >>= fun taken => .ok (taken.1, pushed ++ taken.2)) = _
        rw [htake]
        rfl
      · rcases List.mem_append.mp hf with hf | hf
        · exact hpushed f hf
        · exact htaken f hf

/-- The calls go through: no copy leaves the allocation and no number the machine; and every frame
that is handed on has its bytes. -/
def Safe (packets : List (Rtp.Buffer × Option (ℕ → Byte))) (s : Depayloader) : Prop :=
  ∃ s' frames, padPushAll packets s = .ok (s', frames) ∧ ∀ f ∈ frames, f.size ≤ capacity

theorem Open.safe {packets : List (Rtp.Buffer × Option (ℕ → Byte))} :
    ∀ {s : Depayloader}, Open expectedLineLength s →
      (∀ p ∈ packets, Accepts expectedLineLength p.1) → Safe packets s := by
  induction packets with
  | nil => exact fun _ _ => ⟨_, [], rfl, nofun⟩
  | cons p packets ih =>
      intro s hopen haccepts
      obtain ⟨s₁, one, hone, hopen₁, hsizes⟩ :=
        hopen.padPush (haccepts p List.mem_cons_self) p.2
      obtain ⟨s₂, rest, hrest, hothers⟩ :=
        ih hopen₁ fun p' hp' => haccepts p' (List.mem_cons_of_mem p hp')
      refine ⟨s₂, one ++ rest, ?_, fun f hf => ?_⟩
      · rw [padPushAll, hone]
        change (padPushAll packets s₁ >>= fun rest => .ok (rest.1, one ++ rest.2)) = _
        rw [hrest]
        rfl
      · rcases List.mem_append.mp hf with hf | hf
        · exact hsizes f hf
        · exact hothers f hf

/-! ## A packet that ends its frame -/

/-- The highest line is known when all segments have been taken. -/
theorem maxY_of_takeSegments {headers : List (Segment × ℕ)} :
    ∀ {s s' : Depayloader} {frame frame' : Frame},
      takeSegments data headers s frame = .ok (s', frame') →
      s'.lineStride = s.lineStride ∧ s.maxY ≤ s'.maxY ∧ ∀ h ∈ headers, h.1.lineNo ≤ s'.maxY := by
  induction headers with
  | nil =>
      intro s s' frame frame' htaken
      obtain ⟨rfl, -⟩ := Prod.mk.inj (Except.ok.inj htaken)
      exact ⟨rfl, le_rfl, nofun⟩
  | cons h headers ih =>
      intro s s' frame frame' htaken
      rw [takeSegments, takeSegment] at htaken
      split at htaken
      · cases htaken
      · cases hcopy : copyInto frame (s.destPos h.1) ((data.drop h.2).take h.1.length) with
        | error fault =>
            rw [hcopy] at htaken
            cases htaken
        | ok frame₁ =>
            rw [hcopy] at htaken
            obtain ⟨hstride, hmax, hlines⟩ := ih htaken
            refine ⟨hstride, (le_max_left _ _).trans hmax, fun h' hh' => ?_⟩
            rcases List.mem_cons.mp hh' with rfl | hrest
            · exact (le_max_right _ _).trans hmax
            · exact hlines h' hrest

/-- The first packet of a depayloader, when it has the marker, is one frame. -/
theorem fits_of_safe {buf : Rtp.Buffer} {mem : ℕ → Byte} (heos : buf.eos = false)
    (hlong : 20 ≤ buf.data.length) (hmarker : buf.data.getD 1 0 &&& 0x80 ≠ 0)
    (hsafe : Safe [(buf, some mem)] (initial expectedLineLength)) :
    Fits expectedLineLength buf.data := by
  obtain ⟨s', frames, hpush, hsizes⟩ := hsafe
  have hstart : (initial expectedLineLength).changeFrame (some mem) (timestampOf buf.data) =
      .ok ((initial expectedLineLength).newFrame (some mem) (timestampOf buf.data), []) := rfl
  rw [padPushAll, padPush, if_neg (by rw [heos]; exact Bool.false_ne_true),
    if_neg (not_lt.mpr hlong), hstart] at hpush
  change (((initial expectedLineLength).newFrame (some mem) (timestampOf buf.data)).takePacket
    buf.data >>= fun taken => .ok (taken.1, [] ++ taken.2)) >>= _ = _ at hpush
  rw [takePacket, newFrame] at hpush
  dsimp only at hpush
  generalize hframe : Frame.mk capacity mem ((timestampOf buf.data).setWidth 64) false = frame
    at hpush
  generalize hs : ({ initial expectedLineLength with
      currentFrame := some frame
      currentTs := timestampOf buf.data
      maxY := 0
      bpp := 2 } : Depayloader) = s at hpush
  have hstride : s.lineStride = strideFor expectedLineLength := by
    rw [← hs]
    exact lineStride_eq rfl
  cases htaken : takeSegments buf.data (carried buf.data) s frame with
  | error fault =>
      rw [htaken] at hpush
      cases hpush
  | ok taken =>
      obtain ⟨hsame, -, hlines⟩ := maxY_of_takeSegments htaken
      rw [htaken] at hpush
      change (taken.1.finish taken.2 (buf.data.getD 1 0 &&& 0x80 ≠ 0) >>=
        fun taken => .ok (taken.1, [] ++ taken.2)) >>= _ = _ at hpush
      rw [finish, if_pos (by simpa using hmarker), finalSize] at hpush
      split at hpush
      · obtain ⟨-, rfl⟩ := Prod.mk.inj (Except.ok.inj hpush)
        have hsize := hsizes _ (List.mem_singleton.mpr rfl)
        dsimp only at hsize
        rw [hsame, hstride] at hsize
        have hpos := strideFor_pos expectedLineLength
        have hmono : ∀ line : ℕ, line ≤ taken.1.maxY →
            strideFor expectedLineLength * ((line : ℤ) + 1) ≤ capacity := fun line hline =>
          (Int.mul_le_mul_of_nonneg_left (by omega) (by omega)).trans hsize
        refine ⟨?_, fun h hh => hmono _ (hlines h hh)⟩
        have hzero := hmono 0 (Nat.zero_le _)
        rwa [Nat.cast_zero, zero_add, mul_one] at hzero
      · cases hpush

/-- **When the frames stay within their allocations.**  In every run whose packets have only lines
that fit, with any length of a line; and for one packet that is a frame, exactly then. -/
theorem frames_stay_within (expectedLineLength : ℤ) :
    (∀ packets : List (Rtp.Buffer × Option (ℕ → Byte)),
      (∀ p ∈ packets, Accepts expectedLineLength p.1) →
        Safe packets (initial expectedLineLength)) ∧
    ∀ (buf : Rtp.Buffer) (mem : ℕ → Byte), buf.eos = false → 20 ≤ buf.data.length →
      buf.data.getD 1 0 &&& 0x80 ≠ 0 →
        (Safe [(buf, some mem)] (initial expectedLineLength) ↔
          Fits expectedLineLength buf.data) := by
  refine ⟨fun packets => (open_initial expectedLineLength).safe, fun buf mem heos hlong hmarker =>
    ⟨fits_of_safe heos hlong hmarker, fun hfits => ?_⟩⟩
  apply (open_initial expectedLineLength).safe
  intro p hp
  obtain rfl := List.mem_singleton.mp hp
  exact .inr (.inr hfits)

/-- A packet with the marker and one empty segment, for the given line. -/
def markerPacket (high low : Byte) : Rtp.Buffer where
  data := [0x80, 0xe0, 0, 0, 0, 0, 0, 0, 0x21, 0x10, 0x20, 0, 0, 0, 0, 0, high, low, 0, 0]
  pts := 0
  eos := false

theorem frames_stay_within_marker :
    Safe [(markerPacket 0x04 0x37, some fun _ => 0)] (initial 0) :=
  (frames_stay_within 0).1 _ fun p hp => by
    obtain rfl := List.mem_singleton.mp hp
    exact .inr (.inr (by decide +kernel))

/-- A frame of line 32767 is handed on with 15 times the bytes that it has. -/
theorem marker_leaves_allocation :
    (padPushAll [(markerPacket 0x7f 0xff, some fun _ => 0)] (initial 0)).map
        (fun result => result.2.map Frame.size) = .ok [125829120] ∧
      ¬ Safe [(markerPacket 0x7f 0xff, some fun _ => 0)] (initial 0) := by
  refine ⟨rfl, fun hsafe => ?_⟩
  have hfits := fits_of_safe rfl (by decide) (by decide) hsafe
  exact absurd hfits (by decide +kernel)

end Depayloader

end Zstreamer.St2110.Video
