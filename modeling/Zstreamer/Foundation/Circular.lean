/-
# Rings of slots

Indices that wrap around, the lists that such a ring holds, and every so many elements of a list.
-/

import Mathlib.Data.List.Basic
import Mathlib.Data.List.GetD
import Mathlib.Data.Nat.Bitwise
import Mathlib.Data.Nat.ModEq
import Mathlib.Data.Nat.Size
import Mathlib.Logic.Function.Basic
import Mathlib.Order.Basic

/-! # Rings whose size is a power of two

Rings indexed by counters that never wrap back: a position is reduced to a slot
by masking with the size less one.  Two things are needed of that arithmetic.  The
size is found by smearing the highest bit of a number over all the lower ones, and
positions of one window of the ring's size use different slots.
-/

namespace Zstreamer.Foundation

open List Function

/-- Bit `i` of `y` says whether `x` has a bit in the `width` places from `i` on. -/
def Smeared (width x y : ℕ) : Prop :=
  ∀ i, y.testBit i = true ↔ ∃ j, i ≤ j ∧ j < i + width ∧ x.testBit j = true

theorem Smeared.self (x : ℕ) : Smeared 1 x x := by
  intro i
  constructor
  · intro hbit
    exact ⟨i, le_rfl, by omega, hbit⟩
  · rintro ⟨j, hle, hlt, hbit⟩
    obtain rfl : j = i := by omega
    exact hbit

/-- Shifting by the width reached so far and joining doubles the width. -/
theorem Smeared.double {width x y : ℕ} (hsmeared : Smeared width x y) :
    Smeared (width + width) x (y ||| y >>> width) := by
  intro i
  rw [Nat.testBit_or, Nat.testBit_shiftRight, Bool.or_eq_true, hsmeared i, hsmeared (width + i)]
  constructor
  · rintro (⟨j, hle, hlt, hbit⟩ | ⟨j, hle, hlt, hbit⟩)
    · exact ⟨j, hle, by omega, hbit⟩
    · exact ⟨j, by omega, by omega, hbit⟩
  · rintro ⟨j, hle, hlt, hbit⟩
    by_cases hnear : j < i + width
    · exact .inl ⟨j, hle, hnear, hbit⟩
    · exact .inr ⟨j, by omega, by omega, hbit⟩

/-- Smeared over its whole length, a number becomes a run of ones. -/
theorem Smeared.eq_two_pow_sub_one {width x y : ℕ} (hsmeared : Smeared width x y)
    (hx : x < 2 ^ width) : y = 2 ^ x.size - 1 := by
  refine Nat.eq_of_testBit_eq fun i => ?_
  rw [Nat.testBit_two_pow_sub_one, Bool.eq_iff_iff, hsmeared i, decide_eq_true_iff]
  constructor
  · rintro ⟨j, hle, -, hbit⟩
    have htop : 2 ^ j ≤ x := Nat.ge_two_pow_of_testBit hbit
    have hlt : j < x.size := Nat.lt_size.mpr htop
    omega
  · intro hlt
    obtain ⟨j, hle, hbit⟩ := Nat.exists_ge_and_testBit_of_ge_two_pow (Nat.lt_size.mp hlt)
    have hj : j < width := by
      by_contra hge
      have := Nat.testBit_lt_two_pow (lt_of_lt_of_le hx (Nat.pow_le_pow_right (by omega)
        (not_lt.mp hge)))
      rw [this] at hbit
      cases hbit
    exact ⟨j, hle, by omega, hbit⟩

/-- Different positions less than one turn apart use different slots. -/
theorem mod_ne_of_window {n a b : ℕ} (hlt : a < b) (hwindow : b < a + n) : a % n ≠ b % n := by
  intro heq
  have hdvd : n ∣ b - a := (Nat.modEq_iff_dvd' hlt.le).mp heq
  have hle := Nat.le_of_dvd (by omega) hdvd
  omega

/-- Positions of one window that use the same slot are equal. -/
theorem eq_of_mod_eq {n low a b : ℕ} (ha : low ≤ a) (ha' : a < low + n) (hb : low ≤ b)
    (hb' : b < low + n) (heq : a % n = b % n) : a = b := by
  rcases lt_trichotomy a b with hlt | rfl | hlt
  · exact absurd heq (mod_ne_of_window hlt (by omega))
  · rfl
  · exact absurd heq.symm (mod_ne_of_window hlt (by omega))

end Zstreamer.Foundation

/-! # Lists in a ring of slots

A list is held in so many slots of a ring from a position on, and wraps.  Moving the position
drops elements from the front; writing the slots behind the list appends to it, as long as
there is room.
-/

namespace Zstreamer.Foundation

open List Function

variable {α : Type*}

/-- What stands in `len` slots of a ring of `cap`, from `start` on. -/
def window (cell : ℕ → α) (cap start len : ℕ) : List α :=
  (range len).map fun i => cell ((start + i) % cap)

section Window

variable {cell cell' : ℕ → α} {cap start len n : ℕ}

@[simp]
theorem length_window (cell : ℕ → α) (cap start len : ℕ) :
    (window cell cap start len).length = len := by
  rw [window, length_map, length_range]

theorem getElem?_window (cell : ℕ → α) (cap start : ℕ) {i : ℕ} (hi : i < len) :
    (window cell cap start len)[i]? = some (cell ((start + i) % cap)) := by
  rw [window, getElem?_map, getElem?_range hi, Option.map_some]

theorem window_congr (h : ∀ i, i < len → cell ((start + i) % cap) = cell' ((start + i) % cap)) :
    window cell cap start len = window cell' cap start len :=
  map_congr_left fun i hi => h i (mem_range.mp hi)

/-- Two windows one behind the other. -/
theorem window_add (cell : ℕ → α) (cap start len n : ℕ) :
    window cell cap start (len + n) =
      window cell cap start len ++ (range n).map fun i => cell ((start + len + i) % cap) := by
  rw [window, range_add, map_append, map_map, ← window]
  refine congrArg (_ ++ ·) (map_congr_left fun i _ => ?_)
  exact congrArg cell (congrArg (· % cap) (Nat.add_assoc start len i).symm)

/-- **Moving the position drops what is in front of it.** -/
theorem window_drop (cell : ℕ → α) (cap start : ℕ) {k : ℕ} (hk : k ≤ len) :
    window cell cap ((start + k) % cap) (len - k) = (window cell cap start len).drop k := by
  obtain ⟨m, rfl⟩ := Nat.exists_eq_add_of_le hk
  rw [window_add, drop_left' (length_window cell cap start k), Nat.add_sub_cancel_left]
  refine map_congr_left fun i _ => ?_
  rw [Nat.mod_add_mod]

/-- The first of them. -/
theorem window_take (cell : ℕ → α) (cap start : ℕ) {k : ℕ} (hk : k ≤ len) :
    window cell cap start k = (window cell cap start len).take k := by
  obtain ⟨m, rfl⟩ := Nat.exists_eq_add_of_le hk
  rw [window_add, take_left' (length_window cell cap start k)]

/-- **Writing the slots behind a list appends to it**, where they are not its own. -/
theorem window_append {value : ℕ → α} (hroom : len + n ≤ cap)
    (hold : ∀ s, (∀ i, i < n → s ≠ (start + len + i) % cap) → cell' s = cell s)
    (hnew : ∀ i, i < n → cell' ((start + len + i) % cap) = value i) :
    window cell' cap start (len + n) = window cell cap start len ++ (range n).map value := by
  have hfirst : window cell' cap start len = window cell cap start len := by
    refine window_congr fun i hi => hold _ fun j hj => ?_
    exact mod_ne_of_window (by omega) (by omega)
  rw [window_add, hfirst]
  exact congrArg (_ ++ ·) (map_congr_left fun i hi => hnew i (mem_range.mp hi))

end Window

/-! ## Writing slots one after the other -/

/-- So many slots are written, each with a value of its own. -/
def writeAll (slot : ℕ → ℕ) (value : ℕ → α) (n : ℕ) (cell : ℕ → α) : ℕ → α :=
  (range n).foldl (fun cell i => update cell (slot i) (value i)) cell

section WriteAll

variable {slot : ℕ → ℕ} {value : ℕ → α} {cell : ℕ → α} {n : ℕ}

theorem writeAll_succ (slot : ℕ → ℕ) (value : ℕ → α) (n : ℕ) (cell : ℕ → α) :
    writeAll slot value (n + 1) cell =
      update (writeAll slot value n cell) (slot n) (value n) := by
  rw [writeAll, range_succ, foldl_append]
  rfl

/-- A slot that is not written keeps what it had. -/
theorem writeAll_of_ne {s : ℕ} (hs : ∀ i, i < n → s ≠ slot i) :
    writeAll slot value n cell s = cell s := by
  induction n with
  | zero => rfl
  | succ n ih =>
      rw [writeAll_succ, update_of_ne (hs n (Nat.lt_succ_self n)),
        ih fun i hi => hs i (Nat.lt_succ_of_lt hi)]

/-- A slot has the value written last. -/
theorem writeAll_of_lt (hslot : ∀ i j, i < j → j < n → slot i ≠ slot j) {i : ℕ} (hi : i < n) :
    writeAll slot value n cell (slot i) = value i := by
  induction n with
  | zero => exact absurd hi (Nat.not_lt_zero i)
  | succ n ih =>
      rw [writeAll_succ]
      rcases Nat.lt_succ_iff_lt_or_eq.mp hi with hlt | rfl
      · rw [update_of_ne (hslot i n hlt (Nat.lt_succ_self n)),
          ih (fun i j hij hj => hslot i j hij (Nat.lt_succ_of_lt hj)) hlt]
      · exact update_self _ _ _

/-- Writing two arrays is writing pairs. -/
theorem writeAll_map₂ {β γ : Type*} (f : α → β → γ) (slot : ℕ → ℕ) (value : ℕ → α) (other : ℕ → β)
    (n : ℕ) (cell : ℕ → α) (cell' : ℕ → β) (s : ℕ) :
    f (writeAll slot value n cell s) (writeAll slot other n cell' s) =
      writeAll slot (fun i => f (value i) (other i)) n (fun s => f (cell s) (cell' s)) s := by
  induction n with
  | zero => rfl
  | succ n ih =>
      rw [writeAll_succ, writeAll_succ, writeAll_succ]
      by_cases hs : s = slot n
      · rw [hs, update_self, update_self, update_self]
      · rw [update_of_ne hs, update_of_ne hs, update_of_ne hs, ih]

/-- **Writing the slots behind a list of the ring appends the values.** -/
theorem window_writeAll {cap start len : ℕ} (hroom : len + n ≤ cap) (value : ℕ → α)
    (cell : ℕ → α) :
    window (writeAll (fun i => (start + len + i) % cap) value n cell) cap start (len + n) =
      window cell cap start len ++ (range n).map value :=
  window_append hroom (fun _ hs => writeAll_of_ne hs) fun _ hi =>
    writeAll_of_lt (fun _ _ hij hj => mod_ne_of_window (by omega) (by omega)) hi

/-- **Writing more slots than are free** writes over the front of the list. -/
theorem window_writeAll_over {cap start len : ℕ} (hlen : len ≤ cap) (hn : n ≤ cap) (value : ℕ → α)
    (cell : ℕ → α) :
    window (writeAll (fun i => (start + len + i) % cap) value n cell) cap start len =
      ((range n).map value).drop (cap - len) ++
        (window cell cap start len).drop (len + n - cap) := by
  have hvalues : (((range n).map value).drop (cap - len)).length = len + n - cap := by
    rw [length_drop, length_map, length_range]
    omega
  have hlength : (((range n).map value).drop (cap - len) ++
      (window cell cap start len).drop (len + n - cap)).length = len := by
    rw [length_append, hvalues, length_drop, length_window]
    omega
  refine ext_getElem? fun j => ?_
  rcases Nat.lt_or_ge j len with hj | hj
  case inr =>
    rw [getElem?_eq_none ((length_window _ _ _ _).trans_le hj),
      getElem?_eq_none (hlength.trans_le hj)]
  case inl =>
    rw [getElem?_window _ _ _ hj]
    rcases Nat.lt_or_ge j (len + n - cap) with hover | hover
    · -- the slot has been written once around the ring
      have hslot : (start + len + (cap - len + j)) % cap = (start + j) % cap := by
        have hsum : start + len + (cap - len + j) = start + j + cap := by omega
        rw [hsum, Nat.add_mod_right]
      have hwritten := @writeAll_of_lt _ (fun i => (start + len + i) % cap) value cell n
        (fun _ _ hij hj => mod_ne_of_window (by omega) (by omega)) (cap - len + j) (by omega)
      rw [getElem?_append_left (hover.trans_eq hvalues.symm), getElem?_drop,
        getElem?_map, getElem?_range (by omega), ← hslot]
      exact congrArg some hwritten
    · have hkept := @writeAll_of_ne _ (fun i => (start + len + i) % cap) value cell n
        ((start + j) % cap) fun i hi => by
          rw [Nat.add_assoc start len i]
          exact mod_ne_of_window (by omega) (by omega)
      have hbehind : len + n - cap + (j - (len + n - cap)) = j := by omega
      rw [getElem?_append_right (hvalues.trans_le hover), hvalues, getElem?_drop, hbehind,
        getElem?_window _ _ _ hj]
      exact congrArg some hkept

end WriteAll

/-! ## A list that drops its oldest elements -/

/-- What is left of a list when only so many elements are kept, the newest. -/
def keepNewest (cap : ℕ) (l : List α) : List α := l.drop (l.length - cap)

theorem length_keepNewest (cap : ℕ) (l : List α) :
    (keepNewest cap l).length = min l.length cap := by
  rw [keepNewest, length_drop]
  omega

theorem map_keepNewest {β : Type*} (f : α → β) (cap : ℕ) (l : List α) :
    (keepNewest cap l).map f = keepNewest cap (l.map f) := by
  rw [keepNewest, keepNewest, map_drop, length_map]

theorem keepNewest_of_le {cap : ℕ} {l : List α} (h : l.length ≤ cap) : keepNewest cap l = l := by
  rw [keepNewest, Nat.sub_eq_zero_of_le h, drop_zero]

/-- Room is made before elements are appended. -/
theorem keepNewest_append {cap : ℕ} {l values : List α} (hvalues : values.length ≤ cap) :
    keepNewest cap (l ++ values) = l.drop (l.length + values.length - cap) ++ values := by
  rw [keepNewest, length_append, drop_append_of_le_length (by omega)]

/-- Of more elements than are kept, the first are not needed. -/
theorem keepNewest_append_drop {cap : ℕ} {l values : List α} (h : cap ≤ values.length) :
    keepNewest cap (l ++ values) = values.drop (values.length - cap) := by
  rw [keepNewest, length_append, drop_append,
    drop_eq_nil_of_le (by omega), nil_append]
  congr 1
  omega

end Zstreamer.Foundation

/-! # Every so many elements of a list

The elements at the multiples of a number.  Lists whose lengths are multiples of it can be put
together and taken apart without moving any of them to another place.
-/

namespace Zstreamer.Foundation

open List Function

variable {α β : Type*} [Inhabited α]

/-- The elements at the multiples of `g`, for as many whole steps as the list has. -/
def strided (g : ℕ) (l : List α) : List α :=
  (range (l.length / g)).map fun a => l.getD (g * a) default

@[simp]
theorem length_strided (g : ℕ) (l : List α) : (strided g l).length = l.length / g := by
  rw [strided, length_map, length_range]

/-- **Lists that are put together**, the first of whole steps. -/
theorem strided_append {g : ℕ} (hg : 0 < g) {l : List α} (hl : g ∣ l.length) (l' : List α) :
    strided g (l ++ l') = strided g l ++ strided g l' := by
  obtain ⟨k, hk⟩ := hl
  rw [strided, strided, strided, length_append, hk, Nat.mul_add_div hg,
    Nat.mul_div_cancel_left k hg, range_add, map_append, map_map]
  refine congrArg₂ (· ++ ·) (map_congr_left fun a ha => ?_) (map_congr_left fun a _ => ?_)
  · have hlt : g * a < g * k := Nat.mul_lt_mul_of_pos_left (mem_range.mp ha) hg
    exact getD_append _ _ _ _ (hlt.trans_eq hk.symm)
  · show (l ++ l').getD (g * (k + a)) default = _
    rw [Nat.mul_add, getD_append_right _ _ _ _ (by omega), hk, Nat.add_sub_cancel_left]

/-- **Whole steps are dropped.** -/
theorem strided_drop {g : ℕ} (hg : 0 < g) (l : List α) (d : ℕ) :
    strided g (l.drop (g * d)) = (strided g l).drop d := by
  rcases Nat.le_total (g * d) l.length with hle | hle
  · have hfirst : (l.take (g * d)).length = g * d := by
      rw [length_take, Nat.min_eq_left hle]
    have hwhole := strided_append hg (l := l.take (g * d)) ⟨d, hfirst⟩ (l.drop (g * d))
    rw [take_append_drop] at hwhole
    have hcount : (strided g (l.take (g * d))).length = d := by
      rw [length_strided, hfirst, Nat.mul_div_cancel_left d hg]
    rw [hwhole, drop_left' hcount]
  · have hcount : (strided g l).length ≤ d := by
      rw [length_strided]
      exact Nat.div_le_of_le_mul hle
    rw [drop_eq_nil_of_le hle, drop_eq_nil_of_le hcount, strided, length_nil,
      Nat.zero_div]
    rfl

/-- The first element, of a list that has one step. -/
theorem head_strided {g : ℕ} (hg : 0 < g) {l : List α} (hl : g ≤ l.length) :
    ∃ rest, strided g l = l.getD 0 default :: rest := by
  obtain ⟨k, hk⟩ : ∃ k, l.length / g = k + 1 :=
    ⟨l.length / g - 1, (Nat.sub_add_cancel ((Nat.one_le_div_iff hg).mpr hl)).symm⟩
  rw [strided, hk, range_succ_eq_map]
  exact ⟨_, rfl⟩

/-- Of a list that a function gives. -/
theorem strided_map_range (g : ℕ) (f : ℕ → α) (n : ℕ) :
    strided g ((range n).map f) = (range (n / g)).map fun a => f (g * a) := by
  rw [strided, length_map, length_range]
  refine map_congr_left fun a ha => ?_
  have hlt : g * a < n := by
    have ha := mem_range.mp ha
    have hle : g * (a + 1) ≤ n := Nat.le_trans (Nat.mul_le_mul_left g ha) (Nat.mul_div_le n g)
    have hg : 0 < g := Nat.pos_of_ne_zero fun hzero => by
      rw [hzero, Nat.div_zero] at ha
      exact Nat.not_lt_zero a ha
    rw [Nat.mul_succ] at hle
    omega
  rw [getD_eq_getElem _ _ (by rwa [length_map, length_range]), getElem_map,
    getElem_range]

end Zstreamer.Foundation
