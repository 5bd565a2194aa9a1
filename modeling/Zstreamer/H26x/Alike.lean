/-
# What times and flags do not change

The times and the flags of buffers are handed through: nothing that the parser decides
depends on them.  Two parsers that differ in nothing else stay so, and what goes out has
the same caps and the same bytes.
-/

import Zstreamer.H26x.AccessUnits

namespace Zstreamer.H26x

open Foundation

/-- What goes out without its times and flags. -/
def Event.untimed : Event → Event
  | .buffer b => .buffer { b with stamp := ⟨0, 0, 0⟩, flags := ⟨false, false⟩ }
  | .caps c => .caps c
  | .dropped data => .dropped data

namespace Assembler

/-- Nothing but times, flags and the number of calls is different. -/
inductive Alike : Assembler → Assembler → Prop
  | mk (a : Assembler) (stamp : Stamp) (flags : Flags) (sent : List Event) (calls : ℕ)
      (hsent : a.sent.map Event.untimed = sent.map Event.untimed) :
      Alike a { a with auStamp := stamp, auFlags := flags, sent := sent, calls := calls }

theorem Alike.refl (a : Assembler) : Alike a a := .mk a a.auStamp a.auFlags a.sent a.calls rfl

/-- Two results that are the same but for times and flags. -/
structure Agree (x y : Assembler × Bool) : Prop where
  ok : x.2 = y.2
  alike : Alike x.1 y.1

/-- Every call is answered. -/
def always : ℕ → Bool := fun _ => true

theorem Agree.andThen {x y : Assembler × Bool} {f g : Assembler → Assembler × Bool}
    (h : Agree x y) (hnext : ∀ a b, Alike a b → Agree (f a) (g b)) :
    Agree (andThen x f) (andThen y g) := by
  rw [Assembler.andThen, Assembler.andThen, h.ok]
  split
  · exact hnext _ _ h.alike
  · exact h

theorem andThen_ask (a : Assembler) (next : Assembler → Assembler × Bool) :
    Assembler.andThen (a.ask always) next = next { a with calls := a.calls + 1 } := rfl

section Functions

variable {a b : Assembler}

theorem pushCaps_agree (h : Alike a b) : Agree (a.pushCaps always) (b.pushCaps always) := by
  cases h with
  | mk stamp flags sent calls hsent =>
      rw [pushCaps, pushCaps]
      simp only [andThen_ask]
      split
      · exact ⟨rfl, .mk _ _ _ _ _ hsent⟩
      · split
        · exact ⟨rfl, .mk _ _ _ _ _ hsent⟩
        · refine ⟨rfl, .mk _ _ _ _ _ ?_⟩
          rw [List.map_append, List.map_append, hsent]
          rfl

theorem sendBuffer_agree (h : Alike a b) {x y : Out} (hdata : x.data = y.data)
    (hpositions : x.positions = y.positions) :
    Agree (a.sendBuffer always x) (b.sendBuffer always y) := by
  cases h with
  | mk stamp flags sent calls hsent =>
      refine ⟨rfl, .mk _ _ _ _ _ ?_⟩
      change (a.sent ++ [Event.buffer x]).map _ = (sent ++ [Event.buffer y]).map _
      rw [List.map_append, List.map_append, hsent, List.map_singleton, List.map_singleton,
        Event.untimed, Event.untimed, hdata, hpositions]

theorem emit_agree (h : Alike a b) (nal : Nal) (stamp stamp' : Stamp) (flags flags' : Flags) :
    Agree (a.emit always nal stamp flags) (b.emit always nal stamp' flags') := by
  refine (pushCaps_agree h).andThen fun a b h => ?_
  rw [andThen_ask, andThen_ask]
  cases h with
  | mk stamp'' flags'' sent calls hsent =>
      refine sendBuffer_agree ?_ rfl rfl
      exact .mk _ _ _ _ _ hsent

theorem flushAu_agree (h : Alike a b) : Agree (a.flushAu always) (b.flushAu always) := by
  have hau : b.au = a.au := by
    cases h
    rfl
  rw [flushAu, flushAu, hau]
  split
  · exact ⟨rfl, h⟩
  · refine (pushCaps_agree h).andThen fun a b h => ?_
    dsimp only
    rw [andThen_ask, andThen_ask]
    cases h with
    | mk stamp flags sent calls hsent =>
        refine sendBuffer_agree ?_ rfl rfl
        exact .mk _ _ _ _ _ hsent

theorem flushIf_agree (h : Alike a b) {p q : Prop} [Decidable p] [Decidable q] (hpq : p ↔ q) :
    Agree (if p then a.flushAu always else (a, true)) (if q then b.flushAu always else (b, true)) := by
  by_cases hp : p
  · rw [if_pos hp, if_pos (hpq.mp hp)]
    exact flushAu_agree h
  · rw [if_neg hp, if_neg (mt hpq.mpr hp)]
    exact ⟨rfl, h⟩

theorem cache_agree (h : Alike a b) (nal : List Byte) (kind : Kind) :
    Agree (a.cache always nal kind) (b.cache always nal kind) := by
  cases h with
  | mk stamp flags sent calls hsent =>
      rw [cache, cache]
      split
      · exact ⟨rfl, .mk _ _ _ _ _ hsent⟩
      · dsimp only
        split
        · split
          · rw [cacheH264Sps, cacheH264Sps]
            split
            · exact ⟨rfl, .mk _ _ _ _ _ hsent⟩
            · dsimp only
              simp only [andThen_ask]
              split
              · exact ⟨rfl, .mk _ _ _ _ _ hsent⟩
              · split <;> exact ⟨rfl, .mk _ _ _ _ _ hsent⟩
          · rw [cacheH264Pps, cacheH264Pps]
            split
            · exact ⟨rfl, .mk _ _ _ _ _ hsent⟩
            · dsimp only
              simp only [andThen_ask]
              split <;> exact ⟨rfl, .mk _ _ _ _ _ hsent⟩
        · rw [cacheH265, cacheH265, andThen_ask, andThen_ask]
          dsimp only
          split
          · split <;> exact ⟨rfl, .mk _ _ _ _ _ hsent⟩
          · split <;> exact ⟨rfl, .mk _ _ _ _ _ hsent⟩

theorem activateH264Config_alike (h : Alike a b) (ppsId : BitVec 32) :
    Alike (a.activateH264Config ppsId) (b.activateH264Config ppsId) := by
  cases h with
  | mk stamp flags sent calls hsent =>
      rw [activateH264Config, activateH264Config]
      dsimp only
      split
      · exact .mk _ _ _ _ _ hsent
      · split <;> exact .mk _ _ _ _ _ hsent

theorem begun_alike (h : Alike a b) (stamp stamp' : Stamp) :
    Alike (if a.au = [] then { a with auStamp := stamp } else a)
      (if b.au = [] then { b with auStamp := stamp' } else b) := by
  cases h with
  | mk stamp flags sent calls hsent =>
      dsimp only
      split <;> exact .mk _ _ _ _ _ hsent

theorem deliver_agree (h : Alike a b) (nal : Nal) (stamp stamp' : Stamp) (flags flags' : Flags)
    (vcl : Bool) :
    Agree (a.deliver always nal stamp flags vcl) (b.deliver always nal stamp' flags' vcl) := by
  have hbegun := begun_alike h stamp stamp'
  have haggregate : (b.aggregateAu = true) = (a.aggregateAu = true) := by
    cases h
    rfl
  rw [deliver, deliver]
  by_cases hau : a.aggregateAu = true
  · rw [if_neg (not_not.mpr hau), if_neg (not_not.mpr (haggregate.mpr hau))]
    dsimp only
    generalize (if a.au = [] then { a with auStamp := stamp } else a) = a' at hbegun ⊢
    generalize (if b.au = [] then { b with auStamp := stamp' } else b) = b' at hbegun ⊢
    cases hbegun with
    | mk stamp flags sent calls hsent =>
        split
        · exact ⟨rfl, .mk _ _ _ _ _ hsent⟩
        · rw [andThen_ask, andThen_ask]
          exact ⟨rfl, .mk _ _ _ _ _ hsent⟩
  · rw [if_pos hau, if_pos (mt haggregate.mp hau)]
    exact emit_agree h nal stamp stamp' flags flags'

theorem count_agree (h : Alike a b) (nal : Nal) (stamp stamp' : Stamp) (eos eos' : Bool) (kind : Kind) :
    Agree (a.count always nal stamp eos kind) (b.count always nal stamp' eos' kind) := by
  have hcounted : Alike
      { a with parsedNals := a.parsedNals + 1, counted := a.counted ++ [nal.position] }
      { b with parsedNals := b.parsedNals + 1, counted := b.counted ++ [nal.position] } := by
    cases h with
    | mk stamp flags sent calls hsent => exact .mk _ _ _ _ _ hsent
  have hvcl : (kind.vcl ∧ kind.first ∧ a.auHasVcl) ↔ (kind.vcl ∧ kind.first ∧ b.auHasVcl) := by
    cases h
    rfl
  rw [count, count]
  refine (flushIf_agree hcounted hvcl).andThen fun a b h => ?_
  · refine deliver_agree ?_ nal stamp stamp' _ _ kind.vcl
    split
    · have hcodec : b.codec = a.codec := by
        cases h
        rfl
      rw [hcodec]
      split
      · exact activateH264Config_alike h _
      · exact h
    · exact h

/-- **What a NAL unit does is the same but for times and flags.** -/
theorem handleNal_agree (h : Alike a b) (nal : Nal) (stamp stamp' : Stamp) (eos eos' : Bool) :
    Agree (a.handleNal always nal stamp eos) (b.handleNal always nal stamp' eos') := by
  have hcodec : b.codec = a.codec := by
    cases h
    rfl
  have hends (type : Byte) : (a.aggregateAu ∧ a.auHasVcl ∧ endsAu a.codec type) ↔
      (b.aggregateAu ∧ b.auHasVcl ∧ endsAu a.codec type) := by
    cases h
    rfl
  rw [handleNal, handleNal, hcodec]
  split
  · exact ⟨rfl, h⟩
  · exact (flushIf_agree h (hends _)).andThen fun a b h => (cache_agree h nal.bytes _).andThen
      fun a b h => count_agree h nal stamp stamp' eos eos' _

/-- NAL units one after the other, with any times and flags. -/
theorem handleAll_agree (h : Alike a b) (stamp : Stamp) {units : List (Nal × Bool)}
    {as : List Arrival} (hunits : units.map Prod.fst = as.map Arrival.nal) :
    Agree (a.handleAll always stamp units) (b.handleEach always as) := by
  induction units generalizing a b as with
  | nil =>
      obtain rfl := List.map_eq_nil_iff.mp hunits.symm
      exact ⟨rfl, h⟩
  | cons unit units ih =>
      cases as with
      | nil => cases hunits
      | cons first as =>
          obtain ⟨hfirst, hlater⟩ := List.cons.inj hunits
          rw [handleAll, handleEach, ← hfirst]
          exact (handleNal_agree h unit.1 stamp first.stamp unit.2 first.eos).andThen
            fun a b h => ih h hlater

theorem finish_agree (h : Alike a b) : Agree (a.finish always) (b.finish always) := by
  rw [finish, finish]
  refine flushAu_agree ?_
  cases h with
  | mk stamp flags sent calls hsent => exact .mk _ _ _ _ _ hsent

theorem Alike.trans {c : Assembler} (h : Alike a b) (h' : Alike b c) : Alike a c := by
  cases h with
  | mk stamp flags sent calls hsent =>
      cases h' with
      | mk stamp' flags' sent' calls' hsent' => exact .mk _ _ _ _ _ (hsent.trans hsent')

theorem Alike.symm (h : Alike a b) : Alike b a := by
  cases h with
  | mk stamp flags sent calls hsent =>
      exact .mk { a with auStamp := stamp, auFlags := flags, sent := sent, calls := calls }
        a.auStamp a.auFlags a.sent a.calls hsent.symm

end Functions

end Assembler

end Zstreamer.H26x
