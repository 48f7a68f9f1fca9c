import TraCR.Engine.Payload
import TraCR.Lib.Pairs

/-!
# What a channel shows

The meaning of a trace, independent of any output format.  The non-flow payloads
of a channel, in time order, cut its timeline into intervals: a set opens an
interval which the next set or reset of the channel closes.
-/

namespace TraCR

open TraCR.Lib.Pairs TraCR.Lib.SortedList

def onChannel (c : Nat) (p : Payload) : Bool :=
  p.channelId.toNat = c && !p.isFlow

def channelEvents (c : Nat) (payloads : List Payload) : List Payload :=
  payloads.filter (onChannel c)

/-- Neighbouring state changes of which the first is not a reset. -/
def openPairs (events : List Payload) : List (Payload × Payload) :=
  (consecutive events).filter fun x => !x.1.isReset

/-- The intervals of channel `c`: what opens each one and what closes it. -/
def intervals (c : Nat) (payloads : List Payload) : List (Payload × Payload) :=
  openPairs (channelEvents c payloads)

def channelFlows (c : Nat) (payloads : List Payload) : List Payload :=
  payloads.filter fun p => p.channelId.toNat = c && p.isFlow

variable {c : Nat} {p : Payload} {payloads : List Payload}

theorem mem_channelEvents :
    p ∈ channelEvents c payloads ↔
      p ∈ payloads ∧ p.channelId.toNat = c ∧ p.isFlow = false := by
  simp [channelEvents, onChannel]

theorem channelEvents_cons_of_flow (h : p.isFlow = true) :
    channelEvents c (p :: payloads) = channelEvents c payloads := by
  simp [channelEvents, onChannel, h]

theorem channelEvents_cons_of_ne (h : p.channelId.toNat ≠ c) :
    channelEvents c (p :: payloads) = channelEvents c payloads := by
  simp [channelEvents, onChannel, h]

theorem channelEvents_cons_self (h : p.isFlow = false) :
    channelEvents p.channelId.toNat (p :: payloads) =
      p :: channelEvents p.channelId.toNat payloads := by
  simp [channelEvents, onChannel, h]

@[simp] theorem openPairs_nil : openPairs [] = [] := rfl

@[simp] theorem openPairs_singleton (a : Payload) : openPairs [a] = [] := rfl

theorem openPairs_cons_cons_of_isReset {a b : Payload} {l : List Payload}
    (h : a.isReset = true) : openPairs (a :: b :: l) = openPairs (b :: l) := by
  simp [openPairs, h]

theorem openPairs_cons_cons {a b : Payload} {l : List Payload}
    (h : a.isReset = false) :
    openPairs (a :: b :: l) = (a, b) :: openPairs (b :: l) := by
  simp [openPairs, h]

theorem openPairs_cons_of_isReset {a : Payload} {l : List Payload}
    (h : a.isReset = true) : openPairs (a :: l) = openPairs l := by
  cases l with
  | nil => rfl
  | cons b l => exact openPairs_cons_cons_of_isReset h

/-- One interval for every set but a last one. -/
theorem length_openPairs_lt_iff {l : List Payload} :
    (openPairs l).length < (l.filter fun p => !p.isReset).length ↔
      ∃ p, l.getLast? = some p ∧ p.isReset = false := by
  induction l with
  | nil => simp
  | cons a l ih =>
      cases l with
      | nil => cases h : a.isReset <;> simp [h]
      | cons b l =>
          rw [List.getLast?_cons_cons, ← ih]
          cases h : a.isReset with
          | true => rw [openPairs_cons_cons_of_isReset h, List.filter_cons_of_neg (by simp [h])]
          | false =>
              rw [openPairs_cons_cons h, List.filter_cons_of_pos (by simp [h]),
                List.length_cons, List.length_cons, Nat.add_lt_add_iff_right]

theorem mem_intervals {a b : Payload} (h : (a, b) ∈ intervals c payloads) :
    a ∈ channelEvents c payloads ∧ b ∈ channelEvents c payloads ∧
      a.isReset = false := by
  obtain ⟨hpair, hopen⟩ := List.mem_filter.mp h
  exact ⟨fst_mem_of_mem_consecutive hpair, snd_mem_of_mem_consecutive hpair,
    by simpa using hopen⟩

theorem isSet_of_mem_intervals {a b : Payload} (h : (a, b) ∈ intervals c payloads) :
    a.isSet = true := by
  obtain ⟨ha, -, hopen⟩ := mem_intervals h
  simp [Payload.isSet, (mem_channelEvents.mp ha).2.2, hopen]

theorem time_le_of_mem_intervals (hsort : SortedBy Payload.time payloads)
    {a b : Payload} (h : (a, b) ∈ intervals c payloads) : a.time ≤ b.time :=
  key_le_of_mem_consecutive (hsort.filter (onChannel c)) (List.mem_filter.mp h).1

/-- The intervals depend on the state changes of the channel alone. -/
theorem intervals_congr {payloads' : List Payload}
    (h : channelEvents c payloads = channelEvents c payloads') :
    intervals c payloads = intervals c payloads' := by
  rw [intervals, intervals, h]

end TraCR
