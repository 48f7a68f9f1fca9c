import TraCR.Engine.Thread

/-!
# The nanosecond timer

`NanoTimer::ticks_to_ns` of `marker_management_engine.hpp`, which turns the ticks of a
hardware counter into nanoseconds in 64-bit arithmetic.
-/

namespace TraCR

def nanos : Nat := 1000000000

/-- The quotient and the remainder are converted on their own. -/
def ticksToNs (freq ticks : UInt64) : UInt64 :=
  (ticks / freq) * 1000000000 + (ticks % freq) * 1000000000 / freq

/-- The split form is the exact floor. -/
theorem split_floor (ticks : Nat) {freq : Nat} (hpos : 0 < freq) :
    ticks / freq * nanos + ticks % freq * nanos / freq = ticks * nanos / freq := by
  have hticks : ticks * nanos =
      freq * (ticks / freq * nanos) + ticks % freq * nanos := by
    calc
      ticks * nanos = (freq * (ticks / freq) + ticks % freq) * nanos := by
        rw [Nat.div_add_mod]
      _ = freq * (ticks / freq * nanos) + ticks % freq * nanos := by
        rw [Nat.add_mul, Nat.mul_assoc]
  rw [hticks, Nat.mul_add_div hpos]

/-- No product and no sum of the conversion leaves 64 bits. -/
structure NoWrap (freq ticks : UInt64) : Prop where
  quotient : (ticks / freq).toNat * nanos < 2 ^ 64
  remainder : (ticks % freq).toNat * nanos < 2 ^ 64
  sum : (ticks / freq).toNat * nanos + (ticks % freq).toNat * nanos / freq.toNat < 2 ^ 64

section Exact

variable {freq ticks : UInt64} (hpos : 0 < freq) (hfreq : freq.toNat ≤ (2 ^ 64 - 1) / nanos)

include hpos

theorem toNat_pos : 0 < freq.toNat := UInt64.lt_iff_toNat_lt.mp hpos

include hfreq

theorem noWrap (hrange : ticks.toNat * nanos / freq.toNat < 2 ^ 64) : NoWrap freq ticks := by
  have hfreq' := toNat_pos hpos
  have hsum : (ticks / freq).toNat * nanos + (ticks % freq).toNat * nanos / freq.toNat <
      2 ^ 64 := by
    rw [UInt64.toNat_div, UInt64.toNat_mod, split_floor _ hfreq']
    exact hrange
  have hlt : (ticks % freq).toNat < freq.toNat := by
    rw [UInt64.toNat_mod]
    exact Nat.mod_lt _ hfreq'
  refine ⟨Nat.lt_of_le_of_lt (Nat.le_add_right _ _) hsum, ?_, hsum⟩
  calc
    (ticks % freq).toNat * nanos < freq.toNat * nanos :=
      Nat.mul_lt_mul_of_pos_right hlt (by decide)
    _ ≤ (2 ^ 64 - 1) / nanos * nanos := Nat.mul_le_mul_right _ hfreq
    _ ≤ 2 ^ 64 - 1 := Nat.div_mul_le_self _ _
    _ < 2 ^ 64 := by decide

theorem toNat_ticksToNs (hrange : ticks.toNat * nanos / freq.toNat < 2 ^ 64) :
    (ticksToNs freq ticks).toNat = ticks.toNat * nanos / freq.toNat := by
  obtain ⟨hquotient, hremainder, hsum⟩ := noWrap hpos hfreq hrange
  have hnanos : (1000000000 : UInt64).toNat = nanos := rfl
  rw [ticksToNs, UInt64.toNat_add, UInt64.toNat_mul, UInt64.toNat_div (_ * _), UInt64.toNat_mul,
    hnanos, Nat.mod_eq_of_lt hquotient, Nat.mod_eq_of_lt hremainder, Nat.mod_eq_of_lt hsum,
    UInt64.toNat_div, UInt64.toNat_mod, split_floor _ (toNat_pos hpos)]

theorem ticksToNs_le {a b : UInt64} (hab : a ≤ b)
    (hrange : b.toNat * nanos / freq.toNat < 2 ^ 64) :
    ticksToNs freq a ≤ ticksToNs freq b := by
  have hle : a.toNat * nanos / freq.toNat ≤ b.toNat * nanos / freq.toNat :=
    Nat.div_le_div_right (Nat.mul_le_mul_right _ (UInt64.le_iff_toNat_le.mp hab))
  rw [UInt64.le_iff_toNat_le, toNat_ticksToNs hpos hfreq (hle.trans_lt hrange),
    toNat_ticksToNs hpos hfreq hrange]
  exact hle

end Exact

end TraCR
