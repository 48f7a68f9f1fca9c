import Mathlib.Data.List.Basic
import Mathlib.Tactic.Ring

/-!
# Fixed-width records in a byte stream

Little-endian words and files that are a sequence of records of one width.  A
reader that divides the file size by the width and reads that many records gets
back what a writer of whole records wrote, also when a partial record follows.
-/

namespace TraCR.Lib.Records

/-! ## Little-endian words -/

def toLE : Nat → Nat → List UInt8
  | 0, _ => []
  | width + 1, n => UInt8.ofNat (n % 256) :: toLE width (n / 256)

def ofLE : List UInt8 → Nat
  | [] => 0
  | b :: bs => b.toNat + 256 * ofLE bs

@[simp] theorem length_toLE (width n : Nat) : (toLE width n).length = width := by
  induction width generalizing n with
  | zero => rfl
  | succ width ih => simp [toLE, ih]

theorem ofLE_toLE {width n : Nat} (h : n < 256 ^ width) :
    ofLE (toLE width n) = n := by
  induction width generalizing n with
  | zero =>
      have hn : n = 0 := by simpa using h
      simp [toLE, ofLE, hn]
  | succ width ih =>
      have hdiv : n / 256 < 256 ^ width := by
        rw [Nat.div_lt_iff_lt_mul (by omega)]
        rwa [Nat.pow_succ] at h
      have hbyte : (UInt8.ofNat (n % 256)).toNat = n % 256 := by simp
      rw [toLE, ofLE, ih hdiv, hbyte]
      omega

/-! ## Files of records -/

variable {α : Type}

/-- Read `length / width` records, each from its own `width` bytes. -/
def readRecords (width : Nat) (decode : List UInt8 → α) (bytes : List UInt8) : List α :=
  (List.range (bytes.length / width)).map fun i =>
    decode ((bytes.drop (i * width)).take width)

variable {width : Nat} {encode : α → List UInt8} {decode : List UInt8 → α}

theorem length_flatMap_encode (hlength : ∀ x, (encode x).length = width) (xs : List α) :
    (xs.flatMap encode).length = xs.length * width := by
  induction xs with
  | nil => simp
  | cons x xs ih =>
      rw [List.flatMap_cons, List.length_append, ih, hlength, List.length_cons]
      ring

theorem take_drop_flatMap (hlength : ∀ x, (encode x).length = width) (xs : List α)
    (tail : List UInt8) {i : Nat} (hi : i < xs.length) :
    ((xs.flatMap encode ++ tail).drop (i * width)).take width = encode xs[i] := by
  induction xs generalizing i with
  | nil => simp at hi
  | cons x xs ih =>
      cases i with
      | zero => simp [hlength]
      | succ i =>
          have hskip : (i + 1) * width = (encode x).length + i * width := by
            rw [hlength]
            ring
          rw [List.flatMap_cons, List.append_assoc, hskip, List.drop_append,
            List.drop_eq_nil_of_le (by omega), List.nil_append, Nat.add_sub_cancel_left]
          simpa using ih (by simpa using hi)

theorem take_flatMap_encode (hlength : ∀ x, (encode x).length = width) (xs : List α) (n : Nat) :
    (xs.flatMap encode).take (width * n) = (xs.take n).flatMap encode := by
  induction xs generalizing n with
  | nil => simp
  | cons x xs ih =>
      cases n with
      | zero => simp
      | succ n =>
          rw [List.flatMap_cons, List.take_succ_cons, List.flatMap_cons, Nat.mul_succ,
            Nat.add_comm, List.take_append, hlength, Nat.add_sub_cancel_left, ih,
            List.take_of_length_le (by rw [hlength]; omega)]

/-- Reading back whole records, whatever partial record follows them. -/
theorem readRecords_flatMap (hlength : ∀ x, (encode x).length = width)
    (hdecode : ∀ x, decode (encode x) = x) (xs : List α) {tail : List UInt8}
    (htail : tail.length < width) :
    readRecords width decode (xs.flatMap encode ++ tail) = xs := by
  have hcount : (xs.flatMap encode ++ tail).length / width = xs.length := by
    rw [List.length_append, length_flatMap_encode hlength, Nat.mul_comm,
      Nat.mul_add_div (by omega), Nat.div_eq_of_lt htail, Nat.add_zero]
  apply List.ext_getElem
  · rw [readRecords, List.length_map, List.length_range, hcount]
  · intro i _ hi
    simp only [readRecords, List.getElem_map, List.getElem_range]
    rw [take_drop_flatMap hlength xs tail hi, hdecode]

/-- The records of the first bytes of a file are its first records. -/
theorem readRecords_isPrefix {bytes bytes' : List UInt8} (h : bytes' <+: bytes) :
    readRecords width decode bytes' <+: readRecords width decode bytes := by
  obtain ⟨rest, rfl⟩ := h
  have hcount : bytes'.length / width ≤ (bytes' ++ rest).length / width :=
    Nat.div_le_div_right (by simp)
  rw [List.prefix_iff_eq_take]
  apply List.ext_getElem
  · simp only [readRecords, List.length_map, List.length_range, List.length_take]
    omega
  · intro i hi _
    have hi : i < bytes'.length / width := by simpa [readRecords] using hi
    have hlast : (i + 1) * width ≤ bytes'.length :=
      (Nat.mul_le_mul_right width hi).trans (Nat.div_mul_le_self _ _)
    have hsucc : (i + 1) * width = i * width + width := by ring
    simp only [readRecords, List.getElem_take, List.getElem_map, List.getElem_range]
    rw [List.drop_append_of_le_length (by omega), List.take_append_of_le_length]
    rw [List.length_drop]
    omega

end TraCR.Lib.Records
