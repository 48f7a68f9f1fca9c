import Mathlib.Algebra.Ring.Int.Defs
import Mathlib.Algebra.Ring.Nat
import Mathlib.Data.List.TakeWhile

/-!
# Decimal numbers in text

`std::stoi` with base ten: leading blanks, an optional sign and as many digits
as follow; the rest of the text is ignored.  It fails without a digit and when
the value does not fit an `int`.  Numbers with a fixed count of places are printed
and read back without rounding.
-/

namespace TraCR.Lib.Decimal

/-- `std::isspace` in the classic locale. -/
def isSpace (c : Char) : Bool :=
  c = ' ' || (9 ≤ c.toNat && c.toNat ≤ 13)

/-- The sign `stoi` reads, and the text after it. -/
def readSign : List Char → Bool × List Char
  | '-' :: rest => (true, rest)
  | '+' :: rest => (false, rest)
  | text => (false, text)

def stoi (text : List Char) : Option Int :=
  let (negative, rest) := readSign (text.dropWhile isSpace)
  let digits := rest.takeWhile Char.isDigit
  if digits = [] then none
  else
    let magnitude : Int := Nat.ofDigitChars 10 digits 0
    let value := if negative then -magnitude else magnitude
    if -(2 ^ 31) ≤ value ∧ value < 2 ^ 31 then some value else none

private theorem not_isSpace_of_isDigit {c : Char} (h : c.isDigit) : isSpace c = false := by
  have hrange : 48 ≤ c.toNat ∧ c.toNat ≤ 57 := by
    simpa [Char.isDigit, UInt32.le_iff_toNat_le] using h
  have hblank : c ≠ ' ' := by
    rintro rfl
    exact absurd hrange.1 (by decide)
  have htab : ¬c.toNat ≤ 13 := by omega
  simp [isSpace, hblank, htab]

private theorem readSign_of_isDigit {c : Char} {rest : List Char} (h : c.isDigit) :
    readSign (c :: rest) = (false, c :: rest) := by
  unfold readSign
  split
  next heq =>
    obtain ⟨rfl, -⟩ := List.cons.inj heq
    exact absurd h (by decide)
  next heq =>
    obtain ⟨rfl, -⟩ := List.cons.inj heq
    exact absurd h (by decide)
  · rfl

def IsDigits (text : List Char) : Prop := text ≠ [] ∧ ∀ c ∈ text, c.isDigit

theorem isDigits_toDigits (n : Nat) : IsDigits (Nat.toDigits 10 n) :=
  ⟨Nat.toDigits_ne_nil, fun _ hc => Nat.isDigit_of_mem_toDigits (by omega) (by omega) hc⟩

/-- `stoi` reads back a number printed by `std::to_string`. -/
theorem stoi_toString {n : Nat} (h : n < 2 ^ 31) :
    stoi (toString n).toList = some (n : Int) := by
  have htext : (toString n).toList = Nat.toDigits 10 n := Nat.toList_repr
  obtain ⟨hne, hdigit⟩ := isDigits_toDigits n
  obtain ⟨c, rest, hcons⟩ := List.exists_cons_of_ne_nil hne
  have hfirst : c.isDigit := hdigit c (by simp [hcons])
  have hskip : (Nat.toDigits 10 n).dropWhile isSpace = c :: rest := by
    rw [hcons, List.dropWhile_cons_of_neg (by simp [not_isSpace_of_isDigit hfirst])]
  have hall : (c :: rest).takeWhile Char.isDigit = c :: rest :=
    List.takeWhile_eq_self_iff.mpr (by simpa [hcons] using hdigit)
  have hvalue : Nat.ofDigitChars 10 (c :: rest) 0 = n := by
    rw [← hcons, Nat.ofDigitChars_ten_toDigits]
  rw [htext, stoi, hskip, readSign_of_isDigit hfirst]
  simp only [hall, hvalue, reduceCtorEq, if_false, Bool.false_eq_true]
  rw [if_pos (by omega)]

theorem toString_injective : Function.Injective (toString : Nat → String) := by
  intro m n h
  have htext : Nat.toDigits 10 m = Nat.toDigits 10 n := by
    rw [← Nat.toList_repr, ← Nat.toList_repr]
    exact congrArg String.toList h
  rw [← Nat.ofDigitChars_ten_toDigits (n := m), htext, Nat.ofDigitChars_ten_toDigits]

/-! ## Fixed-point numbers -/

def padded (places n : Nat) : List Char := (Nat.toDigits 10 n).leftpad places '0'

/-- A count of units of which `10 ^ places` make one, with every place written out. -/
def printFixed (places n : Nat) : List Char :=
  Nat.toDigits 10 (n / 10 ^ places) ++ '.' :: padded places (n % 10 ^ places)

def readFixed (places : Nat) (text : List Char) : Option Nat :=
  match text.dropWhile Char.isDigit with
  | '.' :: fraction =>
      if text.takeWhile Char.isDigit ≠ [] ∧ fraction.length = places ∧
          fraction.all Char.isDigit then
        some (Nat.ofDigitChars 10 (text.takeWhile Char.isDigit) 0 * 10 ^ places +
          Nat.ofDigitChars 10 fraction 0)
      else none
  | _ => none

theorem length_padded {places n : Nat} (hpos : 0 < places) (h : n < 10 ^ places) :
    (padded places n).length = places := by
  have hle := (Nat.length_toDigits_le_iff (by omega) hpos).mpr h
  rw [padded, List.length_leftpad]
  omega

theorem isDigits_padded (places n : Nat) : IsDigits (padded places n) := by
  obtain ⟨hne, hdigit⟩ := isDigits_toDigits n
  constructor
  · simp [padded, List.leftpad, hne]
  · intro c hc
    rcases List.mem_append.mp hc with hzero | hc
    · rw [List.eq_of_mem_replicate hzero]
      rfl
    · exact hdigit c hc

theorem ofDigitChars_padded (places n : Nat) :
    Nat.ofDigitChars 10 (padded places n) 0 = n := by
  rw [padded, List.leftpad, Nat.ofDigitChars_append, Nat.ofDigitChars_replicate_zero,
    Nat.mul_zero, Nat.ofDigitChars_ten_toDigits]

/-- What is printed reads back exactly. -/
theorem readFixed_printFixed {places : Nat} (hpos : 0 < places) (n : Nat) :
    readFixed places (printFixed places n) = some n := by
  have hmod : n % 10 ^ places < 10 ^ places := Nat.mod_lt _ (Nat.pow_pos (by omega))
  obtain ⟨hne, hwhole⟩ := isDigits_toDigits (n / 10 ^ places)
  have htake : (printFixed places n).takeWhile Char.isDigit =
      Nat.toDigits 10 (n / 10 ^ places) := by
    rw [printFixed, List.takeWhile_append_of_pos hwhole]
    exact List.append_nil _
  have hdrop : (printFixed places n).dropWhile Char.isDigit =
      '.' :: padded places (n % 10 ^ places) := by
    rw [printFixed, List.dropWhile_append_of_pos hwhole]
    rfl
  have hall : (padded places (n % 10 ^ places)).all Char.isDigit = true :=
    List.all_eq_true.mpr (isDigits_padded places _).2
  rw [readFixed, htake, hdrop]
  simp only [hne, length_padded hpos hmod, hall, ofDigitChars_padded,
    Nat.ofDigitChars_ten_toDigits, ne_eq, not_false_eq_true, and_self, if_true]
  rw [Nat.div_add_mod']

theorem length_printFixed_le {places n width : Nat} (hpos : 0 < places) (hwidth : 0 < width)
    (h : n < 10 ^ (width + places)) :
    (printFixed places n).length ≤ width + 1 + places := by
  have hmod : n % 10 ^ places < 10 ^ places := Nat.mod_lt _ (Nat.pow_pos (by omega))
  have hdiv : n / 10 ^ places < 10 ^ width := by
    rw [Nat.div_lt_iff_lt_mul (Nat.pow_pos (by omega)), ← Nat.pow_add]
    exact h
  have hwhole := (Nat.length_toDigits_le_iff (by omega) hwidth).mpr hdiv
  rw [printFixed, List.length_append, List.length_cons, length_padded hpos hmod]
  omega

end TraCR.Lib.Decimal
