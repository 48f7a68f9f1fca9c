import Mathlib.Data.List.Basic

/-!
# Bytes as hexadecimal text

A byte as two lower-case digits, and the reader that takes the text back.  A text with
separators between the bytes reads back once the separators are left out.
-/

namespace TraCR.Lib.Hex

def encodeByte (byte : UInt8) : List Char :=
  (Nat.toDigits 16 byte.toNat).leftpad 2 '0'

def digitValue (c : Char) : Option Nat :=
  "0123456789abcdef".toList.idxOf? c

def decode : List Char → Option (List UInt8)
  | [] => some []
  | [_] => none
  | high :: low :: rest =>
      match digitValue high, digitValue low, decode rest with
      | some high, some low, some bytes => some (UInt8.ofNat (16 * high + low) :: bytes)
      | _, _, _ => none

theorem digitValue_digitChar {n : Nat} (h : n < 16) : digitValue n.digitChar = some n := by
  have hall : ∀ n ∈ List.range 16, digitValue n.digitChar = some n := by decide
  exact hall n (List.mem_range.mpr h)

theorem encodeByte_eq (byte : UInt8) :
    encodeByte byte = [(byte.toNat / 16).digitChar, (byte.toNat % 16).digitChar] := by
  have hbyte : byte.toNat < 256 := byte.toNat_lt
  rw [encodeByte]
  by_cases hsmall : byte.toNat < 16
  · rw [Nat.toDigits_of_lt_base hsmall, Nat.div_eq_of_lt hsmall, Nat.mod_eq_of_lt hsmall]
    rfl
  · rw [Nat.toDigits_of_base_le (by omega) (Nat.le_of_not_lt hsmall),
      Nat.toDigits_of_lt_base (by omega)]
    rfl

theorem decode_flatMap_encodeByte (bytes : List UInt8) :
    decode (bytes.flatMap encodeByte) = some bytes := by
  induction bytes with
  | nil => rfl
  | cons byte bytes ih =>
      have hbyte : byte.toNat < 256 := byte.toNat_lt
      have hhigh := digitValue_digitChar (n := byte.toNat / 16) (by omega)
      have hlow := digitValue_digitChar (n := byte.toNat % 16) (by omega)
      have hvalue : 16 * (byte.toNat / 16) + byte.toNat % 16 = byte.toNat := by omega
      rw [List.flatMap_cons, encodeByte_eq, List.cons_append, List.cons_append,
        List.nil_append, decode, hhigh, hlow, ih]
      simp [hvalue]

/-! ## Separators -/

def isBlank (c : Char) : Bool := c = ' ' || c = '\n'

/-- The text without blanks and newlines. -/
def ink (text : List Char) : List Char := text.filter fun c => !isBlank c

theorem ink_append (text text' : List Char) : ink (text ++ text') = ink text ++ ink text' :=
  List.filter_append _ _

theorem ink_eq_nil {text : List Char} (h : ∀ c ∈ text, isBlank c = true) : ink text = [] := by
  rw [ink, List.filter_eq_nil_iff]
  intro c hc
  simp [h c hc]

@[simp] theorem ink_encodeByte (byte : UInt8) : ink (encodeByte byte) = encodeByte byte := by
  have hall : ∀ n ∈ List.range 16, isBlank n.digitChar = false := by decide
  have hbyte : byte.toNat < 256 := byte.toNat_lt
  have hhigh := hall (byte.toNat / 16) (List.mem_range.mpr (by omega))
  have hlow := hall (byte.toNat % 16) (List.mem_range.mpr (by omega))
  rw [encodeByte_eq]
  simp [ink, hhigh, hlow]

theorem decode_ink {pieces : List (UInt8 × List Char)}
    (hblank : ∀ x ∈ pieces, ∀ c ∈ x.2, isBlank c = true) :
    decode (ink (pieces.flatMap fun x => encodeByte x.1 ++ x.2)) =
      some (pieces.map Prod.fst) := by
  have hink : ink (pieces.flatMap fun x => encodeByte x.1 ++ x.2) =
      (pieces.map Prod.fst).flatMap encodeByte := by
    induction pieces with
    | nil => rfl
    | cons x pieces ih =>
        rw [List.flatMap_cons, ink_append, ink_append, ink_encodeByte,
          ink_eq_nil (hblank x (by simp)), List.append_nil,
          ih fun y hy => hblank y (List.mem_cons_of_mem x hy)]
        rfl
  rw [hink, decode_flatMap_encodeByte]

end TraCR.Lib.Hex
