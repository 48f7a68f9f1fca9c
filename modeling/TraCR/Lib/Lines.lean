import TraCR.Lib.Decimal

/-!
# Texts in lines

A text that is written line by line is cut back into its lines, if no line breaks.  The
fields of a line are read from left to right: fixed words, and numbers that go on as far
as there are digits.
-/

namespace TraCR.Lib.Lines

open TraCR.Lib.Decimal

/-! ## Lines -/

def unlines (lines : List (List Char)) : List Char := lines.flatMap fun line => line ++ ['\n']

def lines (text : List Char) : List (List Char) := (text.splitOn '\n').dropLast

theorem lines_nil : lines [] = [] := rfl

theorem lines_cons {line : List Char} (h : '\n' ∉ line) (rest : List Char) :
    lines (line ++ '\n' :: rest) = line :: lines rest := by
  unfold lines
  rw [List.splitOn_append_cons_self_of_not_mem h, List.dropLast_cons_of_ne_nil]
  exact List.splitOn_ne_nil _ _

theorem lines_unlines_append {l : List (List Char)} (h : ∀ line ∈ l, '\n' ∉ line)
    (text : List Char) : lines (unlines l ++ text) = l ++ lines text := by
  induction l with
  | nil => rfl
  | cons line l ih =>
      have htail := ih fun line' hline' => h line' (List.mem_cons_of_mem _ hline')
      have htext : unlines (line :: l) ++ text = line ++ '\n' :: (unlines l ++ text) := by
        simp [unlines]
      rw [htext, lines_cons (h line List.mem_cons_self), htail, List.cons_append]

theorem lines_unlines {l : List (List Char)} (h : ∀ line ∈ l, '\n' ∉ line) :
    lines (unlines l) = l := by
  have hlines := lines_unlines_append h []
  rwa [List.append_nil, lines_nil, List.append_nil] at hlines

theorem not_mem_of_mem_splitOn {a : Char} {piece text : List Char}
    (h : piece ∈ text.splitOn a) : a ∉ piece := by
  induction text generalizing piece with
  | nil =>
      rw [List.mem_singleton.mp h]
      exact List.not_mem_nil
  | cons c text ih =>
      rw [List.splitOn_cons_eq_if_modifyHead] at h
      split at h
      · rcases List.mem_cons.mp h with rfl | htail
        · exact List.not_mem_nil
        · exact ih htail
      next hne =>
        obtain ⟨first, rest, hpieces⟩ :=
          List.exists_cons_of_ne_nil (List.splitOn_ne_nil a text)
        rw [hpieces] at ih h
        rcases List.mem_cons.mp h with rfl | htail
        · have hfirst := ih List.mem_cons_self
          have hc : a ≠ c := fun heq => hne (by simp [heq])
          simp [hc, hfirst]
        · exact ih (List.mem_cons_of_mem _ htail)

/-- Exactly the lines that do not break are found again. -/
theorem lines_unlines_iff {l : List (List Char)} :
    lines (unlines l) = l ↔ ∀ line ∈ l, '\n' ∉ line := by
  constructor
  · intro heq line hline
    rw [← heq] at hline
    exact not_mem_of_mem_splitOn (List.dropLast_subset _ hline)
  · exact lines_unlines

/-! ## Fields -/

def expect : List Char → List Char → Option (List Char)
  | [], text => some text
  | _ :: _, [] => none
  | c :: word, d :: text => if c = d then expect word text else none

def natural (text : List Char) : Option (Nat × List Char) :=
  if text.takeWhile Char.isDigit = [] then none
  else some (Nat.ofDigitChars 10 (text.takeWhile Char.isDigit) 0, text.dropWhile Char.isDigit)

@[simp] theorem expect_append (word rest : List Char) : expect word (word ++ rest) = some rest := by
  induction word with
  | nil => rfl
  | cons c word ih => simpa [expect] using ih

theorem natural_append {rest : List Char} (n : Nat) (h : ∀ c ∈ rest.head?, c.isDigit = false) :
    natural (Nat.toDigits 10 n ++ rest) = some (n, rest) := by
  obtain ⟨hne, hdigit⟩ := isDigits_toDigits n
  have hend : rest.takeWhile Char.isDigit = [] ∧ rest.dropWhile Char.isDigit = rest := by
    cases rest with
    | nil => exact ⟨rfl, rfl⟩
    | cons c rest => simp [h c rfl]
  have htake : (Nat.toDigits 10 n ++ rest).takeWhile Char.isDigit = Nat.toDigits 10 n := by
    rw [List.takeWhile_append_of_pos hdigit, hend.1, List.append_nil]
  have hdrop : (Nat.toDigits 10 n ++ rest).dropWhile Char.isDigit = rest := by
    rw [List.dropWhile_append_of_pos hdigit, hend.2]
  rw [natural, htake, if_neg hne, hdrop, Nat.ofDigitChars_ten_toDigits]

def field (word text : List Char) : Option (Nat × List Char) :=
  (natural text).bind fun x => (expect word x.2).map fun rest => (x.1, rest)

theorem field_append (word : List Char) (h : (word.head?.any fun c => !c.isDigit) = true)
    (n : Nat) (rest : List Char) :
    field word (Nat.toDigits 10 n ++ (word ++ rest)) = some (n, rest) := by
  have hends : ∀ c ∈ (word ++ rest).head?, c.isDigit = false := by
    cases word with
    | nil => cases h
    | cons d word =>
        intro c hc
        obtain rfl : d = c := by simpa using hc
        simpa using h
  rw [field, natural_append n hends]
  simp

theorem not_mem_toDigits {c : Char} (h : c.isDigit = false) (n : Nat) :
    c ∉ Nat.toDigits 10 n := by
  intro hc
  have hdigit := (isDigits_toDigits n).2 c hc
  rw [h] at hdigit
  cases hdigit

end TraCR.Lib.Lines
