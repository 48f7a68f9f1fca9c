import TraCR.Nlohmann.Lexer

/-!
# What the lexer accepts

`scan` reads exactly one lexeme after blanks: what it returns as a token is spelled by what
it consumed, and whatever spells a token is read as that token, provided that what follows
a number does not go on as a number.
-/

namespace TraCR

open TraCR.Lib TraCR.Lib.JsonText

/-! ## Blanks -/

theorem isWhitespace_iff {c : Char} :
    isWhitespace c = true ↔ c = ' ' ∨ c = '\t' ∨ c = '\n' ∨ c = '\r' := by
  simp [isWhitespace, or_assoc]

theorem scan_append_of_isBlank {before : List Char} (h : IsBlank before) (input : List Char) :
    scan (before ++ input) = scan input := by
  have hskip : (before ++ input).dropWhile isWhitespace = input.dropWhile isWhitespace := by
    rw [List.dropWhile_append_of_pos]
    intro c hc
    exact isWhitespace_iff.mpr (h c hc)
  unfold scan
  rw [hskip]

theorem scan_cons {c : Char} (h : isWhitespace c = false) (rest : List Char) :
    scan (c :: rest) = scanToken c rest := by
  unfold scan
  rw [List.dropWhile_cons_of_neg (by simp [h])]

theorem exists_scan_eq (input : List Char) :
    scan input = (.endOfInput, []) ∨ ∃ before c rest, IsBlank before ∧
      input = before ++ c :: rest ∧ scan input = scanToken c rest := by
  unfold scan
  have hsplit := List.takeWhile_append_dropWhile (p := isWhitespace) (l := input)
  split
  · exact .inl rfl
  next c rest hdrop =>
    rw [hdrop] at hsplit
    refine .inr ⟨_, c, rest, ?_, hsplit.symm, rfl⟩
    intro d hd
    exact isWhitespace_iff.mp (List.mem_takeWhile_imp hd)

/-! ## Strings -/

inductive FirstDigits : Nat → List Char → Nat → Prop where
  | none : FirstDigits 0 [] 0
  | more {count value d : Nat} {digits : List Char} {c : Char} : FirstDigits count digits value →
      hexDigit? c = some d →
        FirstDigits (count + 1) (digits ++ [c]) (value + d * 16 ^ (3 - count))

theorem FirstDigits.isHex4 {digits : List Char} {n : Nat} (h : FirstDigits 4 digits n) :
    IsHex4 digits n := by
  obtain - | @⟨_, _, l, _, _, h, hl⟩ := h
  obtain - | @⟨_, _, k, _, _, h, hk⟩ := h
  obtain - | @⟨_, _, j, _, _, h, hj⟩ := h
  obtain - | @⟨_, _, i, _, _, h, hi⟩ := h
  obtain - | _ := h
  have hvalue := IsHex4.digits hi hj hk hl
  simpa using hvalue

inductive HasRead : StringState → List Char → Prop where
  | body : HasRead .body []
  | escape : HasRead .escape ['\\']
  | codepoint {count value : Nat} {digits : List Char} : FirstDigits count digits value →
      count < 4 → HasRead (.codepoint none count value) ('\\' :: 'u' :: digits)
  | surrogate {high : Nat} {digits : List Char} : IsHex4 digits high → 0xD800 ≤ high →
      high ≤ 0xDBFF → HasRead (.surrogate high) ('\\' :: 'u' :: digits)
  | surrogateEscape {high : Nat} {digits : List Char} : IsHex4 digits high → 0xD800 ≤ high →
      high ≤ 0xDBFF → HasRead (.surrogateEscape high) ('\\' :: 'u' :: (digits ++ ['\\']))
  | pair {high count value : Nat} {digits digits' : List Char} : IsHex4 digits high →
      0xD800 ≤ high → high ≤ 0xDBFF → FirstDigits count digits' value → count < 4 →
        HasRead (.codepoint (some high) count value)
          ('\\' :: 'u' :: (digits ++ '\\' :: 'u' :: digits'))

theorem escapeChar_eq_some_iff {c d : Char} :
    escapeChar c = some d ↔ (c, d) ∈ shortEscapes := by
  unfold escapeChar shortEscapes
  split <;> simp_all [eq_comm]

/-- The arithmetic of `scan_string` on two surrogates. -/
theorem surrogates_eq {high low : Nat} (hhigh : 0xD800 ≤ high) (hlow : 0xDC00 ≤ low) :
    high * 2 ^ 10 + low - 0x35FDC00 =
      0x10000 + (high - 0xD800) * 0x400 + (low - 0xDC00) := by
  omega

/-- What the fourth digit of a codepoint leads to, without a surrogate in front. -/
theorem endCodepoint_none {n : Nat} :
    (endCodepoint none n = .goto (.surrogate n) ∧ 0xD800 ≤ n ∧ n ≤ 0xDBFF) ∨
      endCodepoint none n = .fail lowSurrogateMessage ∨
        endCodepoint none n = .add (Char.ofNat n) ∧ (n < 0xD800 ∨ 0xDFFF < n) := by
  unfold endCodepoint
  dsimp only
  split
  next h =>
    exact .inl ⟨rfl, h.1, h.2⟩
  · split
    · exact .inr (.inl rfl)
    · exact .inr (.inr ⟨rfl, by omega⟩)

theorem HasRead.goto {state state' : StringState} {c : Char} {read : List Char}
    (h : HasRead state read) (hnext : state.next c = .goto state') :
    HasRead state' (read ++ [c]) := by
  cases h with
  | body =>
      simp only [StringState.next] at hnext
      split_ifs at hnext with _ hslash
      subst hslash
      cases hnext
      exact .escape
  | escape =>
      simp only [StringState.next] at hnext
      split_ifs at hnext with hu
      · subst hu
        cases hnext
        exact .codepoint .none (by omega)
      · split at hnext <;> cases hnext
  | @codepoint count value digits hdigits hcount =>
      simp only [StringState.next] at hnext
      split at hnext
      · cases hnext
      next d hd =>
        have hmore := FirstDigits.more hdigits hd
        split_ifs at hnext with hlt
        · cases hnext
          exact .codepoint hmore (by omega)
        · obtain rfl : count = 3 := by omega
          rcases endCodepoint_none (n := value + d * 16 ^ (3 - 3)) with
            ⟨hend, hlow, hhigh⟩ | hend | ⟨hend, -⟩
          · rw [hend] at hnext
            cases hnext
            exact .surrogate hmore.isHex4 hlow hhigh
          · rw [hend] at hnext
            cases hnext
          · rw [hend] at hnext
            cases hnext
  | surrogate hhex hlow hhigh =>
      simp only [StringState.next] at hnext
      split_ifs at hnext with hslash
      subst hslash
      cases hnext
      exact .surrogateEscape hhex hlow hhigh
  | @surrogateEscape high digits hhex hlow hhigh =>
      simp only [StringState.next] at hnext
      split_ifs at hnext with hu
      subst hu
      cases hnext
      simpa using HasRead.pair hhex hlow hhigh .none (by omega)
  | @pair high count value digits digits' hhex hlow hhigh hdigits hcount =>
      simp only [StringState.next] at hnext
      split at hnext
      · cases hnext
      next d hd =>
        split_ifs at hnext with hlt
        · cases hnext
          simpa using HasRead.pair hhex hlow hhigh (.more hdigits hd) (by omega)
        · simp only [endCodepoint] at hnext
          split_ifs at hnext

theorem HasRead.add {state : StringState} {c d : Char} {read body chars : List Char}
    (h : HasRead state read) (hnext : state.next c = .add d) (hbody : Spells body chars) :
    Spells (read ++ c :: body) (d :: chars) := by
  cases h with
  | body =>
      simp only [StringState.next] at hnext
      split_ifs at hnext with hquote hslash hcontrol
      cases hnext
      refine .plain ?_ hbody
      simp [isPlain, hquote, hslash]
      omega
  | escape =>
      simp only [StringState.next] at hnext
      split_ifs at hnext with hu
      split at hnext
      · cases hnext
      next d' hd =>
        cases hnext
        exact .escape (escapeChar_eq_some_iff.mp hd) hbody
  | @codepoint count value digits hdigits hcount =>
      simp only [StringState.next] at hnext
      split at hnext
      · cases hnext
      next d' hd =>
        split_ifs at hnext with hlt
        obtain rfl : count = 3 := by omega
        have hhex := (FirstDigits.more hdigits hd).isHex4
        rcases endCodepoint_none (n := value + d' * 16 ^ (3 - 3)) with
          ⟨hend, -, -⟩ | hend | ⟨hend, hplane⟩
        · rw [hend] at hnext
          cases hnext
        · rw [hend] at hnext
          cases hnext
        · rw [hend] at hnext
          cases hnext
          simpa using Spells.unicode hhex hplane hbody
  | surrogate hhex hlow hhigh =>
      simp only [StringState.next] at hnext
      split_ifs at hnext
  | surrogateEscape hhex hlow hhigh =>
      simp only [StringState.next] at hnext
      split_ifs at hnext
  | @pair high count value digits digits' hhex hlow hhigh hdigits hcount =>
      simp only [StringState.next] at hnext
      split at hnext
      · cases hnext
      next d' hd =>
        split_ifs at hnext with hlt
        obtain rfl : count = 3 := by omega
        have hhex' := (FirstDigits.more hdigits hd).isHex4
        simp only [endCodepoint] at hnext
        split_ifs at hnext with hrange
        obtain rfl := StringStep.add.inj hnext
        have hpair := Spells.pair hhex hlow hhigh hhex' hrange.1 hrange.2 hbody
        rw [← surrogates_eq hlow hrange.1] at hpair
        simpa using hpair

theorem HasRead.done {state : StringState} {c : Char} {read : List Char}
    (h : HasRead state read) (hnext : state.next c = .done) : read = [] ∧ c = '"' := by
  cases h with
  | body =>
      simp only [StringState.next] at hnext
      split_ifs at hnext with hquote
      exact ⟨rfl, hquote⟩
  | escape =>
      simp only [StringState.next] at hnext
      split_ifs at hnext
      split at hnext <;> cases hnext
  | surrogate hhex hlow hhigh =>
      simp only [StringState.next] at hnext
      split_ifs at hnext
  | surrogateEscape hhex hlow hhigh =>
      simp only [StringState.next] at hnext
      split_ifs at hnext
  | codepoint hdigits hcount =>
      simp only [StringState.next, endCodepoint] at hnext
      split at hnext
      · cases hnext
      · split_ifs at hnext
  | pair hhex hlow hhigh hdigits hcount =>
      simp only [StringState.next, endCodepoint] at hnext
      split at hnext
      · cases hnext
      · split_ifs at hnext

theorem scanString_sound {state : StringState} {read buffer input rest : List Char} {s : String}
    (hread : HasRead state read)
    (h : scanString state buffer input = (.valueString s, rest)) :
    ∃ body chars, input = body ++ '"' :: rest ∧ Spells (read ++ body) chars ∧
      s = String.ofList (buffer ++ chars) := by
  induction input generalizing state read buffer with
  | nil => cases h
  | cons c input ih =>
      rw [scanString] at h
      split at h
      next state' hnext =>
        obtain ⟨body, chars, rfl, hspells, hs⟩ := ih (hread.goto hnext) h
        exact ⟨c :: body, chars, rfl, by simpa using hspells, hs⟩
      next d hnext =>
        obtain ⟨body, chars, rfl, hspells, hs⟩ := ih .body h
        exact ⟨c :: body, d :: chars, rfl, hread.add hnext hspells, by simpa using hs⟩
      next hnext =>
        obtain ⟨rfl, rfl⟩ := hread.done hnext
        cases h
        exact ⟨[], [], rfl, .nil, by simp⟩
      · cases h

theorem exists_of_isHex4 {digits : List Char} {n : Nat} (h : IsHex4 digits n) :
    ∃ a b c d i j k l, digits = [a, b, c, d] ∧ hexDigit? a = some i ∧ hexDigit? b = some j ∧
      hexDigit? c = some k ∧ hexDigit? d = some l ∧
        n = i * 16 ^ 3 + j * 16 ^ 2 + k * 16 + l := by
  obtain ⟨hi, hj, hk, hl⟩ := h
  exact ⟨_, _, _, _, _, _, _, _, rfl, hi, hj, hk, hl, rfl⟩

theorem scanString_hex4 {digits : List Char} {n : Nat} (h : IsHex4 digits n)
    (high : Option Nat) (buffer rest : List Char) :
    scanString (.codepoint high 0 0) buffer (digits ++ rest) =
      match endCodepoint high n with
      | .goto state => scanString state buffer rest
      | .add c => scanString .body (buffer ++ [c]) rest
      | .done => (.valueString (String.ofList buffer), rest)
      | .fail message => (.parseError message, rest) := by
  obtain ⟨a, b, c, d, i, j, k, l, rfl, hi, hj, hk, hl, rfl⟩ := exists_of_isHex4 h
  have hvalue : 0 + i * 16 ^ (3 - 0) + j * 16 ^ (3 - 1) + k * 16 ^ (3 - 2) + l * 16 ^ (3 - 3) =
      i * 16 ^ 3 + j * 16 ^ 2 + k * 16 + l := by omega
  rw [← hvalue]
  cases hend : endCodepoint high
      (0 + i * 16 ^ (3 - 0) + j * 16 ^ (3 - 1) + k * 16 ^ (3 - 2) + l * 16 ^ (3 - 3)) <;>
    simp only [List.cons_append, List.nil_append, scanString, StringState.next, hi, hj, hk, hl,
      Nat.lt_irrefl, Nat.reduceAdd, Nat.reduceLT, if_true, if_false, hend]

theorem scanString_complete {body chars : List Char} (h : Spells body chars)
    (buffer rest : List Char) :
    scanString .body buffer (body ++ '"' :: rest) =
      (.valueString (String.ofList (buffer ++ chars)), rest) := by
  induction h generalizing buffer with
  | nil => simp [scanString, StringState.next]
  | @plain c body chars hplain _ ih =>
      obtain ⟨hcontrol, hquote, hslash⟩ : 0x20 ≤ c.toNat ∧ c ≠ '"' ∧ c ≠ '\\' := by
        simpa [isPlain, and_assoc] using hplain
      have hstep : StringState.body.next c = .add c := by
        simp only [StringState.next, hquote, hslash, if_false]
        rw [if_neg (by omega)]
      rw [List.cons_append, scanString, hstep]
      simpa using ih (buffer ++ [c])
  | @escape c d body chars hmem _ ih =>
      have hu : c ≠ 'u' := by
        rintro rfl
        exact absurd (escapeChar_eq_some_iff.mpr hmem) (by simp [escapeChar])
      have hescape := escapeChar_eq_some_iff.mpr hmem
      have hstep : StringState.escape.next c = .add d := by
        simp only [StringState.next, hu, hescape, if_false]
      have hslash : StringState.body.next '\\' = .goto .escape := rfl
      simp only [List.cons_append, scanString, hslash, hstep]
      simpa using ih (buffer ++ [d])
  | @unicode digits body chars n hhex hplane _ ih =>
      have hend : endCodepoint none n = .add (Char.ofNat n) := by
        simp only [endCodepoint]
        rw [if_neg (by omega), if_neg (by omega)]
      simp only [List.cons_append, scanString, StringState.next, List.append_assoc]
      simp [scanString_hex4 hhex, hend, ih]
  | @pair digits digits' body chars high low hhex hlow hhigh hhex' hlow' hhigh' _ ih =>
      have hend : endCodepoint none high = .goto (.surrogate high) := by
        simp only [endCodepoint]
        rw [if_pos ⟨hlow, hhigh⟩]
      have hend' : endCodepoint (some high) low =
          .add (Char.ofNat (0x10000 + (high - 0xD800) * 0x400 + (low - 0xDC00))) := by
        simp only [endCodepoint]
        rw [if_pos ⟨hlow', hhigh'⟩, surrogates_eq hlow hlow']
      simp only [List.cons_append, scanString, StringState.next, List.append_assoc]
      simp [scanString_hex4 hhex, scanString_hex4 hhex', hend, hend', scanString,
        StringState.next, ih]

/-! ## Numbers -/

def NumberEnds (rest : List Char) : Prop :=
  ∀ c ∈ rest.head?, c.isDigit = false ∧ c ≠ '.' ∧ c ≠ 'e' ∧ c ≠ 'E'

def HasDigits : NumberState → List Char → Prop
  | .minus, digits => digits = []
  | .zero, digits => digits = ['0']
  | .any1, digits => ∃ c rest, digits = c :: rest ∧ c.isDigit ∧ c ≠ '0' ∧ ∀ d ∈ rest, d.isDigit
  | _, _ => False

def HasNumber (state : NumberState) (numberType : NumberType) (buffer : List Char) : Prop :=
  match numberType with
  | .unsigned => state ≠ .minus ∧ HasDigits state buffer
  | .integer => ∃ digits, buffer = '-' :: digits ∧ HasDigits state digits
  | .float => True

theorem isInt_of_hasDigits {state : NumberState} {digits : List Char}
    (h : HasDigits state digits) (hminus : state ≠ .minus) : IsInt digits := by
  cases state with
  | zero =>
      obtain rfl : digits = ['0'] := h
      exact .zero
  | any1 =>
      obtain ⟨c, rest, rfl, hc, hne, hrest⟩ := h
      exact .digits hc hne hrest
  | _ => first | exact absurd rfl hminus | exact h.elim

theorem HasDigits.goto {state state' : NumberState} {digits : List Char} {c : Char}
    (h : HasDigits state digits) (hnext : state.next c = .goto state') :
    state' = .decimal1 ∨ state' = .exponent ∨
      state' ≠ .minus ∧ HasDigits state' (digits ++ [c]) := by
  cases state with
  | minus =>
      obtain rfl : digits = [] := h
      simp only [NumberState.next] at hnext
      split_ifs at hnext with hzero hdigit
      · cases hnext
        exact .inr (.inr ⟨by decide, by simp [HasDigits, hzero]⟩)
      · cases hnext
        exact .inr (.inr ⟨by decide, c, [], rfl, hdigit, hzero, by simp⟩)
      · cases hnext
  | zero =>
      simp only [NumberState.next] at hnext
      split_ifs at hnext
      · cases hnext
        exact .inl rfl
      · cases hnext
        exact .inr (.inl rfl)
      · cases hnext
  | any1 =>
      obtain ⟨d, rest, rfl, hd, hne, hrest⟩ := h
      simp only [NumberState.next] at hnext
      split_ifs at hnext with hdigit
      · cases hnext
        refine .inr (.inr ⟨by decide, d, rest ++ [c], rfl, hd, hne, ?_⟩)
        intro e he
        rcases List.mem_append.mp he with he | he
        · exact hrest e he
        · rw [List.mem_singleton.mp he]
          exact hdigit
      · cases hnext
        exact .inl rfl
      · cases hnext
        exact .inr (.inl rfl)
      · cases hnext
  | _ => exact h.elim

theorem HasNumber.goto {state state' : NumberState} {numberType : NumberType}
    {buffer : List Char} {c : Char} (h : HasNumber state numberType buffer)
    (hnext : state.next c = .goto state') :
    HasNumber state' (state'.enter numberType) (buffer ++ [c]) := by
  have hfloat : ∀ buffer', state' = .decimal1 ∨ state' = .exponent →
      HasNumber state' (state'.enter numberType) buffer' := by
    rintro buffer' (rfl | rfl) <;> exact trivial
  have hkeep : ∀ {digits}, state' ≠ .minus → HasDigits state' digits →
      state'.enter numberType = numberType := by
    intro digits hminus hdigits
    cases state' <;> first | rfl | exact absurd rfl hminus | exact hdigits.elim
  cases numberType with
  | unsigned =>
      rcases h.2.goto hnext with hpoint | hexp | ⟨hminus, hdigits⟩
      · exact hfloat _ (.inl hpoint)
      · exact hfloat _ (.inr hexp)
      · rw [hkeep hminus hdigits]
        exact ⟨hminus, hdigits⟩
  | integer =>
      obtain ⟨digits, rfl, hdigits⟩ := h
      rcases hdigits.goto hnext with hpoint | hexp | ⟨hminus, hdigits⟩
      · exact hfloat _ (.inl hpoint)
      · exact hfloat _ (.inr hexp)
      · rw [hkeep hminus hdigits]
        exact ⟨digits ++ [c], rfl, hdigits⟩
  | float =>
      have henter : state'.enter .float = .float ∨ state' = .minus := by
        cases state' <;> simp [NumberState.enter]
      rcases henter with henter | rfl
      · rw [henter]
        exact trivial
      · -- no label leads back to the sign
        cases state <;> simp only [NumberState.next] at hnext <;> split_ifs at hnext <;>
          cases hnext

inductive ReadsInteger : List Char → Token → Prop where
  | unsigned {digits : List Char} : IsInt digits → Nat.ofDigitChars 10 digits 0 < 2 ^ 64 →
      ReadsInteger digits (.valueUnsigned (Nat.ofDigitChars 10 digits 0))
  | integer {digits : List Char} : IsInt digits →
      -2 ^ 63 ≤ -(Nat.ofDigitChars 10 digits 0 : Int) →
        ReadsInteger ('-' :: digits) (.valueInteger (-(Nat.ofDigitChars 10 digits 0 : Int)))

def Token.isInteger : Token → Bool
  | .valueUnsigned _ => true
  | .valueInteger _ => true
  | _ => false

theorem readsInteger_convertNumber {state : NumberState} {numberType : NumberType}
    {buffer : List Char} (h : HasNumber state numberType buffer) (hminus : state ≠ .minus)
    (htoken : (convertNumber numberType buffer).isInteger = true) :
    ReadsInteger buffer (convertNumber numberType buffer) := by
  cases numberType with
  | unsigned =>
      have hint := isInt_of_hasDigits h.2 hminus
      simp only [convertNumber] at htoken ⊢
      split_ifs at htoken ⊢ with hlt
      · exact .unsigned hint hlt
      · cases htoken
  | integer =>
      obtain ⟨digits, rfl, hdigits⟩ := h
      have hint := isInt_of_hasDigits hdigits hminus
      simp only [convertNumber, List.drop_succ_cons, List.drop_zero] at htoken ⊢
      split_ifs at htoken ⊢ with hle
      · exact .integer hint hle
      · cases htoken
  | float => cases htoken

theorem scanNumber_sound {state : NumberState} {numberType : NumberType}
    {buffer input rest : List Char} {token : Token} (hnumber : HasNumber state numberType buffer)
    (h : scanNumber state numberType buffer input = (token, rest))
    (htoken : token.isInteger = true) :
    ∃ more, input = more ++ rest ∧ ReadsInteger (buffer ++ more) token := by
  induction input generalizing state numberType buffer with
  | nil =>
      simp only [scanNumber] at h
      split at h
      · cases h
        cases htoken
      next hdone =>
        cases h
        have hminus : state ≠ .minus := by
          rintro rfl
          exact hdone _ rfl
        exact ⟨[], rfl, by simpa using readsInteger_convertNumber hnumber hminus htoken⟩
  | cons c input ih =>
      simp only [scanNumber] at h
      split at h
      next state' hnext =>
        obtain ⟨more, rfl, hreads⟩ := ih (hnumber.goto hnext) h
        exact ⟨c :: more, rfl, by simpa using hreads⟩
      next hdone =>
        cases h
        have hminus : state ≠ .minus := by
          rintro rfl
          simp only [NumberState.next, NumberState.default] at hdone
          split_ifs at hdone
        exact ⟨[], rfl, by simpa using readsInteger_convertNumber hnumber hminus htoken⟩
      · cases h
        cases htoken

theorem scanNumber_done {state : NumberState} {numberType : NumberType} {buffer rest : List Char}
    (hstate : state = .zero ∨ state = .any1) (hends : NumberEnds rest) :
    scanNumber state numberType buffer rest = (convertNumber numberType buffer, rest) := by
  cases rest with
  | nil => rcases hstate with rfl | rfl <;> rfl
  | cons c rest =>
      obtain ⟨hdigit, hpoint, he, hE⟩ := hends c rfl
      have hnext : state.next c = .done := by
        rcases hstate with rfl | rfl <;>
          simp [NumberState.next, NumberState.default, hdigit, hpoint, he, hE]
      simp only [scanNumber, hnext]

theorem scanNumber_digits {numberType : NumberType} {buffer digits rest : List Char}
    (hdigits : ∀ d ∈ digits, d.isDigit) (hends : NumberEnds rest) :
    scanNumber .any1 numberType buffer (digits ++ rest) =
      (convertNumber numberType (buffer ++ digits), rest) := by
  induction digits generalizing buffer with
  | nil => simpa using scanNumber_done (.inr rfl) hends
  | cons d digits ih =>
      have hd : d.isDigit = true := hdigits d List.mem_cons_self
      have hnext : NumberState.any1.next d = .goto .any1 := by
        simp [NumberState.next, hd]
      have hrest := @ih (buffer ++ [d]) fun e he => hdigits e (List.mem_cons_of_mem d he)
      rw [List.cons_append, scanNumber, hnext]
      simpa [NumberState.enter] using hrest

/-! ## Lexemes -/

/-- A text and the token it is, without blanks.  Floating-point numbers are left out. -/
inductive Lexeme : List Char → Token → Prop where
  | literalTrue : Lexeme ['t', 'r', 'u', 'e'] .literalTrue
  | literalFalse : Lexeme ['f', 'a', 'l', 's', 'e'] .literalFalse
  | literalNull : Lexeme ['n', 'u', 'l', 'l'] .literalNull
  | beginArray : Lexeme ['['] .beginArray
  | endArray : Lexeme [']'] .endArray
  | beginObject : Lexeme ['{'] .beginObject
  | endObject : Lexeme ['}'] .endObject
  | nameSeparator : Lexeme [':'] .nameSeparator
  | valueSeparator : Lexeme [','] .valueSeparator
  | valueString {body chars : List Char} : Spells body chars →
      Lexeme (quote body) (.valueString (String.ofList chars))
  | integer {text : List Char} {token : Token} : ReadsInteger text token → Lexeme text token

def Token.char? : Token → Option Char
  | .beginArray => some '['
  | .endArray => some ']'
  | .beginObject => some '\x7b'
  | .endObject => some '\x7d'
  | .nameSeparator => some ':'
  | .valueSeparator => some ','
  | _ => none

theorem lexeme_char_iff {text : List Char} {token : Token} {c : Char}
    (hchar : token.char? = some c) : Lexeme text token ↔ text = [c] := by
  constructor
  · intro h
    cases h with
    | literalTrue => cases hchar
    | literalFalse => cases hchar
    | literalNull => cases hchar
    | valueString _ => cases hchar
    | integer h => cases h <;> cases hchar
    | _ =>
        cases hchar
        rfl
  · rintro rfl
    cases token <;> cases hchar
    · exact .beginArray
    · exact .beginObject
    · exact .endArray
    · exact .endObject
    · exact .nameSeparator
    · exact .valueSeparator

def Token.isRegular : Token → Bool
  | .parseError _ => false
  | .endOfInput => false
  | .valueFloat _ => false
  | _ => true

theorem scanString_isRegular {state : StringState} {buffer input : List Char}
    (h : (scanString state buffer input).1.isRegular = true) :
    ∃ s, (scanString state buffer input).1 = .valueString s := by
  induction input generalizing state buffer with
  | nil => cases h
  | cons c input ih =>
      simp only [scanString] at h ⊢
      split at h
      · exact ih h
      · exact ih h
      · exact ⟨_, rfl⟩
      · cases h

theorem scanNumber_isRegular {state : NumberState} {numberType : NumberType}
    {buffer input : List Char}
    (h : (scanNumber state numberType buffer input).1.isRegular = true) :
    (scanNumber state numberType buffer input).1.isInteger = true := by
  have hconvert : ∀ numberType buffer, (convertNumber numberType buffer).isRegular = true →
      (convertNumber numberType buffer).isInteger = true := by
    intro numberType buffer hregular
    cases numberType <;> simp only [convertNumber] at hregular ⊢
    · split_ifs at hregular ⊢
      · rfl
      · cases hregular
    · split_ifs at hregular ⊢
      · rfl
      · cases hregular
    · cases hregular
  induction input generalizing state numberType buffer with
  | nil =>
      simp only [scanNumber] at h ⊢
      split at h
      · cases h
      · exact hconvert _ _ h
  | cons c input ih =>
      simp only [scanNumber] at h ⊢
      split at h
      · exact ih h
      · exact hconvert _ _ h
      · cases h

theorem scanLiteral_sound {token : Token} {literal input : List Char}
    (h : (scanLiteral token literal input).1.isRegular = true) :
    (scanLiteral token literal input).1 = token ∧
      input = literal ++ (scanLiteral token literal input).2 := by
  induction literal generalizing input with
  | nil => exact ⟨rfl, rfl⟩
  | cons l literal ih =>
      cases input with
      | nil => cases h
      | cons c input =>
          simp only [scanLiteral] at h ⊢
          split_ifs at h ⊢ with hl
          · subst hl
            obtain ⟨htoken, hinput⟩ := ih h
            exact ⟨htoken, by rw [List.cons_append, ← hinput]⟩
          · cases h

theorem scanToken_sound {c : Char} {rest : List Char}
    (h : (scanToken c rest).1.isRegular = true) :
    ∃ text, Lexeme text (scanToken c rest).1 ∧ c :: rest = text ++ (scanToken c rest).2 := by
  have hnumber : ∀ state numberType, HasNumber state numberType [c] →
      (scanNumber state numberType [c] rest).1.isRegular = true →
        ∃ text, Lexeme text (scanNumber state numberType [c] rest).1 ∧
          c :: rest = text ++ (scanNumber state numberType [c] rest).2 := by
    intro state numberType hhas hregular
    obtain ⟨more, hmore, hreads⟩ :=
      scanNumber_sound hhas rfl (scanNumber_isRegular hregular)
    exact ⟨c :: more, .integer hreads, by rw [List.cons_append, ← hmore]⟩
  have hliteral : ∀ token literal, (scanLiteral token literal rest).1.isRegular = true →
      Lexeme (c :: literal) token → ∃ text, Lexeme text (scanLiteral token literal rest).1 ∧
        c :: rest = text ++ (scanLiteral token literal rest).2 := by
    intro token literal hregular hlexeme
    obtain ⟨htoken, hinput⟩ := scanLiteral_sound hregular
    refine ⟨c :: literal, ?_, by rw [List.cons_append, ← hinput]⟩
    rw [htoken]
    exact hlexeme
  unfold scanToken at h ⊢
  split at h
  · exact ⟨_, .beginArray, rfl⟩
  · exact ⟨_, .endArray, rfl⟩
  · exact ⟨_, .beginObject, rfl⟩
  · exact ⟨_, .endObject, rfl⟩
  · exact ⟨_, .nameSeparator, rfl⟩
  · exact ⟨_, .valueSeparator, rfl⟩
  · exact hliteral _ _ h .literalTrue
  · exact hliteral _ _ h .literalFalse
  · exact hliteral _ _ h .literalNull
  · obtain ⟨s, hs⟩ := scanString_isRegular h
    have hscan : scanString .body [] rest = (.valueString s, (scanString .body [] rest).2) :=
      Prod.ext hs rfl
    obtain ⟨body, chars, hrest, hspells, rfl⟩ := scanString_sound .body hscan
    refine ⟨quote body, hs ▸ .valueString (by simpa using hspells), ?_⟩
    simp only [quote, List.cons_append, List.append_assoc, List.nil_append]
    exact congrArg _ hrest
  · exact hnumber _ _ ⟨[], rfl, rfl⟩ h
  · exact hnumber _ _ ⟨by decide, rfl⟩ h
  · cases h
  next hzero _ =>
    split_ifs at h ⊢ with hdigit
    · exact hnumber _ _ ⟨by decide, c, [], rfl, hdigit, hzero, by simp⟩ h
    · cases h

/-- What `scan` returns is spelled by what it read. -/
theorem scan_sound {input : List Char} (h : (scan input).1.isRegular = true) :
    ∃ before text, IsBlank before ∧ Lexeme text (scan input).1 ∧
      input = before ++ text ++ (scan input).2 := by
  rcases exists_scan_eq input with heq | ⟨before, c, rest, hbefore, hinput, heq⟩
  · rw [heq] at h
    cases h
  · rw [heq] at h ⊢
    obtain ⟨text, hlexeme, htext⟩ := scanToken_sound h
    exact ⟨before, text, hbefore, hlexeme, by rw [List.append_assoc, ← htext, hinput]⟩

theorem scanLiteral_complete (token : Token) (literal rest : List Char) :
    scanLiteral token literal (literal ++ rest) = (token, rest) := by
  induction literal with
  | nil => rfl
  | cons l literal ih => simpa [scanLiteral] using ih

theorem scanToken_digit {c : Char} (hdigit : c.isDigit) (hzero : c ≠ '0') (rest : List Char) :
    scanToken c rest = scanNumber .any1 .unsigned [c] rest := by
  unfold scanToken
  split <;> first | exact absurd hdigit (by decide) | exact absurd rfl hzero | exact if_pos hdigit

theorem scanToken_integer {text rest : List Char} {token : Token} (h : ReadsInteger text token)
    (hends : NumberEnds rest) :
    ∃ c text', text = c :: text' ∧ isWhitespace c = false ∧
      scanToken c (text' ++ rest) = (token, rest) := by
  have hdigit : ∀ c : Char, c.isDigit = true → isWhitespace c = false := by
    intro c hc
    by_contra hblank
    rcases isWhitespace_iff.mp (by simpa using hblank) with rfl | rfl | rfl | rfl <;>
      exact absurd hc (by decide)
  cases h with
  | @unsigned _ hint hlt =>
      have hconvert : convertNumber .unsigned text =
          .valueUnsigned (Nat.ofDigitChars 10 text 0) := by
        simp only [convertNumber, hlt, if_true]
      cases hint with
      | zero =>
          refine ⟨'0', [], rfl, rfl, ?_⟩
          exact (scanNumber_done (.inl rfl) hends).trans (congrArg (·, rest) hconvert)
      | @digits c digits hc hne hdigits =>
          refine ⟨c, digits, rfl, hdigit c hc, ?_⟩
          rw [scanToken_digit hc hne, scanNumber_digits hdigits hends]
          exact congrArg (·, rest) hconvert
  | @integer digits hint hle =>
      have hconvert : convertNumber .integer ('-' :: digits) =
          .valueInteger (-(Nat.ofDigitChars 10 digits 0 : Int)) := by
        simp only [convertNumber, List.drop_succ_cons, List.drop_zero, hle, if_true]
      refine ⟨'-', digits, rfl, rfl, ?_⟩
      cases hint with
      | zero => exact scanNumber_done (.inl rfl) hends
      | @digits c digits hc hne hdigits =>
          have hnext : NumberState.minus.next c = .goto .any1 := by
            simp [NumberState.next, hc, hne]
          show scanNumber .minus .integer ['-'] (c :: (digits ++ rest)) = _
          rw [scanNumber, hnext]
          exact (scanNumber_digits hdigits hends).trans (congrArg (·, rest) hconvert)

/-- Whatever spells a token is read as that token. -/
theorem scan_complete {before text rest : List Char} {token : Token} (hbefore : IsBlank before)
    (h : Lexeme text token) (hends : token.isInteger = true → NumberEnds rest) :
    scan (before ++ text ++ rest) = (token, rest) := by
  rw [List.append_assoc, scan_append_of_isBlank hbefore]
  cases h with
  | literalTrue => exact scanLiteral_complete .literalTrue ['r', 'u', 'e'] rest
  | literalFalse => exact scanLiteral_complete .literalFalse ['a', 'l', 's', 'e'] rest
  | literalNull => exact scanLiteral_complete .literalNull ['u', 'l', 'l'] rest
  | valueString hspells =>
      have hstring := scanString_complete hspells [] rest
      rw [List.nil_append] at hstring
      rw [← hstring, quote, List.cons_append, List.append_assoc, scan_cons rfl]
      rfl
  | integer hreads =>
      have hinteger : token.isInteger = true := by cases hreads <;> rfl
      obtain ⟨c, text', rfl, hblank, hscan⟩ := scanToken_integer hreads (hends hinteger)
      rw [List.cons_append, scan_cons hblank, hscan]
  | _ => rfl

end TraCR
