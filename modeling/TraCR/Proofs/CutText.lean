import TraCR.Proofs.Parser

/-!
# Texts cut short

A text the parser accepts up to its end is refused as a syntax error when its end is
missing: what the lexer reads in the first part it also reads in the whole, up to the last
number.  A number alone is the exception: its first digits are a number.
-/

namespace TraCR

open TraCR.Lib TraCR.Lib.JsonText TraCR.Lib.Traversal

/-! ## Numbers -/

def Token.isNumber : Token → Bool
  | .valueFloat _ => true
  | token => token.isInteger

theorem isNumber_of_isInteger {token : Token} (h : token.isInteger = true) :
    token.isNumber = true := by
  cases token <;> first | rfl | cases h

theorem ofDigitChars_le_append (digits : List Char) (c : Char) :
    Nat.ofDigitChars 10 digits 0 ≤ Nat.ofDigitChars 10 (digits ++ [c]) 0 := by
  rw [Nat.ofDigitChars_append, Nat.ofDigitChars_cons, Nat.ofDigitChars_nil]
  omega

theorem isInteger_convertNumber_append {numberType : NumberType} {buffer : List Char}
    (h : (convertNumber numberType buffer).isInteger = false) (c : Char) :
    (convertNumber numberType (buffer ++ [c])).isInteger = false := by
  cases numberType with
  | float => rfl
  | unsigned =>
      have hle := ofDigitChars_le_append buffer c
      simp only [convertNumber] at h ⊢
      split_ifs at h with hlt
      · cases h
      · rw [if_neg (by omega)]
        rfl
  | integer =>
      cases buffer with
      | nil => cases h
      | cons sign digits =>
          have hle := ofDigitChars_le_append digits c
          simp only [convertNumber, List.cons_append, List.drop_succ_cons, List.drop_zero] at h ⊢
          split_ifs at h with hmin
          · cases h
          · rw [if_neg (by omega)]
            rfl

theorem next_ne_minus (state : NumberState) (c : Char) : state.next c ≠ .goto .minus := by
  intro h
  cases state <;> simp only [NumberState.next] at h <;> split_ifs at h <;> cases h

theorem enter_eq {state : NumberState} (h : state ≠ .minus) (numberType : NumberType) :
    state.enter numberType = numberType ∨ state.enter numberType = .float := by
  cases state <;> first | exact .inl rfl | exact .inr rfl | exact absurd rfl h

theorem isInteger_scanNumber {state : NumberState} {numberType : NumberType}
    {buffer : List Char} (h : (convertNumber numberType buffer).isInteger = false)
    (input : List Char) : (scanNumber state numberType buffer input).1.isInteger = false := by
  induction input generalizing state numberType buffer with
  | nil =>
      simp only [scanNumber]
      split
      · rfl
      · exact h
  | cons c input ih =>
      simp only [scanNumber]
      split
      next state' hnext =>
        apply ih
        have hminus : state' ≠ .minus := by
          rintro rfl
          exact next_ne_minus state c hnext
        rcases enter_eq hminus numberType with henter | henter
        · rw [henter]
          exact isInteger_convertNumber_append h c
        · rw [henter]
          rfl
      · exact h
      · rfl

/-- A number is read to the end of the text, or what follows the text does not matter. -/
theorem scanNumber_append (state : NumberState) (numberType : NumberType)
    (buffer input more : List Char) :
    (scanNumber state numberType buffer input).2 = [] ∨
      scanNumber state numberType buffer (input ++ more) =
        ((scanNumber state numberType buffer input).1,
          (scanNumber state numberType buffer input).2 ++ more) := by
  induction input generalizing state numberType buffer with
  | nil =>
      left
      simp only [scanNumber]
      split <;> rfl
  | cons c input ih =>
      simp only [scanNumber, List.cons_append]
      split
      · exact ih _ _ _
      · exact .inr rfl
      · exact .inr rfl

theorem scanNumber_float_append {state : NumberState} {numberType : NumberType}
    {buffer input text : List Char}
    (h : (scanNumber state numberType buffer input).1 = .valueFloat text) (more : List Char) :
    (scanNumber state numberType buffer (input ++ more)).1.isInteger = false := by
  induction input generalizing state numberType buffer with
  | nil =>
      simp only [scanNumber] at h
      split at h
      · cases h
      · rw [List.nil_append]
        have hconvert : convertNumber numberType buffer = .valueFloat text := h
        exact isInteger_scanNumber (by rw [hconvert]; rfl) more
  | cons c input ih =>
      simp only [scanNumber, List.cons_append] at h ⊢
      split at h
      · exact ih h
      · rw [h]
        rfl
      · cases h

/-! ## The other tokens -/

theorem isNumber_scanString (state : StringState) (buffer input : List Char) :
    (scanString state buffer input).1.isNumber = false := by
  induction input generalizing state buffer with
  | nil => rfl
  | cons c input ih =>
      simp only [scanString]
      split
      · exact ih _ _
      · exact ih _ _
      · rfl
      · rfl

theorem isNumber_scanLiteral {token : Token} (h : token.isNumber = false)
    (literal input : List Char) : (scanLiteral token literal input).1.isNumber = false := by
  induction literal generalizing input with
  | nil => exact h
  | cons l literal ih =>
      cases input with
      | nil => rfl
      | cons c input =>
          simp only [scanLiteral]
          split
          · exact ih input
          · rfl

theorem scanToken_of_isNumber {c : Char} {input : List Char}
    (h : (scanToken c input).1.isNumber = true) :
    ∃ state numberType, ∀ input', scanToken c input' = scanNumber state numberType [c] input' := by
  have hliteral : ∀ {token literal}, token.isNumber = false →
      (scanLiteral token literal input).1.isNumber = true → False := by
    intro token literal htoken hnumber
    rw [isNumber_scanLiteral htoken] at hnumber
    cases hnumber
  unfold scanToken at h
  split at h
  · cases h
  · cases h
  · cases h
  · cases h
  · cases h
  · cases h
  · exact (hliteral rfl h).elim
  · exact (hliteral rfl h).elim
  · exact (hliteral rfl h).elim
  · rw [isNumber_scanString] at h
    cases h
  · exact ⟨_, _, fun _ => rfl⟩
  · exact ⟨_, _, fun _ => rfl⟩
  · cases h
  next hzero _ =>
    split_ifs at h with hdigit
    · exact ⟨_, _, scanToken_digit hdigit hzero⟩
    · cases h

theorem scan_of_isNumber {input : List Char} (h : (scan input).1.isNumber = true) :
    ∃ c rest state numberType, scan input = scanNumber state numberType [c] rest ∧
      ∀ more, scan (input ++ more) = scanNumber state numberType [c] (rest ++ more) := by
  rcases exists_scan_eq input with heq | ⟨before, c, rest, hbefore, hinput, heq⟩
  · rw [heq] at h
    cases h
  · rw [heq] at h
    obtain ⟨state, numberType, hscan⟩ := scanToken_of_isNumber h
    have hblank : isWhitespace c = false := by
      by_contra hblank
      have hc : isWhitespace c = true := by simpa using hblank
      unfold scanToken at h
      rcases isWhitespace_iff.mp hc with rfl | rfl | rfl | rfl <;> cases h
    refine ⟨c, rest, state, numberType, by rw [heq, hscan], fun more => ?_⟩
    rw [hinput, List.append_assoc, scan_append_of_isBlank hbefore, List.cons_append,
      scan_cons hblank, hscan]

/-- What is read in a text is also read when the text goes on, unless it is a number the
text ends with. -/
theorem scan_append {input : List Char} (h : (scan input).1.isRegular = true)
    (more : List Char) :
    ((scan input).1.isInteger = true ∧ (scan input).2 = []) ∨
      scan (input ++ more) = ((scan input).1, (scan input).2 ++ more) := by
  cases hinteger : (scan input).1.isInteger with
  | false =>
      obtain ⟨before, text, hbefore, hlexeme, hinput⟩ := scan_sound h
      have hscan := @scan_complete _ _ ((scan input).2 ++ more) _ hbefore hlexeme
        (fun htrue => absurd htrue (by simp [hinteger]))
      rw [← List.append_assoc, ← hinput] at hscan
      exact .inr hscan
  | true =>
      obtain ⟨c, rest, state, numberType, hscan, hmore⟩ :=
        scan_of_isNumber (isNumber_of_isInteger hinteger)
      rw [hmore, hscan]
      rcases scanNumber_append state numberType [c] rest more with hend | heq
      · exact .inl ⟨rfl, hend⟩
      · exact .inr heq

theorem isInteger_scan_append {input more : List Char} (h : (scan input).1.isInteger = true)
    (hregular : (scan (input ++ more)).1.isRegular = true) :
    (scan (input ++ more)).1.isInteger = true := by
  obtain ⟨c, rest, state, numberType, -, hmore⟩ := scan_of_isNumber (isNumber_of_isInteger h)
  rw [hmore] at hregular ⊢
  exact scanNumber_isRegular hregular

theorem scan_float_append {input text : List Char} (h : (scan input).1 = .valueFloat text)
    (more : List Char) : (scan (input ++ more)).1.isRegular = false := by
  obtain ⟨c, rest, state, numberType, hscan, hmore⟩ := scan_of_isNumber (by rw [h]; rfl)
  rw [hscan] at h
  have hinteger := scanNumber_float_append h more
  rw [hmore]
  by_contra hregular
  rw [scanNumber_isRegular (by simpa using hregular)] at hinteger
  cases hinteger

/-! ## The parser -/

theorem feed_endOfInput {state : ParserState} (hdone : state.isDone = false) :
    ∃ e, state.feed .endOfInput = .error (.syntaxError e) := by
  cases state <;> first | exact ⟨_, rfl⟩ | cases hdone

theorem feed_not_isRegular {state : ParserState} {token : Token} (hdone : state.isDone = false)
    (h : token.isRegular = false) (hfloat : ∀ text, token ≠ .valueFloat text) :
    ∃ e, state.feed token = .error (.syntaxError e) := by
  cases token with
  | endOfInput => exact feed_endOfInput hdone
  | parseError message => cases state <;> first | exact ⟨_, rfl⟩ | cases hdone
  | valueFloat text => exact absurd rfl (hfloat text)
  | _ => cases h

theorem startValue_isInteger {token : Token} (h : token.isInteger = true) :
    ∃ n, ∀ stack, startValue stack token = .ok (finishValue stack (.number n)) := by
  cases token with
  | valueUnsigned n => exact ⟨n, fun _ => rfl⟩
  | valueInteger n => exact ⟨n, fun _ => rfl⟩
  | _ => cases h

theorem feed_isInteger {state state' : ParserState} {token token' : Token}
    (h : token.isInteger = true) (h' : token'.isInteger = true) (hdone : state.isDone = false)
    (hfeed : state.feed token' = .ok state') :
    (∃ n, state' = .done (.number n)) ∨
      ∃ next, state.feed token = .ok next ∧ next.isDone = false := by
  obtain ⟨n, hn⟩ := startValue_isInteger h
  obtain ⟨n', hn'⟩ := startValue_isInteger h'
  cases state with
  | value stack =>
      match stack with
      | [] => exact .inl ⟨n', (Except.ok.inj ((hn' []).symm.trans hfeed)).symm⟩
      | .array elements :: stack => exact .inr ⟨_, hn _, rfl⟩
      | .object fields key :: stack => exact .inr ⟨_, hn _, rfl⟩
  | arrayStart stack =>
      have hvalue : ParserState.feed (.arrayStart stack) token =
          startValue (.array [] :: stack) token := by
        cases token <;> first | rfl | cases h
      exact .inr ⟨_, hvalue.trans (hn _), rfl⟩
  | done result => cases hdone
  | _ => cases token' <;> first | exact absurd h' Bool.false_ne_true | cases hfeed

theorem parseLoop_nil {state : ParserState} (hdone : state.isDone = false) {n : Nat}
    (hn : 0 < n) : ∃ e, parseLoop n state [] = .error (.syntaxError e) := by
  obtain ⟨e, he⟩ := feed_endOfInput hdone
  obtain ⟨n, rfl⟩ := Nat.exists_eq_succ_of_ne_zero (Nat.ne_of_gt hn)
  refine ⟨e, ?_⟩
  rw [parseLoop_step hdone]
  show (state.feed .endOfInput >>= fun state => parseLoop n state []) = _
  rw [he]
  rfl

/-- Where the loop comes to the end of a text with a value, it fails on every beginning of
the text. -/
theorem parseLoop_cut {m : Nat} {state : ParserState} {input more : List Char} {j : Json}
    (h : parseLoop m state (input ++ more) = .ok (j, [])) (hmore : more ≠ [])
    (hj : ∀ n, j ≠ .number n) {n : Nat} (hn : input.length < n) :
    ∃ e, parseLoop n state input = .error (.syntaxError e) := by
  induction m generalizing n state input with
  | zero =>
      cases state with
      | done result => exact absurd (Prod.mk.inj (Except.ok.inj h)).2 (by simp [hmore])
      | _ => cases h
  | succ m ih =>
      cases hdone : state.isDone with
      | true =>
          cases state with
          | done result => exact absurd (Prod.mk.inj (Except.ok.inj h)).2 (by simp [hmore])
          | _ => cases hdone
      | false =>
          obtain ⟨_, state', hm, hfeed, hrest⟩ := parseLoop_ok hdone h
          obtain rfl := Nat.succ.inj hm
          obtain ⟨n, rfl⟩ := Nat.exists_eq_succ_of_ne_zero (Nat.ne_of_gt (Nat.zero_lt_of_lt hn))
          have hwhole := feed_isRegular hdone hfeed
          rw [parseLoop_step hdone]
          cases hregular : (scan input).1.isRegular with
          | false =>
              -- the text ends in the middle of a token
              have hfloat : ∀ text, (scan input).1 ≠ .valueFloat text := by
                intro text htext
                rw [scan_float_append htext] at hwhole
                cases hwhole
              obtain ⟨e, he⟩ := feed_not_isRegular hdone hregular hfloat
              exact ⟨e, by rw [he]; rfl⟩
          | true =>
              rcases scan_append hregular more with ⟨hinteger, hend⟩ | hscan
              · -- the text ends after a digit of an integer
                have hwholeInteger := isInteger_scan_append hinteger hwhole
                rcases feed_isInteger hinteger hwholeInteger hdone hfeed with
                  ⟨k, rfl⟩ | ⟨next, hnext, hopen⟩
                · have hresult : Json.number k = j := by
                    cases m <;> exact (Prod.mk.inj (Except.ok.inj hrest)).1
                  exact absurd hresult.symm (hj k)
                · have hstep : ParserStep (state, input) (next, (scan input).2) :=
                    ⟨hdone, hnext, rfl⟩
                  have hlt := hstep.length_lt
                  rw [hnext, hend]
                  exact parseLoop_nil hopen (by simp only at hlt; omega)
              · rw [hscan] at hfeed hrest
                have hstep : ParserStep (state, input) (state', (scan input).2) :=
                  ⟨hdone, hfeed, rfl⟩
                have hlt := hstep.length_lt
                rw [hfeed]
                exact ih hrest (by simp only at hlt; omega)

/-! ## Whole texts -/

theorem skipBom_append {c : Char} {input text : List Char} (more : List Char)
    (h : skipBom (c :: input ++ more) = some text) :
    ∃ text', skipBom (c :: input) = some text' ∧ text = text' ++ more := by
  simp only [List.cons_append, skipBom] at h ⊢
  split_ifs at h ⊢
  · exact ⟨input, rfl, (Option.some.inj h).symm⟩
  · exact ⟨c :: input, rfl, (Option.some.inj h).symm⟩

/-- A text that is parsed up to its end, as anything but a number, is parsed no more when it
is cut short. -/
theorem parseJson_of_cut {input more : List Char} {j : Json}
    (h : parseJson (input ++ more) = .ok (j, [])) (hmore : more ≠ [])
    (hj : ∀ n, j ≠ .number n) : ∃ e, parseJson input = .error (.syntaxError e) := by
  cases input with
  | nil => exact ⟨_, rfl⟩
  | cons c input =>
      unfold parseJson at h
      split at h
      · cases h
      next text htext =>
        obtain ⟨text', hbom, rfl⟩ := skipBom_append more htext
        obtain ⟨e, he⟩ := parseLoop_cut h hmore hj (Nat.lt_succ_self text'.length)
        refine ⟨e, ?_⟩
        unfold parseJson
        rw [hbom]
        exact he

end TraCR
