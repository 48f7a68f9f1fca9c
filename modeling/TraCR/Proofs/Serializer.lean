import TraCR.Nlohmann.Serializer
import TraCR.Proofs.CutText

/-!
# What the serializer writes

`dump_integer` writes the decimal digits whatever is in its buffer, and the layout of a value
is in the grammar and denotes that value.  `dump` writes the layout as long as `indent_string`
is long enough, and then `parse` reads it back.
-/

namespace TraCR

open TraCR.Lib TraCR.Lib.JsonText

/-! ## Integers -/

theorem length_toDigits_ge {n : Nat} (h : 10 ≤ n) :
    (Nat.toDigits 10 n).length = (Nat.toDigits 10 (n / 10)).length + 1 := by
  rw [Nat.toDigits_of_base_le (by omega) h, List.length_append, List.length_singleton]

theorem countDigits_eq (x : Nat) : countDigits x = (Nat.toDigits 10 x).length := by
  induction x using Nat.strong_induction_on with
  | _ x ih =>
    have hone : ∀ n < 10, (Nat.toDigits 10 n).length = 1 := by
      intro n hn
      rw [Nat.toDigits_of_lt_base hn, List.length_singleton]
    rw [countDigits]
    split_ifs with h1 h2 h3 h4
    · rw [hone x h1]
    · rw [length_toDigits_ge (by omega), hone _ (by omega)]
    · rw [length_toDigits_ge (by omega), length_toDigits_ge (by omega), hone _ (by omega)]
    · rw [length_toDigits_ge (by omega), length_toDigits_ge (by omega),
        length_toDigits_ge (by omega), hone _ (by omega)]
    · have hdiv : x / 10 / 10 / 10 / 10 = x / 10000 := by
        simp only [Nat.div_div_eq_div_mul]
      have hcount := ih (x / 10000) (by omega)
      rw [hcount, ← hdiv, length_toDigits_ge (n := x) (by omega),
        length_toDigits_ge (n := x / 10) (by omega),
        length_toDigits_ge (n := x / 10 / 10) (by omega),
        length_toDigits_ge (n := x / 10 / 10 / 10) (by omega)]

theorem toDigits_pair {n : Nat} (h : 100 ≤ n) :
    Nat.toDigits 10 n =
      Nat.toDigits 10 (n / 100) ++ [(digitsTo99 (n % 100)).1, (digitsTo99 (n % 100)).2] := by
  have hdiv : n / 10 / 10 = n / 100 := by omega
  have hten : n / 10 % 10 = n % 100 / 10 := by omega
  have hone : n % 10 = n % 100 % 10 := by omega
  rw [Nat.toDigits_of_base_le (by omega) (by omega),
    Nat.toDigits_of_base_le (b := 10) (n := n / 10) (by omega) (by omega), hdiv, hten, hone]
  simp [digitsTo99]

theorem writePair_eq (pre post : List Char) (x y : Char) (index : Nat) :
    writePair (pre ++ x :: y :: post) (pre.length + 2) index =
      pre ++ (digitsTo99 index).1 :: (digitsTo99 index).2 :: post := by
  simp [writePair]

theorem exists_append_pair {gap : List Char} {n : Nat} (h : gap.length = n + 2) :
    ∃ front x y, gap = front ++ [x, y] ∧ front.length = n := by
  have hlast : (gap.drop n).length = 2 := by
    rw [List.length_drop]
    omega
  obtain ⟨x, y, hxy⟩ := List.length_eq_two.mp hlast
  refine ⟨gap.take n, x, y, ?_, ?_⟩
  · rw [← hxy, List.take_append_drop]
  · rw [List.length_take]
    omega

/-- The digits are written in front of `buffer_ptr`, from the last one on. -/
theorem writeDigits_eq (pre gap post : List Char) (absValue : Nat)
    (hgap : gap.length = (Nat.toDigits 10 absValue).length) :
    writeDigits (pre ++ gap ++ post) (pre.length + gap.length) absValue =
      pre ++ Nat.toDigits 10 absValue ++ post := by
  induction absValue using Nat.strong_induction_on generalizing gap post with
  | _ absValue ih =>
    rw [writeDigits]
    split_ifs with hhundred hten
    · have hdigits := toDigits_pair hhundred
      rw [hdigits, List.length_append] at hgap
      obtain ⟨front, a, b, rfl, hfront⟩ := exists_append_pair hgap
      have hpair := writePair_eq (pre ++ front) post a b (absValue % 100)
      have hrest := ih (absValue / 100) (by omega) front
        ((digitsTo99 (absValue % 100)).1 :: (digitsTo99 (absValue % 100)).2 :: post) hfront
      have hptr : pre.length + (front ++ [a, b]).length - 2 = pre.length + front.length := by
        simp only [List.length_append, List.length_cons, List.length_nil]
        omega
      have hptr' : pre.length + (front ++ [a, b]).length = (pre ++ front).length + 2 := by
        simp [Nat.add_assoc]
      have hbuffer : pre ++ (front ++ [a, b]) ++ post = pre ++ front ++ a :: b :: post := by simp
      rw [hptr, hbuffer, hptr', hpair, hrest, hdigits]
      simp
    · have hlength : gap.length = 0 + 2 := by
        rw [hgap, length_toDigits_ge hten, Nat.toDigits_of_lt_base (by omega)]
        rfl
      obtain ⟨front, a, b, rfl, hfront⟩ := exists_append_pair hlength
      obtain rfl := List.length_eq_zero_iff.mp hfront
      have hpair := writePair_eq pre post a b absValue
      have hdigits : Nat.toDigits 10 absValue =
          [(digitsTo99 absValue).1, (digitsTo99 absValue).2] := by
        rw [Nat.toDigits_of_base_le (by omega) hten, Nat.toDigits_of_lt_base (by omega)]
        rfl
      rw [hdigits]
      simpa using hpair
    · have hdigits := Nat.toDigits_of_lt_base (b := 10) (n := absValue) (by omega)
      rw [hdigits, List.length_singleton] at hgap
      obtain ⟨a, rfl⟩ := List.length_eq_one_iff.mp hgap
      rw [hdigits]
      simp

theorem take_writeDigits {pre buffer : List Char} {absValue : Nat}
    (hfits : (Nat.toDigits 10 absValue).length ≤ buffer.length) :
    (writeDigits (pre ++ buffer) (pre.length + countDigits absValue) absValue).take
        (pre.length + countDigits absValue) = pre ++ Nat.toDigits 10 absValue := by
  have hgap : (buffer.take (countDigits absValue)).length =
      (Nat.toDigits 10 absValue).length := by
    rw [List.length_take, countDigits_eq, min_eq_left hfits]
  have hwrite := writeDigits_eq pre (buffer.take (countDigits absValue))
    (buffer.drop (countDigits absValue)) absValue hgap
  rw [hgap, ← countDigits_eq, List.append_assoc, List.take_append_drop] at hwrite
  have hlength : pre.length + countDigits absValue =
      (pre ++ Nat.toDigits 10 absValue).length := by
    rw [List.length_append, countDigits_eq]
  rw [hwrite, hlength, List.take_left]

/-- Whatever the buffer held, what is written are the decimal digits of the number. -/
theorem dumpInteger_eq {buffer : List Char} {x : Int} (hmin : -2 ^ 63 ≤ x) (hmax : x < 2 ^ 64)
    (hbuffer : 21 ≤ buffer.length) : dumpInteger buffer x = (Number.ofInt x).1 := by
  have hdigits : (Nat.toDigits 10 x.natAbs).length ≤ 20 :=
    (Nat.length_toDigits_le_iff (by omega) (by omega)).mpr (by omega)
  unfold dumpInteger
  by_cases hzero : x = 0
  · rw [if_pos hzero, hzero]
    rfl
  · rw [if_neg hzero]
    dsimp only
    by_cases hneg : x < 0
    · obtain ⟨c, rest, rfl⟩ : ∃ c rest, buffer = c :: rest :=
        List.exists_cons_of_ne_nil (List.ne_nil_of_length_pos (by omega))
      have htake := @take_writeDigits ['-'] rest x.natAbs (by
        rw [List.length_cons] at hbuffer
        omega)
      obtain ⟨n, rfl⟩ := Int.eq_negSucc_of_lt_zero hneg
      rw [if_pos hneg, if_pos hneg]
      exact htake
    · have htake := @take_writeDigits [] buffer x.natAbs (by omega)
      rw [if_neg hneg, if_neg hneg]
      simp only [List.nil_append, List.length_nil, Nat.zero_add] at htake
      rw [htake]
      obtain ⟨n, rfl⟩ := Int.eq_ofNat_of_zero_le (Int.not_lt.mp hneg)
      rfl

theorem writes_ofInt (x : Int) : Writes (Number.ofInt x).1 x := by
  cases x with
  | ofNat n =>
      have hwrites := Writes.natural (isInt_toDigits n)
      rwa [Nat.ofDigitChars_ten_toDigits] at hwrites
  | negSucc n =>
      have hwrites := Writes.negative (isInt_toDigits (n + 1))
      rwa [Nat.ofDigitChars_ten_toDigits] at hwrites

/-! ## Strings -/

theorem hexDigit?_digitChar {n : Nat} (h : n < 16) : hexDigit? n.digitChar = some n := by
  have hall : ∀ n ∈ List.range 16, hexDigit? n.digitChar = some n := by decide
  exact hall n (List.mem_range.mpr h)

theorem isHex4_leftpad {n : Nat} (h : n < 0x20) :
    IsHex4 ((Nat.toDigits 16 n).leftpad 4 '0') n := by
  have hall : ∀ n ∈ List.range 0x20, (Nat.toDigits 16 n).leftpad 4 '0' =
      [Nat.digitChar 0, Nat.digitChar 0, (n / 16).digitChar, (n % 16).digitChar] := by
    decide
  rw [hall n (List.mem_range.mpr h)]
  have hhex := IsHex4.digits (hexDigit?_digitChar (n := 0) (by omega))
    (hexDigit?_digitChar (n := 0) (by omega)) (hexDigit?_digitChar (n := n / 16) (by omega))
    (hexDigit?_digitChar (n := n % 16) (by omega))
  have hvalue : 0 * 16 ^ 3 + 0 * 16 ^ 2 + n / 16 * 16 + n % 16 = n := by omega
  rwa [hvalue] at hhex

theorem char_eq_of_toNat {c d : Char} (h : c.toNat = d.toNat) : c = d := by
  rw [← Char.ofNat_toNat c, h, Char.ofNat_toNat]

theorem spells_dumpEscaped_append (c : Char) {body chars : List Char} (h : Spells body chars) :
    Spells (dumpEscaped c ++ body) (c :: chars) := by
  have hescape : ∀ {letter d : Char}, (letter, d) ∈ shortEscapes → c.toNat = d.toNat →
      Spells ('\\' :: letter :: body) (c :: chars) := by
    intro letter d hmem heq
    rw [char_eq_of_toNat heq]
    exact .escape hmem h
  unfold dumpEscaped
  split_ifs with hb ht hn hf hr hquote hslash hcontrol
  · exact hescape (d := '\x08') (by decide) hb
  · exact hescape (d := '\t') (by decide) ht
  · exact hescape (d := '\n') (by decide) hn
  · exact hescape (d := '\x0c') (by decide) hf
  · exact hescape (d := '\r') (by decide) hr
  · exact hescape (d := '"') (by decide) (congrArg Char.toNat hquote)
  · exact hescape (d := '\\') (by decide) (congrArg Char.toNat hslash)
  · have hspells := Spells.unicode (isHex4_leftpad (n := c.toNat) (by omega)) (by omega) h
    rw [Char.ofNat_toNat] at hspells
    exact hspells
  · refine .plain ?_ h
    simp [isPlain, hquote, hslash]
    omega

theorem spells_flatMap_dumpEscaped (chars : List Char) :
    Spells (chars.flatMap dumpEscaped) chars := by
  induction chars with
  | nil => exact .nil
  | cons c chars ih => exact spells_dumpEscaped_append c ih

theorem exists_names_dumpString (s : String) :
    ∃ literal : Literal, literal.1 = dumpString s ∧ Names literal s := by
  have hspells := spells_flatMap_dumpEscaped s.toList
  have hnames := Names.spelled (.quoted hspells.isChars) hspells
  rw [String.ofList_toList] at hnames
  exact ⟨_, rfl, hnames⟩

/-! ## Values -/

mutual

/-- What a `nlohmann::json` can hold: integers of 64 bits, and objects in key order. -/
def Json.Storable : Json → Prop
  | .number n => -2 ^ 63 ≤ n ∧ n < 2 ^ 64
  | .array elements => StorableElements elements
  | .object fields => Ascending fields ∧ StorableFields fields
  | _ => True

def StorableElements : List Json → Prop
  | [] => True
  | element :: elements => element.Storable ∧ StorableElements elements

def StorableFields : List (String × Json) → Prop
  | [] => True
  | field :: fields => field.2.Storable ∧ StorableFields fields

end

theorem isBlank_blankLine (prettyPrint : Bool) (indent : Nat) :
    IsBlank (blankLine prettyPrint indent) := by
  intro c hc
  unfold blankLine at hc
  split at hc
  · rcases List.mem_cons.mp hc with rfl | hspace
    · exact .inr (.inr (.inl rfl))
    · exact .inl (List.eq_of_mem_replicate hspace)
  · cases hc

theorem nameSeparator_eq (prettyPrint : Bool) :
    ∃ blank, IsBlank blank ∧ nameSeparator prettyPrint = ':' :: blank := by
  cases prettyPrint with
  | false => exact ⟨[], isBlank_nil, rfl⟩
  | true => exact ⟨[' '], by simp [IsBlank], rfl⟩

mutual

theorem exists_value_layout (prettyPrint : Bool) (indentStep currentIndent : Nat) :
    ∀ j : Json, j.Storable →
      ∃ t, Value (layout prettyPrint indentStep currentIndent j) t ∧ Denotes t j
  | .null, _ => ⟨_, .null, .null⟩
  | .boolean true, _ => ⟨_, .true, .boolean true⟩
  | .boolean false, _ => ⟨_, .false, .boolean false⟩
  | .number n, h => by
      have htext : layout prettyPrint indentStep currentIndent (.number n) = (Number.ofInt n).1 :=
        dumpInteger_eq h.1 h.2 (by decide)
      rw [htext]
      exact ⟨_, .number _, .number (writes_ofInt n) h.1 h.2⟩
  | .string s, _ => by
      obtain ⟨literal, htext, hnames⟩ := exists_names_dumpString s
      have hvalue := Value.string literal
      rw [htext] at hvalue
      exact ⟨_, hvalue, .string hnames⟩
  | .array [], _ => ⟨_, .emptyArray isBlank_nil, .array .nil⟩
  | .array (element :: elements), h => by
      simp only [layout]
      generalize newIndent prettyPrint indentStep currentIndent = indent
      obtain ⟨t, hvalue, ht⟩ := exists_value_layout prettyPrint indentStep indent element h.1
      obtain ⟨ts, hts, helements⟩ :=
        exists_elements_layout prettyPrint indentStep indent elements h.2
      have hinner := helements (isBlank_blankLine prettyPrint indent) hvalue
        (isBlank_blankLine prettyPrint currentIndent)
      exact ⟨_, by simpa using Value.array hinner, .array (.cons ht hts)⟩
  | .object [], _ => ⟨_, .emptyObject isBlank_nil, .object .nil⟩
  | .object (field :: fields), h => by
      simp only [layout]
      generalize newIndent prettyPrint indentStep currentIndent = indent
      obtain ⟨literal, t, hfield, hname, ht⟩ :=
        exists_field_layout prettyPrint indentStep indent field h.2.1
      obtain ⟨ms, hms, hmembers⟩ := exists_members_layout prettyPrint indentStep indent fields h.2.2
      have hinner := hmembers (hfield (isBlank_blankLine prettyPrint indent))
        (isBlank_blankLine prettyPrint currentIndent)
      have hdenotes := Denotes.object (.cons hname ht hms)
      rw [@insertAll_of_ascending _ [] h.1] at hdenotes
      exact ⟨_, by simpa using Value.object hinner, hdenotes⟩

theorem exists_elements_layout (prettyPrint : Bool) (indentStep indent : Nat) :
    ∀ elements : List Json, StorableElements elements →
      ∃ ts, DenoteElements ts elements ∧ ∀ {before text after : List Char} {t : Tree},
        IsBlank before → Value text t → IsBlank after →
          Elements
            (before ++ text ++ layoutElements prettyPrint indentStep indent elements ++ after)
            (t :: ts)
  | [], _ => by
      refine ⟨[], .nil, fun hbefore hvalue hafter => ?_⟩
      simpa [layoutElements] using Elements.last hbefore hvalue hafter
  | element :: elements, h => by
      obtain ⟨t', hvalue', ht'⟩ := exists_value_layout prettyPrint indentStep indent element h.1
      obtain ⟨ts, hts, helements⟩ :=
        exists_elements_layout prettyPrint indentStep indent elements h.2
      refine ⟨t' :: ts, .cons ht' hts, fun hbefore hvalue hafter => ?_⟩
      have hrest := helements (isBlank_blankLine prettyPrint indent) hvalue' hafter
      simpa [layoutElements] using Elements.more hbefore hvalue isBlank_nil hrest

theorem exists_members_layout (prettyPrint : Bool) (indentStep indent : Nat) :
    ∀ fields : List (String × Json), StorableFields fields →
      ∃ ms, DenoteMembers ms fields ∧ ∀ {text after : List Char} {literal : Literal} {t : Tree},
        IsField text literal t → IsBlank after →
          Members (text ++ layoutFields prettyPrint indentStep indent fields ++ after)
            ((literal, t) :: ms)
  | [], _ => by
      refine ⟨[], .nil, fun hfield hafter => ?_⟩
      simpa [layoutFields] using Members.last (hfield _ hafter)
  | field :: fields, h => by
      obtain ⟨literal, t, hfield', hname, ht⟩ :=
        exists_field_layout prettyPrint indentStep indent field h.1
      obtain ⟨ms, hms, hmembers⟩ := exists_members_layout prettyPrint indentStep indent fields h.2
      refine ⟨_, .cons hname ht hms, fun hfield hafter => ?_⟩
      have hrest := hmembers (hfield' (isBlank_blankLine prettyPrint indent)) hafter
      simpa [layoutFields] using Members.more (hfield [] isBlank_nil) hrest

theorem exists_field_layout (prettyPrint : Bool) (indentStep indent : Nat) :
    ∀ field : String × Json, field.2.Storable →
      ∃ literal t, (∀ {before : List Char}, IsBlank before →
        IsField (before ++ layoutField prettyPrint indentStep indent field) literal t) ∧
          Names literal field.1 ∧ Denotes t field.2
  | (key, value), h => by
      obtain ⟨literal, htext, hname⟩ := exists_names_dumpString key
      obtain ⟨t, hvalue, ht⟩ := exists_value_layout prettyPrint indentStep indent value h
      obtain ⟨blank, hblank, hseparator⟩ := nameSeparator_eq prettyPrint
      refine ⟨literal, t, fun hbefore after hafter => ?_, hname, ht⟩
      have hpair := @Member.pair _ _ _ _ _ literal _ hbefore isBlank_nil hblank hvalue hafter
      simpa [layoutField, hseparator, htext] using hpair

end

/-! ## Indentation -/

/-- `indent_string` has the blanks for this line, and once doubled those for a line below. -/
def InReach (prettyPrint : Bool) (indentStep indent size : Nat) : Prop :=
  prettyPrint = true →
    512 ≤ size ∧ indent ≤ size ∧ (indent = 0 ∧ indentStep ≤ 1024 ∨ indentStep ≤ size)

section InReach

variable {prettyPrint : Bool} {indentStep indent size size' : Nat}

theorem InReach.mono (h : InReach prettyPrint indentStep indent size) (hle : size ≤ size') :
    InReach prettyPrint indentStep indent size' := by
  intro hpretty
  obtain ⟨hleast, hindent, hstep⟩ := h hpretty
  refine ⟨hleast.trans hle, hindent.trans hle, ?_⟩
  rcases hstep with hzero | hstep
  · exact .inl hzero
  · exact .inr (hstep.trans hle)

theorem le_resized : size ≤ resized prettyPrint indent size := by
  unfold resized
  split <;> omega

theorem InReach.enter (h : InReach prettyPrint indentStep indent size) :
    InReach prettyPrint indentStep (newIndent prettyPrint indentStep indent)
      (resized prettyPrint (newIndent prettyPrint indentStep indent) size) := by
  intro hpretty
  obtain ⟨hleast, hindent, hstep⟩ := h hpretty
  have hwrap := Nat.mod_le (indent + indentStep) (2 ^ 32)
  simp only [newIndent, resized, hpretty, if_true, true_and]
  split <;> omega

theorem InReach.lineBreak (h : InReach prettyPrint indentStep indent size) :
    TraCR.lineBreak prettyPrint indent size = some (blankLine prettyPrint indent) := by
  unfold TraCR.lineBreak blankLine indentText
  cases prettyPrint with
  | false => rfl
  | true =>
      obtain ⟨-, hindent, -⟩ := h rfl
      rw [if_pos hindent]
      rfl

end InReach

mutual

/-- As long as the blanks reach, `dump` writes the layout. -/
theorem dump_eq_layout (prettyPrint : Bool) (indentStep indent : Nat) :
    ∀ (j : Json) {size : Nat}, InReach prettyPrint indentStep indent size →
      ∃ size', size ≤ size' ∧ dump prettyPrint indentStep indent j size =
        some (layout prettyPrint indentStep indent j, size')
  | .null, size, _ => ⟨size, le_rfl, rfl⟩
  | .boolean true, size, _ => ⟨size, le_rfl, rfl⟩
  | .boolean false, size, _ => ⟨size, le_rfl, rfl⟩
  | .number _, size, _ => ⟨size, le_rfl, rfl⟩
  | .string _, size, _ => ⟨size, le_rfl, rfl⟩
  | .array [], size, _ => ⟨size, le_rfl, rfl⟩
  | .array (element :: elements), size, h => by
      have hin := h.enter
      obtain ⟨size₁, hsize₁, hfirst⟩ := dump_eq_layout prettyPrint indentStep _ element hin
      obtain ⟨size₂, hsize₂, hmore⟩ :=
        dumpElements_eq_layout prettyPrint indentStep _ elements (hin.mono hsize₁)
      have hle := le_resized.trans (hsize₁.trans hsize₂)
      refine ⟨size₂, hle, ?_⟩
      simp [dump, layout, hin.lineBreak, hfirst, hmore, (h.mono hle).lineBreak]
  | .object [], size, _ => ⟨size, le_rfl, rfl⟩
  | .object (field :: fields), size, h => by
      have hin := h.enter
      obtain ⟨size₁, hsize₁, hfirst⟩ := dumpField_eq_layout prettyPrint indentStep _ field hin
      obtain ⟨size₂, hsize₂, hmore⟩ :=
        dumpFields_eq_layout prettyPrint indentStep _ fields (hin.mono hsize₁)
      have hle := le_resized.trans (hsize₁.trans hsize₂)
      refine ⟨size₂, hle, ?_⟩
      simp [dump, layout, hin.lineBreak, hfirst, hmore, (h.mono hle).lineBreak]

theorem dumpElements_eq_layout (prettyPrint : Bool) (indentStep indent : Nat) :
    ∀ (elements : List Json) {size : Nat}, InReach prettyPrint indentStep indent size →
      ∃ size', size ≤ size' ∧ dumpElements prettyPrint indentStep indent elements size =
        some (layoutElements prettyPrint indentStep indent elements, size')
  | [], size, _ => ⟨size, le_rfl, rfl⟩
  | element :: elements, size, h => by
      obtain ⟨size₁, hsize₁, hfirst⟩ := dump_eq_layout prettyPrint indentStep indent element h
      obtain ⟨size₂, hsize₂, hmore⟩ :=
        dumpElements_eq_layout prettyPrint indentStep indent elements (h.mono hsize₁)
      refine ⟨size₂, hsize₁.trans hsize₂, ?_⟩
      simp [dumpElements, layoutElements, h.lineBreak, hfirst, hmore]

theorem dumpFields_eq_layout (prettyPrint : Bool) (indentStep indent : Nat) :
    ∀ (fields : List (String × Json)) {size : Nat}, InReach prettyPrint indentStep indent size →
      ∃ size', size ≤ size' ∧ dumpFields prettyPrint indentStep indent fields size =
        some (layoutFields prettyPrint indentStep indent fields, size')
  | [], size, _ => ⟨size, le_rfl, rfl⟩
  | field :: fields, size, h => by
      obtain ⟨size₁, hsize₁, hfirst⟩ := dumpField_eq_layout prettyPrint indentStep indent field h
      obtain ⟨size₂, hsize₂, hmore⟩ :=
        dumpFields_eq_layout prettyPrint indentStep indent fields (h.mono hsize₁)
      refine ⟨size₂, hsize₁.trans hsize₂, ?_⟩
      simp [dumpFields, layoutFields, h.lineBreak, hfirst, hmore]

theorem dumpField_eq_layout (prettyPrint : Bool) (indentStep indent : Nat) :
    ∀ (field : String × Json) {size : Nat}, InReach prettyPrint indentStep indent size →
      ∃ size', size ≤ size' ∧ dumpField prettyPrint indentStep indent field size =
        some (layoutField prettyPrint indentStep indent field, size')
  | (_, value), size, h => by
      obtain ⟨size', hsize, htext⟩ := dump_eq_layout prettyPrint indentStep indent value h
      refine ⟨size', hsize, ?_⟩
      simp [dumpField, layoutField, htext]

end

/-- A container with something in it, which a pretty print breaks into lines. -/
def Json.hasEntries : Json → Bool
  | .array elements => !elements.isEmpty
  | .object fields => !fields.isEmpty
  | _ => false

theorem dump_of_no_entries {j : Json} (h : j.hasEntries = false) (prettyPrint : Bool)
    (indentStep indent size : Nat) : dump prettyPrint indentStep indent j size =
      some (layout prettyPrint indentStep indent j, size) := by
  cases j with
  | null | number _ | string _ => rfl
  | boolean v => cases v <;> rfl
  | array elements =>
      obtain rfl : elements = [] := by simpa [Json.hasEntries] using h
      rfl
  | object fields =>
      obtain rfl : fields = [] := by simpa [Json.hasEntries] using h
      rfl

theorem exists_lineBreak_of_dump {j : Json} (hj : j.hasEntries = true) {prettyPrint : Bool}
    {indentStep indent size size' : Nat} {text : List Char}
    (h : dump prettyPrint indentStep indent j size = some (text, size')) :
    ∃ bracket before rest, (bracket = '[' ∨ bracket = '{') ∧
      lineBreak prettyPrint (newIndent prettyPrint indentStep indent)
        (resized prettyPrint (newIndent prettyPrint indentStep indent) size) = some before ∧
          text = bracket :: (before ++ rest) := by
  cases j with
  | null | boolean _ | number _ | string _ => cases hj
  | array elements =>
      obtain ⟨element, elements, rfl⟩ : ∃ e es, elements = e :: es :=
        List.exists_cons_of_ne_nil (by simpa [Json.hasEntries] using hj)
      simp only [dump, Option.bind_eq_bind, Option.bind_eq_some_iff] at h
      obtain ⟨before, hbefore, first, -, more, -, after, -, hout⟩ := h
      obtain ⟨rfl, -⟩ := Prod.mk.inj (Option.some.inj hout)
      exact ⟨'[', before, first.1 ++ more.1 ++ after ++ [']'], .inl rfl, hbefore, by simp⟩
  | object fields =>
      obtain ⟨field, fields, rfl⟩ : ∃ f fs, fields = f :: fs :=
        List.exists_cons_of_ne_nil (by simpa [Json.hasEntries] using hj)
      simp only [dump, Option.bind_eq_bind, Option.bind_eq_some_iff] at h
      obtain ⟨before, hbefore, first, -, more, -, after, -, hout⟩ := h
      obtain ⟨rfl, -⟩ := Prod.mk.inj (Option.some.inj hout)
      exact ⟨'{', before, first.1 ++ more.1 ++ after ++ ['}'], .inr rfl, hbefore, by simp⟩

/-- Behind the blanks of a string that was doubled once comes the terminator, and behind
that nothing can be read. -/
theorem lineBreak_beyond {indent : Nat} {before : List Char} (h : 1024 < indent)
    (hbefore : lineBreak true indent (resized true indent 512) = some before) :
    before = '\n' :: (List.replicate 1024 ' ' ++ ['\x00']) := by
  have hsize : resized true indent 512 = 1024 := by
    unfold resized
    rw [if_pos ⟨rfl, by omega⟩]
  unfold lineBreak indentText at hbefore
  rw [hsize, if_pos rfl, if_neg (by omega)] at hbefore
  split at hbefore
  · exact (Option.some.inj hbefore).symm
  · cases hbefore

/-! ## What is read back -/

theorem exists_first_of_isInt {digits : List Char} (h : IsInt digits) :
    ∃ c rest, digits = c :: rest ∧ c.toNat < 0xF000 := by
  cases h with
  | zero => exact ⟨'0', [], rfl, by decide⟩
  | @digits c rest hc _ _ =>
      simp only [Char.isDigit, Bool.and_eq_true, decide_eq_true_eq] at hc
      have hle : c.toNat ≤ 57 := UInt32.le_iff_toNat_le.mp hc.2
      exact ⟨c, rest, rfl, by omega⟩

theorem exists_first_of_value {text : List Char} {t : Tree} (h : Value text t) :
    ∃ c rest, text = c :: rest ∧ c.toNat < 0xF000 := by
  cases h with
  | number n =>
      obtain ⟨text, hnumber⟩ := n
      cases hnumber with
      | positive hint _ _ =>
          obtain ⟨c, rest, rfl, hc⟩ := exists_first_of_isInt hint
          exact ⟨c, _, rfl, hc⟩
      | negative _ _ _ => exact ⟨'-', _, rfl, by decide⟩
  | string s =>
      obtain ⟨text, hstring⟩ := s
      cases hstring
      exact ⟨'"', _, rfl, by decide⟩
  | _ => exact ⟨_, _, rfl, by decide⟩

theorem skipBom_of_value {text : List Char} {t : Tree} (h : Value text t) (rest : List Char) :
    skipBom (text ++ rest) = some (text ++ rest) := by
  obtain ⟨c, inner, rfl, hc⟩ := exists_first_of_value h
  simp only [List.cons_append, skipBom]
  rw [if_neg (by omega)]

section Layout

variable {j : Json} (h : j.Storable) (prettyPrint : Bool) (indentStep indent : Nat)

include h

theorem parseJson_layout_append {rest : List Char} (hends : ∀ n, j = .number n → NumberEnds rest) :
    parseJson (layout prettyPrint indentStep indent j ++ rest) = .ok (j, rest) := by
  obtain ⟨t, hvalue, hj⟩ := exists_value_layout prettyPrint indentStep indent j h
  refine @parseJson_complete _ [] _ _ t _ (skipBom_of_value hvalue rest) isBlank_nil hvalue hj ?_
  rintro n rfl
  cases hj
  exact hends _ rfl

theorem parseJson_layout : parseJson (layout prettyPrint indentStep indent j) = .ok (j, []) := by
  have hends : ∀ n, j = .number n → NumberEnds [] := fun _ _ c hc => by cases hc
  have hparse := parseJson_layout_append h prettyPrint indentStep indent hends
  rwa [List.append_nil] at hparse

/-- A text that is missing its end is refused. -/
theorem parseJson_of_isPrefix (hj : ∀ n, j ≠ .number n) {text : List Char}
    (hbegin : text <+: layout prettyPrint indentStep indent j)
    (hne : text ≠ layout prettyPrint indentStep indent j) :
    ∃ e, parseJson text = .error (.syntaxError e) := by
  obtain ⟨more, hmore⟩ := hbegin
  have hwhole := parseJson_layout h prettyPrint indentStep indent
  rw [← hmore] at hwhole
  refine parseJson_of_cut hwhole ?_ hj
  rintro rfl
  exact hne (by rwa [List.append_nil] at hmore)

omit prettyPrint indentStep indent in
theorem parseJson_compact : parseJson j.compact.toList = .ok (j, []) := by
  rw [Json.compact, String.toList_ofList]
  exact parseJson_layout h false 0 0

end Layout

theorem Json.dump_eq {j : Json} {indent : Int} (h : indent ≤ 1024 ∨ j.hasEntries = false) :
    j.dump indent = some (String.ofList
      (layout (decide (0 ≤ indent)) (if 0 ≤ indent then indent.toNat else 0) 0 j)) := by
  unfold Json.dump
  by_cases hpretty : 0 ≤ indent
  · have hreach : ∃ size, TraCR.dump true indent.toNat 0 j 512 =
        some (layout true indent.toNat 0 j, size) := by
      rcases h with hle | hnone
      · have hin : InReach true indent.toNat 0 512 := fun _ =>
          ⟨le_rfl, Nat.zero_le _, .inl ⟨rfl, by omega⟩⟩
        obtain ⟨size, -, hdump⟩ := dump_eq_layout true indent.toNat 0 j hin
        exact ⟨size, hdump⟩
      · exact ⟨512, dump_of_no_entries hnone true indent.toNat 0 512⟩
    obtain ⟨size, hdump⟩ := hreach
    simp [hpretty, hdump]
  · have hin : InReach false 0 0 512 := nofun
    obtain ⟨size, -, hdump⟩ := dump_eq_layout false 0 0 j hin
    simp [hpretty, hdump]

theorem Json.dump_neg_one (j : Json) : j.dump (-1) = some j.compact :=
  j.dump_eq (.inl (by decide))

theorem parseJson_of_terminator {bracket : Char} (h : bracket = '[' ∨ bracket = '{') (n : Nat)
    (rest : List Char) :
    ∃ e, parseJson (bracket :: '\n' :: (List.replicate n ' ' ++ '\x00' :: rest)) =
      .error (.syntaxError e) := by
  have hblank : IsBlank ('\n' :: List.replicate n ' ') := isBlank_blankLine true n
  have hend : ∀ tokens state, state.isDone = false →
      parseLoop (tokens + 1) state ('\n' :: (List.replicate n ' ' ++ '\x00' :: rest)) =
        (state.feed .endOfInput).bind fun state => parseLoop tokens state rest := by
    intro tokens state hdone
    rw [parseLoop_step hdone, ← List.cons_append, scan_append_of_isBlank hblank]
    rfl
  rcases h with rfl | rfl
  · exact ⟨_, hend _ (.arrayStart []) rfl⟩
  · exact ⟨_, hend _ (.objectStart []) rfl⟩

/-- What `dump` writes is read back by `parse`, which leaves what comes after it, and is
refused when its end is missing.  A container is written so with an indent up to 1024; with
a larger one `dump` writes nothing that could be read. -/
theorem reads_back_of_dump {j : Json} (h : j.Storable) {indent : Int} (hint : indent < 2 ^ 31) :
    (indent ≤ 1024 ∨ j.hasEntries = false → ∃ written, j.dump indent = some written ∧
      (∀ rest, (∀ n, j = .number n → NumberEnds rest) →
        parseJson (written.toList ++ rest) = .ok (j, rest)) ∧
      ((∀ n, j ≠ .number n) → ∀ text, text <+: written.toList → text ≠ written.toList →
        ∃ e, parseJson text = .error (.syntaxError e))) ∧
    (1024 < indent → j.hasEntries = true → ∀ written, j.dump indent = some written →
      ∃ e, parseJson written.toList = .error (.syntaxError e)) := by
  constructor
  · intro hreach
    refine ⟨_, Json.dump_eq hreach, ?_⟩
    rw [String.toList_ofList]
    exact ⟨fun rest hends => parseJson_layout_append h _ _ _ hends,
      fun hj text hbegin hne => parseJson_of_isPrefix h _ _ _ hj hbegin hne⟩
  · intro hbeyond hentries written hwritten
    have hpretty : 0 ≤ indent := by omega
    simp only [Json.dump, if_pos hpretty, Option.map_eq_some_iff] at hwritten
    obtain ⟨⟨text, size⟩, hdump, rfl⟩ := hwritten
    obtain ⟨bracket, before, rest, hbracket, hbefore, rfl⟩ :=
      exists_lineBreak_of_dump hentries hdump
    have hindent : newIndent true indent.toNat 0 = indent.toNat := by
      rw [newIndent, if_pos rfl, Nat.zero_add, Nat.mod_eq_of_lt (by omega)]
    rw [hindent] at hbefore
    obtain rfl := lineBreak_beyond (by omega) hbefore
    rw [String.toList_ofList, List.cons_append, List.append_assoc]
    exact parseJson_of_terminator hbracket 1024 rest

def escapedObject : Json :=
  .object [("a\n", .array [.number (-2 ^ 63), .null]), ("b", .string "\"\x01é")]

theorem reads_back_of_dump_escapedObject :
    (∃ written, escapedObject.dump 1024 = some written ∧
      parseJson (written.toList ++ ['x']) = .ok (escapedObject, ['x']) ∧
        ∃ e, parseJson ['\x7b', '\n', ' '] = .error (.syntaxError e)) ∧
      ∃ written e, (Json.array [.null]).dump 1025 = some written ∧
        parseJson written.toList = .error (.syntaxError e) := by
  have hstorable : escapedObject.Storable := by
    refine ⟨?_, ⟨⟨by decide, by decide⟩, trivial, trivial⟩, trivial, trivial⟩
    exact List.pairwise_pair.mpr (by decide)
  have hj : ∀ n, escapedObject ≠ .number n := fun _ h => nomatch h
  constructor
  case right =>
    have harray : (Json.array [.null]).Storable := ⟨trivial, trivial⟩
    obtain ⟨written, hwritten⟩ : ∃ written, (Json.array [.null]).dump 1025 = some written :=
      Option.isSome_iff_exists.mp (by decide +kernel)
    obtain ⟨e, he⟩ := (reads_back_of_dump harray (by decide)).2 (by decide) rfl written hwritten
    exact ⟨written, e, hwritten, he⟩
  obtain ⟨written, hdump, hwhole, hcut⟩ :=
    (@reads_back_of_dump _ hstorable 1024 (by decide)).1 (.inl le_rfl)
  refine ⟨written, hdump, hwhole ['x'] fun n h => absurd h (hj n), ?_⟩
  have htext : written.toList = layout true 1024 0 escapedObject := by
    rw [Option.some.inj (hdump.symm.trans (Json.dump_eq (.inl le_rfl))), String.toList_ofList]
    rfl
  refine hcut hj ['\x7b', '\n', ' '] ?_ ?_
  · rw [htext]
    exact ⟨_, rfl⟩
  · rw [htext]
    exact fun heq => by cases heq

end TraCR
