import TraCR.Lib.Decimal

/-!
# JSON as text

The grammar of JSON texts as a relation between a text and what it says, after the
productions of the standard.  Numbers and strings stay as they are written.  A value
prints without blanks, and what is printed follows the grammar.
-/

namespace TraCR.Lib.JsonText

open TraCR.Lib.Decimal

/-! ## Tokens -/

def IsBlank (text : List Char) : Prop :=
  ∀ c ∈ text, c = ' ' ∨ c = '\t' ∨ c = '\n' ∨ c = '\r'

/-- The digits before the point: no zero in front of others. -/
inductive IsInt : List Char → Prop where
  | zero : IsInt ['0']
  | digits {c : Char} {rest : List Char} : c.isDigit → c ≠ '0' → (∀ d ∈ rest, d.isDigit) →
      IsInt (c :: rest)

inductive IsFraction : List Char → Prop where
  | none : IsFraction []
  | places {digits : List Char} : IsDigits digits → IsFraction ('.' :: digits)

inductive IsExponent : List Char → Prop where
  | none : IsExponent []
  | plain {e : Char} {digits : List Char} : e = 'e' ∨ e = 'E' → IsDigits digits →
      IsExponent (e :: digits)
  | signed {e sign : Char} {digits : List Char} : e = 'e' ∨ e = 'E' →
      sign = '+' ∨ sign = '-' → IsDigits digits → IsExponent (e :: sign :: digits)

inductive IsNumber : List Char → Prop where
  | positive {int fraction exponent : List Char} : IsInt int → IsFraction fraction →
      IsExponent exponent → IsNumber (int ++ fraction ++ exponent)
  | negative {int fraction exponent : List Char} : IsInt int → IsFraction fraction →
      IsExponent exponent → IsNumber ('-' :: (int ++ fraction ++ exponent))

def isPlain (c : Char) : Bool := 0x20 ≤ c.toNat && c ≠ '"' && c ≠ '\\'

def isHexDigit (c : Char) : Bool :=
  c.isDigit || ('a' ≤ c && c ≤ 'f') || ('A' ≤ c && c ≤ 'F')

inductive IsChars : List Char → Prop where
  | nil : IsChars []
  | plain {c : Char} {rest : List Char} : isPlain c = true → IsChars rest →
      IsChars (c :: rest)
  | escape {c : Char} {rest : List Char} : c ∈ ['"', '\\', '/', 'b', 'f', 'n', 'r', 't'] →
      IsChars rest → IsChars ('\\' :: c :: rest)
  | unicode {digits rest : List Char} : digits.length = 4 → digits.all isHexDigit = true →
      IsChars rest → IsChars ('\\' :: 'u' :: (digits ++ rest))

def quote (body : List Char) : List Char := '"' :: (body ++ ['"'])

inductive IsString : List Char → Prop where
  | quoted {body : List Char} : IsChars body → IsString (quote body)

/-! ## Values -/

abbrev Number := {text : List Char // IsNumber text}

abbrev Literal := {text : List Char // IsString text}

inductive Tree where
  | null
  | boolean (b : Bool)
  | number (n : Number)
  | string (s : Literal)
  | array (elements : List Tree)
  | object (members : List (Literal × Tree))

def Tree.member? (key : String) : Tree → Option Tree
  | .object members => (members.find? fun m => m.1.1 = quote key.toList).map Prod.snd
  | _ => none

mutual

inductive Value : List Char → Tree → Prop where
  | null : Value ['n', 'u', 'l', 'l'] .null
  | true : Value ['t', 'r', 'u', 'e'] (.boolean true)
  | false : Value ['f', 'a', 'l', 's', 'e'] (.boolean false)
  | number (n : Number) : Value n.1 (.number n)
  | string (s : Literal) : Value s.1 (.string s)
  | emptyArray {blank : List Char} : IsBlank blank →
      Value ('[' :: (blank ++ [']'])) (.array [])
  | array {text : List Char} {elements : List Tree} : Elements text elements →
      Value ('[' :: (text ++ [']'])) (.array elements)
  | emptyObject {blank : List Char} : IsBlank blank →
      Value ('{' :: (blank ++ ['}'])) (.object [])
  | object {text : List Char} {members : List (Literal × Tree)} : Members text members →
      Value ('{' :: (text ++ ['}'])) (.object members)

inductive Elements : List Char → List Tree → Prop where
  | last {before text after : List Char} {t : Tree} : IsBlank before → Value text t →
      IsBlank after → Elements (before ++ text ++ after) [t]
  | more {before text after rest : List Char} {t : Tree} {elements : List Tree} :
      IsBlank before → Value text t → IsBlank after → Elements rest elements →
        Elements (before ++ text ++ after ++ ',' :: rest) (t :: elements)

inductive Members : List Char → List (Literal × Tree) → Prop where
  | last {text : List Char} {m : Literal × Tree} : Member text m → Members text [m]
  | more {text rest : List Char} {m : Literal × Tree} {members : List (Literal × Tree)} :
      Member text m → Members rest members → Members (text ++ ',' :: rest) (m :: members)

inductive Member : List Char → Literal × Tree → Prop where
  | pair {before blank blank' text after : List Char} {key : Literal} {t : Tree} :
      IsBlank before → IsBlank blank → IsBlank blank' → Value text t → IsBlank after →
        Member (before ++ key.1 ++ blank ++ ':' :: (blank' ++ text ++ after)) (key, t)

end

def IsDocument (text : List Char) (t : Tree) : Prop :=
  ∃ before inner after, IsBlank before ∧ Value inner t ∧ IsBlank after ∧
    text = before ++ inner ++ after

theorem isBlank_nil : IsBlank [] := by
  intro c hc
  cases hc

/-! ## Printing -/

mutual

def Tree.compact : Tree → List Char
  | .null => ['n', 'u', 'l', 'l']
  | .boolean true => ['t', 'r', 'u', 'e']
  | .boolean false => ['f', 'a', 'l', 's', 'e']
  | .number n => n.1
  | .string s => s.1
  | .array [] => ['[', ']']
  | .array (t :: elements) => '[' :: (t.compact ++ compactElements elements ++ [']'])
  | .object [] => ['{', '}']
  | .object (m :: members) => '{' :: (compactMember m ++ compactMembers members ++ ['}'])

def compactElements : List Tree → List Char
  | [] => []
  | t :: elements => ',' :: (t.compact ++ compactElements elements)

def compactMembers : List (Literal × Tree) → List Char
  | [] => []
  | m :: members => ',' :: (compactMember m ++ compactMembers members)

def compactMember : Literal × Tree → List Char
  | (key, t) => key.1 ++ ':' :: t.compact

end

mutual

/-- What is printed follows the grammar. -/
theorem value_compact : ∀ t : Tree, Value t.compact t
  | .null => .null
  | .boolean true => .true
  | .boolean false => .false
  | .number n => .number n
  | .string s => .string s
  | .array [] => .emptyArray isBlank_nil
  | .array (t :: elements) => .array (elements_compact (value_compact t) elements)
  | .object [] => .emptyObject isBlank_nil
  | .object (m :: members) => .object (members_compact (member_compact m) members)

theorem elements_compact {text : List Char} {t : Tree} (h : Value text t) :
    ∀ elements, Elements (text ++ compactElements elements) (t :: elements)
  | [] => by
      have hlast := Elements.last isBlank_nil h isBlank_nil
      simpa [compactElements] using hlast
  | t' :: elements => by
      have hrest := elements_compact (value_compact t') elements
      have hmore := Elements.more isBlank_nil h isBlank_nil hrest
      simpa [compactElements] using hmore

theorem members_compact {text : List Char} {m : Literal × Tree} (h : Member text m) :
    ∀ members, Members (text ++ compactMembers members) (m :: members)
  | [] => by
      simpa [compactMembers] using Members.last h
  | m' :: members => by
      have hrest := members_compact (member_compact m') members
      have hmore := Members.more h hrest
      simpa [compactMembers] using hmore

theorem member_compact : ∀ m : Literal × Tree, Member (compactMember m) m
  | (key, t) => by
      have hpair := @Member.pair _ _ _ _ _ key _ isBlank_nil isBlank_nil isBlank_nil
        (value_compact t) isBlank_nil
      simpa [compactMember] using hpair

end

theorem elements_lines {before after : List Char} (hbefore : IsBlank before)
    (hafter : IsBlank after) (t : Tree) (elements : List Tree) :
    Elements (before ++ t.compact ++
        (elements.flatMap fun t => ',' :: (before ++ t.compact)) ++ after) (t :: elements) := by
  induction elements generalizing t with
  | nil => simpa using Elements.last hbefore (value_compact t) hafter
  | cons t' elements ih =>
      have hmore := Elements.more hbefore (value_compact t) isBlank_nil (ih t')
      simpa using hmore

/-! ## Tokens that are printed -/

theorem isInt_toDigits (n : Nat) : IsInt (Nat.toDigits 10 n) := by
  induction n using Nat.strong_induction_on with
  | _ n ih =>
    by_cases hsmall : n < 10
    · rw [Nat.toDigits_of_lt_base hsmall]
      by_cases hzero : n = 0
      · rw [hzero]
        exact .zero
      · refine .digits ?_ ?_ (by simp)
        · simpa [Nat.isDigit_digitChar] using hsmall
        · simpa using hzero
    · have hlast : (n % 10).digitChar.isDigit = true := by
        simpa [Nat.isDigit_digitChar] using Nat.mod_lt n (by omega)
      rw [Nat.toDigits_of_base_le (by omega) (Nat.le_of_not_lt hsmall)]
      have hpos : 0 < n / 10 := by omega
      have hfront := ih (n / 10) (by omega)
      generalize hdigits : Nat.toDigits 10 (n / 10) = digits at hfront ⊢
      cases hfront with
      | zero =>
          have hvalue : n / 10 = 0 := by
            rw [← Nat.ofDigitChars_ten_toDigits (n := n / 10), hdigits]
            rfl
          omega
      | digits hfirst hne hrest =>
          refine .digits hfirst hne ?_
          intro d hd
          rcases List.mem_append.mp hd with hd | hd
          · exact hrest d hd
          · rw [List.mem_singleton.mp hd]
            exact hlast

def Number.ofNat (n : Nat) : Number :=
  ⟨Nat.toDigits 10 n, by simpa using IsNumber.positive (isInt_toDigits n) .none .none⟩

@[simp] theorem Number.val_ofNat (n : Nat) : (Number.ofNat n).1 = Nat.toDigits 10 n := rfl

def Number.ofInt : Int → Number
  | .ofNat n => .ofNat n
  | .negSucc n =>
      ⟨'-' :: Nat.toDigits 10 (n + 1),
        by simpa using IsNumber.negative (isInt_toDigits (n + 1)) .none .none⟩

def Number.fixed (places n : Nat) : Number :=
  ⟨printFixed places n, by
    have hnumber := IsNumber.positive (isInt_toDigits (n / 10 ^ places))
      (.places (isDigits_padded places (n % 10 ^ places))) .none
    simpa [printFixed] using hnumber⟩

@[simp] theorem Number.val_fixed (places n : Nat) :
    (Number.fixed places n).1 = printFixed places n := rfl

@[simp] theorem Number.toList_repr (n : Int) : n.repr.toList = (Number.ofInt n).1 := by
  cases n with
  | ofNat n => exact Nat.toList_repr
  | negSucc n =>
      show ("-" ++ (n + 1).repr).toList = _
      rw [String.toList_append, Nat.toList_repr]
      rfl

theorem isChars_of_plain {body : List Char} (h : body.all isPlain = true) : IsChars body := by
  induction body with
  | nil => exact .nil
  | cons c body ih =>
      rw [List.all_cons, Bool.and_eq_true] at h
      exact .plain h.1 (ih h.2)

def Literal.word (body : String) (h : body.toList.all isPlain = true) : Literal :=
  ⟨quote body.toList, .quoted (isChars_of_plain h)⟩

@[simp] theorem Literal.val_word {body : String} (h : body.toList.all isPlain = true) :
    (Literal.word body h).1 = quote body.toList := rfl

/-! ## What tokens say -/

def hexDigit? (c : Char) : Option Nat :=
  if c.isDigit then some (c.toNat - 0x30)
  else if 'A' ≤ c ∧ c ≤ 'F' then some (c.toNat - 0x37)
  else if 'a' ≤ c ∧ c ≤ 'f' then some (c.toNat - 0x57)
  else none

inductive IsHex4 : List Char → Nat → Prop where
  | digits {a b c d : Char} {i j k l : Nat} : hexDigit? a = some i → hexDigit? b = some j →
      hexDigit? c = some k → hexDigit? d = some l →
        IsHex4 [a, b, c, d] (i * 16 ^ 3 + j * 16 ^ 2 + k * 16 + l)

def shortEscapes : List (Char × Char) :=
  [('"', '"'), ('\\', '\\'), ('/', '/'), ('b', '\x08'), ('f', '\x0c'), ('n', '\n'), ('r', '\r'),
    ('t', '\t')]

/-- What stands between the quotation marks, and the characters it spells.  A character
beyond the basic plane is spelled by two surrogates; a surrogate alone spells nothing. -/
inductive Spells : List Char → List Char → Prop where
  | nil : Spells [] []
  | plain {c : Char} {body chars : List Char} : isPlain c = true → Spells body chars →
      Spells (c :: body) (c :: chars)
  | escape {c d : Char} {body chars : List Char} : (c, d) ∈ shortEscapes → Spells body chars →
      Spells ('\\' :: c :: body) (d :: chars)
  | unicode {digits body chars : List Char} {n : Nat} : IsHex4 digits n →
      n < 0xD800 ∨ 0xDFFF < n → Spells body chars →
        Spells ('\\' :: 'u' :: (digits ++ body)) (Char.ofNat n :: chars)
  | pair {digits digits' body chars : List Char} {high low : Nat} : IsHex4 digits high →
      0xD800 ≤ high → high ≤ 0xDBFF → IsHex4 digits' low → 0xDC00 ≤ low → low ≤ 0xDFFF →
        Spells body chars →
          Spells ('\\' :: 'u' :: (digits ++ '\\' :: 'u' :: (digits' ++ body)))
            (Char.ofNat (0x10000 + (high - 0xD800) * 0x400 + (low - 0xDC00)) :: chars)

theorem isHexDigit_of_hexDigit? {c : Char} {n : Nat} (h : hexDigit? c = some n) :
    isHexDigit c = true := by
  unfold hexDigit? at h
  unfold isHexDigit
  split_ifs at h with hdigit hupper hlower
  · simp [hdigit]
  · simp [hupper]
  · simp [hlower]

theorem IsHex4.isHexDigit {digits : List Char} {n : Nat} (h : IsHex4 digits n) :
    digits.length = 4 ∧ digits.all JsonText.isHexDigit = true := by
  obtain ⟨hi, hj, hk, hl⟩ := h
  simp [isHexDigit_of_hexDigit? hi, isHexDigit_of_hexDigit? hj, isHexDigit_of_hexDigit? hk,
    isHexDigit_of_hexDigit? hl]

/-- What spells something is in the grammar. -/
theorem Spells.isChars {body chars : List Char} (h : Spells body chars) : IsChars body := by
  induction h with
  | nil => exact .nil
  | plain hplain _ ih => exact .plain hplain ih
  | escape hmem _ ih =>
      refine .escape ?_ ih
      have hkeys := List.mem_map_of_mem (f := Prod.fst) hmem
      simpa [shortEscapes] using hkeys
  | unicode hhex _ _ ih =>
      obtain ⟨hlength, hall⟩ := hhex.isHexDigit
      exact .unicode hlength hall ih
  | pair hhex _ _ hhex' _ _ _ ih =>
      obtain ⟨hlength, hall⟩ := hhex.isHexDigit
      obtain ⟨hlength', hall'⟩ := hhex'.isHexDigit
      exact .unicode hlength hall (.unicode hlength' hall' ih)

inductive Writes : List Char → Int → Prop where
  | natural {digits : List Char} : IsInt digits → Writes digits (Nat.ofDigitChars 10 digits 0)
  | negative {digits : List Char} : IsInt digits →
      Writes ('-' :: digits) (-(Nat.ofDigitChars 10 digits 0 : Int))

theorem Writes.isNumber {text : List Char} {v : Int} (h : Writes text v) : IsNumber text := by
  cases h with
  | natural hint => simpa using IsNumber.positive hint .none .none
  | negative hint => simpa using IsNumber.negative hint .none .none

end TraCR.Lib.JsonText
