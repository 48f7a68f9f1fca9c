import Mathlib.Algebra.Ring.Int.Defs
import Mathlib.Algebra.Ring.Nat
import Mathlib.Data.List.Basic

/-!
# JSON values

The part of `nlohmann::json` the program uses.  An object is a `std::map`: its
fields are kept in key order and a key occurs once.  Floating-point numbers do
not occur in what the library writes and are left out.  A value stands for its
serialised text: the file operations of the model store the value itself.
-/

namespace TraCR

inductive Json where
  | null
  | boolean (b : Bool)
  | number (n : Int)
  | string (s : String)
  | array (elements : List Json)
  | object (fields : List (String × Json))

/-- `map[key] = value` on the ordered fields of an object. -/
def insertField (key : String) (value : Json) :
    List (String × Json) → List (String × Json)
  | [] => [(key, value)]
  | (k, v) :: rest =>
      if key < k then (key, value) :: (k, v) :: rest
      else if key = k then (key, value) :: rest
      else (k, v) :: insertField key value rest

@[simp] theorem lookup_insertField_self (key : String) (value : Json)
    (fields : List (String × Json)) :
    (insertField key value fields).lookup key = some value := by
  induction fields with
  | nil => simp [insertField]
  | cons field rest ih =>
      obtain ⟨k, v⟩ := field
      rw [insertField]
      split
      · simp
      · split
        · simp
        next hne =>
          rw [List.lookup_cons, beq_eq_false_iff_ne.mpr hne]
          exact ih

theorem lookup_insertField_ne {key key' : String} (h : key' ≠ key) (value : Json)
    (fields : List (String × Json)) :
    (insertField key value fields).lookup key' = fields.lookup key' := by
  have hb : (key' == key) = false := beq_eq_false_iff_ne.mpr h
  induction fields with
  | nil => simp [insertField, List.lookup_cons, hb]
  | cons field rest ih =>
      obtain ⟨k, v⟩ := field
      rw [insertField]
      split
      · simp [List.lookup_cons, hb]
      · split
        next heq =>
          subst heq
          simp [List.lookup_cons, hb]
        · rw [List.lookup_cons, List.lookup_cons, ih]

/-! ## Key order

The fields of an object keep their keys in order, so a key has one entry. -/

section Ascending

variable {α : Type}

def Ascending (fields : List (String × α)) : Prop := fields.Pairwise fun a b => a.1 < b.1

theorem mem_of_mem_insertField {key : String} {value : Json} {field : String × Json}
    {fields : List (String × Json)} (h : field ∈ insertField key value fields) :
    field = (key, value) ∨ field ∈ fields := by
  induction fields with
  | nil => exact .inl (List.mem_singleton.mp h)
  | cons head rest ih =>
      obtain ⟨k, v⟩ := head
      rw [insertField] at h
      split at h
      · exact List.mem_cons.mp h
      · split at h
        · exact (List.mem_cons.mp h).imp_right (List.mem_cons_of_mem _)
        · rcases List.mem_cons.mp h with rfl | hrest
          · exact .inr List.mem_cons_self
          · exact (ih hrest).imp_right (List.mem_cons_of_mem _)

theorem Ascending.insertField {fields : List (String × Json)} (h : Ascending fields)
    (key : String) (value : Json) : Ascending (insertField key value fields) := by
  induction fields with
  | nil => exact List.pairwise_singleton _ _
  | cons head rest ih =>
      obtain ⟨k, v⟩ := head
      obtain ⟨hhead, hrest⟩ := List.pairwise_cons.mp h
      rw [TraCR.insertField]
      split
      next hlt =>
        refine List.pairwise_cons.mpr ⟨?_, h⟩
        intro field hfield
        rcases List.mem_cons.mp hfield with rfl | hin
        · exact hlt
        · exact Std.lt_trans hlt (hhead field hin)
      next hnot =>
        split
        next heq =>
          subst heq
          exact List.pairwise_cons.mpr ⟨hhead, hrest⟩
        next hne =>
          refine List.pairwise_cons.mpr ⟨?_, ih hrest⟩
          intro field hfield
          rcases mem_of_mem_insertField hfield with rfl | hin
          · exact Std.lt_of_le_of_ne (Std.not_lt.mp hnot) (Ne.symm hne)
          · exact hhead field hin

/-- In an object, to be looked up is to be listed. -/
theorem Ascending.lookup_eq_some_iff {fields : List (String × α)} (h : Ascending fields)
    {key : String} {value : α} : fields.lookup key = some value ↔ (key, value) ∈ fields := by
  induction fields with
  | nil => simp
  | cons head rest ih =>
      obtain ⟨k, v⟩ := head
      obtain ⟨hhead, hrest⟩ := List.pairwise_cons.mp h
      rw [List.lookup_cons, List.mem_cons]
      by_cases hkey : key = k
      · subst hkey
        have habsent : (key, value) ∉ rest := by
          intro hin
          have hlt : key < key := hhead (key, value) hin
          exact Std.lt_irrefl hlt
        simp [habsent, eq_comm]
      · rw [beq_eq_false_iff_ne.mpr hkey]
        simp [hkey, ih hrest]

theorem Ascending.filter_eq_singleton {fields : List (String × α)} (h : Ascending fields)
    {key : String} {value : α} (hin : (key, value) ∈ fields) :
    (fields.filter fun field => field.1 = key) = [(key, value)] := by
  induction fields with
  | nil => cases hin
  | cons head rest ih =>
      obtain ⟨hhead, hrest⟩ := List.pairwise_cons.mp h
      rcases List.mem_cons.mp hin with rfl | hin
      · have hnone : (rest.filter fun field => field.1 = key) = [] := by
          rw [List.filter_eq_nil_iff]
          intro field hfield
          have hlt : key < field.1 := hhead field hfield
          have hne : field.1 ≠ key := fun heq => Std.lt_irrefl (heq ▸ hlt)
          simpa using hne
        rw [List.filter_cons_of_pos (by simp), hnone]
      · have hlt : head.1 < key := hhead (key, value) hin
        have hne : head.1 ≠ key := fun heq => Std.lt_irrefl (heq ▸ hlt)
        rw [List.filter_cons_of_neg (by simpa using hne), ih hrest hin]

end Ascending

namespace Json

/-- `contains(key)` and `operator[](key)` in one: the field of an object. -/
def member? (j : Json) (key : String) : Option Json :=
  match j with
  | .object fields => fields.lookup key
  | _ => none

/-- The guard `contains(key) && !j[key].is_null()` of every metadata lookup. -/
def field? (j : Json) (key : String) : Option Json :=
  match j.member? key with
  | some .null => none
  | other => other

theorem field?_of_lookup {fields : List (String × Json)} {key : String} {j : Json}
    (h : fields.lookup key = some j) (hnull : j ≠ .null) :
    (object fields).field? key = some j := by
  have hmember : (object fields).member? key = some j := h
  unfold field?
  rw [hmember]
  cases j <;> first | rfl | exact absurd rfl hnull

theorem field?_of_lookup_none {fields : List (String × Json)} {key : String}
    (h : fields.lookup key = none) : (object fields).field? key = none := by
  have hmember : (object fields).member? key = none := h
  unfold field?
  rw [hmember]

/-- `size()`: null is empty, a scalar counts as one. -/
def size : Json → Nat
  | .null => 0
  | .array elements => elements.length
  | .object fields => fields.length
  | _ => 1

/-- What a range-based `for` visits: elements, values in key order, or the
scalar itself. -/
def elements : Json → List Json
  | .null => []
  | .array elements => elements
  | .object fields => fields.map Prod.snd
  | scalar => [scalar]

/-- `items()`: the fields of an object, the elements of an array under their
indices, a scalar under the empty key. -/
def items : Json → List (String × Json)
  | .null => []
  | .object fields => fields
  | .array elements => elements.zipIdx.map fun x => (toString x.2, x.1)
  | scalar => [("", scalar)]

def asString? : Json → Option String
  | .string s => some s
  | _ => none

/-- `get<uint64_t>()` and `get<size_t>()`: numbers only. -/
def asNumber? : Json → Option Int
  | .number n => some n
  | _ => none

/-- `get<uint16_t>()` and `get<uint32_t>()`: numbers and booleans. -/
def asArithmetic? : Json → Option Int
  | .number n => some n
  | .boolean b => some (if b then 1 else 0)
  | _ => none

end Json

/-! ## Equality

`operator==` compares values, not texts. -/

mutual

def Json.beq : Json → Json → Bool
  | .null, .null => true
  | .boolean a, .boolean b => a = b
  | .number a, .number b => a = b
  | .string a, .string b => a = b
  | .array as, .array bs => Json.beqElements as bs
  | .object as, .object bs => Json.beqFields as bs
  | _, _ => false

def Json.beqElements : List Json → List Json → Bool
  | [], [] => true
  | a :: as, b :: bs => Json.beq a b && Json.beqElements as bs
  | _, _ => false

def Json.beqFields : List (String × Json) → List (String × Json) → Bool
  | [], [] => true
  | (k, a) :: as, (k', b) :: bs => k = k' && Json.beq a b && Json.beqFields as bs
  | _, _ => false

end

instance : BEq Json := ⟨Json.beq⟩

/-! ## Conversions to fixed-width integers

`static_cast` from the 64-bit integer nlohmann stores keeps the low bits. -/

def castUInt16 (n : Int) : UInt16 := .ofNat (n % 2 ^ 16).toNat

def castUInt32 (n : Int) : UInt32 := .ofNat (n % 2 ^ 32).toNat

def castUInt64 (n : Int) : UInt64 := .ofNat (n % 2 ^ 64).toNat

theorem castUInt32_toNat (n : Int) : (castUInt32 n).toNat = (n % 2 ^ 32).toNat := by
  have hlt : (n % 2 ^ 32).toNat < 2 ^ 32 := by omega
  rw [castUInt32, UInt32.toNat_ofNat_of_lt' hlt]

theorem castUInt64_toNat (n : Int) : (castUInt64 n).toNat = (n % 2 ^ 64).toNat := by
  have hlt : (n % 2 ^ 64).toNat < 2 ^ 64 := by omega
  rw [castUInt64, UInt64.toNat_ofNat_of_lt' hlt]

theorem castUInt16_natCast (n : UInt16) : castUInt16 (n.toNat : Int) = n := by
  have hlt : n.toNat < 2 ^ 16 := n.toNat_lt
  have hmod : ((n.toNat : Int) % 2 ^ 16).toNat = n.toNat := by omega
  rw [castUInt16, hmod, UInt16.ofNat_toNat]

theorem castUInt64_natCast (n : UInt64) : castUInt64 (n.toNat : Int) = n := by
  have hlt : n.toNat < 2 ^ 64 := n.toNat_lt
  have hmod : ((n.toNat : Int) % 2 ^ 64).toNat = n.toNat := by omega
  rw [castUInt64, hmod, UInt64.ofNat_toNat]

end TraCR
