import TraCR.Engine.Json
import TraCR.Lib.JsonText

/-!
# What a JSON text means

The values of the program a parsed text stands for: escapes are resolved, integers fit 64
bits, and of several fields under one key the last one counts.
-/

namespace TraCR

open TraCR.Lib.JsonText

def insertAll (fields into : List (String × Json)) : List (String × Json) :=
  fields.foldl (fun into field => insertField field.1 field.2 into) into

inductive Names : Literal → String → Prop where
  | spelled {body chars : List Char} (h : IsString (quote body)) : Spells body chars →
      Names ⟨quote body, h⟩ (String.ofList chars)

mutual

/-- The value a text says. -/
inductive Denotes : Tree → Json → Prop where
  | null : Denotes .null .null
  | boolean (b : Bool) : Denotes (.boolean b) (.boolean b)
  | number {n : Number} {v : Int} : Writes n.1 v → -2 ^ 63 ≤ v → v < 2 ^ 64 →
      Denotes (.number n) (.number v)
  | string {literal : Literal} {s : String} : Names literal s →
      Denotes (.string literal) (.string s)
  | array {elements : List Tree} {values : List Json} : DenoteElements elements values →
      Denotes (.array elements) (.array values)
  | object {members : List (Literal × Tree)} {fields : List (String × Json)} :
      DenoteMembers members fields → Denotes (.object members) (.object (insertAll fields []))

inductive DenoteElements : List Tree → List Json → Prop where
  | nil : DenoteElements [] []
  | cons {t : Tree} {v : Json} {elements : List Tree} {values : List Json} : Denotes t v →
      DenoteElements elements values → DenoteElements (t :: elements) (v :: values)

/-- The fields in the order of the text. -/
inductive DenoteMembers : List (Literal × Tree) → List (String × Json) → Prop where
  | nil : DenoteMembers [] []
  | cons {literal : Literal} {t : Tree} {key : String} {v : Json}
      {members : List (Literal × Tree)} {fields : List (String × Json)} : Names literal key →
      Denotes t v → DenoteMembers members fields →
        DenoteMembers ((literal, t) :: members) ((key, v) :: fields)

end

@[simp] theorem insertAll_nil (into : List (String × Json)) : insertAll [] into = into := rfl

@[simp] theorem insertAll_cons (field : String × Json) (fields into : List (String × Json)) :
    insertAll (field :: fields) into = insertAll fields (insertField field.1 field.2 into) := rfl

theorem insertField_of_forall_lt {key : String} {value : Json} {fields : List (String × Json)}
    (h : ∀ field ∈ fields, field.1 < key) :
    insertField key value fields = fields ++ [(key, value)] := by
  induction fields with
  | nil => rfl
  | cons field fields ih =>
      obtain ⟨k, v⟩ := field
      have hlt : k < key := h (k, v) List.mem_cons_self
      have hnot : ¬key < k := fun hgt => Std.lt_irrefl (Std.lt_trans hlt hgt)
      have hne : key ≠ k := fun heq => Std.lt_irrefl (heq ▸ hlt)
      rw [insertField, if_neg hnot, if_neg hne,
        ih fun field hfield => h field (List.mem_cons_of_mem _ hfield), List.cons_append]

/-- Fields in key order stay as they are. -/
theorem insertAll_of_ascending {fields into : List (String × Json)}
    (h : Ascending (into ++ fields)) : insertAll fields into = into ++ fields := by
  induction fields generalizing into with
  | nil => simp
  | cons field fields ih =>
      obtain ⟨-, -, hlt⟩ := List.pairwise_append.mp h
      have hstep := @insertField_of_forall_lt field.1 field.2 into fun field' hfield' =>
        hlt field' hfield' field List.mem_cons_self
      have happend : into ++ field :: fields = (into ++ [field]) ++ fields := by simp
      rw [insertAll_cons, hstep, happend]
      exact ih (happend ▸ h)

end TraCR
