/-
  LayerLint.Proofs.Json.Records: reading back what was written, one way to read at a time.

  A list or table is read back if its items are (`list?_map`, `table?_map`), a count if it has 64 bits (`count?_nat`),
  and a field of a record if its value is (`required_cons`, `optional_cons`).
-/

import LayerLint.Json.Decode
import LayerLint.Layer
import LayerLint.Rule

namespace LayerLint

theorem Layer.ofName?_name (l : Layer) : Layer.ofName? l.name = some l := by cases l <;> rfl

theorem Severity.ofName?_name (s : Severity) : Severity.ofName? s.name = some s := by cases s <;> rfl

theorem Rule.ofName?_name (r : Rule) : Rule.ofName? r.name = some r := by cases r <;> rfl

namespace Json

variable {α β : Type}

/-- One step of a reader. Not to be used by unfolding, which would compare the readers of the next steps too. -/
theorem bind_given (a : α) (f : α → Option β) : (some a >>= f) = f a := by rw [Option.bind_eq_bind, Option.bind_some]

/-! ## Values -/

theorem count?_nat {n : Nat} (h : n < twoPow 64) : (nat n).count? = some n := by
  have hbound : 0 ≤ (n : Int) ∧ (n : Int) < twoPow 64 := by omega
  simp [nat, count?, hbound]

theorem nullable?_of_read {read : Json → Option α} {v : Json} {a : α} (hv : v ≠ .null) (h : read v = some a) :
    nullable? read v = some (some a) := by
  cases v with
  | null => exact absurd rfl hv
  | _ => simp [nullable?, h]

theorem mapM_map_eq {γ : Type} {read : β → Option γ} {write : α → β} {f : α → γ} {as : List α}
    (h : ∀ a ∈ as, read (write a) = some (f a)) : (as.map write).mapM read = some (as.map f) := by
  induction as with
  | nil => rfl
  | cons a as ih =>
    have htail := ih fun b hb => h b (List.mem_cons_of_mem a hb)
    simp [h a List.mem_cons_self, htail]

theorem mapM_map_of_read {read : β → Option α} {write : α → β} {as : List α}
    (h : ∀ a ∈ as, read (write a) = some a) : (as.map write).mapM read = some as := by
  rw [mapM_map_eq h, List.map_id']

theorem list?_map {read : Json → Option α} {write : α → Json} {as : List α} (h : ∀ a ∈ as, read (write a) = some a) :
    list? read (.arr (as.map write)) = some as := mapM_map_of_read h

theorem strings?_strings (ss : List String) : strings? (strings ss) = some ss := list?_map fun _ _ => rfl

theorem table?_map {read : Json → Option α} (write : α → Json) {t : List (String × α)}
    (h : ∀ e ∈ t, read (write e.2) = some e.2) :
    table? read (.obj (t.map fun e => (e.1, write e.2))) = some t := by
  refine mapM_map_of_read fun e he => ?_
  simp [h e he]

/-! ## Records -/

def fieldsOf (es : List (String × Json)) : Fields := fun name => (es.find? (·.1 == name)).map (·.2)

theorem record?_obj (format : Format) (names : List String) (es : List (String × Json)) :
    record? format names (.obj es) = some (fieldsOf es) := rfl

theorem fieldsOf_cons (e : String × Json) (es : List (String × Json)) (name : String) :
    fieldsOf (e :: es) name = if e.1 = name then some e.2 else fieldsOf es name := by
  by_cases h : e.1 = name <;> simp [fieldsOf, h]

theorem fieldsOf_append (es es' : List (String × Json)) (name : String) :
    fieldsOf (es ++ es') name = (fieldsOf es name).or (fieldsOf es' name) := by
  simp [fieldsOf, Option.map_or]

theorem fieldsOf_eq_none {es : List (String × Json)} {name : String} (h : name ∉ es.map (·.1)) :
    fieldsOf es name = none := by
  induction es with
  | nil => rfl
  | cons e es ih =>
    rw [List.map_cons, List.mem_cons, not_or] at h
    rw [fieldsOf_cons, if_neg (Ne.symm h.1), ih h.2]

/-- Other fields do not depend on an entry. -/
theorem fieldsOf_insert {before after : List (String × Json)} {key name : String} {v : Json} (h : name ≠ key) :
    fieldsOf (before ++ (key, v) :: after) name = fieldsOf (before ++ after) name := by
  simp [fieldsOf_append, fieldsOf_cons, h.symm]

theorem record?_arr {format : Format} {names : List String} {items : List Json}
    (h : format = .toml ∨ items.length ≤ names.length) :
    record? format names (.arr items) = some (fieldsOf (names.zip items)) := if_pos h

theorem record?_arr_of_not {format : Format} {names : List String} {items : List Json}
    (h : ¬(format = .toml ∨ items.length ≤ names.length)) : record? format names (.arr items) = none := if_neg h

section Fields

variable {read : Json → Option α} {name : String} (e : String × Json) (es : List (String × Json))

theorem required_cons :
    (fieldsOf (e :: es)).required name read = if e.1 = name then read e.2 else (fieldsOf es).required name read := by
  by_cases h : e.1 = name <;> simp [Fields.required, fieldsOf_cons, h]

theorem optional_cons {default : α} : (fieldsOf (e :: es)).optional name read default =
    if e.1 = name then read e.2 else (fieldsOf es).optional name read default := by
  by_cases h : e.1 = name <;> simp [Fields.optional, fieldsOf_cons, h]

theorem optional_nil {default : α} : (fieldsOf []).optional name read default = some default := rfl

end Fields

end Json

end LayerLint
