import Settings.Binary64.Basic
import Settings.SortedMap.Lemmas

/-!
# Setting values

A `Value` is a tree of nulls, booleans, numbers, strings, arrays and objects, the objects with
sorted keys. Integers and double precision numbers are different kinds of number: `1` is not `1.0`.
-/

set_option autoImplicit false

namespace Settings

/-- A value of a setting, an input or an object of data. -/
inductive Value
  | null
  | bool (b : Bool)
  | int (n : Int)
  | double (x : Binary64)
  | str (s : String)
  | arr (items : List Value)
  | obj (fields : SortedMap Value none)

namespace Value

instance : Inhabited Value := ⟨null⟩

def emptyObject : Value := obj ∅

def fields? : Value → Option (Fields Value)
  | obj fields => some fields
  | _ => none

def isObject : Value → Bool
  | obj _ => true
  | _ => false

def isNull : Value → Bool
  | null => true
  | _ => false

theorem fields?_eq_some {v : Value} {fields : Fields Value} :
    v.fields? = some fields ↔ v = obj fields := by
  cases v <;> simp [fields?]

/-- The field of an object; other values have none. -/
def field? (v : Value) (name : String) : Option Value := v.fields?.bind (·.get? name)

/-- The value reached through a list of object keys. -/
def at? (v : Value) : List String → Option Value
  | [] => some v
  | name :: path => (v.field? name).bind (·.at? path)

theorem at?_cons (fields : Fields Value) (name : String) (path : List String) :
    (obj fields).at? (name :: path) = (fields.get? name).bind (·.at? path) := rfl

/-- What a path leads to is reached through the field of its first name. -/
theorem at?_cons_eq_some {v w : Value} {name : String} {path : List String} :
    v.at? (name :: path) = some w ↔
      ∃ fields x, v = obj fields ∧ fields.get? name = some x ∧ x.at? path = some w := by
  constructor
  · intro h
    obtain ⟨x, hx, hw⟩ := Option.bind_eq_some_iff.1 h
    obtain ⟨fields, hfields, hx⟩ := Option.bind_eq_some_iff.1 hx
    exact ⟨fields, x, fields?_eq_some.1 hfields, hx, hw⟩
  · rintro ⟨fields, x, rfl, hx, hw⟩
    rw [at?_cons, hx]
    exact hw

/-- The name by which a value picks one of several choices that have no parts: a string, or the only
key of an object that holds `null`. -/
def choice? : Value → Option String
  | str s => some s
  | obj (.cons name _ null .nil) => some name
  | _ => none

section Induction

variable {P : Value → Prop} (null : P .null) (bool : ∀ b, P (.bool b)) (int : ∀ n, P (.int n))
  (double : ∀ x, P (.double x)) (str : ∀ s, P (.str s))
  (arr : ∀ items, (∀ v ∈ items, P v) → P (.arr items))
  (obj : ∀ fields : Fields Value, (∀ k v, fields.get? k = some v → P v) → P (.obj fields))
include null bool int double str arr obj

set_option linter.unusedSectionVars false

mutual

/-- Induction on values: through the items of arrays and the fields of objects. -/
@[elab_as_elim, induction_eliminator]
theorem induction : ∀ v, P v
  | .null => null
  | .bool b => bool b
  | .int n => int n
  | .double x => double x
  | .str s => str s
  | .arr items => arr items (induction_items items)
  | .obj fields => obj fields (induction_fields fields)
termination_by structural v => v

private theorem induction_items : ∀ items : List Value, ∀ v ∈ items, P v
  | [], _, h => nomatch h
  | v :: vs, w, h => (List.mem_cons.1 h).elim (fun e => e ▸ induction v) (induction_items vs w)
termination_by structural items => items

private theorem induction_fields {lo : Option String} :
    ∀ fields : SortedMap Value lo, ∀ k v, fields.get? k = some v → P v
  | .nil, _, _, h => nomatch h
  | .cons name _ v rest, k, w, h =>
    if e : k = name then
      Option.some.inj ((if_pos e).symm.trans h) ▸ induction v
    else induction_fields rest k w ((if_neg e).symm.trans h)
termination_by structural fields => fields

end

end Induction

/-- Structural equality, numbers of one kind by value, so that the two zeros are equal. -/
def same : Value → Value → Bool
  | null, null => true
  | bool a, bool b => a == b
  | int a, int b => a == b
  | double a, double b => a.sameNumber b
  | str a, str b => a == b
  | arr as, arr bs => sameItems as bs
  | obj as, obj bs => sameFields as bs
  | _, _ => false
where
  sameItems : List Value → List Value → Bool
    | [], [] => true
    | a :: as, b :: bs => same a b && sameItems as bs
    | _, _ => false
  sameFields {lo hi : Option String} : SortedMap Value lo → SortedMap Value hi → Bool
    | .nil, .nil => true
    | .cons k _ a as, .cons k' _ b bs => k == k' && same a b && sameFields as bs
    | _, _ => false

end Value

end Settings
