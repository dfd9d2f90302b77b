/-!
# Maps with sorted keys

A `SortedMap α lo` lists its keys in strictly increasing order, all of them above the bound `lo`;
`Fields α` is the map without a bound. The order is part of the type, so two maps with the same
look-ups are the same map (`SortedMap.ext`, in `Lemmas`), and every traversal meets the keys in
order of their code points.
-/

set_option autoImplicit false

universe u v

namespace Settings

/-- The key lies above the bound; without a bound every key does. -/
def Above : Option String → String → Prop
  | none, _ => True
  | some a, k => a < k

/-- A map from names to values, its keys in strictly increasing order and above the bound. -/
inductive SortedMap (α : Type u) : Option String → Type u
  | nil {lo : Option String} : SortedMap α lo
  | cons {lo : Option String} (k : String) (above : Above lo k) (a : α)
      (rest : SortedMap α (some k)) : SortedMap α lo

/-- A map from names to values, its keys in increasing order. -/
abbrev Fields (α : Type u) := SortedMap α none

theorem above_some {a k : String} : Above (some a) k ↔ a < k := Iff.rfl

theorem Above.trans {lo : Option String} {a b : String} (ha : Above lo a)
    (hb : Above (some a) b) : Above lo b := by
  cases lo with
  | none => trivial
  | some l => exact String.lt_trans ha hb

namespace SortedMap

variable {α : Type u} {β : Type v} {lo : Option String}

instance : EmptyCollection (SortedMap α lo) := ⟨nil⟩

instance : Inhabited (SortedMap α lo) := ⟨nil⟩

def get? {lo : Option String} : SortedMap α lo → String → Option α
  | nil, _ => none
  | cons k _ a rest, key => if key = k then some a else rest.get? key

/-- Whether there is no key at all. -/
def isEmpty : SortedMap α lo → Bool
  | nil => true
  | cons _ _ _ _ => false

def size {lo : Option String} : SortedMap α lo → Nat
  | nil => 0
  | cons _ _ _ rest => rest.size + 1

/-- The pairs in order of their keys. -/
def toList {lo : Option String} : SortedMap α lo → List (String × α)
  | nil => []
  | cons k _ a rest => (k, a) :: rest.toList

def keys (m : SortedMap α lo) : List String := m.toList.map Prod.fst

/-- The same pairs under a lower bound. -/
def weaken {lo hi : Option String} :
    SortedMap α hi → (∀ k, Above hi k → Above lo k) → SortedMap α lo
  | nil, _ => nil
  | cons k above a rest, below => cons k (below k above) a rest

/-- Writes a value at a key above the bound, over any value already there. -/
def insertAbove {lo : Option String} :
    SortedMap α lo → (key : String) → Above lo key → α → SortedMap α lo
  | nil, key, h, b => cons key h b nil
  | cons k above a rest, key, h, b =>
    if lt : key < k then cons key h b (cons k (above_some.2 lt) a rest)
    else if gt : k < key then cons k above a (rest.insertAbove key (above_some.2 gt) b)
    else cons k above b rest

/-- Writes a value at a key, over any value already there. -/
def insert (m : Fields α) (key : String) (a : α) : Fields α := m.insertAbove key trivial a

/-- Applies a function to every value, the key given. -/
def map {lo : Option String} (f : String → α → β) : SortedMap α lo → SortedMap β lo
  | nil => nil
  | cons k above a rest => cons k above (f k a) (rest.map f)

/-- Applies a function to every value, the key given, and keeps the keys where it has a result. -/
def filterMap {lo : Option String} (f : String → α → Option β) : SortedMap α lo → SortedMap β lo
  | nil => nil
  | cons k above a rest =>
    match f k a with
    | some b => cons k above b (rest.filterMap f)
    | none => (rest.filterMap f).weaken fun _ h => above.trans h

/-- Writes the pairs one after the other, so that of two pairs with one key the later stays. -/
def insertMany (m : Fields α) (pairs : List (String × α)) : Fields α :=
  pairs.foldl (fun m p => m.insert p.1 p.2) m

/-- The map of a list of pairs; of two pairs with one key the later counts. -/
def ofList (pairs : List (String × α)) : Fields α := insertMany ∅ pairs

/-- All keys of both maps, the second map's values over the first's. -/
def assign (m : Fields α) (overlay : SortedMap α lo) : Fields α := m.insertMany overlay.toList

end SortedMap

end Settings
