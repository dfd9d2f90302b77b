import Settings.Position
import Settings.Run

/-!
# Specifications of settings

A `Specifier` describes one node of a settings tree: a leaf holds one value, a namespace holds
named fields, a record holds entries of one kind under names that the user chooses. Each carries
the callbacks of its schema. A callback is a run over the state `σ` of its host, and fails with a
text.
-/

set_option autoImplicit false

namespace Settings

/-- A callback's run: a result or the text of a failure, over the state of the host. -/
abbrev CallM (σ : Type) : Type → Type := Run String σ

/-- Why a value is not acceptable. -/
structure Violation where
  reasons : List String
  deriving DecidableEq, Repr

/-- A repaired value and what was wrong before. -/
structure Fix where
  value : Value
  messages : List String

/-- The callbacks of a leaf: its initial value, its repair, its check and the mapping of a resolved
value to its data representation. A shadow leaf stands for data that only a mapper produces. -/
structure LeafRules (σ : Type) where
  initial : Option (CallM σ Value)
  validate : Option (Value → CallM σ (Option Violation))
  fixup : Option (Value → CallM σ (Option Fix))
  mapType : Option (Value → CallM σ Value)
  shadow : Bool

/-- The callbacks of a namespace: the object that a value which is no object stands for, the data
it starts from, and the data derived from its own. -/
structure NamespaceRules (σ : Type) where
  shorthand : Option (Value → CallM σ Value)
  seed : Option (CallM σ Value)
  mapper : Option (Value → Position → CallM σ Value)

/-- What is known about one node of a settings tree. -/
inductive Specifier (σ : Type)
  | leaf (rules : LeafRules σ)
  | ns (rules : NamespaceRules σ) (fields : SortedMap (Specifier σ) none)
  | record (starters : Option (CallM σ Value)) (entry : Specifier σ)

/-- A namespace: its callbacks and the specifiers of its fields. -/
structure Namespace (σ : Type) where
  rules : NamespaceRules σ
  fields : Fields (Specifier σ)

/-- The three kinds of node. -/
inductive Kind
  | leaf
  | ns
  | record
  deriving DecidableEq, Repr

/-- The word for a kind in messages. -/
def Kind.name : Kind → String
  | leaf => "leaf"
  | ns => "namespace"
  | record => "record"

namespace Specifier

variable {σ : Type}

section Induction

variable {P : Specifier σ → Prop} (leaf : ∀ rules, P (.leaf rules))
  (ns : ∀ rules (fields : Fields (Specifier σ)), (∀ k s, fields.get? k = some s → P s) →
    P (.ns rules fields))
  (record : ∀ starters entry, P entry → P (.record starters entry))
include leaf ns record

set_option linter.unusedSectionVars false

mutual

/-- Induction on specifiers: through the fields of namespaces and the entries of records. -/
@[elab_as_elim, induction_eliminator]
theorem induction : ∀ s, P s
  | .leaf rules => leaf rules
  | .ns rules fields => ns rules fields (induction_fields fields)
  | .record starters entry => record starters entry (induction entry)
termination_by structural s => s

private theorem induction_fields {lo : Option String} :
    ∀ fields : SortedMap (Specifier σ) lo, ∀ k s, fields.get? k = some s → P s
  | .nil, _, _, h => nomatch h
  | .cons name _ s rest, k, w, h =>
    if e : k = name then
      Option.some.inj ((if_pos e).symm.trans h) ▸ induction s
    else induction_fields rest k w ((if_neg e).symm.trans h)
termination_by structural fields => fields

end

end Induction

def kind : Specifier σ → Kind
  | leaf _ => .leaf
  | ns _ _ => .ns
  | record _ _ => .record

/-- The namespace that the specifier is, if it is one. -/
def namespace? : Specifier σ → Option (Namespace σ)
  | ns rules fields => some ⟨rules, fields⟩
  | _ => none

/-- Whether the node is a shadow leaf. -/
def isShadow : Specifier σ → Bool
  | leaf rules => rules.shadow
  | _ => false

end Specifier

def Namespace.toSpecifier {σ : Type} (n : Namespace σ) : Specifier σ := .ns n.rules n.fields

end Settings
