import Settings.Proofs.Sites
import Settings.Proofs.Validity

/-!
# Dotted paths

A valid specification has no empty and no dotted field names, so the dotted form of a path can be
taken apart again. With keys of the same kind for the entries of records, it tells every position
from every other one and from the root.
-/

set_option autoImplicit false

namespace Settings

variable {σ : Type}

/-- A path of declared names leads from a specifier to the one at its end. Entries of records have
keys that could be names of fields. -/
inductive Specifier.Locates : Specifier σ → List String → Specifier σ → Prop
  | here {s : Specifier σ} : Locates s [] s
  | field {rules : NamespaceRules σ} {specs : Fields (Specifier σ)} {name : String}
      {path : List String} {s target : Specifier σ} (declared : specs.get? name = some s)
      (rest : Locates s path target) : Locates (.ns rules specs) (name :: path) target
  | entry {starters : Option (CallM σ Value)} {entry target : Specifier σ} {key : String}
      {path : List String} (plain : IsFieldName key) (rest : Locates entry path target) :
      Locates (.record starters entry) (key :: path) target

/-- What a path leads to is determined. -/
theorem Specifier.Locates.unique {s t t' : Specifier σ} {path : List String}
    (h : s.Locates path t) (h' : s.Locates path t') : t = t' := by
  induction h with
  | here =>
    cases h'
    rfl
  | field declared _ ih =>
    cases h' with
    | field declared' rest' =>
      obtain rfl := Option.some.inj (declared.symm.trans declared')
      exact ih rest'
  | entry _ _ ih =>
    cases h' with
    | entry _ rest' => exact ih rest'

/-- In a valid specification every path is made of names that a field can have. -/
theorem Specifier.Locates.names {s t : Specifier σ} {path : List String} (h : s.Locates path t)
    (hs : s.Valid) : ∀ name ∈ path, IsFieldName name := by
  induction h with
  | here =>
    rintro name ⟨⟩
  | field declared _ ih =>
    cases hs with
    | ns names fields =>
      exact List.forall_mem_cons.2 ⟨names _ _ declared, ih (fields _ _ declared)⟩
  | entry plain _ ih =>
    cases hs with
    | record entry => exact List.forall_mem_cons.2 ⟨plain, ih entry⟩

theorem Position.render_follow_root (path : List String) :
    (root.follow path).render = ".".intercalate path := by
  unfold render
  rw [path_follow]
  rfl

/-- Splitting at the dots takes a dotted path apart, but the empty path reads as one empty name. -/
private theorem split_dotted {path : List String} (h : ∀ name ∈ path, IsFieldName name) :
    ((".".intercalate path).split '.').toList.map (·.copy) =
      if path = [] then [""] else path :=
  String.toList_split_intercalate fun name hname => (h name hname).2

/-- Paths of different names, or of different lengths, have different dotted forms. -/
theorem eq_of_intercalate_dot_eq {p q : List String} (hp : ∀ name ∈ p, IsFieldName name)
    (hq : ∀ name ∈ q, IsFieldName name) (h : ".".intercalate p = ".".intercalate q) : p = q := by
  have hsplit := split_dotted hp
  rw [h, split_dotted hq] at hsplit
  -- Only the empty path could be taken for another one, that of the empty name alone.
  have hempty {path : List String} (hpath : ∀ name ∈ path, IsFieldName name) : path ≠ [""] := by
    rintro rfl
    exact (hpath "" List.mem_cons_self).1 rfl
  split at hsplit <;> split at hsplit
  · next hq' hp' => rw [hp', hq']
  · exact absurd hsplit.symm (hempty hp)
  · exact absurd hsplit (hempty hq)
  · exact hsplit.symm

/-- In a specification that passes the check, positions with the same dotted path are the same and
have the same specifier, and none below the root has the empty path of the root. -/
theorem Namespace.position_of_render {n : Namespace σ} (hn : n.offence? .root = none)
    {p q : List String} {s t : Specifier σ} (hp : n.toSpecifier.Locates p s)
    (hq : n.toSpecifier.Locates q t) :
    ((Position.root.follow p).render = (Position.root.follow q).render → p = q ∧ s = t) ∧
    (p ≠ [] → (Position.root.follow p).render ≠ Position.root.render) := by
  have hvalid : n.toSpecifier.Valid := Specifier.offence?_eq_none.1 hn
  have hnames := hp.names hvalid
  rw [Position.render_follow_root, Position.render_follow_root]
  constructor
  · intro hrender
    obtain rfl := eq_of_intercalate_dot_eq hnames (hq.names hvalid) hrender
    exact ⟨rfl, hp.unique hq⟩
  · intro hbelow hempty
    exact hbelow (eq_of_intercalate_dot_eq hnames (by rintro name ⟨⟩) hempty)

/-- A port is told from the host that it belongs to, and from the root. -/
theorem Namespace.position_of_render_hosts :
    (Position.root.follow ["hosts", "x", "port"]).render ≠
        (Position.root.follow ["hosts", "x"]).render ∧
      (Position.root.follow ["hosts", "x", "port"]).render ≠ "" := by
  have hx : IsFieldName "x" := isFieldName_iff.1 (by decide)
  obtain ⟨host, hhost, hport⟩ : ∃ host, Hosts.root.toSpecifier.Locates ["hosts", "x"] host ∧
      Hosts.root.toSpecifier.Locates ["hosts", "x", "port"] (.leaf Hosts.port) :=
    ⟨_, .field rfl (.entry hx .here), .field rfl (.entry hx (.field rfl .here))⟩
  obtain ⟨hsame, hroot⟩ := Namespace.position_of_render (n := Hosts.root) rfl hport hhost
  refine ⟨fun h => ?_, hroot (List.cons_ne_nil _ _)⟩
  cases (hsame h).1

-- A key with a dot in it gives an entry the dotted path of a field of another one.
example : (Position.root.follow ["hosts", "x.port"]).render =
    (Position.root.follow ["hosts", "x", "port"]).render := by decide

end Settings
