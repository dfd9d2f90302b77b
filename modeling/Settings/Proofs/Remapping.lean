import Settings.Proofs.LockstepChange
import Settings.Proofs.MapperCalls
import Settings.Proofs.Repetition

/-!
# The mappers that a commit runs

A commit runs the mapper of every namespace for which the input has an object, once the fields are
committed and the mappers below have run. `remapsAt` lists these namespaces in that order: its
members are the namespaces with a mapper that paths into the input lead to (`mem_remapsAt`), and
what is inside another one comes before it (`remapsAt_sorted`). What the mappers return is a value
for every path, and from these values `mergedAt` tells what becomes of the data and what each mapper
sees (`Namespace.commit_remaps`).
-/

set_option autoImplicit false

namespace Settings

variable {σ : Type} {lo : Option String}

/-- A namespace with a mapper and the object that is given for it. -/
structure Remap (σ : Type) where
  path : List String
  rules : NamespaceRules σ
  specs : Fields (Specifier σ)
  given : Fields Value

/-- The same namespace seen from one level above. -/
def Remap.under (name : String) (r : Remap σ) : Remap σ := { r with path := name :: r.path }

mutual

/-- The namespaces with a mapper for which a value has an object. -/
def remapsAt : Option (Specifier σ) → Value → List (Remap σ)
  | some (.ns rules specs), .obj fields =>
    remapsBelow (.ns rules specs) fields ++
      if rules.mapper.isSome then [⟨[], rules, specs, fields⟩] else []
  | some (.record starters entry), .obj entries => remapsBelow (.record starters entry) entries
  | _, _ => []
termination_by structural _ v => v

/-- The namespaces with a mapper for which the fields of an object inside a container have an
object. -/
def remapsBelow (s : Specifier σ) {lo : Option String} : SortedMap Value lo → List (Remap σ)
  | .nil => []
  | .cons name _ v rest => (remapsAt (s.below? name) v).map (Remap.under name) ++ remapsBelow s rest
termination_by structural fields => fields

end

/-- The data of a namespace with what its mapper, if there is one, returned. -/
def NamespaceRules.remapped (rules : NamespaceRules σ) (r : Value) (data : Fields Value) :
    Fields Value :=
  if rules.mapper.isSome then data.assign ((objectOrNull? r).getD ∅) else data

mutual

/-- What a commit of a value makes of the data at a position, from what the mappers return. -/
def mergedAt (results : List String → Value) :
    Option (Specifier σ) → Value → (before : Option Value) → Value
  | some (.ns rules specs), .obj fields, before =>
    .obj (rules.remapped (results [])
      ((objectOf before).assign (mergedBelow results (.ns rules specs) fields (objectOf before))))
  | some (.record starters entry), .obj entries, before =>
    .obj ((objectOf before).assign
      (mergedBelow results (.record starters entry) entries (objectOf before)))
  | _, v, _ => v
termination_by structural _ v => v

/-- What a commit of an object makes of the fields that it has, inside a container. -/
def mergedBelow (results : List String → Value) (s : Specifier σ) {lo : Option String} :
    SortedMap Value lo → (before : Fields Value) → SortedMap Value lo
  | .nil, _ => .nil
  | .cons name above v rest, before =>
    .cons name above
      (mergedAt (fun path => results (name :: path)) (s.below? name) v (before.get? name))
      (mergedBelow results s rest before)
termination_by structural fields => fields

end

/-- A value that is no object, or that stands where no container is declared, runs no mapper and is
not merged with what was there. -/
theorem remapped_closed {spec : Option (Specifier σ)} {v : Value}
    (closed : containerKind? spec = none ∨ v.isObject = false) :
    remapsAt spec v = [] ∧ ∀ results before, mergedAt results spec v before = v := by
  cases spec with
  | none => cases v <;> exact ⟨rfl, fun _ _ => rfl⟩
  | some s =>
    cases s with
    | leaf rules => cases v <;> exact ⟨rfl, fun _ _ => rfl⟩
    | _ =>
      obtain closed | closed := closed
      · cases closed
      · cases v with
        | obj fields => cases closed
        | _ => exact ⟨rfl, fun _ _ => rfl⟩

theorem mergedBelow_eq_map (results : List String → Value) (s : Specifier σ)
    (fields : SortedMap Value lo) (before : Fields Value) :
    mergedBelow results s fields before = fields.map fun k v =>
      mergedAt (fun path => results (k :: path)) (s.below? k) v (before.get? k) := by
  induction fields with
  | nil => rfl
  | cons name above v rest ih => rw [mergedBelow, SortedMap.map, ih]

namespace Remap

variable (r : Remap σ) (results : List String → Value)

/-- The data that the mapper sees: what was there, with all that is given merged into it and all
results from below. -/
def merged (before : Option Value) : Fields Value :=
  let data := objectOf (before.bind (·.at? r.path))
  data.assign
    (mergedBelow (fun path => results (r.path ++ path)) (.ns r.rules r.specs) r.given data)

/-- The call of the mapper, in a commit at a position. -/
def call (spec : Option (Specifier σ)) (isEntry : Bool) (place : Place) (pos : Position)
    (before : Option Value) : Call :=
  .mapper (placeAt spec place r.path) (.obj (r.merged results before))
    (contextAt spec isEntry pos r.path) (.ok (results r.path))

theorem merged_here (rules : NamespaceRules σ) (specs : Fields (Specifier σ))
    (given : Fields Value) (before : Option Value) :
    (⟨[], rules, specs, given⟩ : Remap σ).merged results before =
      (objectOf before).assign
        (mergedBelow results (.ns rules specs) given (objectOf before)) := by
  cases before <;> rfl

end Remap

/-! ## Which mappers run, and in which order -/

section Members

variable {s : Specifier σ} {spec : Option (Specifier σ)} {r : Remap σ} {v : Value}

theorem mem_remapsBelow {fields : SortedMap Value lo} :
    r ∈ remapsBelow s fields ↔ ∃ name v inner, fields.get? name = some v ∧
      inner ∈ remapsAt (s.below? name) v ∧ inner.under name = r := by
  induction fields with
  | nil =>
    refine ⟨?_, ?_⟩
    · rintro ⟨⟩
    · rintro ⟨_, _, _, ⟨⟩, -⟩
  | cons name above v rest ih =>
    rw [remapsBelow, List.mem_append, List.mem_map, ih]
    constructor
    · rintro (⟨inner, h, hr⟩ | ⟨k, x, inner, hk, h, hr⟩)
      · exact ⟨name, v, inner, if_pos rfl, h, hr⟩
      · exact ⟨k, x, inner, SortedMap.get?_cons_of_get? hk, h, hr⟩
    · rintro ⟨k, x, inner, hk, h, hr⟩
      rw [SortedMap.get?_cons] at hk
      split at hk
      · next e =>
        obtain rfl := Option.some.inj hk
        rw [e] at h hr
        exact .inl ⟨inner, h, hr⟩
      · exact .inr ⟨k, x, inner, hk, h, hr⟩

/-- What is inside a container, and then, if it is a namespace, the namespace itself. -/
theorem mem_remapsAt_obj {fields : Fields Value} :
    r ∈ remapsAt (some s) (.obj fields) ↔
      containerKind? (some s) ≠ none ∧ r ∈ remapsBelow s fields ∨
        r.path = [] ∧ s = .ns r.rules r.specs ∧ r.rules.mapper.isSome ∧ fields = r.given := by
  obtain ⟨path, rules', specs', given⟩ := r
  cases s with
  | leaf rules =>
    refine ⟨?_, ?_⟩
    · rintro ⟨⟩
    · rintro (⟨hcontainer, -⟩ | ⟨-, ⟨⟩, -⟩)
      exact absurd rfl hcontainer
  | ns rules specs =>
    rw [remapsAt, List.mem_append]
    refine or_congr ⟨fun h => ⟨Option.some_ne_none _, h⟩, And.right⟩ ?_
    split
    · next hmapper =>
      rw [List.mem_singleton]
      constructor
      · rintro ⟨⟩
        exact ⟨rfl, rfl, hmapper, rfl⟩
      · rintro ⟨rfl, ⟨⟩, -, rfl⟩
        rfl
    · next hmapper =>
      refine ⟨?_, ?_⟩
      · rintro ⟨⟩
      · rintro ⟨-, ⟨⟩, hsome, -⟩
        exact absurd hsome hmapper
  | record starters entry =>
    rw [remapsAt]
    constructor
    · intro h
      exact .inl ⟨Option.some_ne_none _, h⟩
    · rintro (⟨-, h⟩ | ⟨-, ⟨⟩, -⟩)
      exact h

private theorem of_mem_remapsAt (h : r ∈ remapsAt spec v) :
    Leads spec r.path (some (.ns r.rules r.specs)) ∧ r.rules.mapper.isSome ∧
      v.at? r.path = some (.obj r.given) := by
  induction v generalizing spec r with
  | obj fields ih =>
    cases spec with
    | none => cases h
    | some s =>
      rw [mem_remapsAt_obj] at h
      obtain ⟨container, h⟩ | ⟨hpath, rfl, hmapper, rfl⟩ := h
      · obtain ⟨name, x, inner, hx, hinner, rfl⟩ := mem_remapsBelow.1 h
        obtain ⟨hleads, hmapper, hgiven⟩ := ih name x hx hinner
        refine ⟨leads_cons.2 ⟨container, hleads⟩, hmapper, ?_⟩
        show (Value.obj fields).at? (name :: inner.path) = _
        rw [Value.at?_cons, hx]
        exact hgiven
      · rw [hpath]
        exact ⟨.here, hmapper, rfl⟩
  | _ =>
    cases spec with
    | none => cases h
    | some s => cases s <;> cases h

/-- The mappers that a commit runs are those of the namespaces that paths into the input lead to,
where the input has an object. -/
theorem mem_remapsAt : r ∈ remapsAt spec v ↔
    Leads spec r.path (some (.ns r.rules r.specs)) ∧ r.rules.mapper.isSome ∧
      v.at? r.path = some (.obj r.given) := by
  refine ⟨of_mem_remapsAt, ?_⟩
  rintro ⟨hleads, hmapper, hgiven⟩
  obtain ⟨path, rules, specs, given⟩ := r
  dsimp only at hleads hmapper hgiven
  induction path generalizing spec v with
  | nil =>
    cases hleads
    obtain rfl := Option.some.inj hgiven
    exact mem_remapsAt_obj.2 (.inr ⟨rfl, rfl, hmapper, rfl⟩)
  | cons name path ih =>
    cases spec with
    | none => cases hleads
    | some s =>
      obtain ⟨container, hleads⟩ := leads_cons.1 hleads
      obtain ⟨fields, x, rfl, hx, hgiven⟩ := Value.at?_cons_eq_some.1 hgiven
      rw [mem_remapsAt_obj]
      exact .inl ⟨container, mem_remapsBelow.2 ⟨name, x, _, hx, ih hleads hgiven, rfl⟩⟩

end Members

/-- What is inside comes before what it is in, and otherwise the names decide. -/
inductive Precedes : List String → List String → Prop
  | inside {name : String} {path : List String} : Precedes (name :: path) []
  | name {a b : String} {p q : List String} (lt : a < b) : Precedes (a :: p) (b :: q)
  | cons {name : String} {p q : List String} (rest : Precedes p q) :
      Precedes (name :: p) (name :: q)

theorem Precedes.ne {p q : List String} (h : Precedes p q) : p ≠ q := by
  induction h with
  | inside => exact List.cons_ne_nil _ _
  | name lt => exact fun e => SortedMap.ne_of_lt lt (List.cons.inj e).1
  | cons _ ih => exact fun e => ih (List.cons.inj e).2

theorem remapsAt_sorted (spec : Option (Specifier σ)) (v : Value) :
    (remapsAt spec v).Pairwise fun a b => Precedes a.path b.path := by
  have hbelow {s : Specifier σ} {lo : Option String} {fields : SortedMap Value lo}
      (h : ∀ k x, fields.get? k = some x → ∀ spec,
        (remapsAt (σ := σ) spec x).Pairwise fun a b => Precedes a.path b.path) :
      (remapsBelow s fields).Pairwise fun a b => Precedes a.path b.path := by
    induction fields with
    | nil => exact .nil
    | cons name above x rest ih =>
      rw [remapsBelow, List.pairwise_append, List.pairwise_map]
      refine ⟨(h name x (if_pos rfl) _).imp .cons,
        ih fun k y hk => h k y (SortedMap.get?_cons_of_get? hk), fun a ha b hb => ?_⟩
      obtain ⟨a, -, rfl⟩ := List.mem_map.1 ha
      obtain ⟨k, y, b, hk, -, rfl⟩ := mem_remapsBelow.1 hb
      exact .name (SortedMap.above_of_get? hk)
  induction v generalizing spec with
  | obj fields ih =>
    have hinner (s : Specifier σ) := hbelow (s := s) fun k x hk spec => ih k x hk spec
    cases spec with
    | none => exact .nil
    | some s =>
      cases s with
      | leaf => exact .nil
      | ns rules specs =>
        rw [remapsAt, List.pairwise_append]
        refine ⟨hinner _, ?_, fun a ha b hb => ?_⟩
        · split
          · exact List.pairwise_singleton _ _
          · exact .nil
        · obtain ⟨name, x, a, -, -, rfl⟩ := mem_remapsBelow.1 ha
          split at hb
          · obtain rfl := List.mem_singleton.1 hb
            exact .inside
          · cases hb
      | record starters entry => exact hinner _
  | _ =>
    cases spec with
    | none => exact .nil
    | some s => cases s <;> exact .nil

/-! ## From what is inside to the container -/

section Composition

variable {s : Specifier σ} {place : Place} {pos : Position} {isEntry : Bool}
  {results results' : List String → Value}

/-- What a mapper inside a field is called with does not depend on where one starts to look. -/
theorem Remap.call_under (r : Remap σ) (results : List String → Value) (s : Specifier σ)
    (isEntry : Bool) (place : Place) (pos : Position) (before : Option Value) (name : String) :
    (r.under name).call results (some s) isEntry place pos before =
      r.call (fun path => results (name :: path)) (s.below? name) (s.kind = .record)
        (s.placeBelow place name) (pos.child name) ((objectOf before).get? name) := by
  have hdata := bind_at?_cons before name r.path
  have hcontext := contextAt_cons s isEntry pos name r.path
  unfold call merged
  rw [← hdata, ← hcontext]
  rfl

/-- What is inside depends on the results below the names that are given, and on the data there. -/
theorem mergedBelow_congr {fields : SortedMap Value lo} {before before' : Fields Value}
    (h : ∀ k v, fields.get? k = some v →
      (∀ path, results (k :: path) = results' (k :: path)) ∧ before.get? k = before'.get? k) :
    mergedBelow results s fields before = mergedBelow results' s fields before' := by
  induction fields with
  | nil => rfl
  | cons name above v rest ih =>
    obtain ⟨hresults, hbefore⟩ := h name v (if_pos rfl)
    rw [mergedBelow, mergedBelow, ih fun k x hk => h k x (SortedMap.get?_cons_of_get? hk),
      hbefore, funext hresults]

theorem map_call_congr {fields : SortedMap Value lo} {before before' : Option Value}
    (h : ∀ k v, fields.get? k = some v →
      (∀ path, results (k :: path) = results' (k :: path)) ∧
        (objectOf before).get? k = (objectOf before').get? k) :
    (remapsBelow s fields).map (Remap.call · results (some s) isEntry place pos before) =
      (remapsBelow s fields).map (Remap.call · results' (some s) isEntry place pos before') := by
  refine List.map_congr_left fun r hr => ?_
  obtain ⟨name, v, inner, hname, -, rfl⟩ := mem_remapsBelow.1 hr
  obtain ⟨hresults, hbefore⟩ := h name v hname
  rw [Remap.call_under, Remap.call_under, funext hresults, hbefore]

/-- Results for the paths through a name, beside those for the others. -/
def resultsAt (name : String) (inner outer : List String → Value) : List String → Value
  | [] => outer []
  | k :: path => if k = name then inner path else outer (k :: path)

/-- The result at the empty path, beside those for the others. -/
def resultsHere (r : Value) (outer : List String → Value) : List String → Value
  | [] => r
  | name :: path => outer (name :: path)

end Composition

/-! ## What a commit calls -/

/-- The calls of mappers that a commit of a value makes at a position, and the data that it leaves
there, are told by what the mappers return. -/
def Remapped (spec : Option (Specifier σ)) (isEntry : Bool) (place : Place) (pos : Position)
    (v : Value) (before : Option Value) (calls : List Call) (after : Value) : Prop :=
  ∃ results, calls = (remapsAt spec v).map (·.call results spec isEntry place pos before) ∧
    after = mergedAt results spec v before ∧
    ∀ r ∈ remapsAt spec v, (objectOrNull? (results r.path)).isSome

/-- The same for the fields of an object inside a container. -/
def RemappedBelow (s : Specifier σ) (isEntry : Bool) (place : Place) (pos : Position)
    {lo : Option String} (fields : SortedMap Value lo) (before : Fields Value)
    (calls : List Call) (after : Fields Value) : Prop :=
  ∃ results, calls = (remapsBelow s fields).map
      (·.call results (some s) isEntry place pos (some (.obj before))) ∧
    after = before.assign (mergedBelow results s fields before) ∧
    ∀ r ∈ remapsBelow s fields, (objectOrNull? (results r.path)).isSome

section Runs

variable {s : Specifier σ} {place : Place} {pos : Position} {isEntry : Bool}

theorem RemappedBelow.nil {before : Fields Value} :
    RemappedBelow s isEntry place pos (.nil : SortedMap Value lo) before [] before :=
  ⟨fun _ => .null, rfl, rfl, by rintro _ ⟨⟩⟩

/-- One name is committed and then the others. -/
theorem RemappedBelow.cons {name : String} {above : Above lo name} {v w : Value}
    {rest : SortedMap Value (some name)} {before after : Fields Value} {cs ds : List Call}
    (hname : Remapped (s.below? name) (s.kind = .record) (s.placeBelow place name)
      (pos.child name) v (before.get? name) cs w)
    (hrest : RemappedBelow s isEntry place pos rest (before.insert name w) ds after) :
    RemappedBelow s isEntry place pos (.cons name above v rest) before (cs ++ ds) after := by
  obtain ⟨inner, rfl, rfl, hinner⟩ := hname
  obtain ⟨outer, rfl, rfl, houter⟩ := hrest
  have hhere (path : List String) : resultsAt name inner outer (name :: path) = inner path :=
    if_pos rfl
  -- The rest has other names, so neither the results nor the data at this one concern it.
  have hothers (k : String) (x : Value) (hk : rest.get? k = some x) :
      (∀ path, outer (k :: path) = resultsAt name inner outer (k :: path)) ∧
        (before.insert name (mergedAt inner (s.below? name) v (before.get? name))).get? k =
          before.get? k := by
    have hne := SortedMap.ne_of_get? hk
    exact ⟨fun path => (if_neg hne).symm, SortedMap.get?_insert_of_ne hne⟩
  refine ⟨resultsAt name inner outer, ?_, ?_, fun r hr => ?_⟩
  · rw [remapsBelow, List.map_append, List.map_map]
    congr 1
    · refine List.map_congr_left fun r _ => ?_
      rw [Function.comp_apply, Remap.call_under, funext hhere]
      rfl
    · exact map_call_congr hothers
  · rw [mergedBelow, mergedBelow_congr hothers, funext hhere]
    rfl
  · rw [remapsBelow, List.mem_append] at hr
    obtain hr | hr := hr
    · obtain ⟨q, hq, rfl⟩ := List.mem_map.1 hr
      show (objectOrNull? (resultsAt name inner outer (name :: q.path))).isSome
      rw [hhere]
      exact hinner q hq
    · have hsome := houter r hr
      obtain ⟨k, x, r, hk, -, rfl⟩ := mem_remapsBelow.1 hr
      show (objectOrNull? (resultsAt name inner outer (k :: r.path))).isSome
      rw [← (hothers k x hk).1]
      exact hsome

/-- A namespace whose fields are committed runs its mapper, if it has one. -/
theorem RemappedBelow.ns {rules : NamespaceRules σ} {specs : Fields (Specifier σ)}
    {fields mid mapped : Fields Value} {before : Option Value} {cs ds : List Call}
    (hpos : pos.key = none)
    (hfields : RemappedBelow (.ns rules specs) isEntry place pos fields (objectOf before) cs mid)
    (hmaps : rules.Maps place mid (if isEntry then pos.asEntry else pos) ds mapped) :
    Remapped (some (.ns rules specs)) isEntry place pos (.obj fields) before (cs ++ ds)
      (.obj (mid.assign mapped)) := by
  obtain ⟨outer, rfl, rfl, houter⟩ := hfields
  cases hmaps with
  | absent rule =>
    have hnone : ¬ rules.mapper.isSome := by
      rw [rule]
      exact Bool.false_ne_true
    have hremaps : remapsAt (some (.ns rules specs)) (.obj fields) =
        remapsBelow (.ns rules specs) fields := by
      rw [remapsAt, if_neg hnone, List.append_nil]
    refine ⟨outer, ?_, ?_, hremaps ▸ houter⟩
    · rw [hremaps, List.append_nil]
      exact map_call_congr fun _ _ _ => ⟨fun _ => rfl, rfl⟩
    · rw [mergedAt, NamespaceRules.remapped, if_neg hnone]
      rfl
  | @called r _ rule object =>
    have hmerged : mergedBelow outer (.ns rules specs) fields (objectOf before) =
        mergedBelow (resultsHere r outer) (.ns rules specs) fields (objectOf before) :=
      mergedBelow_congr fun _ _ _ => ⟨fun _ => rfl, rfl⟩
    refine ⟨resultsHere r outer, ?_, ?_, fun q hq => ?_⟩
    · rw [remapsAt, if_pos rule, List.map_append, List.map_singleton]
      congr 1
      · exact map_call_congr fun _ _ _ => ⟨fun _ => rfl, rfl⟩
      · rw [hmerged, Remap.call, Remap.merged_here, contextAt_nil hpos]
        rfl
    · rw [mergedAt, NamespaceRules.remapped, if_pos rule, ← hmerged]
      show _ = Value.obj (SortedMap.assign _ ((objectOrNull? r).getD ∅))
      rw [object]
      rfl
    · rw [remapsAt, if_pos rule, List.mem_append] at hq
      obtain hq | hq := hq
      · have hsome := houter q hq
        obtain ⟨name, x, q, -, -, rfl⟩ := mem_remapsBelow.1 hq
        exact hsome
      · obtain rfl := List.mem_singleton.1 hq
        show (objectOrNull? r).isSome
        rw [object]
        rfl

theorem RemappedBelow.record {starters : Option (CallM σ Value)} {entry : Specifier σ}
    {entries after : Fields Value} {before : Option Value} {calls : List Call}
    (hentries : RemappedBelow (.record starters entry) isEntry place pos entries (objectOf before)
      calls after) :
    Remapped (some (.record starters entry)) isEntry place pos (.obj entries) before calls
      (.obj after) := by
  obtain ⟨results, rfl, rfl, hresults⟩ := hentries
  exact ⟨results, map_call_congr fun _ _ _ => ⟨fun _ => rfl, rfl⟩, rfl, hresults⟩

/-- A value that is no object, or that stands where no container is declared, runs no mapper. -/
theorem Remapped.value {spec : Option (Specifier σ)} {v : Value} {before : Option Value}
    (closed : containerKind? spec = none ∨ v.isObject = false) :
    Remapped spec isEntry place pos v before [] v := by
  obtain ⟨hremaps, hmerged⟩ := remapped_closed closed
  refine ⟨fun _ => .null, ?_, (hmerged _ _).symm, ?_⟩
  · rw [hremaps]
    rfl
  · rw [hremaps]
    rintro _ ⟨⟩

end Runs

/-! ## Recorded commits -/

section Recorded

variable {s : Specifier σ} {place : Place} {pos : Position} {rules : NamespaceRules σ}
  {specs : Fields (Specifier σ)}

/-- A recorded commit of the value to the cell of a key calls the mappers that the value has objects
for. -/
def CommitRemaps (σ : Type) (v : Value) : Prop :=
  ∀ (spec : Option (Specifier σ)) (provenance : Provenance) (place : Place) (key : String)
    (pos : Position), pos.key = none → ∀ cell : Cell,
    ((commit (spec.map (·.translate (recorder σ) place)) provenance v key pos).on cell).Calls
      Call.isMapper fun calls p => ∃ w,
        Remapped spec false place pos v (cell.data.get? key) calls w ∧
          p.2.data = cell.data.insert key w

/-- A loop over the fields of an object calls what its steps call. -/
theorem sweepEdit_remaps {step : String → Value → Edit (List Call × σ) Level Unit}
    {fields : SortedMap Value lo}
    (h : ∀ k v, fields.get? k = some v → ∀ level : Level,
      ((step k v).on level).Calls Call.isMapper fun calls p => ∃ w,
        Remapped (s.below? k) (s.kind = .record) (s.placeBelow place k) (pos.child k) v
            (level.data.get? k) calls w ∧ p.2.data = level.data.insert k w)
    (isEntry : Bool) (level : Level) :
    ((sweepEdit step fields).on level).Calls Call.isMapper fun calls p =>
      RemappedBelow s isEntry place pos fields level.data calls p.2.data := by
  induction fields generalizing level with
  | nil => exact .pure .nil
  | cons name above v rest ih =>
    rw [sweepEdit, Run.on_bind]
    refine (h name v (if_pos rfl) level).bind fun cs p _ hstep => ?_
    obtain ⟨w, hremapped, hdata⟩ := hstep
    refine (ih (fun k x hk => h k x (SortedMap.get?_cons_of_get? hk)) p.2).imp
      fun ds q _ hrest => ?_
    rw [hdata] at hrest
    exact RemappedBelow.cons hremapped hrest

/-- The fields of a namespace are committed and its mapper is run again. -/
theorem commitNamespace_remaps {fields : Fields Value}
    (h : ∀ k v, fields.get? k = some v → CommitRemaps σ v) (hpos : pos.key = none)
    (provenance : Provenance) (isEntry : Bool) {level : Level} {before : Option Value}
    (hbefore : level.data = objectOf before) :
    ((do
      commitFields (translateFields (recorder σ) specs place) provenance fields pos
      (rules.recorded place).remap pos isEntry : Edit (List Call × σ) Level Unit).on level).Calls
      Call.isMapper fun calls p =>
        Remapped (some (.ns rules specs)) isEntry place pos (.obj fields) before calls
          (.obj p.2.data) := by
  have hfields : ((commitFields (translateFields (recorder σ) specs place) provenance fields
      pos).on level).Calls Call.isMapper fun calls p =>
        RemappedBelow (.ns rules specs) isEntry place pos fields level.data calls p.2.data := by
    rw [commitFields_eq_sweepEdit]
    refine sweepEdit_remaps (fun k v hv level => ?_) isEntry level
    unfold Level.onCell
    rw [get?_translateFields, Run.on_zoom]
    exact (h k v hv (specs.get? k) provenance (place.field k) k (pos.child k) rfl _).map
      fun _ _ _ hcalls => hcalls
  rw [Run.on_bind]
  refine hfields.bind fun cs p _ hcs => ?_
  rw [on_remap]
  rw [hbefore] at hcs
  exact (rules.runMapper_calls place p.2.data pos isEntry).map fun ds mapped _ hmaps =>
    hcs.ns hpos hmaps.1

/-- A commit without a container to go into writes the value and calls no mapper. -/
theorem putLeaf_remaps {spec : Option (Specifier σ)} {v : Value}
    (closed : containerKind? spec = none ∨ v.isObject = false) (key : String)
    (provenance : Provenance) (cell : Cell) :
    ((Run.update fun p => (p.1.putLeaf key provenance v, p.2) :
      Edit (List Call × σ) Cell Unit).on cell).Calls Call.isMapper fun calls p => ∃ w,
        Remapped spec false place pos v (cell.data.get? key) calls w ∧
          p.2.data = cell.data.insert key w := by
  rw [Run.on_update (Cell.putLeaf · key provenance v)]
  exact .pure ⟨v, .value closed, rfl⟩

/-- A record whose entries are no namespaces takes nothing in. -/
private theorem refuse_calls (key : String) (e : SettingsError) (cell : Cell)
    {P : List Call → Unit × Cell → Prop} :
    ((do
      Run.update fun p => (p.1.ensureRecord key, p.2)
      Run.fail e : Edit (List Call × σ) Cell Unit).on cell).Calls Call.isMapper P := by
  rw [Run.on_bind, Run.on_update (Cell.ensureRecord · key), pure_bind]
  exact .fail

private theorem commitEntries_remaps {starters : Option (CallM σ Value)} {entries : Fields Value}
    (h : ∀ k fields, entries.get? k = some (.obj fields) →
      ∀ j w, fields.get? j = some w → CommitRemaps σ w)
    (provenance : Provenance) (whole : Value) (isEntry : Bool) (level : Level) :
    ((commitEntries ⟨rules.recorded place.entry, translateFields (recorder σ) specs place.entry⟩
      provenance whole entries pos).on level).Calls Call.isMapper fun calls p =>
        RemappedBelow (.record starters (.ns rules specs)) isEntry place pos entries level.data
          calls p.2.data := by
  rw [commitEntries_eq_sweepEdit]
  refine sweepEdit_remaps (fun k v hv level => ?_) isEntry level
  cases v with
  | obj fields =>
    dsimp only
    rw [Level.onEntry, Run.on_zoom]
    exact (commitNamespace_remaps (h k fields hv) rfl provenance true rfl).map
      fun calls p _ hcalls => ⟨_, hcalls, rfl⟩
  | _ => exact .fail

private theorem commitRemaps_and_fields (v : Value) : CommitRemaps σ v ∧
    ∀ fields, v = .obj fields → ∀ k w, fields.get? k = some w → CommitRemaps σ w := by
  -- By induction on the value. An entry of a record is committed field by field without a cell of
  -- its own, so the fields of an object are carried along.
  induction v with
  | obj fields ih =>
    have hfields (k : String) (w : Value) (hk : fields.get? k = some w) := (ih k w hk).1
    refine ⟨?_, fun _ e => Value.obj.inj e ▸ hfields⟩
    intro spec provenance place key pos hpos cell
    cases spec with
    | none => exact putLeaf_remaps (.inl rfl) key provenance cell
    | some s =>
      rw [Option.map_some]
      cases s with
      | leaf rules =>
        rw [Specifier.translate]
        exact putLeaf_remaps (.inl rfl) key provenance cell
      | ns rules specs =>
        rw [Specifier.translate, commit, Cell.onNamespace, Run.on_zoom]
        exact (commitNamespace_remaps hfields hpos provenance false rfl).map
          fun calls p _ hcalls => ⟨_, hcalls, rfl⟩
      | record starters entry =>
        cases entry with
        | ns rules specs =>
          rw [Specifier.translate, Specifier.translate, commit, Cell.onRecord, Run.on_zoom]
          have hentries (k : String) (inner : Fields Value)
              (hk : fields.get? k = some (.obj inner)) := (ih k _ hk).2 inner rfl
          exact (commitEntries_remaps hentries provenance _ false _).map
            fun calls p _ hcalls => ⟨_, RemappedBelow.record hcalls, rfl⟩
        | _ =>
          rw [Specifier.translate, Specifier.translate]
          exact refuse_calls key _ cell
  | _ =>
    refine ⟨?_, by rintro _ ⟨⟩⟩
    intro spec provenance place key pos hpos cell
    rw [commit.eq_def]
    cases spec with
    | none => exact putLeaf_remaps (.inl rfl) key provenance cell
    | some s =>
      rw [Option.map_some]
      cases s <;> rw [Specifier.translate] <;>
        exact putLeaf_remaps (.inr rfl) key provenance cell

end Recorded

namespace Namespace

/-- The calls of mappers that a commit makes, in order. -/
def mapperCalls (n : Namespace σ) (provenance : Provenance) (input : Fields Value) (pos : Position)
    (isEntry : Bool) (level : Level) (s : σ) : List Call :=
  ((n.translate (recorder σ)).commit provenance input pos isEntry (level, [], s)).2.2.1.filter
    Call.isMapper

variable (n : Namespace σ) (provenance : Provenance) (input : Fields Value) {pos : Position}
  (isEntry : Bool) (level : Level) (s : σ)

/-- A successful commit calls the mapper of each namespace that the input has an object for, once,
the inner ones before the outer ones and those beside each other by their names. A mapper is given
the data of its namespace with the input merged into it and the results from below assigned, at the
path of the namespace and with the name of the entry, if it is one. -/
theorem commit_remaps {level' : Level} {s' : σ} (hpos : pos.key = none)
    (hcommit : n.commit provenance input pos isEntry (level, s) = (.ok (), (level', s'))) :
    ∃ (remaps : List (Remap σ)) (results : List String → Value),
      (∀ r, r ∈ remaps ↔ Leads (some n.toSpecifier) r.path (some (.ns r.rules r.specs)) ∧
        r.rules.mapper.isSome ∧ (Value.obj input).at? r.path = some (.obj r.given)) ∧
      (remaps.map Remap.path).Nodup ∧ (remaps.map Remap.path).Pairwise Precedes ∧
      n.mapperCalls provenance input pos isEntry level s = remaps.map
        (·.call results (some n.toSpecifier) isEntry [] pos (some (.obj level.data))) ∧
      (∀ r ∈ remaps, (objectOrNull? (results r.path)).isSome) ∧
      Value.obj level'.data =
        mergedAt results (some n.toSpecifier) (.obj input) (some (.obj level.data)) := by
  have hcalls : (((n.translate (recorder σ)).commit provenance input pos isEntry).on level).Calls
      Call.isMapper fun calls p => Remapped (some n.toSpecifier) isEntry [] pos (.obj input)
        (some (.obj level.data)) calls (.obj p.2.data) :=
    commitNamespace_remaps (fun k v _ => (commitRemaps_and_fields v).1) hpos provenance isEntry rfl
  have hkeeps := commit_keeps (n.toSpecifier.recorder_agree []) provenance input pos isEntry
  rw [translate_id] at hkeeps
  have hended : (n.commit provenance input pos isEntry).on level s = (.ok ((), level'), s') := by
    unfold Run.on
    rw [hcommit]
  obtain ⟨_, rfl, hremapped⟩ := hcalls.of_recorded (hkeeps.same level) hended
  rw [Run.on_snd] at hremapped
  obtain ⟨results, hmapped, hdata, hobjects⟩ := hremapped
  refine ⟨_, results, fun r => mem_remapsAt, ?_, ?_, hmapped, hobjects, hdata⟩
  · exact (List.pairwise_map.2 (remapsAt_sorted _ _)).imp Precedes.ne
  · exact List.pairwise_map.2 (remapsAt_sorted _ _)

end Namespace

namespace Labels

/-- People with badges, the first of which is shown for all. -/
def roster : Namespace Unit :=
  ⟨⟨none, none, some fun v _ => pure (.obj (.ofList
      [("shown", (v.at? ["people", "x", "badge"]).getD .null)]))⟩, badges.fields⟩

def filled : Level :=
  (roster.commit .change (objectOf (some forged)) .root false (bare.level, ())).2.1

end Labels

/-- The entry's mapper runs first, with the name of the entry, and the root's sees what it gave. -/
theorem Namespace.commit_remaps_roster :
    (Labels.roster.mapperCalls .change (objectOf (some Labels.forged)) .root false
        Labels.bare.level ()).map Call.context? =
      [some ⟨["__root__", "people", "x"], some "x"⟩, some ⟨["__root__"], none⟩] ∧
    (Value.obj Labels.filled.data).at? ["shown"] = some (.arr [.str "x", .str "lead"]) ∧
    ∃ (remaps : List (Remap Unit)) (results : List String → Value),
      Labels.roster.mapperCalls .change (objectOf (some Labels.forged)) .root false
          Labels.bare.level () = remaps.map (·.call results (some Labels.roster.toSpecifier) false
            [] .root (some (.obj Labels.bare.level.data))) ∧
      Value.obj Labels.filled.data = mergedAt results (some Labels.roster.toSpecifier)
        Labels.forged (some (.obj Labels.bare.level.data)) := by
  obtain ⟨remaps, results, -, -, -, hcalls, -, hdata⟩ :=
    Labels.roster.commit_remaps .change (objectOf (some Labels.forged)) false Labels.bare.level ()
      rfl (rfl : Labels.roster.commit _ _ .root _ _ = (_, (Labels.filled, _)))
  exact ⟨rfl, rfl, remaps, results, hcalls, hdata⟩

end Settings
