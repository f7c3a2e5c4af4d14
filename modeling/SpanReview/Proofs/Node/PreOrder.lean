import SpanReview.Node.Walk

namespace SpanReview

/-! The walk keeps a list of the nodes still to visit. What it visits is what the recursion over
the tree visits: a node, and then its children, each with all that is below it, up to the first
failure. -/

theorem NodeKind.ofName?_eq_some_iff {name : String} {kind : NodeKind} :
    ofName? name = some kind ↔ kind.name = name := by
  constructor
  · intro h
    have hname := List.find?_some h
    exact beq_iff_eq.mp hname
  · rintro rfl
    cases kind <;> decide

namespace Walk

variable {file : String} {value : Json} {kind : NodeKind}

/-- The kind that the type of a value names. -/
inductive HasKind (value : Json) : NodeKind → Prop
  | absent (h : value.get? "type" = none) : HasKind value .attr
  | null (h : value.get? "type" = some .null) : HasKind value .attr
  | named {kind : NodeKind} (h : value.get? "type" = some (.string kind.name)) :
      HasKind value kind

/-- A type that names no kind, with the text that stands for it in the error. -/
inductive HasUnknownType (value : Json) : String → Prop
  | name {name : String} (h : value.get? "type" = some (.string name))
      (hunknown : ∀ kind : NodeKind, kind.name ≠ name) : HasUnknownType value name
  | other {type : Json} (h : value.get? "type" = some type) (hnull : type ≠ .null)
      (hstring : ∀ name, type ≠ .string name) : HasUnknownType value type.compact

/-- What stands in a child field; null and false are nothing. -/
def child? (value : Json) (field : ChildField) : Option Json :=
  match value.get? field.name with
  | some .null => none
  | some (.bool false) => none
  | found => found

/-- Something other than an array in a field of many children. -/
def misshapen? (value : Json) (field : ChildField) : Option Json :=
  match field.arity, child? value field with
  | .many, some (.array _) => none
  | .many, found => found
  | .one, _ => none

def nodesIn (value : Json) (field : ChildField) : List Json :=
  match field.arity, child? value field with
  | _, none => []
  | .many, some (.array items) => items
  | _, some sub => [sub]

mutual

/-- The walk over one value: what is visited, and the failure that ended it. -/
inductive PreOrder (file : String) : Json → Trace → Prop
  | unknownType {value : Json} {name : String} (h : HasUnknownType value name) :
      PreOrder file value ⟨[], some (.unknownType name)⟩
  | misshapen {value sub : Json} {kind : NodeKind} (hkind : HasKind value kind)
      (h : kind.children.findSome? (misshapen? value) = some sub) :
      PreOrder file value ⟨[(kind, value)], some (.notChildren file sub.noun)⟩
  | node {value : Json} {kind : NodeKind} {below : Trace} (hkind : HasKind value kind)
      (h : kind.children.findSome? (misshapen? value) = none)
      (hbelow : InOrder file (kind.children.flatMap (nodesIn value)) below) :
      PreOrder file value ⟨(kind, value) :: below.visited, below.error⟩

/-- The walks over some values, one after another. -/
inductive InOrder (file : String) : List Json → Trace → Prop
  | nil : InOrder file [] ⟨[], none⟩
  | stop {value : Json} {rest : List Json} {visited : List (NodeKind × Json)} {e : NodeError}
      (h : PreOrder file value ⟨visited, some e⟩) : InOrder file (value :: rest) ⟨visited, some e⟩
  | next {value : Json} {rest : List Json} {visited : List (NodeKind × Json)} {later : Trace}
      (h : PreOrder file value ⟨visited, none⟩) (hrest : InOrder file rest later) :
      InOrder file (value :: rest) ⟨visited ++ later.visited, later.error⟩

end

/-! The kind and the children, as the walk finds them. -/

theorem HasKind.kindOf (h : HasKind value kind) : kindOf value = .ok kind := by
  cases h with
  | absent h => rw [Walk.kindOf, h]
  | null h => rw [Walk.kindOf, h]
  | named h =>
      have hname : NodeKind.ofName? kind.name = some kind := NodeKind.ofName?_eq_some_iff.mpr rfl
      simp only [Walk.kindOf, h, hname]

theorem HasUnknownType.kindOf {name : String} (h : HasUnknownType value name) :
    kindOf value = .error (.unknownType name) := by
  cases h with
  | name h hunknown =>
      have hname : NodeKind.ofName? name = none :=
        Option.eq_none_iff_forall_ne_some.mpr fun kind hkind =>
          hunknown kind (NodeKind.ofName?_eq_some_iff.mp hkind)
      simp only [Walk.kindOf, h, hname]
  | @other type h hnull hstring =>
      cases type with
      | null => contradiction
      | string name => exact absurd rfl (hstring name)
      | _ => simp only [Walk.kindOf, h]

theorem hasKind_or_hasUnknownType (value : Json) :
    (∃ kind, HasKind value kind) ∨ ∃ name, HasUnknownType value name := by
  cases htype : value.get? "type" with
  | none => exact .inl ⟨_, .absent htype⟩
  | some type =>
      cases type with
      | null => exact .inl ⟨_, .null htype⟩
      | string name =>
          by_cases hname : ∃ kind : NodeKind, kind.name = name
          · obtain ⟨kind, rfl⟩ := hname
            exact .inl ⟨kind, .named htype⟩
          · exact .inr ⟨name, .name htype (not_exists.mp hname)⟩
      | _ => exact .inr ⟨_, .other htype nofun nofun⟩

theorem fieldNodes_eq (file : String) {field : ChildField} {sub : Json}
    (h : value.get? field.name = some sub) :
    fieldNodes file field.arity sub =
      match misshapen? value field with
      | some bad => .error (.notChildren file bad.noun)
      | none => .ok (nodesIn value field) := by
  simp only [misshapen?, nodesIn, child?, h]
  cases sub with
  | bool truth => cases truth <;> cases field.arity <;> rfl
  | _ => cases field.arity <;> rfl

theorem misshapen?_of_absent {field : ChildField} (h : value.get? field.name = none) :
    misshapen? value field = none := by
  simp only [misshapen?, child?, h]
  cases field.arity <;> rfl

theorem nodesIn_of_absent {field : ChildField} (h : value.get? field.name = none) :
    nodesIn value field = [] := by
  simp only [nodesIn, child?, h]

theorem childrenIn_eq (file : String) (value : Json) (fields : List ChildField) :
    childrenIn file value fields =
      match fields.findSome? (misshapen? value) with
      | some sub => .error (.notChildren file sub.noun)
      | none => .ok (fields.flatMap (nodesIn value)) := by
  induction fields with
  | nil => rfl
  | cons field rest ih =>
      rw [childrenIn, ih, List.findSome?_cons, List.flatMap_cons]
      cases hsub : value.get? field.name with
      | none => rw [misshapen?_of_absent hsub, nodesIn_of_absent hsub, List.nil_append]
      | some sub =>
          simp only [fieldNodes_eq file hsub]
          cases misshapen? value field with
          | some bad => rfl
          | none => cases rest.findSome? (misshapen? value) <;> rfl

theorem childrenOf_of_misshapen {sub : Json}
    (h : kind.children.findSome? (misshapen? value) = some sub) :
    childrenOf file kind value = .error (.notChildren file sub.noun) := by
  rw [childrenOf, childrenIn_eq, h]

theorem childrenOf_of_shaped (h : kind.children.findSome? (misshapen? value) = none) :
    childrenOf file kind value = .ok (kind.children.flatMap (nodesIn value)) := by
  rw [childrenOf, childrenIn_eq, h]

theorem shaped_of_childrenOf {children : List Json}
    (h : childrenOf file kind value = .ok children) :
    kind.children.findSome? (misshapen? value) = none ∧
      children = kind.children.flatMap (nodesIn value) := by
  cases hshaped : kind.children.findSome? (misshapen? value) with
  | some sub => cases h.symm.trans (childrenOf_of_misshapen hshaped)
  | none =>
      cases h.symm.trans (childrenOf_of_shaped hshaped)
      exact ⟨rfl, rfl⟩

/-! What the work list holds is walked one value after another. -/

theorem walkAll_of_unknownType {e : NodeError} (h : kindOf value = .error e) (rest : List Json) :
    walkAll file (value :: rest) = ⟨[], some e⟩ := by
  rw [walkAll, h]

theorem walkAll_of_childrenOf_error {e : NodeError} (hkind : kindOf value = .ok kind)
    (h : childrenOf file kind value = .error e) (rest : List Json) :
    walkAll file (value :: rest) = ⟨[(kind, value)], some e⟩ := by
  rw [walkAll, hkind]
  dsimp only
  split
  · rename_i hother
    cases h.symm.trans hother
    rfl
  · rename_i hother
    cases h.symm.trans hother

theorem walkAll_of_childrenOf_ok {children : List Json} (hkind : kindOf value = .ok kind)
    (h : childrenOf file kind value = .ok children) (rest : List Json) :
    walkAll file (value :: rest) = (walkAll file (children ++ rest)).cons kind value := by
  rw [walkAll, hkind]
  dsimp only
  split
  · rename_i hother
    cases h.symm.trans hother
  · rename_i hother
    cases h.symm.trans hother
    rfl

/-- The second walk after the first, unless the first failed. -/
def Trace.andThen (first second : Trace) : Trace :=
  match first.error with
  | some _ => first
  | none => ⟨first.visited ++ second.visited, second.error⟩

theorem Trace.cons_andThen (kind : NodeKind) (value : Json) (first second : Trace) :
    (first.cons kind value).andThen second = (first.andThen second).cons kind value := by
  obtain ⟨visited, _ | e⟩ := first <;> rfl

theorem Trace.nil_andThen (second : Trace) : Trace.andThen ⟨[], none⟩ second = second := rfl

theorem walkAll_append (file : String) (first second : List Json) :
    walkAll file (first ++ second) = (walkAll file first).andThen (walkAll file second) := by
  induction first using walkAll.induct file with
  | case1 => rw [List.nil_append, walkAll, Trace.nil_andThen]
  | case2 value pending e hkind =>
      rw [List.cons_append, walkAll_of_unknownType hkind, walkAll_of_unknownType hkind]
      rfl
  | case3 value pending kind hkind e h =>
      rw [List.cons_append, walkAll_of_childrenOf_error hkind h,
        walkAll_of_childrenOf_error hkind h]
      rfl
  | case4 value pending kind hkind children h _ ih =>
      -- The children go before what is pending, on both sides.
      rw [List.cons_append, walkAll_of_childrenOf_ok hkind h, walkAll_of_childrenOf_ok hkind h,
        ← List.append_assoc, ih, Trace.cons_andThen]

theorem walkAll_cons (file : String) (value : Json) (rest : List Json) :
    walkAll file (value :: rest) = (walk value file).andThen (walkAll file rest) :=
  walkAll_append file [value] rest

theorem walk_of_unknownType {name : String} (h : HasUnknownType value name) :
    walk value file = ⟨[], some (.unknownType name)⟩ :=
  walkAll_of_unknownType h.kindOf []

theorem walk_of_misshapen {sub : Json} (hkind : HasKind value kind)
    (h : kind.children.findSome? (misshapen? value) = some sub) :
    walk value file = ⟨[(kind, value)], some (.notChildren file sub.noun)⟩ :=
  walkAll_of_childrenOf_error hkind.kindOf (childrenOf_of_misshapen h) []

theorem walk_of_shaped (hkind : HasKind value kind)
    (h : kind.children.findSome? (misshapen? value) = none) :
    walk value file = (walkAll file (kind.children.flatMap (nodesIn value))).cons kind value := by
  rw [walk, walkAll_of_childrenOf_ok hkind.kindOf (childrenOf_of_shaped h), List.append_nil]

theorem sizeItems_nodesIn (h : kind.children.findSome? (misshapen? value) = none) :
    Json.sizeItems (kind.children.flatMap (nodesIn value)) < value.size :=
  @sizeItems_childrenOf "" kind value _ (childrenOf_of_shaped h)

theorem preOrder_of_below
    (hbelow : ∀ values, Json.sizeItems values < value.size →
      InOrder file values (walkAll file values)) :
    PreOrder file value (walk value file) := by
  rcases hasKind_or_hasUnknownType value with ⟨kind, hkind⟩ | ⟨name, hname⟩
  · cases h : kind.children.findSome? (misshapen? value) with
    | some sub =>
        rw [walk_of_misshapen hkind h]
        exact .misshapen hkind h
    | none =>
        rw [walk_of_shaped hkind h]
        exact .node hkind h (hbelow _ (sizeItems_nodesIn h))
  · rw [walk_of_unknownType hname]
    exact .unknownType hname

theorem inOrder_walkAll (file : String) (values : List Json) :
    InOrder file values (walkAll file values) := by
  -- The children of the first value and the values after it are smaller than the whole list.
  induction hsize : Json.sizeItems values using Nat.strongRecOn generalizing values with
  | ind size ih =>
      cases values with
      | nil =>
          rw [walkAll]
          exact .nil
      | cons value rest =>
          have hpos := Json.size_pos value
          rw [Json.sizeItems] at hsize
          have hfirst : PreOrder file value (walk value file) :=
            preOrder_of_below fun values hlt => ih _ (by omega) values rfl
          have hrest : InOrder file rest (walkAll file rest) := ih _ (by omega) rest rfl
          rw [walkAll_cons]
          generalize walk value file = first at hfirst
          obtain ⟨visited, _ | e⟩ := first
          · exact .next hfirst hrest
          · exact .stop hfirst

mutual

theorem PreOrder.walk_eq : ∀ {value : Json} {trace : Trace}, PreOrder file value trace →
    walk value file = trace
  | _, _, .unknownType h => walk_of_unknownType h
  | _, _, .misshapen hkind h => walk_of_misshapen hkind h
  | _, _, .node hkind h hbelow => by
      have hchildren := hbelow.walkAll_eq
      rw [walk_of_shaped hkind h, hchildren]
      rfl

theorem InOrder.walkAll_eq : ∀ {values : List Json} {trace : Trace}, InOrder file values trace →
    walkAll file values = trace
  | _, _, .nil => by rw [walkAll]
  | _, _, .stop h => by
      have hfirst := h.walk_eq
      rw [walkAll_cons, hfirst]
      rfl
  | _, _, .next h hrest => by
      have hfirst := h.walk_eq
      have hlater := hrest.walkAll_eq
      rw [walkAll_cons, hfirst, hlater]
      rfl

end

theorem walk_eq_iff {trace : Trace} : walk value file = trace ↔ PreOrder file value trace := by
  constructor
  · rintro rfl
    exact preOrder_of_below fun values _ => inOrder_walkAll file values
  · exact PreOrder.walk_eq

/-- The walk over any value, the failing ones too: it is the recursion over the tree, and has one
node for each value that is visited, in the same order. -/
theorem walk_preOrder (root : Json) (file : String) :
    (∀ trace, walk root file = trace ↔ PreOrder file root trace) ∧
      ∀ defaults : LocationDefaults,
        (∀ nodes, defaults.nodesOfTree root file = .ok nodes ↔
          ∃ visited, PreOrder file root ⟨visited, none⟩ ∧
            nodes = visited.map fun visit => defaults.nodeOf file visit.2) ∧
        ∀ e, defaults.nodesOfTree root file = .error e ↔
          ∃ visited, PreOrder file root ⟨visited, some e⟩ := by
  refine ⟨fun trace => walk_eq_iff, fun defaults => ?_⟩
  simp only [← walk_eq_iff, LocationDefaults.nodesOfTree]
  obtain ⟨visited, _ | e⟩ := walk root file
  · simp [eq_comm]
  · simp

/-! Nothing in a child field is passed over, except what stands in an array where one node is
expected: the array is then the node, and has no type and no fields. -/

/-- The value of a child field, or an item of it. -/
inductive Stands (value : Json) (field : ChildField) : Json → Prop
  | whole {sub : Json} (h : value.get? field.name = some sub) : Stands value field sub
  | item {items : List Json} {item : Json} (h : value.get? field.name = some (.array items))
      (hmem : item ∈ items) : Stands value field item

theorem mem_nodesIn_of_stands {field : ChildField} {members : List (String × Json)}
    (h : Stands value field (.object members)) (hshaped : misshapen? value field = none)
    (hone : field.arity = .many ∨ value.get? field.name = some (.object members)) :
    .object members ∈ nodesIn value field := by
  cases h with
  | whole h =>
      simp only [misshapen?, nodesIn, child?, h] at hshaped ⊢
      cases harity : field.arity with
      | one => exact List.mem_singleton_self _
      | many =>
          rw [harity] at hshaped
          contradiction
  | item h hmem =>
      rcases hone with hmany | hwhole
      · simpa only [nodesIn, child?, h, hmany] using hmem
      · cases h.symm.trans hwhole

theorem nodesIn_of_array_for_one {field : ChildField} {items : List Json}
    (hone : field.arity = .one) (h : value.get? field.name = some (.array items)) :
    nodesIn value field = [.array items] := by
  simp only [nodesIn, child?, h, hone]

theorem walk_of_leaf (hkind : HasKind value kind)
    (h : kind.children.findSome? (misshapen? value) = none)
    (hleaf : kind.children.flatMap (nodesIn value) = []) :
    walk value file = ⟨[(kind, value)], none⟩ := by
  rw [walk_of_shaped hkind h, hleaf, walkAll, Trace.cons]

theorem walk_array (items : List Json) (file : String) :
    walk (.array items) file = ⟨[(.attr, .array items)], none⟩ :=
  walk_of_leaf (.absent rfl) rfl rfl

theorem walk_of_no_error (h : (walk value file).error = none) :
    ∃ kind below, HasKind value kind ∧ (walk value file).visited = (kind, value) :: below := by
  generalize hwalk : walk value file = trace at h ⊢
  cases walk_eq_iff.mp hwalk with
  | unknownType _ => contradiction
  | misshapen _ _ => contradiction
  | node hkind _ _ => exact ⟨_, _, hkind, rfl⟩

theorem Trace.andThen_of_no_error {first second : Trace}
    (h : (first.andThen second).error = none) :
    first.error = none ∧ second.error = none ∧
      (first.andThen second).visited = first.visited ++ second.visited := by
  obtain ⟨visited, _ | e⟩ := first
  · exact ⟨rfl, h, rfl⟩
  · contradiction

theorem walkAll_of_no_error {values : List Json} (h : (walkAll file values).error = none) :
    (∀ value ∈ values, (walk value file).error = none) ∧
      (walkAll file values).visited = values.flatMap fun value => (walk value file).visited := by
  induction values with
  | nil => simp [walkAll]
  | cons value rest ih =>
      rw [walkAll_cons] at h ⊢
      obtain ⟨hvalue, hrest, hvisited⟩ := Trace.andThen_of_no_error h
      obtain ⟨hothers, hlater⟩ := ih hrest
      exact ⟨List.forall_mem_cons.mpr ⟨hvalue, hothers⟩, by rw [hvisited, hlater]; rfl⟩

/-- The visits below a node come right after its own, and what was pending then after them. -/
theorem walkAll_visit {values : List Json} {before after : List (NodeKind × Json)}
    (herror : (walkAll file values).error = none)
    (hvisit : (walkAll file values).visited = before ++ (kind, value) :: after) :
    kind.children.findSome? (misshapen? value) = none ∧
      ∃ later, (walkAll file (kind.children.flatMap (nodesIn value) ++ later)).error = none ∧
        after = (walkAll file (kind.children.flatMap (nodesIn value) ++ later)).visited := by
  induction values using walkAll.induct file generalizing before with
  | case1 =>
      rw [walkAll] at hvisit
      simp at hvisit
  | case2 first pending e hkind =>
      rw [walkAll_of_unknownType hkind] at herror
      contradiction
  | case3 first pending kind hkind e h =>
      rw [walkAll_of_childrenOf_error hkind h] at herror
      contradiction
  | case4 first pending kind hkind children h _ ih =>
      rw [walkAll_of_childrenOf_ok hkind h] at herror hvisit
      cases before with
      | nil =>
          cases hvisit
          obtain ⟨hshaped, rfl⟩ := shaped_of_childrenOf h
          exact ⟨hshaped, pending, herror, rfl⟩
      | cons earlier before =>
          obtain ⟨_, hvisit⟩ := List.cons.inj hvisit
          exact ih herror hvisit

/-- After a walk without a failure: right after a node come the visits of its children, with all
that is below them. An object in a child field is such a child, and its type names a kind. The
only ones that are passed over stand in an array in a field of one child. -/
theorem walk_visits_objects (root : Json) (file : String) (herror : (walk root file).error = none)
    (before after : List (NodeKind × Json)) (kind : NodeKind) (value : Json)
    (hvisit : (walk root file).visited = before ++ (kind, value) :: after) :
    (∃ later, after = (kind.children.flatMap (nodesIn value)).flatMap
        (fun child => (walk child file).visited) ++ later) ∧
      ∀ field ∈ kind.children,
        (∀ members, Stands value field (.object members) →
          field.arity = .many ∨ value.get? field.name = some (.object members) →
            ∃ childKind, HasKind (.object members) childKind ∧
              (childKind, .object members) ∈ after) ∧
        ∀ items, field.arity = .one → value.get? field.name = some (.array items) →
          nodesIn value field = [.array items] ∧
            walk (.array items) file = ⟨[(.attr, .array items)], none⟩ := by
  obtain ⟨hshaped, pending, hpending, rfl⟩ := walkAll_visit herror hvisit
  rw [walkAll_append] at hpending ⊢
  obtain ⟨hchildren, _, hvisited⟩ := Trace.andThen_of_no_error hpending
  obtain ⟨hwalks, hbelow⟩ := walkAll_of_no_error hchildren
  rw [hvisited, hbelow]
  refine ⟨⟨_, rfl⟩, fun field hfield => ⟨fun members hstands hone => ?_, fun items hone harray =>
    ⟨nodesIn_of_array_for_one hone harray, walk_array items file⟩⟩⟩
  have hmem : .object members ∈ kind.children.flatMap (nodesIn value) :=
    List.mem_flatMap.mpr ⟨field, hfield, mem_nodesIn_of_stands hstands
      (List.findSome?_eq_none_iff.mp hshaped field hfield) hone⟩
  obtain ⟨childKind, below, hkind, hfirst⟩ := walk_of_no_error (hwalks _ hmem)
  refine ⟨childKind, hkind, List.mem_append_left _ (List.mem_flatMap.mpr ⟨_, hmem, ?_⟩)⟩
  rw [hfirst]
  exact List.mem_cons_self

def classAttribute : List (String × Json) := [("name", .string "class")]

def textNode : List (String × Json) := [("type", .string "Text")]

/-- A tag with a class attribute in a list and a text in the place of its block. -/
def tagged : Json :=
  .object [("attrs", .array [.object classAttribute]), ("block", .object textNode),
    ("type", .string "Tag")]

theorem walk_tagged : walk tagged "t.pug" =
    ⟨[(.tag, tagged), (.attr, .object classAttribute), (.text, .object textNode)], none⟩ := by
  have hattribute : walk (.object classAttribute) "t.pug" =
      ⟨[(.attr, .object classAttribute)], none⟩ := walk_of_leaf (.absent rfl) rfl rfl
  have htext : walk (.object textNode) "t.pug" = ⟨[(.text, .object textNode)], none⟩ :=
    walk_of_leaf (.named rfl) rfl rfl
  have hchildren : NodeKind.tag.children.flatMap (nodesIn tagged) =
      [.object classAttribute, .object textNode] := rfl
  have htag : HasKind tagged .tag := .named rfl
  rw [walk_of_shaped htag rfl, hchildren, walkAll_cons, walkAll_cons, hattribute, htext, walkAll]
  rfl

theorem tagged_visits_objects :
    (∃ kind, HasKind (.object classAttribute) kind ∧
        (kind, .object classAttribute) ∈ (walk tagged "t.pug").visited) ∧
      ∃ kind, HasKind (.object textNode) kind ∧
        (kind, .object textNode) ∈ (walk tagged "t.pug").visited := by
  obtain ⟨_, hfields⟩ := walk_visits_objects tagged "t.pug" (by rw [walk_tagged]) []
    [(.attr, .object classAttribute), (.text, .object textNode)] .tag tagged
    (by rw [walk_tagged]; rfl)
  obtain ⟨kind, hkind, hmem⟩ := (hfields ⟨"attrs", .many⟩ (by decide)).1 classAttribute
    (.item rfl (List.mem_singleton_self _)) (.inl rfl)
  obtain ⟨other, hother, hmem'⟩ := (hfields ⟨"block", .one⟩ (by decide)).1 textNode
    (.whole rfl) (.inr rfl)
  rw [walk_tagged]
  exact ⟨⟨kind, hkind, List.mem_cons_of_mem _ hmem⟩, other, hother, List.mem_cons_of_mem _ hmem'⟩

def bogus : Json := .object [("type", .string "Bogus")]

/-- A tag with an array in the place of its block. -/
def listedBlock : Json := .object [("block", .array [bogus]), ("type", .string "Tag")]

/-- The walk succeeds, and the object of an unknown type is never visited. -/
theorem walk_passes_over_bogus :
    (walk listedBlock "t.pug").error = none ∧
      (.tag, listedBlock) ∈ (walk listedBlock "t.pug").visited ∧
      (∃ field ∈ NodeKind.tag.children, Stands listedBlock field bogus) ∧
      HasUnknownType bogus "Bogus" ∧
      ∀ kind, (kind, bogus) ∉ (walk listedBlock "t.pug").visited := by
  have hwalk : walk listedBlock "t.pug" =
      ⟨[(.tag, listedBlock), (.attr, .array [bogus])], none⟩ := by
    have hchildren : NodeKind.tag.children.flatMap (nodesIn listedBlock) = [.array [bogus]] := rfl
    have htag : HasKind listedBlock .tag := .named rfl
    rw [walk_of_shaped htag rfl, hchildren, walkAll_cons, walk_array, walkAll]
    rfl
  rw [hwalk]
  refine ⟨rfl, List.mem_cons_self,
    ⟨⟨"block", .one⟩, by decide, .item rfl (List.mem_singleton_self _)⟩,
    .name rfl fun kind => by cases kind <;> decide, fun kind => ?_⟩
  simp [listedBlock, bogus]

end Walk

end SpanReview
