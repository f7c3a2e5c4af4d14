import SpanReview.Json.Printer
import SpanReview.Node.Kind
import SpanReview.Node.Location
import SpanReview.Stage

namespace SpanReview

/-!
The walk over a syntax tree: every node before its children, children in the order of
their fields. A work list holds the nodes still to visit; its total size bounds the walk.
-/

mutual

def Json.size : Json → Nat
  | .array items => Json.sizeItems items + 1
  | .object members => Json.sizeMembers members + 1
  | _ => 1

def Json.sizeItems : List Json → Nat
  | [] => 0
  | item :: rest => Json.size item + Json.sizeItems rest

def Json.sizeMembers : List (String × Json) → Nat
  | [] => 0
  | (_, item) :: rest => Json.size item + Json.sizeMembers rest

end

theorem Json.size_pos (value : Json) : 0 < value.size := by
  cases value <;> simp [Json.size]

theorem Json.sizeItems_append (xs ys : List Json) :
    Json.sizeItems (xs ++ ys) = Json.sizeItems xs + Json.sizeItems ys := by
  induction xs with
  | nil => simp [Json.sizeItems]
  | cons x xs ih => simp [Json.sizeItems, ih, Nat.add_assoc]

namespace Walk

/-- The type of a node; a node without one is an attribute. -/
def kindOf (value : Json) : Except NodeError NodeKind :=
  match value.get? "type" with
  | none => .ok .attr
  | some .null => .ok .attr
  | some (.string name) =>
      match NodeKind.ofName? name with
      | some kind => .ok kind
      | none => .error (.unknownType name)
  | some other => .error (.unknownType other.compact)

/-- The nodes in one field; null and false stand for none. -/
def fieldNodes (file : String) (arity : Arity) : Json → Except NodeError (List Json)
  | .null => .ok []
  | .bool false => .ok []
  | value =>
      match arity with
      | .one => .ok [value]
      | .many =>
          match value.array? with
          | some items => .ok items
          | none => .error (.notChildren file value.noun)

def childrenIn (file : String) (value : Json) : List ChildField → Except NodeError (List Json)
  | [] => .ok []
  | field :: rest =>
      match value.get? field.name with
      | none => childrenIn file value rest
      | some sub =>
          match fieldNodes file field.arity sub with
          | .error e => .error e
          | .ok nodes =>
              match childrenIn file value rest with
              | .error e => .error e
              | .ok others => .ok (nodes ++ others)

def childrenOf (file : String) (kind : NodeKind) (value : Json) : Except NodeError (List Json) :=
  childrenIn file value kind.children

def without (key : String) (members : List (String × Json)) : List (String × Json) :=
  members.filter fun member => member.1 != key

theorem size_lookup_add_without {key : String} {members : List (String × Json)} {value : Json}
    (h : members.lookup key = some value) :
    value.size + Json.sizeMembers (without key members) ≤ Json.sizeMembers members := by
  have filterLe : ∀ ms : List (String × Json),
      Json.sizeMembers (without key ms) ≤ Json.sizeMembers ms := by
    intro ms
    induction ms with
    | nil => simp [without]
    | cons m ms ih =>
        obtain ⟨k, v⟩ := m
        by_cases hk : k = key
        · simp_all [without, Json.sizeMembers]
          omega
        · simp_all [without, Json.sizeMembers]
  induction members with
  | nil => simp at h
  | cons m ms ih =>
      obtain ⟨k, v⟩ := m
      by_cases hk : key = k
      · subst hk
        simp only [List.lookup_cons_self, Option.some.injEq] at h
        have := filterLe ms
        simp_all [without, Json.sizeMembers]
      · have hkey : (key == k) = false := by simpa using hk
        rw [List.lookup_cons, hkey] at h
        have := ih h
        have hne : k ≠ key := fun he => hk he.symm
        simp_all [without, Json.sizeMembers]
        omega

theorem lookup_without {key other : String} (h : other ≠ key) (members : List (String × Json)) :
    (without key members).lookup other = members.lookup other := by
  induction members with
  | nil => rfl
  | cons m ms ih =>
      obtain ⟨k, v⟩ := m
      by_cases hk : k = key
      · subst hk
        have hne : (other == k) = false := by simpa using h
        rw [List.lookup_cons, hne]
        simpa [without] using ih
      · simp_all [without, List.lookup_cons]

theorem sizeItems_fieldNodes {file : String} {arity : Arity} {value : Json} {nodes : List Json}
    (h : fieldNodes file arity value = .ok nodes) : Json.sizeItems nodes ≤ value.size := by
  unfold fieldNodes at h
  split at h
  · cases h; simp [Json.sizeItems]
  · cases h; simp [Json.sizeItems]
  · split at h
    · cases h; simp [Json.sizeItems]
    · split at h
      · rename_i items hitems
        cases h
        unfold Json.array? at hitems
        split at hitems
        · cases hitems; simp [Json.size]
        · cases hitems
      · cases h

theorem childrenIn_congr {file : String} {value other : Json} {fields : List ChildField}
    (h : ∀ field ∈ fields, value.get? field.name = other.get? field.name) :
    childrenIn file value fields = childrenIn file other fields := by
  induction fields with
  | nil => rfl
  | cons field rest ih =>
      have hrest := ih fun f hf => h f (List.mem_cons_of_mem _ hf)
      simp only [childrenIn, h field List.mem_cons_self, hrest]

theorem sizeItems_childrenIn {file : String} {fields : List ChildField}
    {members : List (String × Json)} {nodes : List Json}
    (hdistinct : (fields.map ChildField.name).Nodup)
    (h : childrenIn file (.object members) fields = .ok nodes) :
    Json.sizeItems nodes ≤ Json.sizeMembers members := by
  induction fields generalizing members nodes with
  | nil =>
      simp only [childrenIn, Except.ok.injEq] at h
      subst h
      simp [Json.sizeItems]
  | cons field rest ih =>
      simp only [List.map_cons, List.nodup_cons] at hdistinct
      simp only [childrenIn] at h
      split at h
      · exact ih hdistinct.2 h
      · rename_i sub hsub
        split at h
        · cases h
        · rename_i own hown
          split at h
          · cases h
          · rename_i others hothers
            cases h
            have hcongr : childrenIn file (.object members) rest =
                childrenIn file (.object (without field.name members)) rest := by
              apply childrenIn_congr
              intro f hf
              have hne : f.name ≠ field.name := by
                intro he
                exact hdistinct.1 (he ▸ List.mem_map_of_mem hf)
              simp only [Json.get?, lookup_without hne]
            rw [hcongr] at hothers
            have hrest := ih hdistinct.2 hothers
            have hlookup := size_lookup_add_without (by simpa [Json.get?] using hsub)
            have hfield := sizeItems_fieldNodes hown
            rw [Json.sizeItems_append]
            omega

theorem children_distinct (kind : NodeKind) : (kind.children.map ChildField.name).Nodup := by
  cases kind <;> simp [NodeKind.children]

theorem childrenIn_of_not_object {file : String} {value : Json} {fields : List ChildField}
    (h : ∀ key, value.get? key = none) : childrenIn file value fields = .ok [] := by
  induction fields with
  | nil => rfl
  | cons field rest ih => simp only [childrenIn, h, ih]

theorem sizeItems_childrenOf {file : String} {kind : NodeKind} {value : Json} {nodes : List Json}
    (h : childrenOf file kind value = .ok nodes) : Json.sizeItems nodes < value.size := by
  unfold childrenOf at h
  cases value with
  | object members =>
      have := sizeItems_childrenIn (children_distinct kind) h
      simp only [Json.size]
      omega
  | _ =>
      rw [childrenIn_of_not_object (by simp [Json.get?])] at h
      cases h
      simp [Json.sizeItems, Json.size]

/-- The nodes visited, in order, and the error that ended the walk, if one did. -/
structure Trace where
  visited : List (NodeKind × Json)
  error : Option NodeError

def Trace.cons (kind : NodeKind) (value : Json) (trace : Trace) : Trace :=
  ⟨(kind, value) :: trace.visited, trace.error⟩

/-- Visits the first node of the work list and puts its children before the others. -/
def walkAll (file : String) : List Json → Trace
  | [] => ⟨[], none⟩
  | value :: pending =>
      match kindOf value with
      | .error e => ⟨[], some e⟩
      | .ok kind =>
          match h : childrenOf file kind value with
          | .error e => ⟨[(kind, value)], some e⟩
          | .ok children =>
              have : Json.sizeItems (children ++ pending) < Json.sizeItems (value :: pending) := by
                have := sizeItems_childrenOf h
                simp only [Json.sizeItems_append, Json.sizeItems]
                omega
              (walkAll file (children ++ pending)).cons kind value
termination_by values => Json.sizeItems values

def walk (root : Json) (file : String) : Trace :=
  walkAll file [root]

end Walk

def LocationDefaults.nodesOfTree (defaults : LocationDefaults) (root : Json) (file : String) :
    Except NodeError (List Node) :=
  let trace := Walk.walk root file
  match trace.error with
  | some e => .error e
  | none => .ok (trace.visited.map fun visit => defaults.nodeOf file visit.2)

def LocationDefaults.nodesOf (defaults : LocationDefaults) (stage : Stage) (value : Json)
    (file : String) : Except NodeError (List Node) :=
  match stage with
  | .lexer => defaults.nodesOfTokens value file
  | .parser => defaults.nodesOfTree value file

end SpanReview
