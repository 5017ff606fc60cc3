import DocShape.Proofs.Shape.FixedArray
import DocShape.Proofs.Shape.Parts
import Mathlib.Algebra.GroupWithZero.Nat

/-!
How many nodes of a shape are unknown. `Shape.nodes` lists the nodes, one that occurs twice two times, and
`unknownCount` counts those that are tagged as unknown; `unknownCount_eq` counts them part by part. Labels do
not count, and what is merged or taken as the element of an array has no more unknown nodes than what it was.
-/

namespace DocShape.Shape

/-! ## Nodes -/

mutual

/-- All nodes of a shape, each before its parts. -/
def nodes : Shape → List Shape
  | primitive label type value => [primitive label type value]
  | array label element low high => array label element low high :: nodesOption element
  | object label form properties templates =>
    object label form properties templates :: nodesList? properties
  | reference label type link templates =>
    reference label type link templates :: nodesList? templates
  | function label parameters returnType =>
    function label parameters returnType :: (nodesList? parameters ++ nodesOption returnType)
  | union label options isEnum => union label options isEnum :: nodesList? options
  | unknown label => [unknown label]

def nodesOption : Option Shape → List Shape
  | none => []
  | some s => s.nodes

def nodesList? : Option (List Shape) → List Shape
  | none => []
  | some ss => nodesList ss

def nodesList : List Shape → List Shape
  | [] => []
  | s :: rest => s.nodes ++ nodesList rest

end

private theorem nodesOption_eq (o : Option Shape) : nodesOption o = o.toList.flatMap nodes := by
  cases o <;> simp [nodesOption]

private theorem nodesList_eq (l : List Shape) : nodesList l = l.flatMap nodes := by
  induction l with
  | nil => rfl
  | cons s rest ih => rw [nodesList, ih, List.flatMap_cons]

private theorem nodesList?_eq (o : Option (List Shape)) :
    nodesList? o = (o.getD []).flatMap nodes := by
  cases o with
  | none => rfl
  | some l => exact nodesList_eq l

theorem nodes_eq (s : Shape) : s.nodes = s :: s.parts.flatMap nodes := by
  cases s <;> simp [nodes, parts, nodesOption_eq, nodesList?_eq]

private theorem isNode_of_mem_nodes {s n : Shape} (h : n ∈ s.nodes) : s.IsNode n := by
  rw [nodes_eq] at h
  rcases List.mem_cons.1 h with rfl | h
  · exact .root
  · obtain ⟨p, hp, h⟩ := List.mem_flatMap.1 h
    exact .of_part hp (isNode_of_mem_nodes h)
termination_by sizeOf s
decreasing_by exact sizeOf_lt_of_mem_parts hp

private theorem mem_nodes_of_part {s n p : Shape} (hn : n ∈ s.nodes) (hp : p ∈ n.parts) :
    p ∈ s.nodes := by
  rw [nodes_eq] at hn ⊢
  refine List.mem_cons_of_mem _ (List.mem_flatMap.2 ?_)
  rcases List.mem_cons.1 hn with rfl | hn
  · exact ⟨p, hp, by rw [nodes_eq]; exact List.mem_cons_self ..⟩
  · obtain ⟨q, hq, hn⟩ := List.mem_flatMap.1 hn
    exact ⟨q, hq, mem_nodes_of_part hn hp⟩
termination_by sizeOf s
decreasing_by exact sizeOf_lt_of_mem_parts hq

theorem mem_nodes_iff {s n : Shape} : n ∈ s.nodes ↔ s.IsNode n := by
  refine ⟨isNode_of_mem_nodes, fun h => ?_⟩
  induction h with
  | root => rw [nodes_eq]; exact List.mem_cons_self ..
  | part _ hp ih => exact mem_nodes_of_part ih hp

/-! ## Unknown nodes -/

/-- The number of nodes that are tagged as unknown. -/
def unknownCount (s : Shape) : Nat := s.nodes.countP fun n => decide (n.tag = ("?" : Text))

theorem unknownCount_eq_zero_iff {s : Shape} :
    s.unknownCount = 0 ↔ ∀ n, s.IsNode n → n.tag ≠ ("?" : Text) := by
  rw [unknownCount, List.countP_eq_zero]
  simp only [mem_nodes_iff, decide_eq_true_eq, ne_eq]

/-- The unknown nodes of a list of shapes. -/
def unknownCounts (l : List Shape) : Nat := (l.map unknownCount).sum

@[simp] theorem unknownCounts_nil : unknownCounts [] = 0 := rfl

@[simp] theorem unknownCounts_cons (s : Shape) (l : List Shape) :
    unknownCounts (s :: l) = s.unknownCount + unknownCounts l := List.sum_cons

@[simp] theorem unknownCounts_append (l l' : List Shape) :
    unknownCounts (l ++ l') = unknownCounts l + unknownCounts l' := by
  rw [unknownCounts, List.map_append, List.sum_append]
  rfl

theorem unknownCount_eq (s : Shape) :
    s.unknownCount = unknownCounts s.parts + if s.tag = ("?" : Text) then 1 else 0 := by
  rw [unknownCount, nodes_eq, List.countP_cons, List.countP_flatMap]
  simp only [decide_eq_true_eq]
  rfl

section

variable (label : Label)

@[simp] theorem unknownCount_unknown : (unknown label).unknownCount = 1 := rfl

@[simp] theorem unknownCount_primitive (type value : Option Text) :
    (primitive label type value).unknownCount = 0 := rfl

@[simp] theorem unknownCount_array (element : Option Shape) (low high : Option Int) :
    (array label element low high).unknownCount = unknownCounts element.toList :=
  unknownCount_eq _

@[simp] theorem unknownCount_object (form : ObjectForm) (properties : Option (List Shape))
    (templates : Option (List Text)) :
    (object label form properties templates).unknownCount = unknownCounts (properties.getD []) := by
  cases form <;> exact unknownCount_eq _

@[simp] theorem unknownCount_reference (type : Option Json.Value) (link : Option Text)
    (templates : Option (List Shape)) :
    (reference label type link templates).unknownCount = unknownCounts (templates.getD []) :=
  unknownCount_eq _

@[simp] theorem unknownCount_function (parameters : Option (List Shape)) (returnType : Option Shape) :
    (function label parameters returnType).unknownCount =
      unknownCounts (parameters.getD []) + unknownCounts returnType.toList := by
  rw [← unknownCounts_append]
  exact unknownCount_eq _

@[simp] theorem unknownCount_union (options : Option (List Shape)) (isEnum : Option Bool) :
    (union label options isEnum).unknownCount = unknownCounts (options.getD []) :=
  unknownCount_eq _

end

/-! ## What is done to shapes -/

@[simp] theorem unknownCount_withLabel (l : Label) (s : Shape) :
    (s.withLabel l).unknownCount = s.unknownCount := by
  cases s <;> simp [withLabel]

theorem unknownCount_withoutReturn_le (s : Shape) : s.withoutReturn.unknownCount ≤ s.unknownCount := by
  cases s <;> simp [withoutReturn]

theorem unknownCount_fixedArray?_le {s t : Shape} (h : s.fixedArray? = some t) :
    t.unknownCount ≤ s.unknownCount := by
  obtain ⟨label, first, rest, templates, rfl, -, -, rfl⟩ := fixedArray?_eq_some h
  simp [withName]

theorem unknownCount_intersect?_le {a b s : Shape} (h : a.intersect? b = some s) :
    s.unknownCount ≤ a.unknownCount := by
  obtain ⟨_, _, _, _, _, _, _, _, rfl, -, -, rfl⟩ := intersect?_eq_some h
  simp

end DocShape.Shape
