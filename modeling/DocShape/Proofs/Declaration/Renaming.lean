import DocShape.Declaration.Graph
import Mathlib.Logic.Function.Defs

/-!
Declarations told in another way. A `Renaming` gives declarations other addresses and ids, puts
file-level modules around them, and spells nodes that are not modelled in another way. Names, full
names and what is documented stay, and so does the comparison of type nodes (`sameAs_rename`).
-/

namespace DocShape

/-! ## File-level modules put in -/

namespace Place

/-- The second place is the first one with file-level modules put in between. -/
inductive Padded : Place → Place → Prop
  | nil : Padded [] []
  | cons {p p' : Place} (s : Segment) : Padded p p' → Padded (s :: p) (s :: p')
  | fileModule {p p' : Place} {s m : Segment} : m.kind = some .externalModule →
    Padded (s :: p) p' → Padded (s :: p) (m :: p')

theorem Padded.refl : ∀ p : Place, p.Padded p
  | [] => .nil
  | s :: p => .cons s (Padded.refl p)

/-- Places that stay have nothing put in. -/
theorem padded_same (_ : Json.Pointer) (p : Place) : p.Padded p := .refl p

theorem named_cons (s : Segment) (p : Place) :
    named (s :: p) =
      if s.kind = some .global then []
      else if s.kind = some .externalModule then named p else s :: named p := by
  unfold named
  by_cases hg : s.kind = some .global
  · simp [hg]
  · by_cases hm : s.kind = some .externalModule <;> simp [hg, hm]

theorem Padded.named_eq {p p' : Place} (h : p.Padded p') : p'.named = p.named := by
  induction h with
  | nil => rfl
  | cons s _ ih => rw [named_cons, named_cons, ih]
  | fileModule hm _ ih =>
    rw [named_cons, if_neg (by simp [hm]), if_pos hm]
    exact ih

theorem Padded.fullName_eq {p p' : Place} (h : p.Padded p') : p'.fullName = p.fullName := by
  rw [fullName, fullName, h.named_eq]

/-- A file-level module has the full name of what is around it, so that a search through all full
names on the way to the root finds the same. -/
theorem Padded.findSome?_enclosing {β : Type} {p p' : Place} (h : p.Padded p')
    (f : Text → Option β) :
    p'.enclosing.findSome? (fun q => f q.fullName) =
      p.enclosing.findSome? fun q => f q.fullName := by
  induction h with
  | nil => rfl
  | cons s h ih =>
    rw [enclosing, enclosing, List.findSome?_cons, List.findSome?_cons, ih, (h.cons s).fullName_eq]
  | @fileModule p p' s m hm h ih =>
    have name : fullName (m :: p') = fullName (s :: p) := (h.fileModule hm).fullName_eq
    rw [enclosing, List.findSome?_cons, ih, name, enclosing, List.findSome?_cons]
    cases f (fullName (s :: p)) with
    | none => rfl
    | some b => rfl

end Place

/-! ## Renamings -/

/-- A change of declarations that leaves their names. -/
structure Renaming where
  /-- The new address of the declaration at an address. -/
  address : Json.Pointer → Json.Pointer
  /-- The new places around the declaration at an address. -/
  around : Json.Pointer → Place → Place
  id : Id → Id
  /-- Category and text of the nodes that are not modelled. -/
  unmodelled : Text × Text → Text × Text
  address_injective : Function.Injective address
  around_padded : ∀ origin place, Place.Padded place (around origin place)
  unmodelled_injective : Function.Injective unmodelled

namespace Renaming

variable (r : Renaming)

def site (s : Site) : Site :=
  ⟨r.address s.origin,
    match s.place with
    | [] => []
    | segment :: rest => segment :: r.around s.origin rest⟩

theorem site_padded (s : Site) : s.place.Padded (r.site s).place := by
  obtain ⟨origin, place⟩ := s
  cases place with
  | nil => exact .nil
  | cons segment rest => exact (r.around_padded origin rest).cons segment

@[simp] theorem fullName_site (s : Site) : (r.site s).fullName = s.fullName :=
  (r.site_padded s).fullName_eq

end Renaming

mutual

def TypeNode.rename (r : Renaming) : TypeNode → TypeNode
  | .intrinsic name => .intrinsic name
  | .stringLiteral value => .stringLiteral value
  | .array element => .array (element.rename r)
  | .tuple elements => .tuple (TypeNode.renameAll r elements)
  | .union options => .union (TypeNode.renameAll r options)
  | .intersection operands => .intersection (TypeNode.renameAll r operands)
  | .typeParameter name => .typeParameter name
  | .reference name arguments qualifiedName target =>
    .reference name (TypeNode.renameAll r arguments) qualifiedName (target.map r.site)
  | .inline declaration => .inline (declaration.rename r)
  | .unmodelled category source =>
    .unmodelled (r.unmodelled (category, source)).1 (r.unmodelled (category, source)).2

def TypeNode.renameAll (r : Renaming) : List TypeNode → List TypeNode
  | [] => []
  | t :: rest => t.rename r :: TypeNode.renameAll r rest

def TypeNode.renameOption (r : Renaming) : Option TypeNode → Option TypeNode
  | none => none
  | some t => some (t.rename r)

def Declaration.rename (r : Renaming) : Declaration → Declaration
  | ⟨origin, segment, enclosing, id, isOptional, comment, typeParameters, type, signatures,
      children⟩ =>
    ⟨r.address origin, segment, r.around origin enclosing, id.map r.id, isOptional, comment,
      typeParameters, TypeNode.renameOption r type, Signature.renameAll r signatures,
      Declaration.renameAll r children⟩

def Declaration.renameAll (r : Renaming) : List Declaration → List Declaration
  | [] => []
  | d :: rest => d.rename r :: Declaration.renameAll r rest

def Signature.rename (r : Renaming) : Signature → Signature
  | ⟨name, parameters, type, comment⟩ =>
    ⟨name, Parameter.renameAll r parameters, TypeNode.renameOption r type, comment⟩

def Signature.renameAll (r : Renaming) : List Signature → List Signature
  | [] => []
  | s :: rest => s.rename r :: Signature.renameAll r rest

def Parameter.rename (r : Renaming) : Parameter → Parameter
  | ⟨name, type, comment, isOptional⟩ =>
    ⟨name, TypeNode.renameOption r type, comment, isOptional⟩

def Parameter.renameAll (r : Renaming) : List Parameter → List Parameter
  | [] => []
  | p :: rest => p.rename r :: Parameter.renameAll r rest

end

variable (r : Renaming)

theorem TypeNode.renameAll_eq_map (l : List TypeNode) :
    TypeNode.renameAll r l = l.map (·.rename r) := by
  induction l with
  | nil => rfl
  | cons t rest ih => rw [renameAll, ih, List.map_cons]

theorem Declaration.renameAll_eq_map (l : List Declaration) :
    Declaration.renameAll r l = l.map (·.rename r) := by
  induction l with
  | nil => rfl
  | cons d rest ih => rw [renameAll, ih, List.map_cons]

theorem Signature.renameAll_eq_map (l : List Signature) :
    Signature.renameAll r l = l.map (·.rename r) := by
  induction l with
  | nil => rfl
  | cons s rest ih => rw [renameAll, ih, List.map_cons]

theorem Parameter.renameAll_eq_map (l : List Parameter) :
    Parameter.renameAll r l = l.map (·.rename r) := by
  induction l with
  | nil => rfl
  | cons p rest ih => rw [renameAll, ih, List.map_cons]

/-! ## Nothing renamed -/

theorem Renaming.sources_injective : Function.Injective fun source : Text × Text => source :=
  Function.injective_id

/-- The renaming that leaves everything. -/
def Renaming.identity : Renaming where
  address p := p
  around _ place := place
  id i := i
  unmodelled source := source
  address_injective := Function.injective_id
  around_padded := Place.padded_same
  unmodelled_injective := Renaming.sources_injective

@[simp] theorem Renaming.site_identity (s : Site) : Renaming.identity.site s = s := by
  obtain ⟨origin, place⟩ := s
  cases place <;> rfl

mutual

theorem TypeNode.rename_identity : ∀ t : TypeNode, t.rename .identity = t
  | .array element => congrArg TypeNode.array (TypeNode.rename_identity element)
  | .tuple elements => congrArg TypeNode.tuple (TypeNode.renameAll_identity elements)
  | .union options => congrArg TypeNode.union (TypeNode.renameAll_identity options)
  | .intersection operands => congrArg TypeNode.intersection (TypeNode.renameAll_identity operands)
  | .reference name arguments qualifiedName target => by
    have same : Renaming.identity.site = id := funext Renaming.site_identity
    rw [TypeNode.rename, TypeNode.renameAll_identity arguments, same, Option.map_id, id]
  | .inline d => congrArg TypeNode.inline (Declaration.rename_identity d)
  | .intrinsic _ => rfl
  | .stringLiteral _ => rfl
  | .typeParameter _ => rfl
  | .unmodelled _ _ => rfl

theorem TypeNode.renameAll_identity : ∀ l : List TypeNode, TypeNode.renameAll .identity l = l
  | [] => rfl
  | t :: rest => by
    rw [TypeNode.renameAll, TypeNode.rename_identity t, TypeNode.renameAll_identity rest]

theorem TypeNode.renameOption_identity : ∀ t : Option TypeNode,
    TypeNode.renameOption .identity t = t
  | none => rfl
  | some t => by rw [TypeNode.renameOption, TypeNode.rename_identity t]

theorem Declaration.rename_identity : ∀ d : Declaration, d.rename .identity = d
  | ⟨_, _, _, id, _, _, _, type, signatures, children⟩ => by
    rw [Declaration.rename, TypeNode.renameOption_identity type,
      Signature.renameAll_identity signatures, Declaration.renameAll_identity children]
    cases id <;> rfl

theorem Declaration.renameAll_identity : ∀ l : List Declaration,
    Declaration.renameAll .identity l = l
  | [] => rfl
  | d :: rest => by
    rw [Declaration.renameAll, Declaration.rename_identity d, Declaration.renameAll_identity rest]

theorem Signature.rename_identity : ∀ s : Signature, s.rename .identity = s
  | ⟨_, parameters, type, _⟩ => by
    rw [Signature.rename, Parameter.renameAll_identity parameters,
      TypeNode.renameOption_identity type]

theorem Signature.renameAll_identity : ∀ l : List Signature, Signature.renameAll .identity l = l
  | [] => rfl
  | s :: rest => by
    rw [Signature.renameAll, Signature.rename_identity s, Signature.renameAll_identity rest]

theorem Parameter.rename_identity : ∀ p : Parameter, p.rename .identity = p
  | ⟨_, type, _, _⟩ => by rw [Parameter.rename, TypeNode.renameOption_identity type]

theorem Parameter.renameAll_identity : ∀ l : List Parameter, Parameter.renameAll .identity l = l
  | [] => rfl
  | p :: rest => by
    rw [Parameter.renameAll, Parameter.rename_identity p, Parameter.renameAll_identity rest]

end

/-! ## What stays -/

namespace Declaration

@[simp] theorem rename_origin (d : Declaration) : (d.rename r).origin = r.address d.origin := by
  cases d
  rw [rename]

@[simp] theorem rename_segment (d : Declaration) : (d.rename r).segment = d.segment := by
  cases d
  rw [rename]

@[simp] theorem rename_name (d : Declaration) : (d.rename r).name = d.name :=
  congrArg Segment.name (d.rename_segment r)

@[simp] theorem rename_kind (d : Declaration) : (d.rename r).kind = d.kind :=
  congrArg Segment.kind (d.rename_segment r)

@[simp] theorem rename_isOptional (d : Declaration) :
    (d.rename r).isOptional = d.isOptional := by
  cases d
  rw [rename]

@[simp] theorem rename_comment (d : Declaration) : (d.rename r).comment = d.comment := by
  cases d
  rw [rename]

@[simp] theorem rename_typeParameters (d : Declaration) :
    (d.rename r).typeParameters = d.typeParameters := by
  cases d
  rw [rename]

theorem enclosing_padded (d : Declaration) : d.enclosing.Padded (d.rename r).enclosing := by
  cases d
  rw [rename]
  exact r.around_padded _ _

theorem place_padded (d : Declaration) : d.place.Padded (d.rename r).place := by
  rw [place, place, rename_segment]
  exact (d.enclosing_padded r).cons d.segment

@[simp] theorem rename_fullName (d : Declaration) : (d.rename r).fullName = d.fullName :=
  (d.place_padded r).fullName_eq

mutual

theorem documentedIn_renameAll : ∀ l : List Declaration,
    documentedIn (renameAll r l) = renameAll r (documentedIn l)
  | [] => rfl
  | d :: rest => by
    rw [renameAll, documentedIn, documentedIn, rename_kind, documented_rename d,
      documentedIn_renameAll rest, renameAll_eq_map, renameAll_eq_map, renameAll_eq_map,
      List.map_append]
    split <;> rfl

/-- Renaming changes no kind, and so it commutes with the choice of the documented declarations. -/
theorem documented_rename : ∀ d : Declaration,
    (d.rename r).documented = renameAll r d.documented
  | ⟨_, _, _, _, _, _, _, _, _, children⟩ => by
    rw [rename, documented, documented, documentedIn_renameAll children]

end

end Declaration

/-! ## Comparison -/

namespace TypeNode

mutual

/-- Nodes that are written alike are so after a renaming, and no others are. -/
theorem sameAs_rename : ∀ a b : TypeNode, (a.rename r).sameAs (b.rename r) = a.sameAs b
  | .array a, b => by
    cases b with
    | array b => exact sameAs_rename a b
    | _ => rfl
  | .tuple as, b => by
    cases b with
    | tuple bs => exact sameList_renameAll as bs
    | _ => rfl
  | .union as, b => by
    cases b with
    | union bs => exact sameList_renameAll as bs
    | _ => rfl
  | .intersection as, b => by
    cases b with
    | intersection bs => exact sameList_renameAll as bs
    | _ => rfl
  | .reference n as q t, b => by
    cases b with
    | reference m bs q' t' =>
      show (n == m && sameList (renameAll r as) (renameAll r bs) && q.looseEq q') = _
      rw [sameList_renameAll as bs]
      rfl
    | _ => rfl
  | .inline d, b => by
    cases b with
    | inline d' =>
      show ((d.rename r).origin == (d'.rename r).origin) = (d.origin == d'.origin)
      rw [Declaration.rename_origin, Declaration.rename_origin, Bool.eq_iff_iff, beq_iff_eq,
        beq_iff_eq, r.address_injective.eq_iff]
    | _ => rfl
  | .unmodelled c s, b => by
    cases b with
    | unmodelled c' s' =>
      have pairs : r.unmodelled (c, s) = r.unmodelled (c', s') ↔ (c, s) = (c', s') :=
        r.unmodelled_injective.eq_iff
      rw [Prod.ext_iff, Prod.ext_iff] at pairs
      rw [rename, rename, sameAs, sameAs, Bool.eq_iff_iff, Bool.and_eq_true, Bool.and_eq_true,
        beq_iff_eq, beq_iff_eq, beq_iff_eq, beq_iff_eq]
      exact pairs
    | _ => rfl
  | .intrinsic _, b => by cases b <;> rfl
  | .stringLiteral _, b => by cases b <;> rfl
  | .typeParameter _, b => by cases b <;> rfl

theorem sameList_renameAll : ∀ as bs : List TypeNode,
    sameList (renameAll r as) (renameAll r bs) = sameList as bs
  | [], bs => by cases bs <;> rfl
  | a :: as, bs => by
    cases bs with
    | nil => rfl
    | cons b bs =>
      rw [renameAll, renameAll, sameList, sameList, sameAs_rename a b, sameList_renameAll as bs]

end

end TypeNode

end DocShape
