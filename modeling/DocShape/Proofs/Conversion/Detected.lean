import DocShape.Proofs.Conversion.Nodes
import DocShape.Proofs.Shape.Detection

/-!
No object of a converted shape stands for an array any more (`convert_detected`). An object is looked at when
it is made; the labels that it and its properties get afterwards are not looked at, or have been there before.
-/

namespace DocShape

open Link (Resolver)

namespace Shape

theorem fixedArray?_withLabel (l : Label) (s : Shape) : (s.withLabel l).fixedArray? = s.fixedArray? := by
  cases s with
  | object label form properties templates =>
    cases form with
    | declared => rfl
    | literal => rcases properties with _ | _ | _ <;> rfl
  | _ => rfl

theorem fixedArray?_withoutReturn (s : Shape) : s.withoutReturn.fixedArray? = s.fixedArray? := by
  cases s <;> rfl

theorem Relabelled.fixedArray? {s s' : Shape} (h : s.Relabelled s') :
    s'.fixedArray? = s.fixedArray? := by
  cases h with
  | label l => exact fixedArray?_withLabel l s
  | listener l => rw [fixedArray?_withoutReturn, fixedArray?_withLabel]

end Shape

/-- Objects are looked at when they are made. -/
theorem fixedArray?_objectShape (resolver : Resolver) (d : Declaration) (form : ObjectForm)
    (properties : List Shape) : (objectShape resolver d form properties).fixedArray? = none := by
  unfold objectShape
  dsimp only
  cases hf : (attach resolver d
      (.object {} form (some properties) (presentList d.typeParameters))).fixedArray? with
  | none => exact hf
  | some t =>
    obtain ⟨_, _, _, _, -, -, -, rfl⟩ := Shape.fixedArray?_eq_some hf
    rfl

variable {resolver : Resolver} {position : Position} {e : Entry} {s : Shape}

/-- What an entry is converted to does not stand for an array, by induction on what is visited. -/
theorem Converts.fixedArray?_eq_none (h : Converts resolver position e s) : s.fixedArray? = none := by
  induction h using Converts.induction with
  | step position e s _ rule =>
    cases rule with
    | @leaf owner t _ ht hs =>
      cases t with
      | stringLiteral => cases position <;> cases hs <;> rfl
      | intrinsic | typeParameter =>
        cases hs
        rfl
      | _ => cases ht
    | @intersection owner a b sa sb =>
      cases hi : sa.intersect? sb with
      | none => rfl
      | some s =>
        obtain ⟨_, _, _, rfl⟩ := Shape.exists_array_of_intersect? hi
        rfl
    | reference _ _ hs =>
      obtain ⟨_, _, _, rfl⟩ := referenceShape_eq hs
      rfl
    | inline below | ownType _ below => exact below.2.2
    | object => exact fixedArray?_objectShape ..
    | _ => rfl

/-- No node of a converted declaration would be replaced by an array, and so no object is left in it, at
whatever depth, that stands for one. -/
theorem convert_detected (resolver : Resolver) (d : Declaration) {s n : Shape}
    (h : (convert resolver d).outcome = .ok s) (hn : s.IsNode n) :
    n.fixedArray? = none ∧ ((∀ m, n.IsNode m → m.RefersByText) →
      ∀ length element, ¬ Shape.StandsForArray element length n) := by
  obtain ⟨position, e, s', -, converts, relabelled⟩ := convert_node h hn
  have rejected : n.fixedArray? = none := by
    rw [relabelled.fixedArray?, converts.fixedArray?_eq_none]
  refine ⟨rejected, fun typed length element stands => ?_⟩
  have made := (Shape.fixedArray?_eq_some_iff (Shape.everywhere_of_isNode typed)).2
    ⟨length, element, stands, rfl⟩
  rw [rejected] at made
  cases made

/-- A list of pairs whose items are not of one type. -/
def mixedPairs : Declaration :=
  let bare : Declaration :=
    { origin := [], segment := ⟨"mixedPairs", none⟩, enclosing := [], id := none, isOptional := false,
      comment := none, typeParameters := [], type := none, signatures := [], children := [] }
  let item (name type : Text) : Declaration :=
    { bare with segment := ⟨name, none⟩, type := some (.intrinsic type) }
  { bare with type := some (.array (.inline { bare with
      segment := ⟨"__type", some .typeLiteral⟩
      children := [item "1" "string", item "0" "number"] })) }

/-- A list of objects with two properties. -/
private def listsPairs : Shape → Bool
  | .array _ (some (.object _ .literal (some [_, _]) _)) _ _ => true
  | _ => false

theorem convert_detected_mixedPairs :
    ∃ s label properties templates, (convert .none mixedPairs).outcome = .ok s ∧
      let n : Shape := .object label .literal (some properties) templates
      s.IsNode n ∧ properties.length = 2 ∧ n.fixedArray? = none ∧
        ((∀ m, n.IsNode m → m.RefersByText) → ∀ length element,
          ¬ Shape.StandsForArray element length n) := by
  have pairs : (convert .none mixedPairs).outcome.toOption.any listsPairs := by decide +kernel
  obtain ⟨s, hs, pairs⟩ := Journal.exists_ok_of_any pairs
  unfold listsPairs at pairs
  split at pairs
  · have inside : ∀ (label : Label) (n : Shape) (low high : Option Int),
        (Shape.array label (some n) low high).IsNode n :=
      fun _ _ _ _ => .part .root (List.mem_singleton.2 rfl)
    exact ⟨_, _, _, _, hs, inside .., rfl, convert_detected .none mixedPairs hs (inside ..)⟩
  · cases pairs

end DocShape
