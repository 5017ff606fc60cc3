import DocShape.Config.Merge
import DocShape.Proofs.Number.Line

/-!
Additive lists. The entries of a united list ascend in their common order and do not repeat
(`ascending_of_unite`), and they stand for the entries of both lists (`exists_of_unite`, `mem_of_unite`).
So nothing changes when the newer list is united with the result once more (`unite_again`), and a list that
is united with itself stays just if it ascends (`unite_self_iff`).

All of this follows from what is asked of an order of entries (`IsOrder`). Numbers have such an order as
long as each of them has a place on the number line.
-/

namespace DocShape.Config

open Json

/-! ## Insertion -/

/-- What an order of entries has to do with their equality: equal entries stand before and behind the same
entries. -/
structure IsOrder (Entry : Value → Prop) (before : Value → Value → Bool) : Prop where
  refl : ∀ a, Entry a → a.looseEq a
  same : ∀ a b, Entry a → Entry b → a.looseEq b → ∀ c, before a c = before b c ∧ before c a = before c b
  irrefl : ∀ a, ¬ before a a
  trans : ∀ a b c, before a b → before b c → before a c

/-- No entry equals an earlier one or belongs before it. -/
def Ascends (before : Value → Value → Bool) (l : List Value) : Prop :=
  l.Pairwise fun a b => ¬ b.looseEq a ∧ ¬ before b a

section

variable {Entry : Value → Prop} {before : Value → Value → Bool} {v w : Value} {l entries : List Value}

theorem mem_of_mem_insertEntry (h : w ∈ insertEntry before v l) : w = v ∨ w ∈ l := by
  induction l with
  | nil => exact Or.inl (List.mem_singleton.1 h)
  | cons u rest ih =>
    unfold insertEntry at h
    split at h
    · exact Or.inr h
    · split at h
      · exact List.mem_cons.1 h
      · rcases List.mem_cons.1 h with rfl | h
        · exact Or.inr (List.mem_cons_self ..)
        · exact (ih h).imp_right (List.mem_cons_of_mem _)

theorem mem_insertEntry_of_mem (v : Value) (h : w ∈ l) : w ∈ insertEntry before v l := by
  induction l with
  | nil => cases h
  | cons u rest ih =>
    unfold insertEntry
    split
    · exact h
    · split
      · exact List.mem_cons_of_mem _ h
      · exact List.mem_cons.2 ((List.mem_cons.1 h).imp_right ih)

/-- What is inserted is there afterwards, up to equality. -/
theorem exists_mem_insertEntry (self : v.looseEq v) (l : List Value) :
    ∃ w ∈ insertEntry before v l, v.looseEq w := by
  induction l with
  | nil => exact ⟨v, List.mem_singleton.2 rfl, self⟩
  | cons u rest ih =>
    unfold insertEntry
    split
    · rename_i same
      exact ⟨u, List.mem_cons_self .., same⟩
    · split
      · exact ⟨v, List.mem_cons_self .., self⟩
      · obtain ⟨w, hw, same⟩ := ih
        exact ⟨w, List.mem_cons_of_mem _ hw, same⟩

/-- What belongs behind everything is put at the end. -/
theorem insertEntry_last (h : ∀ u ∈ l, ¬ v.looseEq u ∧ ¬ before v u) :
    insertEntry before v l = l ++ [v] := by
  induction l with
  | nil => rfl
  | cons u rest ih =>
    obtain ⟨⟨other, behind⟩, hrest⟩ := List.forall_mem_cons.1 h
    rw [insertEntry, if_neg other, if_neg behind, ih hrest, List.cons_append]

theorem Ascends.insertEntry (order : IsOrder Entry before) (hv : Entry v) (hl : ∀ u ∈ l, Entry u)
    (h : Ascends before l) : Ascends before (insertEntry before v l) := by
  induction l with
  | nil => exact List.pairwise_singleton _ _
  | cons w rest ih =>
    obtain ⟨hw, hrest⟩ := List.forall_mem_cons.1 hl
    obtain ⟨first, others⟩ := List.pairwise_cons.1 h
    unfold Config.insertEntry
    split
    · exact h
    rename_i other
    split
    · rename_i here
      refine List.pairwise_cons.2 ⟨fun u hu => ?_, h⟩
      rcases List.mem_cons.1 hu with rfl | hu
      · refine ⟨fun same => ?_, fun back => order.irrefl v (order.trans v u v here back)⟩
        exact order.irrefl u ((order.same u v hw hv same u).1 ▸ here)
      · obtain ⟨-, behind⟩ := first u hu
        refine ⟨fun same => behind ?_, fun back => behind (order.trans u v w back here)⟩
        exact (order.same u v (hrest u hu) hv same w).1 ▸ here
    · rename_i behind
      refine List.pairwise_cons.2 ⟨fun u hu => ?_, ih hrest others⟩
      rcases mem_of_mem_insertEntry hu with rfl | hu
      · exact ⟨other, behind⟩
      · exact first u hu

/-- What equals an entry of an ascending list is not inserted. -/
theorem insertEntry_of_looseEq (order : IsOrder Entry before) (hv : Entry v) (hl : ∀ u ∈ l, Entry u)
    (h : Ascends before l) (hw : w ∈ l) (same : v.looseEq w) : Config.insertEntry before v l = l := by
  induction l with
  | nil => cases hw
  | cons u rest ih =>
    obtain ⟨-, hrest⟩ := List.forall_mem_cons.1 hl
    obtain ⟨first, others⟩ := List.pairwise_cons.1 h
    by_cases here : v.looseEq u
    · rw [Config.insertEntry, if_pos here]
    · rcases List.mem_cons.1 hw with rfl | hw
      · exact absurd same here
      · have behind : ¬ before v u := by
          rw [(order.same v w hv (hrest w hw) same u).1]
          exact (first w hw).2
        rw [Config.insertEntry, if_neg here, if_neg behind, ih hrest others hw]

/-! ## Lists in order -/

/-- The entries in order, on top of some that are in order. -/
def sortedOnto (before : Value → Value → Bool) (l entries : List Value) : List Value :=
  entries.foldl (fun l v => insertEntry before v l) l

theorem mem_of_mem_sortedOnto (h : w ∈ sortedOnto before l entries) : w ∈ l ∨ w ∈ entries := by
  induction entries generalizing l with
  | nil => exact Or.inl h
  | cons v rest ih =>
    rcases ih h with h | h
    · rcases mem_of_mem_insertEntry h with rfl | h
      · exact Or.inr (List.mem_cons_self ..)
      · exact Or.inl h
    · exact Or.inr (List.mem_cons_of_mem _ h)

theorem mem_sortedOnto_of_mem (h : w ∈ l) (entries : List Value) : w ∈ sortedOnto before l entries := by
  induction entries generalizing l with
  | nil => exact h
  | cons v rest ih => exact ih (mem_insertEntry_of_mem v h)

theorem exists_mem_sortedOnto (self : ∀ v ∈ entries, v.looseEq v) (l : List Value) (hv : v ∈ entries) :
    ∃ w ∈ sortedOnto before l entries, v.looseEq w := by
  induction entries generalizing l with
  | nil => cases hv
  | cons u rest ih =>
    obtain ⟨hu, hrest⟩ := List.forall_mem_cons.1 self
    rcases List.mem_cons.1 hv with rfl | hv
    · obtain ⟨w, hw, same⟩ : ∃ w ∈ insertEntry before v l, v.looseEq w := exists_mem_insertEntry hu l
      exact ⟨w, mem_sortedOnto_of_mem hw rest, same⟩
    · exact ih hrest _ hv

theorem Ascends.sortedOnto (order : IsOrder Entry before) (hl : ∀ u ∈ l, Entry u)
    (he : ∀ u ∈ entries, Entry u) (h : Ascends before l) : Ascends before (sortedOnto before l entries) := by
  induction entries generalizing l with
  | nil => exact h
  | cons v rest ih =>
    obtain ⟨hv, hrest⟩ := List.forall_mem_cons.1 he
    refine ih (fun u hu => ?_) hrest (h.insertEntry order hv hl)
    rcases mem_of_mem_insertEntry hu with rfl | hu
    · exact hv
    · exact hl u hu

/-- Entries that ascend are in order as they stand. -/
theorem sortedOnto_of_ascends (h : Ascends before (l ++ entries)) :
    Config.sortedOnto before l entries = l ++ entries := by
  induction entries generalizing l with
  | nil => exact (List.append_nil l).symm
  | cons v rest ih =>
    have last : insertEntry before v l = l ++ [v] :=
      insertEntry_last fun u hu => (List.pairwise_append.1 h).2.2 u hu v (List.mem_cons_self ..)
    have next := ih (l := l ++ [v]) (by rwa [List.append_assoc])
    rw [List.append_assoc] at next
    exact (congrArg (Config.sortedOnto before · rest) last).trans next

/-- Entries that an ascending list has already change nothing. -/
theorem sortedOnto_of_looseEq (order : IsOrder Entry before) (hl : ∀ u ∈ l, Entry u)
    (he : ∀ u ∈ entries, Entry u) (h : Ascends before l)
    (there : ∀ v ∈ entries, ∃ w ∈ l, v.looseEq w) : Config.sortedOnto before l entries = l := by
  induction entries with
  | nil => rfl
  | cons v rest ih =>
    obtain ⟨hv, hrest⟩ := List.forall_mem_cons.1 he
    obtain ⟨⟨w, hw, same⟩, others⟩ := List.forall_mem_cons.1 there
    have first := insertEntry_of_looseEq order hv hl h hw same
    exact (congrArg (Config.sortedOnto before · rest) first).trans (ih hrest others)

end

/-! ## Texts -/

theorem looseEq_text {a b : Text} : (Value.text a).looseEq (.text b) ↔ a = b := by
  simp [Value.looseEq, Value.looseEqScalar]

theorem exists_texts {l : List Value} (h : l.all isText) : ∃ texts : List Text, l = texts.map .text := by
  induction l with
  | nil => exact ⟨[], rfl⟩
  | cons v rest ih =>
    obtain ⟨hv, hrest⟩ := Bool.and_eq_true_iff.1 (List.all_cons.symm.trans h)
    obtain ⟨texts, rfl⟩ := ih hrest
    cases v with
    | text t => exact ⟨t :: texts, rfl⟩
    | _ => cases hv

theorem isOrder_text : IsOrder (fun v => isText v) textBefore where
  refl a ha := by
    cases a with
    | text t => exact looseEq_text.2 rfl
    | _ => cases ha
  same a b ha hb h c := by
    cases a with
    | text t =>
      cases b with
      | text u =>
        obtain rfl := looseEq_text.1 h
        exact ⟨rfl, rfl⟩
      | _ => cases hb
    | _ => cases ha
  irrefl a h := by
    cases a with
    | text t => exact List.lt_irrefl t (of_decide_eq_true h)
    | _ => cases h
  trans a b c h h' := by
    cases a with
    | text t =>
      cases b with
      | text u =>
        cases c with
        | text v => exact decide_eq_true (List.lt_trans (of_decide_eq_true h) (of_decide_eq_true h'))
        | _ => cases h'
      | _ => cases h
    | _ => cases h

/-- Texts ascend without repeats just where each is below the later ones. -/
theorem ascends_texts_iff {texts : List Text} :
    Ascends textBefore (texts.map .text) ↔ texts.Pairwise (· < ·) := by
  have below : ∀ a b : Text,
      ¬ (Value.text b).looseEq (.text a) ∧ ¬ textBefore (.text b) (.text a) ↔ a < b := by
    intro a b
    rw [looseEq_text]
    simp only [textBefore, decide_eq_true_eq]
    constructor
    · rintro ⟨other, behind⟩
      by_contra before
      exact other (List.le_antisymm (List.not_lt.1 before) (List.not_lt.1 behind))
    · intro h
      refine ⟨?_, List.lt_asymm h⟩
      rintro rfl
      exact List.lt_irrefl _ h
  rw [Ascends, List.pairwise_map]
  exact List.Pairwise.iff below

/-! ## Numbers -/

/-- An entry stands at a place on the number line, if it is a floating-point number. -/
def HasPlace (v : Value) : Prop := ∀ x, v = .float x → x.IsPlaced

/-- Equal numbers have one place. -/
theorem linePoint?_eq_of_looseEq {a b : Value} (ha : isNumber a ∧ HasPlace a) (hb : isNumber b ∧ HasPlace b)
    (h : a.looseEq b) : a.linePoint? = b.linePoint? := by
  have scalar : a.looseEqScalar b := by
    cases a <;> cases b <;> first | exact h | (cases ha.1)
  have cut : ∀ {x : Binary64} {n : Int}, HasPlace (.float x) → x.isInt n →
      (Value.float x).linePoint? = some (.ofInt n) := fun hx => Binary64.place_of_isInt (hx _ rfl)
  cases a with
  | float x =>
    have notNan : x ≠ .nan := by
      rintro rfl
      exact ha.2 _ rfl
    cases b with
    | float y =>
      have same : x.numericEq y := by simpa [Value.looseEqScalar, notNan] using scalar
      exact Binary64.place_of_numericEq same
    | int | bool => exact cut ha.2 (by simpa [Value.looseEqScalar, Value.toInt?] using scalar)
    | _ => cases hb.1
  | int | bool =>
    cases b with
    | float y => exact (cut hb.2 (by simpa [Value.looseEqScalar, Value.toInt?] using scalar)).symm
    | int | bool =>
      simp only [Value.looseEqScalar, Value.toInt?, beq_iff_eq] at scalar
      simp only [Value.linePoint?, Value.toInt?, Option.map_some, scalar]
    | _ => cases hb.1
  | _ => cases ha.1

theorem numberBefore_iff {a b : Value} :
    numberBefore a b ↔ ∃ p q, a.linePoint? = some p ∧ b.linePoint? = some q ∧ p.before q := by
  unfold numberBefore
  cases a.linePoint? <;> cases b.linePoint? <;> simp

theorem isOrder_number : IsOrder (fun v => isNumber v ∧ HasPlace v) numberBefore where
  refl a ha := by
    cases a with
    | float x =>
      have notNan : x ≠ .nan := by
        rintro rfl
        exact ha.2 _ rfl
      have same : x.numericEq x := Binary64.numericEq_iff.2 (Or.inl ⟨rfl, notNan⟩)
      simp [Value.looseEq, Value.looseEqScalar, same]
    | int | bool => simp [Value.looseEq, Value.looseEqScalar, Value.toInt?]
    | _ => cases ha.1
  same a b ha hb h c := by
    unfold numberBefore
    rw [linePoint?_eq_of_looseEq ha hb h]
    exact ⟨rfl, rfl⟩
  irrefl a h := by
    obtain ⟨p, q, hp, hq, h⟩ := numberBefore_iff.1 h
    cases hp.symm.trans hq
    exact p.before_irrefl h
  trans a b c h h' := by
    obtain ⟨p, q, hp, hq, h⟩ := numberBefore_iff.1 h
    obtain ⟨q', r, hq', hr, h'⟩ := numberBefore_iff.1 h'
    cases hq.symm.trans hq'
    exact numberBefore_iff.2 ⟨p, r, hp, hr, LinePoint.before_trans h h'⟩

/-! ## United lists -/

section

variable {Entry : Value → Prop} {before : Value → Value → Bool} {l s old new : List Value}

theorem mem_of_mem_sorted {v : Value} (h : v ∈ sortedOnto before [] l) : v ∈ l :=
  (mem_of_mem_sortedOnto h).resolve_left List.not_mem_nil

/-- Entries that an ascending list has already add nothing to it. -/
theorem sortedOnto_append (order : IsOrder Entry before) (hs : ∀ v ∈ s, Entry v) (hn : ∀ v ∈ new, Entry v)
    (h : Ascends before s) (there : ∀ v ∈ new, ∃ w ∈ s, v.looseEq w) :
    sortedOnto before [] (s ++ new) = s := by
  have whole : sortedOnto before [] s = s := sortedOnto_of_ascends h
  have split : sortedOnto before [] (s ++ new) = sortedOnto before (sortedOnto before [] s) new :=
    List.foldl_append ..
  rw [split, whole, sortedOnto_of_looseEq order hs hn h there]

theorem sortEntries_of_texts (h : ∀ v ∈ l, isText v) :
    sortEntries l = .ok (sortedOnto textBefore [] l) := by
  rw [sortEntries, if_pos (List.all_eq_true.2 h)]
  rfl

theorem sortEntries_of_numbers (h : ∀ v ∈ l, isNumber v) :
    sortEntries l = .ok (sortedOnto numberBefore [] l) := by
  cases l with
  | nil => rfl
  | cons v rest =>
    have noText : isText v = false := by
      have number := h v (List.mem_cons_self ..)
      cases v <;> first | rfl | cases number
    rw [sortEntries, if_neg (by simp [noText]), if_pos (List.all_eq_true.2 h)]
    rfl

theorem sortEntries_of_nulls (some : l ≠ []) (h : ∀ v ∈ l, isNull v) : sortEntries l = .ok [.null] := by
  obtain ⟨v, rest, rfl⟩ := List.exists_cons_of_ne_nil some
  have other : isText v = false ∧ isNumber v = false := by
    have null := h v (List.mem_cons_self ..)
    cases v <;> first | exact ⟨rfl, rfl⟩ | cases null
  rw [sortEntries, if_neg (by simp [other.1]), if_neg (by simp [other.2]), if_pos (List.all_eq_true.2 h)]

/-- What sorting comes to: the entries are of one kind, and stand in the order of this kind. -/
inductive SortedAs (l s : List Value) : Prop
  | texts : (∀ v ∈ l, isText v) → s = sortedOnto textBefore [] l → SortedAs l s
  | numbers : (∀ v ∈ l, isNumber v) → s = sortedOnto numberBefore [] l → SortedAs l s
  | nulls : l ≠ [] → (∀ v ∈ l, isNull v) → s = [.null] → SortedAs l s

theorem sortEntries_eq_ok (h : sortEntries l = .ok s) : SortedAs l s := by
  unfold sortEntries at h
  split_ifs at h with texts numbers nulls
  · cases h
    exact .texts (List.all_eq_true.1 texts) rfl
  · cases h
    exact .numbers (List.all_eq_true.1 numbers) rfl
  · cases h
    refine .nulls ?_ (List.all_eq_true.1 nulls) rfl
    rintro rfl
    exact texts rfl

/-- The entries have a common order, in which they ascend without repeats. -/
inductive Ascending : List Value → Prop
  | texts {texts : List Text} : texts.Pairwise (· < ·) → Ascending (texts.map .text)
  | numbers {l : List Value} : (∀ v ∈ l, isNumber v) → Ascends numberBefore l → Ascending l
  | null : Ascending [.null]

theorem ascending_of_sortEntries (placed : ∀ v ∈ l, HasPlace v) (h : sortEntries l = .ok s) :
    Ascending s := by
  cases sortEntries_eq_ok h with
  | texts kind hs =>
    subst hs
    obtain ⟨texts, ht⟩ := exists_texts (List.all_eq_true.2 fun v hv => kind v (mem_of_mem_sorted hv))
    have ascends : Ascends textBefore (sortedOnto textBefore [] l) :=
      Ascends.sortedOnto isOrder_text nofun kind List.Pairwise.nil
    rw [ht] at ascends ⊢
    exact .texts (ascends_texts_iff.1 ascends)
  | numbers kind hs =>
    subst hs
    refine .numbers (fun v hv => kind v (mem_of_mem_sorted hv)) ?_
    exact Ascends.sortedOnto isOrder_number nofun (fun v hv => ⟨kind v hv, placed v hv⟩) List.Pairwise.nil
  | nulls _ _ hs =>
    subst hs
    exact .null

/-- Entries in order that are sorted together with some of them once more. -/
theorem sortedOnto_again (order : IsOrder Entry before) (hold : ∀ v ∈ old, Entry v)
    (hnew : ∀ v ∈ new, Entry v) :
    sortedOnto before [] (sortedOnto before [] (old ++ new) ++ new) = sortedOnto before [] (old ++ new) := by
  have all : ∀ v ∈ old ++ new, Entry v := List.forall_mem_append.2 ⟨hold, hnew⟩
  refine sortedOnto_append order (fun v hv => all v (mem_of_mem_sorted hv)) hnew
    (Ascends.sortedOnto order nofun all List.Pairwise.nil) fun v hv => ?_
  exact exists_mem_sortedOnto (fun v hv => order.refl v (all v hv)) [] (List.mem_append_right old hv)

/-- A list that has been united with a newer one has all entries of it. -/
theorem unite_again (hold : ∀ v ∈ old, HasPlace v) (hnew : ∀ v ∈ new, HasPlace v)
    (h : unite old new = .ok s) : unite s new = .ok s := by
  cases sortEntries_eq_ok h with
  | texts kind hs =>
    subst hs
    obtain ⟨kindOld, kindNew⟩ := List.forall_mem_append.1 kind
    have all : ∀ v ∈ sortedOnto textBefore [] (old ++ new) ++ new, isText v :=
      List.forall_mem_append.2 ⟨fun v hv => kind v (mem_of_mem_sorted hv), kindNew⟩
    rw [unite, sortEntries_of_texts all, sortedOnto_again isOrder_text kindOld kindNew]
  | numbers kind hs =>
    subst hs
    obtain ⟨kindOld, kindNew⟩ := List.forall_mem_append.1 kind
    have all : ∀ v ∈ sortedOnto numberBefore [] (old ++ new) ++ new, isNumber v :=
      List.forall_mem_append.2 ⟨fun v hv => kind v (mem_of_mem_sorted hv), kindNew⟩
    rw [unite, sortEntries_of_numbers all, sortedOnto_again isOrder_number
      (fun v hv => ⟨kindOld v hv, hold v hv⟩) fun v hv => ⟨kindNew v hv, hnew v hv⟩]
  | nulls _ kind hs =>
    subst hs
    have all : ∀ v ∈ [Value.null] ++ new, isNull v :=
      List.forall_mem_append.2 ⟨by simp [isNull], (List.forall_mem_append.1 kind).2⟩
    exact sortEntries_of_nulls (List.cons_ne_nil _ _) all

/-- A list united with itself stays just if it ascends without repeats. -/
theorem unite_self_iff (placed : ∀ v ∈ l, HasPlace v) : unite l l = .ok l ↔ Ascending l := by
  constructor
  · exact ascending_of_sortEntries (List.forall_mem_append.2 ⟨placed, placed⟩)
  · intro h
    cases h with
    | @texts texts h =>
      have kind : ∀ v ∈ texts.map Value.text, isText v := by simp [isText]
      rw [unite, sortEntries_of_texts (List.forall_mem_append.2 ⟨kind, kind⟩),
        sortedOnto_append isOrder_text kind kind (ascends_texts_iff.2 h) fun v hv =>
          ⟨v, hv, isOrder_text.refl v (kind v hv)⟩]
    | numbers kind h =>
      have entry : ∀ v ∈ l, isNumber v ∧ HasPlace v := fun v hv => ⟨kind v hv, placed v hv⟩
      rw [unite, sortEntries_of_numbers (List.forall_mem_append.2 ⟨kind, kind⟩),
        sortedOnto_append isOrder_number entry entry h fun v hv =>
          ⟨v, hv, isOrder_number.refl v (entry v hv)⟩]
    | null => rfl

/-- Lists of texts are united into the list of all of them, which ascends. -/
theorem unite_texts (old new : List Text) : ∃ texts : List Text,
    unite (old.map .text) (new.map .text) = .ok (texts.map .text) ∧ texts.Pairwise (· < ·) ∧
      ∀ t, t ∈ texts ↔ t ∈ old ∨ t ∈ new := by
  have kind : ∀ v ∈ old.map Value.text ++ new.map Value.text, isText v := by
    simp [isText, or_imp, forall_and]
  have sorted := sortEntries_of_texts kind
  obtain ⟨texts, ht⟩ := exists_texts (List.all_eq_true.2 fun v (hv : v ∈ sortedOnto textBefore []
    (old.map Value.text ++ new.map Value.text)) => kind v (mem_of_mem_sorted hv))
  refine ⟨texts, ht ▸ sorted, ?_, fun t => ?_⟩
  · have ascends : Ascends textBefore (sortedOnto textBefore [] _) :=
      Ascends.sortedOnto isOrder_text nofun kind List.Pairwise.nil
    rw [ht] at ascends
    exact ascends_texts_iff.1 ascends
  · have listed : t ∈ texts ↔ Value.text t ∈ texts.map .text := by simp
    rw [listed, ← ht]
    constructor
    · intro h
      simpa using mem_of_mem_sorted h
    · intro h
      have given : Value.text t ∈ old.map Value.text ++ new.map Value.text := by simpa using h
      obtain ⟨w, hw, same⟩ : ∃ w ∈ sortedOnto textBefore [] (old.map Value.text ++ new.map Value.text),
          (Value.text t).looseEq w :=
        exists_mem_sortedOnto (fun v hv => isOrder_text.refl v (kind v hv)) [] given
      cases w with
      | text u =>
        rw [looseEq_text.1 same]
        exact hw
      | _ => cases kind _ (mem_of_mem_sorted hw)

end

end DocShape.Config
