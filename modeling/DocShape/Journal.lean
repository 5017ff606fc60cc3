/-!
# Journals

A journal ends in a result or in an error, and has made notes on the way. Notes made before an error
are kept.

* `Journal.note` makes a note, `Journal.fail` ends in an error;
* `Journal.ofExcept` makes no notes;
* `Journal.mapNotes` tells the notes in another way;
* `Journal.Ensures` and `Journal.Raises` say in which results and in which errors a journal may end;
* the lemmas say what sequences and lists of journals note and how they end; `bind_eq_ok`, `map_eq_ok` and
  `mapError_eq_ok` say the same of plain results.
-/

namespace DocShape

/-- Two steps, of which the second goes on with what the first one gives, succeed just where both
do. -/
theorem bind_eq_ok {ε α β : Type} {x : Except ε α} {f : α → Except ε β} {b : β} :
    x >>= f = .ok b ↔ ∃ a, x = .ok a ∧ f a = .ok b := by
  cases x <;> simp [bind, Except.bind]

theorem map_eq_ok {ε α β : Type} {f : α → β} {x : Except ε α} {b : β} :
    f <$> x = .ok b ↔ ∃ a, x = .ok a ∧ b = f a := by
  cases x <;> simp [Functor.map, Except.map, eq_comm]

theorem mapError_eq_ok {ε ε' α : Type} {f : ε → ε'} {x : Except ε α} {a : α} :
    x.mapError f = .ok a ↔ x = .ok a := by
  cases x <;> constructor <;> rintro ⟨⟩
  all_goals rfl

structure Journal (ν ε α : Type) where
  notes : List ν
  outcome : Except ε α

namespace Journal

variable {ν ε α β : Type}

def result (a : α) : Journal ν ε α := ⟨[], .ok a⟩

/-- Goes on with the result of a journal. -/
def andThen (x : Journal ν ε α) (f : α → Journal ν ε β) : Journal ν ε β :=
  match x.outcome with
  | .ok a => ⟨x.notes ++ (f a).notes, (f a).outcome⟩
  | .error e => ⟨x.notes, .error e⟩

instance : Monad (Journal ν ε) where
  pure := result
  bind := andThen

def note (n : ν) : Journal ν ε Unit := ⟨[n], .ok ()⟩

def fail (e : ε) : Journal ν ε α := ⟨[], .error e⟩

def ofExcept (x : Except ε α) : Journal ν ε α := ⟨[], x⟩

instance : MonadLift (Except ε) (Journal ν ε) := ⟨ofExcept⟩

/-! ## Sequences -/

theorem bind_ok (notes : List ν) (a : α) (f : α → Journal ν ε β) :
    ((⟨notes, .ok a⟩ : Journal ν ε α) >>= f) = ⟨notes ++ (f a).notes, (f a).outcome⟩ := rfl

private theorem bind_result (x : Journal ν ε α) : (x >>= fun a => result (id a)) = x := by
  rcases x with ⟨notes, _ | a⟩
  · rfl
  · rw [bind_ok]
    simp [result]

private theorem bind_assoc {γ : Type} (x : Journal ν ε α) (f : α → Journal ν ε β)
    (g : β → Journal ν ε γ) : x >>= f >>= g = x >>= fun a => f a >>= g := by
  rcases x with ⟨notes, _ | a⟩
  · rfl
  · rw [bind_ok, bind_ok]
    cases h : (f a).outcome <;> simp [bind, andThen, h]

instance : LawfulMonad (Journal ν ε) :=
  LawfulMonad.mk' _ bind_result (fun _ _ => rfl) bind_assoc

@[simp] theorem notes_pure (a : α) : (pure a : Journal ν ε α).notes = [] := rfl

@[simp] theorem outcome_pure (a : α) : (pure a : Journal ν ε α).outcome = .ok a := rfl

@[simp] theorem notes_liftM (x : Except ε α) : (liftM x : Journal ν ε α).notes = [] := rfl

@[simp] theorem outcome_liftM (x : Except ε α) : (liftM x : Journal ν ε α).outcome = x := rfl

@[simp] theorem notes_note (n : ν) : (note n : Journal ν ε Unit).notes = [n] := rfl

@[simp] theorem outcome_note (n : ν) : (note n : Journal ν ε Unit).outcome = .ok () := rfl

@[simp] theorem notes_fail (e : ε) : (fail e : Journal ν ε α).notes = [] := rfl

@[simp] theorem outcome_fail (e : ε) : (fail e : Journal ν ε α).outcome = .error e := rfl

theorem bind_of_ok {x : Journal ν ε α} {a : α} (h : x.outcome = .ok a) (f : α → Journal ν ε β) :
    x >>= f = ⟨x.notes ++ (f a).notes, (f a).outcome⟩ := by
  cases x
  cases h
  rfl

theorem bind_of_error {x : Journal ν ε α} {e : ε} (h : x.outcome = .error e)
    (f : α → Journal ν ε β) : x >>= f = ⟨x.notes, .error e⟩ := by
  cases x
  cases h
  rfl

theorem outcome_bind_eq_ok {x : Journal ν ε α} {f : α → Journal ν ε β} {b : β} :
    (x >>= f).outcome = .ok b ↔ ∃ a, x.outcome = .ok a ∧ (f a).outcome = .ok b := by
  cases h : x.outcome with
  | error e => simp [bind_of_error h]
  | ok a => simp [bind_of_ok h]

theorem outcome_bind_eq_error {x : Journal ν ε α} {f : α → Journal ν ε β} {e : ε} :
    (x >>= f).outcome = .error e ↔
      x.outcome = .error e ∨ ∃ a, x.outcome = .ok a ∧ (f a).outcome = .error e := by
  cases h : x.outcome with
  | error e' => simp [bind_of_error h]
  | ok a => simp [bind_of_ok h]

@[simp] theorem notes_map (f : α → β) (x : Journal ν ε α) : (f <$> x).notes = x.notes := by
  rw [map_eq_pure_bind]
  cases h : x.outcome with
  | error e => simp [bind_of_error h]
  | ok a => simp [bind_of_ok h]

@[simp] theorem outcome_map (f : α → β) (x : Journal ν ε α) :
    (f <$> x).outcome = x.outcome.map f := by
  rw [map_eq_pure_bind]
  cases h : x.outcome with
  | error e => simp [bind_of_error h, Except.map]
  | ok a => simp [bind_of_ok h, Except.map]

theorem outcome_map_eq_ok {f : α → β} {x : Journal ν ε α} {b : β} :
    (f <$> x).outcome = .ok b ↔ ∃ a, x.outcome = .ok a ∧ b = f a := by
  rw [outcome_map]
  exact map_eq_ok

/-! ## Other notes -/

/-- The same journal with each note told in another way. -/
def mapNotes {μ : Type} (g : ν → μ) (x : Journal ν ε α) : Journal μ ε α :=
  ⟨x.notes.map g, x.outcome⟩

section

variable {μ : Type} (g : ν → μ)

@[simp] theorem outcome_mapNotes (x : Journal ν ε α) : (x.mapNotes g).outcome = x.outcome := rfl

@[simp] theorem mapNotes_id (x : Journal ν ε α) : x.mapNotes id = x := by
  rw [mapNotes, List.map_id]

@[simp] theorem mapNotes_pure (a : α) : (pure a : Journal ν ε α).mapNotes g = pure a := rfl

@[simp] theorem mapNotes_bind (x : Journal ν ε α) (f : α → Journal ν ε β) :
    (x >>= f).mapNotes g = x.mapNotes g >>= fun a => (f a).mapNotes g := by
  rcases x with ⟨notes, _ | a⟩
  · rfl
  · simp [mapNotes, bind_ok]

end

/-! ## Results -/

/-- A journal that ends well ends in a result with a property. -/
def Ensures (x : Journal ν ε α) (P : α → Prop) : Prop := ∀ a, x.outcome = .ok a → P a

theorem ensures_pure {P : α → Prop} {a : α} (h : P a) : Ensures (pure a : Journal ν ε α) P := by
  rintro a' ⟨⟩
  exact h

theorem Ensures.bind {P : α → Prop} {Q : β → Prop} {x : Journal ν ε α} {f : α → Journal ν ε β}
    (hx : x.Ensures P) (hf : ∀ a, P a → (f a).Ensures Q) : (x >>= f).Ensures Q := by
  intro b h
  obtain ⟨a, ha, hb⟩ := outcome_bind_eq_ok.1 h
  exact hf a (hx a ha) b hb

theorem exists_ok_of_any {x : Except ε α} {test : α → Bool} (h : x.toOption.any test) :
    ∃ a, x = .ok a ∧ test a := by
  cases x with
  | error e => cases h
  | ok a => exact ⟨a, rfl, h⟩

theorem exists_ok_of_map {x : Except ε α} {f : α → β} {b : β} (h : x.toOption.map f = some b) :
    ∃ a, x = .ok a ∧ f a = b := by
  cases x with
  | error e => cases h
  | ok a => exact ⟨a, rfl, Option.some.inj h⟩

/-! ## Errors -/

/-- A journal ends in an error just when some error is due, and then in one that is due. -/
structure Raises (x : Journal ν ε α) (due : ε → Prop) : Prop where
  sound : ∀ e, x.outcome = .error e → due e
  complete : ∀ e, due e → ∃ e', x.outcome = .error e'

theorem raises_pure {a : α} : Raises (pure a : Journal ν ε α) fun _ => False :=
  ⟨fun _ h => by simp at h, fun _ h => h.elim⟩

theorem raises_fail {e : ε} : Raises (fail e : Journal ν ε α) fun e' => e' = e :=
  ⟨by rintro e' ⟨⟩; rfl, fun _ _ => ⟨e, rfl⟩⟩

theorem Raises.congr {x : Journal ν ε α} {due due' : ε → Prop} (h : x.Raises due)
    (hd : ∀ e, due e ↔ due' e) : x.Raises due' :=
  ⟨fun e he => (hd e).1 (h.sound e he), fun e he => h.complete e ((hd e).2 he)⟩

theorem Raises.bind {x : Journal ν ε α} {f : α → Journal ν ε β} {due due' : ε → Prop}
    (hx : x.Raises due) (hf : ∀ a, x.outcome = .ok a → (f a).Raises due') :
    (x >>= f).Raises fun e => due e ∨ due' e := by
  cases h : x.outcome with
  | error e =>
    rw [bind_of_error h]
    refine ⟨?_, fun _ _ => ⟨e, rfl⟩⟩
    rintro e' ⟨⟩
    exact Or.inl (hx.sound e h)
  | ok a =>
    rw [bind_of_ok h]
    refine ⟨fun e he => Or.inr ((hf a h).sound e he), fun e he => ?_⟩
    rcases he with he | he
    · obtain ⟨e', he'⟩ := hx.complete e he
      simp [h] at he'
    · exact (hf a h).complete e he

/-- A step that cannot end in an error. -/
theorem Raises.before {x : Journal ν ε α} {f : α → Journal ν ε β} {due : ε → Prop}
    (hx : x.Raises due) (hf : ∀ a, (f a).Raises fun _ => False) : (x >>= f).Raises due :=
  (hx.bind fun a _ => hf a).congr fun e => by simp

/-! ## Lists -/

section

variable {f : α → Except ε β} {l : List α} {bs : List β}

/-- Outcomes that are all results. -/
theorem exists_result (h : l.map f = bs.map .ok) {a : α} (ha : a ∈ l) : ∃ b ∈ bs, f a = .ok b := by
  have hm : f a ∈ bs.map .ok := h ▸ List.mem_map.2 ⟨a, ha, rfl⟩
  obtain ⟨b, hb, he⟩ := List.mem_map.1 hm
  exact ⟨b, hb, he.symm⟩

theorem exists_of_result (h : l.map f = bs.map .ok) {b : β} (hb : b ∈ bs) :
    ∃ a ∈ l, f a = .ok b := by
  have hm : .ok b ∈ l.map f := h ▸ List.mem_map.2 ⟨b, hb, rfl⟩
  exact List.mem_map.1 hm

end

/-- A list of journals ends well if all of them do. -/
theorem outcome_mapM_eq_ok {f : α → Journal ν ε β} {l : List α} {bs : List β} :
    (l.mapM f).outcome = .ok bs ↔ l.map (fun a => (f a).outcome) = bs.map .ok := by
  induction l generalizing bs with
  | nil => cases bs <;> simp
  | cons a l ih =>
    simp only [List.mapM_cons, outcome_bind_eq_ok, outcome_pure, Except.ok.injEq, ih, List.map_cons]
    constructor
    · rintro ⟨b, hb, bs, hbs, rfl⟩
      rw [hb, hbs, List.map_cons]
    · intro h
      cases bs with
      | nil => simp at h
      | cons b bs =>
        rw [List.map_cons, List.cons.injEq] at h
        exact ⟨b, h.1, bs, h.2, rfl⟩

/-- A list of journals ends in an error of one of them. -/
theorem outcome_mapM_eq_error {f : α → Journal ν ε β} {l : List α} {e : ε}
    (h : (l.mapM f).outcome = .error e) : ∃ a ∈ l, (f a).outcome = .error e := by
  induction l with
  | nil => simp at h
  | cons a l ih =>
    simp only [List.mapM_cons, outcome_bind_eq_error, outcome_pure, reduceCtorEq, and_false,
      exists_false, or_false] at h
    rcases h with h | ⟨-, -, h⟩
    · exact ⟨a, List.mem_cons_self .., h⟩
    · obtain ⟨b, hb, he⟩ := ih h
      exact ⟨b, List.mem_cons_of_mem _ hb, he⟩

theorem notes_mapM_of_ok {f : α → Journal ν ε β} {l : List α} {bs : List β}
    (h : (l.mapM f).outcome = .ok bs) : (l.mapM f).notes = l.flatMap fun a => (f a).notes := by
  induction l generalizing bs with
  | nil => simp
  | cons a l ih =>
    simp only [List.mapM_cons, outcome_bind_eq_ok] at h
    obtain ⟨b, hb, bs, hbs, -⟩ := h
    simp [bind_of_ok hb, bind_of_ok hbs, ih hbs]

/-- A list of journals makes the notes of the first of them, up to the one that fails. -/
theorem notes_mapM_initial (f : α → Journal ν ε β) (l : List α) :
    ∃ done, done <+: l ∧ (l.mapM f).notes = done.flatMap fun a => (f a).notes := by
  induction l with
  | nil => exact ⟨[], List.prefix_rfl, by simp⟩
  | cons a l ih =>
    rw [List.mapM_cons]
    cases ha : (f a).outcome with
    | error e =>
      refine ⟨[a], by simp, ?_⟩
      simp [bind_of_error ha]
    | ok b =>
      obtain ⟨done, hd, hn⟩ := ih
      refine ⟨a :: done, by simpa using hd, ?_⟩
      rw [bind_of_ok ha, List.flatMap_cons, ← hn]
      cases hl : (l.mapM f).outcome with
      | error e => simp [bind_of_error hl]
      | ok bs => simp [bind_of_ok hl]

/-- What goes on after a list of journals is noted only if all of them end well. -/
theorem notes_mapM_bind {γ : Type} (f : α → Journal ν ε β) (l : List α)
    (g : List β → Journal ν ε γ) :
    (∃ done, done <+: l ∧ (l.mapM f >>= g).notes = done.flatMap fun a => (f a).notes) ∨
      ∃ bs, (l.mapM f).outcome = .ok bs ∧
        (l.mapM f >>= g).notes = (l.flatMap fun a => (f a).notes) ++ (g bs).notes := by
  cases h : (l.mapM f).outcome with
  | error e =>
    rw [bind_of_error h]
    exact Or.inl (notes_mapM_initial f l)
  | ok bs =>
    rw [bind_of_ok h, notes_mapM_of_ok h]
    exact Or.inr ⟨bs, rfl, rfl⟩

end Journal

end DocShape
