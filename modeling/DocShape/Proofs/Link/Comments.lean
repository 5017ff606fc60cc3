import DocShape.Proofs.Link.Tags

/-!
The texts of comments are clean: there is something in them, and no white space at their ends. Trimming leaves
nothing of a blank text and makes any other one clean (`trim_eq_nil_iff`, `isClean_trim`). Paragraphs that are
clean are so together, and they stay so when their tags are replaced, as links and code spans have marks at their
ends, whatever stands between (`Text.IsClean.replaceTags`).
-/

namespace DocShape

namespace Text

variable {s t : Text} {parts : List Text}

/-! ## Trimmed texts -/

/-- There is nothing but white space in a text. -/
def IsBlank (t : Text) : Prop := ∀ c ∈ t, c.isBlank

/-- A text is not empty, and has no white space at its ends. -/
structure IsClean (t : Text) : Prop where
  ne_nil : t ≠ []
  starts : ∀ c ∈ t.head?, c.isBlank = false
  ends : ∀ c ∈ t.getLast?, c.isBlank = false

theorem trimEnd_eq_nil_iff : trimEnd t = [] ↔ t.IsBlank := by
  rw [trimEnd, List.reverse_eq_nil_iff, List.dropWhile_eq_nil_iff]
  exact forall_congr' fun c => by rw [List.mem_reverse]

theorem isBlank_trimStart_iff : (trimStart t).IsBlank ↔ t.IsBlank := by
  constructor
  · intro h c hc
    rw [← List.takeWhile_append_dropWhile (p := CodePoint.isBlank) (l := t)] at hc
    rcases List.mem_append.1 hc with hc | hc
    · exact List.mem_takeWhile_imp hc
    · exact h c hc
  · exact fun h c hc => h c ((List.dropWhile_sublist _).subset hc)

theorem trim_eq_nil_iff : trim t = [] ↔ t.IsBlank := by
  rw [trim, trimEnd_eq_nil_iff, isBlank_trimStart_iff]

theorem trimEnd_prefix (t : Text) : trimEnd t <+: t := by
  have := List.reverse_prefix.2 (List.dropWhile_suffix CodePoint.isBlank (l := t.reverse))
  rwa [List.reverse_reverse] at this

/-- The end of a text may be trimmed without a change at its start. -/
theorem isClean_trim (h : ¬ t.IsBlank) : IsClean t.trim := by
  have kept : t.trim ≠ [] := fun empty => h (trim_eq_nil_iff.1 empty)
  refine ⟨kept, fun c hc => ?_, fun c hc => ?_⟩
  · obtain ⟨rest, whole⟩ : t.trim <+: trimStart t := trimEnd_prefix (trimStart t)
    have start : (trimStart t).head? = t.trim.head? := by
      rw [← whole, List.head?_append_of_ne_nil _ kept]
    rw [← start] at hc
    exact head?_dropWhile _ t c hc
  · rw [trim, trimEnd, List.getLast?_reverse] at hc
    exact head?_dropWhile _ _ c hc

/-! ## Clean texts put together -/

/-- What stands between two clean texts does not matter. -/
theorem IsClean.around (hs : s.IsClean) (ht : t.IsClean) (between : Text) :
    IsClean (s ++ between ++ t) := by
  refine ⟨List.append_ne_nil_of_right_ne_nil _ ht.ne_nil, fun c hc => ?_, fun c hc => ?_⟩
  · rw [List.append_assoc, List.head?_append_of_ne_nil _ hs.ne_nil] at hc
    exact hs.starts c hc
  · rw [List.getLast?_append_of_ne_nil _ ht.ne_nil] at hc
    exact ht.ends c hc

theorem isClean_joinWith (separator : Text) (clean : ∀ t ∈ parts, t.IsClean) (h : parts ≠ []) :
    IsClean (joinWith separator parts) := by
  induction parts with
  | nil => exact absurd rfl h
  | cons t rest ih =>
    have first := clean t (List.mem_cons_self ..)
    cases rest with
    | nil => simpa [joinWith] using first
    | cons u rest =>
      have others := ih (fun v hv => clean v (List.mem_cons_of_mem _ hv)) (List.cons_ne_nil _ _)
      have joined : joinWith separator (t :: u :: rest) =
          t ++ separator ++ joinWith separator (u :: rest) := by
        simp [joinWith, List.intercalate]
      rw [joined]
      exact first.around others separator

theorem isClean_singleton {c : CodePoint} (h : c.isBlank = false) : IsClean [c] :=
  ⟨List.cons_ne_nil _ _, by rintro _ ⟨⟩; exact h, by rintro _ ⟨⟩; exact h⟩

end Text

namespace Link

variable {resolver : Resolver} {scope : Option Place} {s t : Text}

/-! ## Tags at the ends -/

theorem IsCodeSpan.isClean (h : IsCodeSpan s) : s.IsClean := by
  obtain ⟨code, -, rfl⟩ := h
  have mark : Text.IsClean [0x60] := Text.isClean_singleton (by decide)
  exact mark.around mark code

theorem IsLink.isClean (h : IsLink s) : s.IsClean := by
  obtain ⟨text, target, rfl⟩ := h
  have opening : Text.IsClean "[" := Text.isClean_singleton (by decide)
  have closing : Text.IsClean ")" := Text.isClean_singleton (by decide)
  have clean := opening.around closing (text ++ "](" ++ target)
  simpa only [List.append_assoc] using clean

theorem isClean_renderTag (resolver : Resolver) (scope : Option Place) {tag : Tag} {written : Text}
    (h : Tag.Written tag written) : (renderTag resolver scope tag).IsClean :=
  (renderTag_shows resolver scope h).elim IsCodeSpan.isClean IsLink.isClean

/-- A text begins with what it began with before its tags were replaced, or with a tag. -/
private theorem starts_replaceTags (h : ∀ c ∈ t.head?, c.isBlank = false) :
    ∀ c ∈ (replaceTags resolver scope t).head?, c.isBlank = false := by
  intro c hc
  cases t with
  | nil =>
    rw [replaceTags] at hc
    cases hc
  | cons d rest =>
    rw [replaceTags] at hc
    split at hc
    · rename_i tag behind hread
      obtain ⟨written, hw, -⟩ := Tag.read?_eq_some_iff.1 hread
      have clean := isClean_renderTag resolver scope hw
      rw [List.head?_append_of_ne_nil _ clean.ne_nil] at hc
      exact clean.starts c hc
    · exact h c hc

/-- Whatever tags stand before it, the end of a text is that of the text behind them, or a tag. -/
private theorem ends_replaceTags (kept : t ≠ []) (h : ∀ c ∈ t.getLast?, c.isBlank = false) :
    replaceTags resolver scope t ≠ [] ∧
      ∀ c ∈ (replaceTags resolver scope t).getLast?, c.isBlank = false := by
  fun_induction replaceTags resolver scope t with
  | case1 => exact absurd rfl kept
  | case2 c rest tag behind hread ih =>
    obtain ⟨written, hw, parts⟩ := Tag.read?_eq_some_iff.1 hread
    have clean := isClean_renderTag resolver scope hw
    refine ⟨List.append_ne_nil_of_left_ne_nil clean.ne_nil _, ?_⟩
    by_cases last : behind = []
    · rw [last, replaceTags, List.append_nil]
      exact clean.ends
    · rw [parts, List.getLast?_append_of_ne_nil _ last] at h
      obtain ⟨more, ends⟩ := ih last h
      rw [List.getLast?_append_of_ne_nil _ more]
      exact ends
  | case3 c rest hread ih =>
    refine ⟨List.cons_ne_nil _ _, ?_⟩
    by_cases last : rest = []
    · rw [last, replaceTags]
      rw [last] at h
      exact h
    · rw [List.getLast?_cons_of_ne_nil last] at h
      obtain ⟨more, ends⟩ := ih last h
      rw [List.getLast?_cons_of_ne_nil more]
      exact ends

end Link

/-- A clean text stays clean when its tags are replaced. -/
theorem Text.IsClean.replaceTags {t : Text} (h : t.IsClean) (resolver : Link.Resolver)
    (scope : Option Place) : (Link.replaceTags resolver scope t).IsClean := by
  obtain ⟨ne_nil, ends⟩ := Link.ends_replaceTags h.ne_nil h.ends
  exact ⟨ne_nil, Link.starts_replaceTags h.starts, ends⟩

namespace Link

/-! ## Comments -/

private theorem isClean_of_mem_paragraphs {texts : List Text} :
    ∀ t ∈ (texts.map Text.trim).filter (· ≠ []), Text.IsClean t := by
  intro t ht
  obtain ⟨trimmed, kept⟩ := List.mem_filter.1 ht
  obtain ⟨s, -, rfl⟩ := List.mem_map.1 trimmed
  refine Text.isClean_trim fun blank => ?_
  exact of_decide_eq_true kept (Text.trim_eq_nil_iff.2 blank)

theorem paragraphs_of_blank {comment : Comment} (summary : comment.summary.IsBlank)
    (details : comment.details.IsBlank) : paragraphs comment = [] := by
  simp [paragraphs, Text.trim_eq_nil_iff.2 summary, Text.trim_eq_nil_iff.2 details, Text.joinWith]

theorem isClean_paragraphs {comment : Comment}
    (h : ¬ (comment.summary.IsBlank ∧ comment.details.IsBlank)) : (paragraphs comment).IsClean := by
  refine Text.isClean_joinWith _ isClean_of_mem_paragraphs fun none => h ?_
  have blank : ∀ s ∈ [comment.summary, comment.details], s.IsBlank := by
    intro s hs
    have dropped := List.filter_eq_nil_iff.1 none s.trim (List.mem_map_of_mem hs)
    simpa [Text.trim_eq_nil_iff] using dropped
  exact ⟨blank _ (by simp), blank _ (by simp)⟩

/-- What is extracted from something that may be blank: nothing if it is, and a clean text if it is not. -/
inductive Extracts (blank : Prop) : Option Text → Prop
  | nothing : blank → Extracts blank none
  | text {t : Text} : ¬ blank → t.IsClean → Extracts blank (some t)

section

variable {blank : Prop} {extracted : Option Text}

theorem Extracts.eq_none_iff (h : Extracts blank extracted) : extracted = none ↔ blank := by
  cases h with
  | nothing hb => simp [hb]
  | text hb _ => simp [hb]

theorem Extracts.isClean (h : Extracts blank extracted) (ht : t ∈ extracted) : t.IsClean := by
  cases h with
  | nothing _ => cases ht
  | text _ clean =>
    cases ht
    exact clean

theorem Extracts.ne_nil (h : Extracts blank extracted) : extracted ≠ some [] :=
  fun empty => (h.isClean empty).ne_nil rfl

end

theorem extracts_plainText (resolver : Resolver) (scope : Option Place) (s : Text) :
    Extracts s.IsBlank (plainText resolver scope s) := by
  unfold plainText
  by_cases blank : s.IsBlank
  · have empty : s.trim = [] := Text.trim_eq_nil_iff.2 blank
    rw [empty]
    exact .nothing blank
  · have clean := Text.isClean_trim blank
    simp only [List.isEmpty_iff, clean.ne_nil, ↓reduceIte]
    exact .text blank (clean.replaceTags resolver scope)

theorem extracts_commentText (resolver : Resolver) (scope : Option Place) (comment : Comment) :
    Extracts (comment.summary.IsBlank ∧ comment.details.IsBlank)
      (commentText resolver scope (some comment)) := by
  unfold commentText
  simp only [Option.bind_eq_bind, Option.bind_some]
  by_cases blank : comment.summary.IsBlank ∧ comment.details.IsBlank
  · rw [paragraphs_of_blank blank.1 blank.2]
    exact .nothing blank
  · have clean := isClean_paragraphs blank
    simp only [List.isEmpty_iff, clean.ne_nil, ↓reduceIte]
    exact .text blank (clean.replaceTags resolver scope)

/-- A text is extracted from a comment just if its summary or its details hold more than white space, and from a
text just if it does itself. What is extracted is not empty and has no white space at its ends, wherever there
are tags in it and whatever titles and links they are replaced by. -/
theorem extracted_clean (resolver : Resolver) (scope : Option Place) :
    (∀ s : Text, (plainText resolver scope s = none ↔ s.IsBlank) ∧
      ∀ t ∈ plainText resolver scope s, t.IsClean) ∧
    ∀ comment : Comment, (commentText resolver scope (some comment) = none ↔
        comment.summary.IsBlank ∧ comment.details.IsBlank) ∧
      ∀ t ∈ commentText resolver scope (some comment), t.IsClean := by
  constructor
  · intro s
    have extracts := extracts_plainText resolver scope s
    exact ⟨extracts.eq_none_iff, fun t ht => extracts.isClean ht⟩
  · intro comment
    have extracts := extracts_commentText resolver scope comment
    exact ⟨extracts.eq_none_iff, fun t ht => extracts.isClean ht⟩

/-- The resolver that knows one target, whose title and link have blanks at their ends. -/
def paddedTarget : Resolver := ⟨[("Tab", ⟨" Tab ", " /t ", "/t"⟩)]⟩

/-- Tags at both ends, one of which has no target, and white space around them. -/
theorem extracted_clean_tagsAtEnds :
    ∃ t ∈ commentText paddedTarget none (some ⟨"\n\x7b@link Tab\x7d ", " or \x7b@link None | it \x7d\t", []⟩),
      t = "[ Tab ]( /t )\n\nor `it`" ∧ t.IsClean := by
  have shown : commentText paddedTarget none
      (some ⟨"\n\x7b@link Tab\x7d ", " or \x7b@link None | it \x7d\t", []⟩) =
        some "[ Tab ]( /t )\n\nor `it`" := by decide +kernel
  obtain ⟨-, comments⟩ := extracted_clean paddedTarget none
  exact ⟨_, shown, rfl, (comments _).2 _ shown⟩

/-- A comment that says what is returned and nothing else. -/
def onlyReturns : Comment := ⟨[], [], "Done."⟩

/-- Of such a comment nothing is extracted, although one of its texts is not blank. -/
theorem returns_not_extracted :
    commentText Resolver.none none (some onlyReturns) = none ∧ ¬ onlyReturns.returns.IsBlank := by
  refine ⟨by decide, fun blank => ?_⟩
  have letter := blank 0x44 (by decide)
  exact absurd letter (by decide)

end Link

end DocShape
