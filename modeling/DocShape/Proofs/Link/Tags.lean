import DocShape.Link.Tag
import Mathlib.Data.List.Basic
import Mathlib.Data.List.TakeWhile
import Mathlib.Tactic.ByContra

/-!
How inline tags are replaced. `Tag.Written` is the grammar of tags, and a tag is read just where one is
written (`Tag.read?_eq_some_iff`). It ends at the first closing brace behind its start, so that a text can be
cut behind any closing brace and its halves be rewritten apart; the first tag of a text is replaced, what
stands before it stays, and the text behind it is rewritten on its own (`replaceTags_first`).
-/

namespace DocShape.Link

/-! ## How tags are written -/

namespace Tag

/-- The words that may follow the opening one. -/
def kindWords : List Text := [[], "code", "plain"]

/-- A tag as it is written: the opening word, one of its kinds, blanks, a target, and up to the closing brace
a body that does not go on with the target. -/
inductive Written : Tag → Text → Prop
  | intro {word blanks target body : Text} : word ∈ kindWords → blanks ≠ [] →
    (∀ c ∈ blanks, c.isBlank) → target ≠ [] → (∀ c ∈ target, isTargetPoint c) →
    (∀ c ∈ body.head?, isTargetPoint c = false) → (0x7d : CodePoint) ∉ body →
    Written ⟨target, labelOf body⟩
      (("\x7b@link" : Text) ++ word ++ blanks ++ target ++ body ++ [0x7d])

variable {tag : Tag} {s rest written : Text}

private theorem isClose_iff {c : CodePoint} : isClose c ↔ c = 0x7d := by
  rw [isClose, beq_iff_eq, Fin.ext_iff]
  rfl

private theorem ne_close_of_isBlank {c : CodePoint} (h : c.isBlank) : c ≠ 0x7d := by
  rintro rfl
  exact absurd h (by decide)

private theorem ne_close_of_isTargetPoint {c : CodePoint} (h : isTargetPoint c) : c ≠ 0x7d := by
  rintro rfl
  exact absurd h (by decide)

private theorem not_isTargetPoint_of_isBlank {c : CodePoint} (h : c.isBlank) :
    isTargetPoint c = false := by
  simp [isTargetPoint, h]

private theorem not_isBlank_of_isTargetPoint {c : CodePoint} (h : isTargetPoint c) :
    c.isBlank = false := by
  by_contra blank
  rw [Bool.not_eq_false] at blank
  rw [not_isTargetPoint_of_isBlank blank] at h
  cases h

/-- The only closing brace of a tag is its end. -/
theorem Written.closes (h : Written tag written) :
    ∃ inner, written = inner ++ [0x7d] ∧ (0x7d : CodePoint) ∉ inner := by
  cases h with
  | @intro word blanks target body hw _ hb _ ht _ hc =>
    have opening : (0x7d : CodePoint) ∉ ("\x7b@link" : Text) := by decide
    have words : ∀ w ∈ kindWords, (0x7d : CodePoint) ∉ w := by decide
    have blank : (0x7d : CodePoint) ∉ blanks := fun h => ne_close_of_isBlank (hb _ h) rfl
    have named : (0x7d : CodePoint) ∉ target := fun h => ne_close_of_isTargetPoint (ht _ h) rfl
    refine ⟨_, rfl, ?_⟩
    simp only [List.mem_append, not_or]
    exact ⟨⟨⟨⟨opening, words word hw⟩, blank⟩, named⟩, hc⟩

theorem Written.opens (h : Written tag written) : ("\x7b@link" : Text) <+: written := by
  cases h
  simp only [List.append_assoc]
  exact List.prefix_append ..

theorem Written.ne_nil (h : Written tag written) : written ≠ [] := by
  obtain ⟨inner, rfl, -⟩ := h.closes
  simp

/-! ## Reading a tag -/

private theorem dropPrefix?_append (start s : Text) : Text.dropPrefix? start (start ++ s) = some s := by
  rw [Text.dropPrefix?, if_pos (List.isPrefixOf_iff_prefix.2 (List.prefix_append ..)),
    List.drop_left]

private theorem eq_append_of_dropPrefix? {start : Text} (h : Text.dropPrefix? start s = some rest) :
    s = start ++ rest := by
  unfold Text.dropPrefix? at h
  split at h
  · rename_i hp
    obtain ⟨t, rfl⟩ := List.isPrefixOf_iff_prefix.1 hp
    rw [List.drop_left, Option.some.injEq] at h
    rw [h]
  · cases h

private theorem dropPrefix?_blank {start : Text} {c d : CodePoint} (hc : c.isBlank)
    (hd : d.isBlank = false) : Text.dropPrefix? (d :: start) (c :: s) = none := by
  have other : d ≠ c := by
    rintro rfl
    rw [hc] at hd
    cases hd
  rw [Text.dropPrefix?, if_neg]
  simp [List.isPrefixOf, other]

/-- Behind the opening word stands one of its kinds, or none of them. -/
private theorem exists_kindWord (h : opening? s = some rest) :
    ∃ word ∈ kindWords, s = "\x7b@link" ++ word ++ rest := by
  unfold opening? at h
  obtain ⟨behind, hb, heq⟩ := Option.bind_eq_some_iff.1 h
  obtain rfl := eq_append_of_dropPrefix? hb
  rw [Option.pure_def, Option.some.injEq] at heq
  cases hc : Text.dropPrefix? "code" behind with
  | some r =>
    obtain rfl := eq_append_of_dropPrefix? hc
    rw [hc, Option.getD_some] at heq
    exact ⟨"code", by decide, by rw [heq, List.append_assoc]⟩
  | none =>
    rw [hc, Option.getD_none] at heq
    cases hp : Text.dropPrefix? "plain" behind with
    | some r =>
      obtain rfl := eq_append_of_dropPrefix? hp
      rw [hp, Option.getD_some] at heq
      exact ⟨"plain", by decide, by rw [heq, List.append_assoc]⟩
    | none =>
      rw [hp, Option.getD_none] at heq
      exact ⟨[], by decide, by rw [heq, List.append_nil]⟩

private theorem opening?_kindWord {word : Text} (hw : word ∈ kindWords) {c : CodePoint}
    (hc : c.isBlank) : opening? ("\x7b@link" ++ word ++ c :: s) = some (c :: s) := by
  have code : Text.dropPrefix? "code" (c :: s) = none :=
    dropPrefix?_blank hc (show (0x63 : CodePoint).isBlank = false by decide)
  have plain : Text.dropPrefix? "plain" (c :: s) = none :=
    dropPrefix?_blank hc (show (0x70 : CodePoint).isBlank = false by decide)
  have other : Text.dropPrefix? "code" (("plain" : Text) ++ c :: s) = none := rfl
  rw [opening?, List.append_assoc, dropPrefix?_append, Option.bind_eq_bind, Option.bind_some,
    Option.pure_def]
  simp only [kindWords, List.mem_cons, List.not_mem_nil, or_false] at hw
  rcases hw with rfl | rfl | rfl
  · rw [List.nil_append, code, plain]
    rfl
  · rw [dropPrefix?_append]
    rfl
  · rw [other, dropPrefix?_append]
    rfl

section

variable {p : CodePoint → Bool} {l : Text}

private theorem takeWhile_append_of_head (hl : ∀ c ∈ l, p c) (hs : ∀ c ∈ s.head?, p c = false) :
    (l ++ s).takeWhile p = l := by
  rw [List.takeWhile_append_of_pos hl]
  cases s with
  | nil => simp
  | cons c s => simp [hs c rfl]

private theorem dropWhile_append_of_head (hl : ∀ c ∈ l, p c) (hs : ∀ c ∈ s.head?, p c = false) :
    (l ++ s).dropWhile p = s := by
  rw [List.dropWhile_append_of_pos hl]
  cases s with
  | nil => rfl
  | cons c s => simp [hs c rfl]

end

/-- What a tag is read from: the text behind its opening word. -/
private theorem read?_of_opening? {blanks target body : Text}
    (h : opening? s = some (blanks ++ (target ++ (body ++ 0x7d :: rest)))) (hbn : blanks ≠ [])
    (hb : ∀ c ∈ blanks, c.isBlank) (htn : target ≠ []) (ht : ∀ c ∈ target, isTargetPoint c)
    (hgo : ∀ c ∈ body.head?, isTargetPoint c = false) (hc : (0x7d : CodePoint) ∉ body) :
    read? s = some (⟨target, labelOf body⟩, rest) := by
  have start : Text.trimStart (blanks ++ (target ++ (body ++ 0x7d :: rest))) =
      target ++ (body ++ 0x7d :: rest) := by
    refine dropWhile_append_of_head hb fun c hm => ?_
    obtain ⟨t, tail, rfl⟩ := List.exists_cons_of_ne_nil htn
    cases hm
    exact not_isBlank_of_isTargetPoint (ht _ (List.mem_cons_self ..))
  have stops : ∀ c ∈ (body ++ 0x7d :: rest).head?, isTargetPoint c = false := by
    cases body with
    | nil =>
      rintro c ⟨⟩
      decide
    | cons d body => exact hgo
  have inside : ∀ c ∈ body, (!isClose c) = true := by
    intro c hm
    rw [Bool.not_eq_true', Bool.eq_false_iff, ne_eq, isClose_iff]
    rintro rfl
    exact hc hm
  have closes : ∀ c ∈ ((0x7d : CodePoint) :: rest).head?, (!isClose c) = false := by
    rintro c ⟨⟩
    decide
  have longer : (target ++ (body ++ 0x7d :: rest)).length <
      (blanks ++ (target ++ (body ++ 0x7d :: rest))).length := by
    have := List.length_pos_iff.2 hbn
    simp only [List.length_append]
    omega
  unfold Tag.read?
  rw [h, Option.bind_eq_bind, Option.bind_some]
  simp only [start, takeWhile_append_of_head ht stops, dropWhile_append_of_head ht stops,
    takeWhile_append_of_head inside closes, dropWhile_append_of_head inside closes]
  rw [if_pos ⟨longer, htn⟩, Option.pure_def]

/-- A tag that a text starts with is read. -/
theorem Written.read? (h : Written tag written) : read? (written ++ rest) = some (tag, rest) := by
  cases h with
  | @intro word blanks target body hw hbn hb htn ht hgo hc =>
    refine read?_of_opening? ?_ hbn hb htn ht hgo hc
    obtain ⟨b, blanks, rfl⟩ := List.exists_cons_of_ne_nil hbn
    have opened := opening?_kindWord (s := blanks ++ (target ++ (body ++ 0x7d :: rest))) hw
      (hb b (List.mem_cons_self ..))
    simpa only [List.append_assoc, List.cons_append, List.nil_append] using opened

/-- A tag that is read is written so. -/
private theorem exists_written_of_read? (h : Tag.read? s = some (tag, rest)) :
    ∃ written, Written tag written ∧ s = written ++ rest := by
  unfold Tag.read? at h
  obtain ⟨behindWord, hopen, hread⟩ := Option.bind_eq_some_iff.1 h
  obtain ⟨word, hw, hword⟩ := exists_kindWord hopen
  dsimp only at hread
  split at hread
  · cases hread
  · rename_i c tail hd
    split at hread
    · rename_i hs
      cases hread
      generalize hstart : Text.trimStart behindWord = start at hd hs ⊢
      generalize hbehind : start.dropWhile isTargetPoint = behind at hd ⊢
      have hblanks : behindWord = behindWord.takeWhile CodePoint.isBlank ++ start := by
        rw [← hstart, Text.trimStart, List.takeWhile_append_dropWhile]
      have htarget : start = start.takeWhile isTargetPoint ++ behind := by
        rw [← hbehind, List.takeWhile_append_dropWhile]
      have hbody : behind = behind.takeWhile (!isClose ·) ++ c :: rest := by
        rw [← hd, List.takeWhile_append_dropWhile]
      have hc : c = 0x7d := by
        have := Text.head?_dropWhile (!isClose ·) behind c (by rw [hd]; rfl)
        rwa [Bool.not_eq_false', isClose_iff] at this
      have stops : ∀ d ∈ (behind.takeWhile (!isClose ·)).head?, isTargetPoint d = false := by
        intro d hm
        refine Text.head?_dropWhile isTargetPoint start d ?_
        rw [hbehind, hbody, List.head?_append, hm]
        rfl
      have open' : (0x7d : CodePoint) ∉ behind.takeWhile (!isClose ·) := fun hm =>
        absurd (List.mem_takeWhile_imp hm) (by decide)
      have blank : behindWord.takeWhile CodePoint.isBlank ≠ [] := by
        intro hn
        rw [hn, List.nil_append] at hblanks
        rw [hblanks] at hs
        exact Nat.lt_irrefl _ hs.1
      refine ⟨_, .intro hw blank (fun _ => List.mem_takeWhile_imp) hs.2
        (fun _ => List.mem_takeWhile_imp) stops open', ?_⟩
      rw [hword]
      conv_lhs => rw [hblanks, htarget, hbody, hc]
      simp only [List.append_assoc, List.cons_append, List.nil_append]
    · cases hread

/-- A tag is read just where one is written. -/
theorem read?_eq_some_iff :
    Tag.read? s = some (tag, rest) ↔ ∃ written, Written tag written ∧ s = written ++ rest := by
  constructor
  · exact exists_written_of_read?
  · rintro ⟨written, h, rfl⟩
    exact h.read?

end Tag

/-! ## Texts with tags -/

/-- A tag stands somewhere in a text. -/
def HasTag (t : Text) : Prop := ∃ tag written, Tag.Written tag written ∧ written <:+: t

/-- A tag, and the text before it. -/
structure Piece where
  before : Text
  tag : Tag
  written : Text

/-- The first tag of a text: none begins before it. -/
structure IsFirstTag (p : Piece) (behind t : Text) : Prop where
  parts : t = p.before ++ (p.written ++ behind)
  written : Tag.Written p.tag p.written
  first : ∀ before tag written behind, Tag.Written tag written →
    t = before ++ (written ++ behind) → p.before.length ≤ before.length

/-- A text is cut behind its first tag, then behind the first tag of what is left, and so on. -/
inductive CutAtTags : List Piece → Text → Text → Prop
  | plain {t : Text} : ¬ HasTag t → CutAtTags [] t t
  | tag {p : Piece} {pieces : List Piece} {last behind t : Text} : IsFirstTag p behind t →
    CutAtTags pieces last behind → CutAtTags (p :: pieces) last t

variable {resolver : Resolver} {scope : Option Place} {tag : Tag} {written rest t u : Text}
  {c : CodePoint}

private theorem hasTag_cons (h : HasTag (c :: t)) :
    (∃ tag written rest, Tag.Written tag written ∧ c :: t = written ++ rest) ∨ HasTag t := by
  obtain ⟨tag, written, hw, hi⟩ := h
  rcases List.infix_cons_iff.1 hi with ⟨rest, hr⟩ | hi
  · exact Or.inl ⟨tag, written, rest, hw, hr.symm⟩
  · exact Or.inr ⟨tag, written, hw, hi⟩

theorem close_mem_of_hasTag (h : HasTag t) : (0x7d : CodePoint) ∈ t := by
  obtain ⟨tag, written, hw, hi⟩ := h
  obtain ⟨inner, rfl, -⟩ := hw.closes
  exact hi.subset (by simp)

theorem opening_infix_of_hasTag (h : HasTag t) : ("\x7b@link" : Text) <:+: t := by
  obtain ⟨tag, written, hw, hi⟩ := h
  exact hw.opens.isInfix.trans hi

/-! ## Replacing them -/

theorem replaceTags_written (h : Tag.Written tag written) (rest : Text) :
    replaceTags resolver scope (written ++ rest) =
      renderTag resolver scope tag ++ replaceTags resolver scope rest := by
  have read : Tag.read? (written ++ rest) = some (tag, rest) := h.read?
  obtain ⟨c, tail, hc⟩ := List.exists_cons_of_ne_nil (List.append_ne_nil_of_left_ne_nil h.ne_nil rest)
  rw [hc] at read ⊢
  rw [replaceTags]
  split
  · rename_i tag' behind hread
    rw [read] at hread
    cases hread
    rfl
  · rename_i hread
    rw [read] at hread
    cases hread

theorem replaceTags_cons
    (h : ∀ tag written rest, Tag.Written tag written → c :: t ≠ written ++ rest) :
    replaceTags resolver scope (c :: t) = c :: replaceTags resolver scope t := by
  rw [replaceTags]
  split
  · rename_i tag behind hread
    obtain ⟨written, hw, heq⟩ := Tag.read?_eq_some_iff.1 hread
    exact absurd heq (h tag written behind hw)
  · rfl

theorem replaceTags_of_not_hasTag (h : ¬ HasTag t) : replaceTags resolver scope t = t := by
  induction t with
  | nil => rw [replaceTags]
  | cons c t ih =>
    have start : ∀ tag written rest, Tag.Written tag written → c :: t ≠ written ++ rest := by
      intro tag written rest hw heq
      exact h ⟨tag, written, hw, heq ▸ (List.prefix_append written rest).isInfix⟩
    have below : ¬ HasTag t := by
      rintro ⟨tag, written, hw, hi⟩
      exact h ⟨tag, written, hw, hi.trans (List.suffix_cons c t).isInfix⟩
    rw [replaceTags_cons start, ih below]

/-- The first tag of a text is replaced. What stands before it stays, and the text behind it is rewritten on
its own. -/
theorem replaceTags_first (h : HasTag t) : ∃ p behind, IsFirstTag p behind t ∧
    ∀ resolver scope, replaceTags resolver scope t =
      p.before ++ renderTag resolver scope p.tag ++ replaceTags resolver scope behind := by
  induction t with
  | nil =>
    have := close_mem_of_hasTag h
    cases this
  | cons c t ih =>
    by_cases start : ∃ tag written rest, Tag.Written tag written ∧ c :: t = written ++ rest
    · obtain ⟨tag, written, rest, hw, heq⟩ := start
      refine ⟨⟨[], tag, written⟩, rest, ⟨heq, hw, fun _ _ _ _ _ _ => Nat.zero_le _⟩, fun _ _ => ?_⟩
      rw [heq, replaceTags_written hw, List.nil_append]
    · obtain ⟨⟨before, tag, written⟩, behind, ⟨parts, hw, first⟩, replaced⟩ :=
        ih ((hasTag_cons h).resolve_left start)
      refine ⟨⟨c :: before, tag, written⟩, behind, ⟨by rw [parts]; rfl, hw, ?_⟩, fun _ _ => ?_⟩
      · intro before' tag' written' behind' hw' heq
        cases before' with
        | nil => exact absurd ⟨tag', written', behind', hw', heq⟩ start
        | cons d before' =>
          exact Nat.succ_le_succ (first before' tag' written' behind' hw' (List.cons.inj heq).2)
      · rw [replaceTags_cons fun tag written rest hw heq => start ⟨tag, written, rest, hw, heq⟩,
          replaced]
        rfl

private theorem eq_nil_of_last {front back : Text} (ht : (0x7d : CodePoint) ∉ t)
    (h : t ++ [0x7d] = front ++ (0x7d :: back)) : back = [] := by
  rcases List.eq_nil_or_concat' back with rfl | ⟨init, c, rfl⟩
  · rfl
  · have parts : t ++ [0x7d] = (front ++ 0x7d :: init) ++ [c] := by
      rw [h, List.append_assoc, List.cons_append]
    obtain ⟨rfl, -⟩ := List.append_inj' parts rfl
    exact absurd (by simp) ht

/-- No tag goes on behind a closing brace at the end of a text. -/
private theorem starts_of_closed {v : Text} (hu : u.getLast? = some 0x7d) (hw : Tag.Written tag written)
    (h : u ++ v = written ++ rest) : ∃ behind, u = written ++ behind := by
  rcases List.append_eq_append_iff.1 h with ⟨inside, hinside, -⟩ | ⟨behind, hbehind, -⟩
  · obtain ⟨inner, rfl, open'⟩ := hw.closes
    obtain ⟨outer, rfl⟩ := List.getLast?_eq_some_iff.1 hu
    rw [List.append_assoc, List.singleton_append] at hinside
    obtain rfl := eq_nil_of_last open' hinside
    exact ⟨[], by rw [hinside, List.append_nil]⟩
  · exact ⟨behind, hbehind⟩

/-- Behind a closing brace a text can be cut. -/
theorem replaceTags_append (hu : u = [] ∨ u.getLast? = some 0x7d) (v : Text) :
    replaceTags resolver scope (u ++ v) =
      replaceTags resolver scope u ++ replaceTags resolver scope v := by
  have closed : ∀ front back : Text, (front ++ back = [] ∨ (front ++ back).getLast? = some 0x7d) →
      back = [] ∨ back.getLast? = some 0x7d := by
    intro front back h
    rcases List.eq_nil_or_concat' back with rfl | ⟨init, c, rfl⟩
    · exact Or.inl rfl
    · refine Or.inr (h.elim (by simp) fun h => ?_)
      simpa [← List.append_assoc] using h
  fun_induction replaceTags resolver scope u with
  | case1 => rfl
  | case2 c tail tag behind hread ih =>
    obtain ⟨written, hw, heq⟩ := Tag.read?_eq_some_iff.1 hread
    rw [heq] at hu ⊢
    rw [List.append_assoc, replaceTags_written hw, ih (closed _ _ hu), List.append_assoc]
  | case3 c tail hread ih =>
    have start : ∀ tag written rest, Tag.Written tag written →
        c :: (tail ++ v) ≠ written ++ rest := by
      intro tag written rest hw heq
      obtain ⟨behind, hb⟩ := starts_of_closed (hu.resolve_left (List.cons_ne_nil _ _)) hw heq
      rw [Tag.read?_eq_some_iff.2 ⟨written, hw, hb⟩] at hread
      cases hread
    rw [List.cons_append, replaceTags_cons start, ih (closed [c] _ hu)]
    rfl

/-! ## What is shown -/

/-- A code span that is not empty. -/
def IsCodeSpan (s : Text) : Prop := ∃ code : Text, code ≠ [] ∧ s = [0x60] ++ code ++ [0x60]

/-- A link, with its text in brackets and its target in parentheses. -/
def IsLink (s : Text) : Prop := ∃ text target : Text, s = "[" ++ text ++ "](" ++ target ++ ")"

theorem renderTag_shows (resolver : Resolver) (scope : Option Place) (h : Tag.Written tag written) :
    IsCodeSpan (renderTag resolver scope tag) ∨ IsLink (renderTag resolver scope tag) := by
  unfold renderTag
  split
  · exact Or.inr ⟨_, _, rfl⟩
  · refine Or.inl ⟨_, ?_, rfl⟩
    cases h with
    | @intro word blanks target body hw hbn hb htn =>
      split
      · exact htn
      · rename_i label
        exact fun empty => label (by rw [empty]; rfl)

/-- A text as the pieces and the rest that it is cut into. -/
theorem exists_cutAtTags (t : Text) : ∃ pieces last, CutAtTags pieces last t ∧
    t = (pieces.flatMap fun p => p.before ++ p.written) ++ last ∧
    ∀ resolver scope, replaceTags resolver scope t =
      (pieces.flatMap fun p => p.before ++ renderTag resolver scope p.tag) ++ last := by
  by_cases h : HasTag t
  · obtain ⟨p, behind, first, replaced⟩ := replaceTags_first h
    have shorter : behind.length < t.length := by
      have := List.length_pos_iff.2 first.written.ne_nil
      rw [first.parts]
      simp only [List.length_append]
      omega
    obtain ⟨pieces, last, cut, parts, rewritten⟩ := exists_cutAtTags behind
    refine ⟨p :: pieces, last, .tag first cut, ?_, fun resolver scope => ?_⟩
    · rw [first.parts, List.flatMap_cons]
      conv_lhs => rw [parts]
      simp only [List.append_assoc]
    · rw [replaced, rewritten, List.flatMap_cons]
      simp only [List.append_assoc]
  · exact ⟨[], t, .plain h, rfl, fun resolver scope => replaceTags_of_not_hasTag h⟩
termination_by t.length

/-- Tags are replaced one by one, each for itself. A text can be cut behind any closing brace; a text without
a closing brace or without an opening word stays; of a text whose only closing brace is its end at most one
tag is replaced, the first one, by a code span or a link; and any text keeps what stands between its tags. -/
theorem replaceTags_local (resolver : Resolver) (scope : Option Place) :
    (∀ u v : Text, u = [] ∨ u.getLast? = some 0x7d → replaceTags resolver scope (u ++ v) =
      replaceTags resolver scope u ++ replaceTags resolver scope v) ∧
    (∀ t : Text, (0x7d : CodePoint) ∉ t ∨ ¬ ("\x7b@link" : Text) <:+: t →
      replaceTags resolver scope t = t) ∧
    (∀ t : Text, (0x7d : CodePoint) ∉ t →
      ¬ HasTag (t ++ [0x7d]) ∧ replaceTags resolver scope (t ++ [0x7d]) = t ++ [0x7d] ∨
      ∃ p, IsFirstTag p [] (t ++ [0x7d]) ∧
        replaceTags resolver scope (t ++ [0x7d]) = p.before ++ renderTag resolver scope p.tag ∧
        (IsCodeSpan (renderTag resolver scope p.tag) ∨ IsLink (renderTag resolver scope p.tag))) ∧
    ∀ t : Text, ∃ pieces last, CutAtTags pieces last t ∧
      t = (pieces.flatMap fun p => p.before ++ p.written) ++ last ∧
      replaceTags resolver scope t =
        (pieces.flatMap fun p => p.before ++ renderTag resolver scope p.tag) ++ last := by
  refine ⟨fun u v hu => replaceTags_append hu v, fun t ht => ?_, fun t ht => ?_, fun t => ?_⟩
  · refine replaceTags_of_not_hasTag fun h => ?_
    exact ht.elim (· (close_mem_of_hasTag h)) (· (opening_infix_of_hasTag h))
  · by_cases h : HasTag (t ++ [0x7d])
    · obtain ⟨p, behind, first, replaced⟩ := replaceTags_first h
      -- The tag takes the only closing brace, so that nothing is left behind it.
      obtain ⟨inner, hinner, -⟩ := first.written.closes
      have parts : t ++ [0x7d] = (p.before ++ inner) ++ 0x7d :: behind := by
        rw [first.parts, hinner, List.append_assoc, List.append_assoc, List.singleton_append]
      obtain rfl := eq_nil_of_last ht parts
      rw [replaced, replaceTags, List.append_nil]
      exact Or.inr ⟨p, first, rfl, renderTag_shows resolver scope first.written⟩
    · exact Or.inl ⟨h, replaceTags_of_not_hasTag h⟩
  · obtain ⟨pieces, last, cut, parts, rewritten⟩ := exists_cutAtTags t
    exact ⟨pieces, last, cut, parts, rewritten resolver scope⟩

/-- The resolver that knows one target. -/
def tabTarget : Resolver := ⟨[("Tab", ⟨"Tab", "/t/#type-Tab", "/t/"⟩)]⟩

/-- Two texts with one tag each, of which the second has no target, and a tag that is not closed. -/
theorem replaceTags_local_twoTags :
    ("a \x7b@link Tab\x7d" : Text).getLast? = some 0x7d ∧
    (0x7d : CodePoint) ∉ ("\x7b@link Tab" : Text) ∧
    replaceTags tabTarget none (("a \x7b@link Tab\x7d" : Text) ++ (" \x7b@linkcode x | y \x7d" : Text)) =
      ("a [Tab](/t/#type-Tab)" : Text) ++ (" `y`" : Text) ∧
    replaceTags tabTarget none "\x7b@link Tab" = "\x7b@link Tab" := by
  have closed : ("a \x7b@link Tab\x7d" : Text).getLast? = some 0x7d := by decide
  have unclosed : (0x7d : CodePoint) ∉ ("\x7b@link Tab" : Text) := by decide
  have known : replaceTags tabTarget none "a \x7b@link Tab\x7d" = "a [Tab](/t/#type-Tab)" := by
    decide +kernel
  have unknown : replaceTags tabTarget none " \x7b@linkcode x | y \x7d" = " `y`" := by decide +kernel
  obtain ⟨apart, stays, -⟩ := replaceTags_local tabTarget none
  exact ⟨closed, unclosed, by rw [apart _ _ (Or.inr closed), known, unknown], stays _ (Or.inl unclosed)⟩

end DocShape.Link
