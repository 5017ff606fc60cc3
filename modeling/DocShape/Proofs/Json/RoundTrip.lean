import DocShape.Proofs.Json.Literals
import DocShape.Proofs.Table
import Mathlib.Algebra.Ring.Int.Defs

/-!
What is written can be read back. A value without floating-point numbers and without joined surrogate
pairs is written as tokens (`readsApart_writeAt`) from which the reader builds the value again
(`run_tokens`), at every blank indentation; `outputTextWith_readable` says so for every setting, and
when a setting or an integer has no text.
-/

namespace DocShape.Json

/-! ## The tokens of a value -/

namespace Value

mutual

/-- The tokens that a value is written as. -/
def tokens : Value → List Token
  | .text t => [.text t]
  | .array [] => [.openArray, .closeArray]
  | .array (item :: rest) => .openArray :: (item.tokens ++ (itemsTokens rest ++ [.closeArray]))
  | .object [] => [.openObject, .closeObject]
  | .object ((key, v) :: rest) =>
    .openObject :: .text key :: .colon :: (v.tokens ++ (membersTokens rest ++ [.closeObject]))
  | v => [.scalar v]

/-- The tokens of the items behind the first one. -/
def itemsTokens : List Value → List Token
  | [] => []
  | item :: rest => .comma :: (item.tokens ++ itemsTokens rest)

/-- The tokens of the members behind the first one. -/
def membersTokens : List (Text × Value) → List Token
  | [] => []
  | (key, v) :: rest => .comma :: .text key :: .colon :: (v.tokens ++ membersTokens rest)

end

end Value

/-- A value whose text gives it back: no floating-point number, no key twice in an object, no pair of
surrogates. -/
inductive Plain : Value → Prop
  | null : Plain .null
  | bool (b : Bool) : Plain (.bool b)
  | int (n : Int) : Plain (.int n)
  | text {t : Text} (ht : Unpaired t) : Plain (.text t)
  | array {items : List Value} (hitems : ∀ v ∈ items, Plain v) : Plain (.array items)
  | object {members : Members} (distinct : (Table.keys members).Nodup)
    (hkeys : ∀ m ∈ members, Unpaired m.1) (hvalues : ∀ m ∈ members, Plain m.2) :
    Plain (.object members)

/-! ## From tokens to the value -/

namespace Reading

private theorem run_cons {token : Token} {r r' : Reading} (h : r.step token = .ok r')
    (ts : List Token) : run (token :: ts) r = run ts r' := by
  rw [run, h]

/-- No value starts with the end of an array. -/
private theorem run_firstItem (v : Value) (ts : List Token) (stack : List Frame) :
    run (v.tokens ++ ts) ⟨.firstItem, stack⟩ = run (v.tokens ++ ts) ⟨.value, .array [] :: stack⟩ := by
  cases v with
  | array items => cases items <;> rfl
  | object members => cases members <;> rfl
  | _ => rfl

private theorem run_itemsTokens {items : List Value}
    (ih : ∀ v ∈ items, ∀ ts stack,
      run (v.tokens ++ ts) ⟨.value, stack⟩ = run ts ⟨.finished v, stack⟩)
    (v : Value) (done : List Value) (ts : List Token) (stack : List Frame) :
    run (Value.itemsTokens items ++ .closeArray :: ts) ⟨.finished v, .array done :: stack⟩ =
      run ts ⟨.finished (.array (done.reverse ++ v :: items)), stack⟩ := by
  induction items generalizing v done with
  | nil =>
    have close : (⟨.finished v, .array done :: stack⟩ : Reading).step .closeArray =
        .ok ⟨.finished (.array (v :: done).reverse), stack⟩ := rfl
    rw [Value.itemsTokens, List.nil_append, run_cons close, List.reverse_cons]
  | cons item rest ihrest =>
    obtain ⟨hitem, hrest⟩ := List.forall_mem_cons.1 ih
    have comma : (⟨.finished v, .array done :: stack⟩ : Reading).step .comma =
        .ok ⟨.value, .array (v :: done) :: stack⟩ := rfl
    rw [Value.itemsTokens, List.cons_append, run_cons comma, List.append_assoc, hitem,
      ihrest hrest item (v :: done), List.reverse_cons, List.append_assoc]
    rfl

/-- A key that is not repeated is assigned behind all others. -/
private theorem put_of_distinct {done members : Members} {key : Text} {v : Value}
    (h : (Table.keys (done ++ (key, v) :: members)).Nodup) :
    Table.put done key v = done ++ [(key, v)] := by
  apply Table.put_of_not_mem
  intro hk
  rw [Table.keys, List.map_append] at h
  exact List.disjoint_of_nodup_append h hk (List.mem_cons_self ..)

private theorem run_membersTokens {members : Members}
    (ih : ∀ m ∈ members, ∀ ts stack,
      run (m.2.tokens ++ ts) ⟨.value, stack⟩ = run ts ⟨.finished m.2, stack⟩)
    (key : Text) (v : Value) (done : Members)
    (distinct : (Table.keys (done ++ (key, v) :: members)).Nodup)
    (ts : List Token) (stack : List Frame) :
    run (Value.membersTokens members ++ .closeObject :: ts)
        ⟨.finished v, .object done key :: stack⟩ =
      run ts ⟨.finished (.object (done ++ (key, v) :: members)), stack⟩ := by
  have put := put_of_distinct distinct
  induction members generalizing key v done with
  | nil =>
    have close : (⟨.finished v, .object done key :: stack⟩ : Reading).step .closeObject =
        .ok ⟨.finished (.object (Table.put done key v)), stack⟩ := rfl
    rw [Value.membersTokens, List.nil_append, run_cons close, put]
  | cons m rest ihrest =>
    obtain ⟨k, w⟩ := m
    obtain ⟨hw, hrest⟩ := List.forall_mem_cons.1 ih
    have shift : done ++ (key, v) :: (k, w) :: rest = (done ++ [(key, v)]) ++ (k, w) :: rest := by
      simp
    have comma : (⟨.finished v, .object done key :: stack⟩ : Reading).step .comma =
        .ok ⟨.key (Table.put done key v), stack⟩ := rfl
    rw [shift] at distinct ⊢
    have name : (⟨.key (done ++ [(key, v)]), stack⟩ : Reading).step (.text k) =
        .ok ⟨.colon (done ++ [(key, v)]) k, stack⟩ := rfl
    have colon : (⟨.colon (done ++ [(key, v)]) k, stack⟩ : Reading).step .colon =
        .ok ⟨.value, .object (done ++ [(key, v)]) k :: stack⟩ := rfl
    rw [Value.membersTokens, List.cons_append, run_cons comma, put, List.cons_append,
      run_cons name, List.cons_append, run_cons colon, List.append_assoc, hw,
      ihrest hrest k w (done ++ [(key, v)]) distinct (put_of_distinct distinct)]

/-- The tokens of a value are read as the value. -/
theorem run_tokens {v : Value} (hv : Plain v) (ts : List Token) (stack : List Frame) :
    run (v.tokens ++ ts) ⟨.value, stack⟩ = run ts ⟨.finished v, stack⟩ := by
  induction hv generalizing ts stack with
  | null => rfl
  | bool b => rfl
  | int n => rfl
  | text ht => rfl
  | @array items hitems ih =>
    cases items with
    | nil => rfl
    | cons item rest =>
      obtain ⟨hitem, hrest⟩ := List.forall_mem_cons.1 ih
      have opening : (⟨.value, stack⟩ : Reading).step .openArray = .ok ⟨.firstItem, stack⟩ := rfl
      rw [Value.tokens, List.cons_append, run_cons opening, List.append_assoc, run_firstItem, hitem,
        List.append_assoc]
      exact run_itemsTokens hrest item [] ts stack
  | @object members distinct hkeys hvalues ih =>
    cases members with
    | nil => rfl
    | cons m rest =>
      obtain ⟨key, v⟩ := m
      obtain ⟨hv, hrest⟩ := List.forall_mem_cons.1 ih
      have opening : (⟨.value, stack⟩ : Reading).step .openObject = .ok ⟨.firstKey, stack⟩ := rfl
      have name : (⟨.firstKey, stack⟩ : Reading).step (.text key) = .ok ⟨.colon [] key, stack⟩ := rfl
      have colon : (⟨.colon [] key, stack⟩ : Reading).step .colon =
          .ok ⟨.value, .object [] key :: stack⟩ := rfl
      rw [Value.tokens, List.cons_append, run_cons opening, List.cons_append, run_cons name,
        List.cons_append, run_cons colon, List.append_assoc, hv, List.append_assoc]
      exact run_membersTokens hrest key v [] distinct ts stack

end Reading


/-! ## From the text to tokens -/

theorem Reads.append {s s' : Text} {ts ts' : List Token} (h : Reads s ts) (h' : Reads s' ts') :
    Reads (s ++ s') (ts ++ ts') := by
  intro rest
  rw [List.append_assoc, h, h', List.append_assoc]

theorem Reads.apart {s : Text} {ts : List Token} (h : Reads s ts) : ReadsApart s ts :=
  fun rest _ => h rest

/-- A text that may follow a number, with its tokens. -/
structure Follows (s : Text) (ts : List Token) : Prop where
  reads : Reads s ts
  ends : ∀ rest, Ends (s ++ rest)

theorem ReadsApart.append {s s' : Text} {ts ts' : List Token} (h : ReadsApart s ts)
    (h' : Follows s' ts') : Reads (s ++ s') (ts ++ ts') := by
  intro rest
  rw [List.append_assoc, h _ (h'.ends rest), h'.reads, List.append_assoc]

private theorem ends_of_isSpace {c : CodePoint} (hc : isSpace c) (s : Text) : Ends (c :: s) := by
  intro d hd
  cases hd
  rw [CodePoint.isDigit_iff]
  simp only [isSpace, Bool.or_eq_true, beq_iff_eq] at hc
  omega

theorem Follows.append {s s' : Text} {ts ts' : List Token} (h : Follows s ts) (h' : Reads s' ts') :
    Follows (s ++ s') (ts ++ ts') := by
  refine ⟨h.reads.append h', fun rest => ?_⟩
  rw [List.append_assoc]
  exact h.ends (s' ++ rest)

/-- A closing bracket after blanks. -/
private theorem follows_close {blanks : Text} (hb : ∀ c ∈ blanks, isSpace c) {c : CodePoint}
    {token : Token} (hc : punctuation? c = some token) : Follows (blanks ++ [c]) [token] := by
  refine ⟨(reads_blanks hb).append (reads_punctuation hc), fun rest => ?_⟩
  cases blanks with
  | nil => exact (punctuation_apart hc).2 rest
  | cons b blanks => exact ends_of_isSpace (hb b (List.mem_cons_self ..)) _

/-- The indentation of a form is blank. -/
def Form.Blank (form : Form) : Prop := ∀ indent ∈ form.indent, ∀ c ∈ indent, isSpace c

private theorem isSurrogate_of_isSpace {c : CodePoint} (h : isSpace c) : c.isSurrogate = false := by
  simp only [isSpace, Bool.or_eq_true, beq_iff_eq] at h
  simp only [CodePoint.isSurrogate, CodePoint.isHighSurrogate, CodePoint.isLowSurrogate,
    Bool.or_eq_false_iff, Bool.and_eq_false_iff, decide_eq_false_iff_not]
  omega

namespace Form

variable {form : Form}

private theorem isSpace_lineBreak (hform : form.Blank) (level : Nat) :
    ∀ c ∈ form.lineBreak level, isSpace c := by
  intro c hc
  unfold lineBreak at hc
  cases hi : form.indent with
  | none =>
    rw [hi] at hc
    cases hc
  | some indent =>
    rw [hi] at hc
    rcases List.mem_append.1 hc with hc | hc
    · rw [List.mem_singleton.1 hc]
      rfl
    · obtain ⟨t, ht, hct⟩ := List.mem_flatten.1 hc
      rw [List.eq_of_mem_replicate ht] at hct
      exact hform indent hi c hct

private theorem escapeSurrogates_lineBreak (hform : form.Blank) (level : Nat) :
    (form.lineBreak level).escapeSurrogates = form.lineBreak level :=
  Text.escapeSurrogates_of_none fun c hc => isSurrogate_of_isSpace (isSpace_lineBreak hform level c hc)

/-- An opening bracket and the line break behind it. -/
private theorem reads_opening (hform : form.Blank) {s : Text} {c : CodePoint} {token : Token}
    (hs : s.escapeSurrogates = [c]) (hc : punctuation? c = some token) (level : Nat) :
    Reads (s.escapeSurrogates ++ (form.lineBreak level).escapeSurrogates) [token] := by
  rw [hs, escapeSurrogates_lineBreak hform]
  exact (reads_punctuation hc).append (reads_blanks (isSpace_lineBreak hform level))

/-- A line break and the closing bracket behind it. -/
private theorem follows_closing (hform : form.Blank) {s : Text} {c : CodePoint} {token : Token}
    (hs : s.escapeSurrogates = [c]) (hc : punctuation? c = some token) (level : Nat) :
    Follows ((form.lineBreak level).escapeSurrogates ++ s.escapeSurrogates) [token] := by
  rw [hs, escapeSurrogates_lineBreak hform]
  exact follows_close (isSpace_lineBreak hform level) hc

/-- A separator is a comma and blanks. -/
private theorem follows_separator (hform : form.Blank) (level : Nat) :
    Follows (form.separator level).escapeSurrogates [.comma] := by
  have comma_then : ∀ blanks : Text, (∀ c ∈ blanks, isSpace c) →
      Follows (Text.escapeSurrogates (0x2c :: blanks)) [.comma] := by
    intro blanks hb
    have same : Text.escapeSurrogates (0x2c :: blanks) = [0x2c] ++ blanks :=
      Text.escapeSurrogates_of_none (List.forall_mem_cons.2
        ⟨rfl, fun c hc => isSurrogate_of_isSpace (hb c hc)⟩)
    rw [same]
    exact ⟨(reads_punctuation rfl).append (reads_blanks hb), fun rest =>
      (punctuation_apart (rfl : punctuation? 0x2c = some .comma)).2 (blanks ++ rest)⟩
  unfold separator
  cases form.indent with
  | none => exact comma_then [0x20] (List.forall_mem_singleton.2 rfl)
  | some indent => exact comma_then (form.lineBreak level) (isSpace_lineBreak hform level)

end Form

namespace Value

variable {form : Form}

theorem overlongIntegerInItems_eq_false {items : List Value} :
    overlongIntegerInItems items = false ↔ ∀ v ∈ items, v.hasOverlongInteger = false := by
  induction items with
  | nil => simp [overlongIntegerInItems]
  | cons v rest ih => simp [overlongIntegerInItems, ih]

theorem overlongIntegerInMembers_eq_false {members : Members} :
    overlongIntegerInMembers members = false ↔ ∀ m ∈ members, m.2.hasOverlongInteger = false := by
  induction members with
  | nil => simp [overlongIntegerInMembers]
  | cons m rest ih =>
    obtain ⟨key, v⟩ := m
    simp [overlongIntegerInMembers, ih]

private theorem follows_writeItems (hform : form.Blank) {level : Nat} {items : List Value}
    (ih : ∀ v ∈ items, ReadsApart (v.writeAt form level).escapeSurrogates v.tokens)
    {s : Text} {ts : List Token} (h : Follows s ts) :
    Follows ((writeItems form level items).escapeSurrogates ++ s) (itemsTokens items ++ ts) := by
  induction items with
  | nil => exact h
  | cons item rest ihrest =>
    obtain ⟨hitem, hrest⟩ := List.forall_mem_cons.1 ih
    have later := hitem.append (ihrest hrest)
    have all := (form.follows_separator hform level).append later
    simpa [writeItems, itemsTokens] using all

/-- A key is written as a text, a colon and a blank. -/
private theorem reads_key (hascii : form.ascii = false) {key : Text} (hkey : Unpaired key) :
    Reads ((writeText form.ascii key).escapeSurrogates ++ Text.escapeSurrogates ": ")
      [.text key, .colon] := by
  have colon : Reads (Text.escapeSurrogates ": ") [.colon] := by
    have form : Text.escapeSurrogates ": " = [0x3a] ++ [0x20] := rfl
    rw [form]
    exact (reads_punctuation rfl).append (reads_blanks (List.forall_mem_singleton.2 rfl))
  rw [hascii]
  exact (reads_text hkey).append colon

private theorem follows_writeMembers (hform : form.Blank) (hascii : form.ascii = false)
    {level : Nat} {members : Members} (hkeys : ∀ m ∈ members, Unpaired m.1)
    (ih : ∀ m ∈ members, ReadsApart (m.2.writeAt form level).escapeSurrogates m.2.tokens)
    {s : Text} {ts : List Token} (h : Follows s ts) :
    Follows ((writeMembers form level members).escapeSurrogates ++ s)
      (membersTokens members ++ ts) := by
  induction members with
  | nil => exact h
  | cons m rest ihrest =>
    obtain ⟨key, v⟩ := m
    obtain ⟨hv, hrest⟩ := List.forall_mem_cons.1 ih
    obtain ⟨hkey, hkeysrest⟩ := List.forall_mem_cons.1 hkeys
    have later := hv.append (ihrest hkeysrest hrest)
    have named := (reads_key hascii hkey).append later
    have all := (form.follows_separator hform level).append named
    simpa [writeMembers, membersTokens] using all

/-- Every plain value is written as its tokens. -/
theorem readsApart_writeAt (hform : form.Blank) (hascii : form.ascii = false) {v : Value}
    (hv : Plain v) (short : v.hasOverlongInteger = false) (level : Nat) :
    ReadsApart (v.writeAt form level).escapeSurrogates v.tokens := by
  induction hv generalizing level with
  | null => exact reads_null.apart
  | bool b =>
    have h := (reads_bool b).apart
    cases b <;> exact h
  | int n =>
    rw [writeAt]
    exact readsApart_integer (by simpa [hasOverlongInteger] using short)
  | text ht =>
    rw [writeAt, hascii]
    exact (reads_text ht).apart
  | @array items hitems ih =>
    have hshort := overlongIntegerInItems_eq_false.1 short
    cases items with
    | nil => exact Reads.apart ((reads_punctuation rfl).append (reads_punctuation rfl))
    | cons item rest =>
      obtain ⟨hitem, hrest⟩ := List.forall_mem_cons.1 fun v hv => ih v hv (hshort v hv) (level + 1)
      have close := form.follows_closing hform (rfl : Text.escapeSurrogates "]" = [0x5d]) rfl level
      have body := hitem.append (follows_writeItems hform hrest close)
      have opening := form.reads_opening hform (rfl : Text.escapeSurrogates "[" = [0x5b]) rfl
        (level + 1)
      have all := (opening.append body).apart
      simpa [writeAt, tokens] using all
  | @object members distinct hkeys hvalues ih =>
    have hshort := overlongIntegerInMembers_eq_false.1 short
    cases members with
    | nil => exact Reads.apart ((reads_punctuation rfl).append (reads_punctuation rfl))
    | cons m rest =>
      obtain ⟨key, v⟩ := m
      obtain ⟨hkey, hkeysrest⟩ := List.forall_mem_cons.1 hkeys
      obtain ⟨hv, hrest⟩ := List.forall_mem_cons.1 fun m hm => ih m hm (hshort m hm) (level + 1)
      have close := form.follows_closing hform (rfl : Text.escapeSurrogates "\x7d" = [0x7d]) rfl level
      have body := hv.append (follows_writeMembers hform hascii hkeysrest hrest close)
      have named := (reads_key hascii hkey).append body
      have opening := form.reads_opening hform (rfl : Text.escapeSurrogates "\x7b" = [0x7b]) rfl
        (level + 1)
      have all := (opening.append named).apart
      simpa [writeAt, tokens] using all

end Value

/-! ## Settings -/

theorem read_of_readsApart {s : Text} {v : Value} (hv : Plain v) (h : ReadsApart s v.tokens) :
    read s = .ok v := by
  have whole : tokens s = v.tokens ++ [] := by
    have hnil := h [] (fun c hc => by cases hc)
    rwa [List.append_nil, show tokens [] = [] by rw [tokens]] at hnil
  have hrun := Reading.run_tokens hv [] []
  rw [read, whole, hrun]
  rfl

/-- A setting that is null, a truth value, an integer or blank text. -/
inductive Spacing : Value → Prop
  | null : Spacing .null
  | bool (b : Bool) : Spacing (.bool b)
  | int (n : Int) : Spacing (.int n)
  | text {t : Text} (ht : ∀ c ∈ t, isSpace c) : Spacing (.text t)

/-- A bare text fits under every setting, all else where a number of spaces has 64 bits. -/
def Fits (setting v : Value) : Prop :=
  (∃ t, v = .text t) ∨ ∀ n, setting = .int n → -2 ^ 63 ≤ n ∧ n < 2 ^ 63

private theorem twoTo_63 : (twoTo 63 : Int) = 2 ^ 63 := rfl

private theorem indentOf_number {setting v : Value} {n : Int} (h : setting.toInt? = some n) :
    ((∃ t, v = .text t) ∧ indentOf setting v = .ok none) ∨
      ((∀ t, v ≠ .text t) ∧ indentOf setting v =
        if twoTo 63 ≤ n ∨ n < -twoTo 63 then .error .tooWide
        else .ok (some (List.replicate n.toNat 0x20))) := by
  cases setting with
  | bool b =>
    cases h
    cases v with
    | text t => exact .inl ⟨⟨t, rfl⟩, rfl⟩
    | _ => exact .inr ⟨nofun, rfl⟩
  | int m =>
    cases h
    cases v with
    | text t => exact .inl ⟨⟨t, rfl⟩, rfl⟩
    | _ => exact .inr ⟨nofun, rfl⟩
  | _ => cases h

private theorem none_blank : Form.Blank ⟨none, false⟩ := by
  intro indent h
  cases h

private theorem spaces_blank (n : Nat) : Form.Blank ⟨some (List.replicate n 0x20), false⟩ := by
  intro indent h c hc
  cases h
  rw [List.eq_of_mem_replicate hc]
  rfl

theorem indentOf_ok {setting v : Value} (hs : Spacing setting) (hfits : Fits setting v) :
    ∃ indent, indentOf setting v = .ok indent ∧ Form.Blank ⟨indent, false⟩ := by
  -- the truth values are numbers of spaces too, and fit
  have number : ∀ n, setting.toInt? = some n → (-2 ^ 63 ≤ n ∧ n < 2 ^ 63 ∨ ∃ t, v = .text t) →
      ∃ indent, indentOf setting v = .ok indent ∧ Form.Blank ⟨indent, false⟩ := by
    intro n hn hrange
    rcases indentOf_number hn (v := v) with ⟨-, h⟩ | ⟨hne, h⟩
    · exact ⟨none, h, none_blank⟩
    · obtain ⟨hlow, hhigh⟩ := hrange.resolve_right fun ⟨t, ht⟩ => hne t ht
      have range : ¬ (twoTo 63 ≤ n ∨ n < -twoTo 63) := by
        rw [twoTo_63]
        omega
      rw [if_neg range] at h
      exact ⟨_, h, spaces_blank n.toNat⟩
  cases hs with
  | null => exact ⟨none, rfl, none_blank⟩
  | bool b => exact number _ rfl (.inl (by cases b <;> decide))
  | int n =>
    rcases hfits with ht | hrange
    · exact number n rfl (.inr ht)
    · exact number n rfl (.inl (hrange n rfl))
  | @text t ht =>
    refine ⟨some t, rfl, fun indent h => ?_⟩
    cases h
    exact ht

theorem indentOf_tooWide {setting v : Value} (hs : Spacing setting) (hfits : ¬ Fits setting v) :
    indentOf setting v = .error .tooWide := by
  unfold Fits at hfits
  push Not at hfits
  obtain ⟨hne, n, rfl, hrange⟩ := hfits
  rcases indentOf_number (rfl : (Value.int n).toInt? = some n) (v := v) with ⟨⟨t, ht⟩, -⟩ | ⟨-, h⟩
  · exact absurd ht (hne t)
  · have range : twoTo 63 ≤ n ∨ n < -twoTo 63 := by
      rw [twoTo_63]
      omega
    rwa [if_pos range] at h

theorem read_outputText_text {t : Text} (h : Unpaired t) :
    read ((Value.text t).outputText none) = .ok (.text t) :=
  read_of_readsApart (.text h) (Value.readsApart_writeAt none_blank rfl (.text h) rfl 0)

/-- Where the setting fits and no integer is too long, the text has no surrogate and is read as the
value that was written; otherwise there is no text. -/
theorem outputTextWith_readable {setting v : Value} (hs : Spacing setting) (hv : Plain v) :
    (Fits setting v → v.hasOverlongInteger = false →
      ∃ text, outputTextWith setting v = .ok text ∧ (∀ c ∈ text, c.isSurrogate = false) ∧
        read text = .ok v) ∧
    (Fits setting v → v.hasOverlongInteger →
      outputTextWith setting v = .error .integerTooLong) ∧
    (¬ Fits setting v → outputTextWith setting v = .error .tooWide) := by
  refine ⟨fun hfits short => ?_, fun hfits long => ?_, fun hfits => ?_⟩
  · obtain ⟨indent, hindent, hblank⟩ := indentOf_ok hs hfits
    have written : outputTextWith setting v = .ok (v.outputText indent) := by
      rw [outputTextWith, hindent]
      simp [short, bind, Except.bind, pure, Except.pure]
    have reads := Value.readsApart_writeAt hblank rfl hv short 0
    exact ⟨_, written, fun c hc => Text.isSurrogate_of_mem_escapeSurrogates hc,
      read_of_readsApart hv reads⟩
  · obtain ⟨indent, hindent, -⟩ := indentOf_ok hs hfits
    rw [outputTextWith, hindent]
    simp [long, bind, Except.bind, throw, throwThe, MonadExceptOf.throw]
  · rw [outputTextWith, indentOf_tooWide hs hfits]
    rfl

/-- Escapes, a backslash in front of half a pair, and empty containers, indented by a tab. -/
theorem outputTextWith_readable_nested :
    let v : Value := .object
      [([0x5c, 0xd800], .array [.object [], .text [0xdc00, 0xd800, 0x22], .int (-7)]),
        ([], .array []), ([0x1f600], .bool true)]
    Spacing (.text "\t") ∧ Plain v ∧ Fits (.text "\t") v ∧ v.hasOverlongInteger = false ∧
      ∃ text, outputTextWith (.text "\t") v = .ok text ∧ (∀ c ∈ text, c.isSurrogate = false) ∧
        read text = .ok v := by
  intro v
  have unpaired : ∀ t ∈ ([[0x5c, 0xd800], [0xdc00, 0xd800, 0x22], [], [0x1f600]] : List Text),
      Unpaired t := by
    unfold Unpaired
    decide
  simp only [List.forall_mem_cons] at unpaired
  obtain ⟨hkey, htext, hempty, hface, -⟩ := unpaired
  have hs : Spacing (.text "\t") := .text (List.forall_mem_singleton.2 rfl)
  have hv : Plain v := by
    refine .object (by decide) (by simp [hkey, hempty, hface]) ?_
    simp only [List.forall_mem_cons]
    refine ⟨.array ?_, .array nofun, .bool true, nofun⟩
    simp only [List.forall_mem_cons]
    exact ⟨.object (by decide) nofun nofun, .text htext, .int (-7), nofun⟩
  have hfits : Fits (.text "\t") v := .inr nofun
  have short : v.hasOverlongInteger = false := by
    simp [v, Value.hasOverlongInteger, Value.overlongIntegerInMembers, Value.overlongIntegerInItems,
      Text.decimal, integerDigitLimit]
  exact ⟨hs, hv, hfits, short, (outputTextWith_readable hs hv).1 hfits short⟩

private theorem lt_length_decimal {k n : Nat} (h : Nat.pow 10 k ≤ n) :
    k < (Text.decimal n).length := by
  induction k generalizing n with
  | zero =>
    obtain ⟨c, rest, hd, -⟩ := Text.decimal_starts n
    rw [hd, List.length_cons]
    omega
  | succ k ih =>
    have hpow : Nat.pow 10 (k + 1) = Nat.pow 10 k * 10 := rfl
    have hpos : 0 < Nat.pow 10 k := Nat.pow_pos (by omega)
    have hrest := ih (n := n / 10) (by omega)
    rw [Text.decimal, if_neg (by omega), List.length_append, List.length_singleton]
    omega

private theorem outputTextWith_power {k : Nat} (h : integerDigitLimit ≤ k) :
    outputTextWith .null (.int (10 ^ k)) = .error .integerTooLong := by
  have abs : ((10 : Int) ^ k).natAbs = 10 ^ k := Int.natAbs_pow 10 k
  have digits : k < (Text.decimal (10 ^ k)).length := lt_length_decimal (Nat.le_refl _)
  have long : (Value.int (10 ^ k)).hasOverlongInteger = true := by
    rw [Value.hasOverlongInteger, abs]
    exact decide_eq_true (by omega)
  rw [outputTextWith, long]
  rfl

/-- A number of spaces beyond 64 bits and an integer of 4301 digits have no text. -/
theorem no_text_beyond_limits :
    Spacing (.int (2 ^ 63)) ∧ Plain (.int 1) ∧
      outputTextWith (.int (2 ^ 63)) (.int 1) = .error .tooWide ∧
    Spacing .null ∧ Plain (.int (10 ^ 4300)) ∧
      outputTextWith .null (.int (10 ^ 4300)) = .error .integerTooLong :=
  ⟨.int _, .int _, rfl, .null, .int _, outputTextWith_power (Nat.le_refl 4300)⟩

end DocShape.Json
