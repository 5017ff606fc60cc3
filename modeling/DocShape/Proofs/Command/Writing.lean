import DocShape.Command.Disk
import DocShape.Proofs.Command.Settings

/-!
What an execution does to a disk that accepts its output file (`execute_all_or_nothing`), whatever reads its
configuration: nothing at all where the run fails, else it writes the complete text. The text has no surrogate,
so that it can always be put into bytes once the file has been emptied (`writeFile_disk`).
-/

namespace DocShape.Command

/-! ## Disks -/

namespace Disk

/-- The files that the options name, as a disk has them. -/
def files (disk : Disk) (read : ConfigReader) (o : Options) : Files :=
  Files.ofBytes read (disk.bytes? (Location.ofPath o.document))
    (o.config.bind fun path => disk.bytes? (Location.ofPath path))

/-- A file may be written at a location: no directory stands there, and no file above it. -/
structure Accepts (disk : Disk) (l : Location) : Prop where
  target : disk.item? l ≠ some .directory
  above : ∀ names, names <:+ l.names.tail → ∀ bytes, disk.item? ⟨l.root, names⟩ ≠ some (.file bytes)

end Disk

private theorem bind_of_ok {α β : Type} {x : OnDisk α} {disk disk' : Disk} {a : α}
    (h : x disk = .ok a disk') (f : α → OnDisk β) : (x >>= f) disk = f a disk' := by
  show EStateM.bind x f disk = _
  rw [EStateM.bind, h]

private theorem item?_put_of_ne {disk : Disk} {l l' : Location} {item : Item} (h : l' ≠ l) :
    (disk.put l item).item? l' = disk.item? l' := by
  unfold Disk.item? Disk.put
  rw [if_neg h]

private theorem item?_put_self {disk : Disk} {l : Location} {item : Item} (h : l.names ≠ []) :
    (disk.put l item).item? l = some item := by
  unfold Disk.item? Disk.put
  rw [if_neg h, if_pos rfl]

theorem readFiles_disk (read : ConfigReader) (o : Options) (disk : Disk) :
    (readFiles read o : OnDisk Files) disk = .ok (disk.files read o) disk := by
  unfold readFiles Disk.files
  cases o.config with
  | none => rfl
  | some path => rfl

theorem reportAll_disk (records : List Log.Record) (disk : Disk) :
    (reportAll records : OnDisk Unit) disk = .ok () disk := by
  induction records with
  | nil => rfl
  | cons r rest ih => exact ih

private theorem not_cons_suffix {name : Text} {names : List Text} :
    ¬ name :: names <:+ names := by
  intro h
  have := h.length_le
  simp only [List.length_cons] at this
  omega

/-- The directories of a path are there afterwards, and nothing else has changed. -/
theorem makeDirectories_disk {disk : Disk} {root : Text} {names : List Text}
    (h : ∀ above, above <:+ names → ∀ bytes, disk.item? ⟨root, above⟩ ≠ some (.file bytes)) :
    ∃ disk', (makeDirectories root names : OnDisk Unit) disk = .ok () disk' ∧
      (∀ above, above <:+ names → disk'.item? ⟨root, above⟩ = some .directory) ∧
      ∀ l, ¬ (l.root = root ∧ l.names <:+ names) → disk'.item? l = disk.item? l := by
  induction names with
  | nil =>
    refine ⟨disk, rfl, fun above ha => ?_, fun l _ => rfl⟩
    rw [List.suffix_nil.1 ha]
    rfl
  | cons name rest ih =>
    obtain ⟨disk₁, hrun, hdirs, hkeep⟩ :=
      ih fun above ha => h above (ha.trans (List.suffix_cons name rest))
    have parent : disk₁.item? (Location.parent ⟨root, name :: rest⟩) = some .directory :=
      hdirs rest (List.suffix_refl rest)
    have kept : disk₁.item? ⟨root, name :: rest⟩ = disk.item? ⟨root, name :: rest⟩ := by
      apply hkeep
      rintro ⟨-, hs⟩
      exact not_cons_suffix hs
    have all : (makeDirectories root (name :: rest) : OnDisk Unit) disk =
        makeDirectoryOn ⟨root, name :: rest⟩ disk₁ := bind_of_ok hrun _
    cases hitem : disk.item? ⟨root, name :: rest⟩ with
    | some item =>
      cases item with
      | file bytes => exact absurd hitem (h _ (List.suffix_refl _) bytes)
      | directory =>
        refine ⟨disk₁, ?_, fun above ha => ?_, fun l hl => hkeep l fun hs => hl ?_⟩
        · rw [all, makeDirectoryOn, kept, hitem]
        · rcases List.suffix_cons_iff.1 ha with rfl | ha
          · rw [kept, hitem]
          · exact hdirs above ha
        · exact ⟨hs.1, hs.2.trans (List.suffix_cons name rest)⟩
    | none =>
      refine ⟨disk₁.put ⟨root, name :: rest⟩ .directory, ?_, fun above ha => ?_, fun l hl => ?_⟩
      · rw [all, makeDirectoryOn, kept, hitem]
        exact if_pos (Disk.isDirectory_iff.2 parent)
      · rcases List.suffix_cons_iff.1 ha with rfl | hrest
        · exact item?_put_self (List.cons_ne_nil name rest)
        · have lower : (⟨root, above⟩ : Location) ≠ ⟨root, name :: rest⟩ := by
            rintro ⟨⟩
            exact not_cons_suffix hrest
          rw [item?_put_of_ne lower]
          exact hdirs above hrest
      · have other : l ≠ ⟨root, name :: rest⟩ := by
          rintro rfl
          exact hl ⟨rfl, List.suffix_refl _⟩
        rw [item?_put_of_ne other]
        exact hkeep l fun hs => hl ⟨hs.1, hs.2.trans (List.suffix_cons name rest)⟩

/-- A text is written: it is all that the file holds, the directories above it are there, and nothing
else has changed. -/
structure Written (disk disk' : Disk) (l : Location) (text : Text) : Prop where
  file : ∃ bytes, disk'.item? l = some (.file bytes) ∧ text.encode? = some bytes ∧
    Text.decode? bytes = some text
  above : ∀ names, names <:+ l.names.tail → disk'.item? ⟨l.root, names⟩ = some .directory
  others : ∀ l', l' ≠ l → ¬ (l'.root = l.root ∧ l'.names <:+ l.names.tail) →
    disk'.item? l' = disk.item? l'

theorem writeFile_disk {disk : Disk} {l : Location} (h : disk.Accepts l) {text : Text}
    (plain : ∀ c ∈ text, c.isSurrogate = false) :
    ∃ disk', (writeFile l text : OnDisk Ending) disk = .ok .written disk' ∧
      Written disk disk' l text := by
  obtain ⟨bytes, hbytes⟩ := Option.isSome_iff_exists.1 (Text.encode?_isSome plain)
  obtain ⟨disk₁, hrun, hdirs, hkeep⟩ := makeDirectories_disk h.above
  have named : l.names ≠ [] := by
    intro hn
    apply h.target
    rw [Disk.item?, if_pos hn]
  have outside : ¬ (l.root = l.root ∧ l.names <:+ l.names.tail) := by
    rintro ⟨-, hs⟩
    obtain ⟨name, names, hn⟩ := List.exists_cons_of_ne_nil named
    rw [hn] at hs
    exact not_cons_suffix hs
  have notDirectory : disk₁.item? l ≠ some .directory := by
    rw [hkeep l outside]
    exact h.target
  have parent : disk₁.item? l.parent = some .directory := hdirs _ (List.suffix_refl _)
  have cleared : (clearOn l : OnDisk Unit) disk₁ = .ok () (disk₁.put l (.file ByteArray.empty)) := by
    rw [clearOn, if_neg fun h => notDirectory (Disk.isDirectory_iff.1 h),
      if_pos (Disk.isDirectory_iff.2 parent)]
  have appended : (appendOn l bytes : OnDisk Unit) (disk₁.put l (.file ByteArray.empty)) =
      .ok () ((disk₁.put l (.file ByteArray.empty)).put l (.file bytes)) := by
    rw [appendOn, item?_put_self named]
    dsimp only
    rw [ByteArray.empty_append]
  have done : (writeFile l text : OnDisk Ending) disk =
      .ok .written ((disk₁.put l (.file ByteArray.empty)).put l (.file bytes)) := by
    unfold writeFile
    rw [hbytes]
    refine (bind_of_ok hrun _).trans ?_
    refine (bind_of_ok cleared _).trans ?_
    exact bind_of_ok appended _
  have frame : ∀ l', l' ≠ l →
      ((disk₁.put l (.file ByteArray.empty)).put l (.file bytes)).item? l' = disk₁.item? l' := by
    intro l' hl
    rw [item?_put_of_ne hl, item?_put_of_ne hl]
  refine ⟨_, done, ⟨bytes, item?_put_self named, hbytes, Text.decode?_encode? hbytes⟩,
    fun names hs => ?_, fun l' hl hs => ?_⟩
  · have higher : (⟨l.root, names⟩ : Location) ≠ l := by
      intro heq
      have : names = l.names := congrArg Location.names heq
      subst this
      exact outside ⟨rfl, hs⟩
    rw [frame _ higher]
    exact hdirs names hs
  · rw [frame l' hl]
    exact hkeep l' hs

/-! ## Runs -/

theorem IsTextOf.plain {config : Json.Members} {table : Table Shape} {text : Text}
    (h : IsTextOf config table text) : ∀ c ∈ text, c.isSurrogate = false := by
  obtain ⟨output, -, written⟩ := h
  exact Json.outputTextWith_plain written

/-- Where a path is given, a run leaves a text for it. -/
private theorem run_written {files : Files} {o : Options} {path : Text} {product : Product}
    (ho : o.output = some path) (h : (run files o).result = .ok product) :
    ∃ text, product = .written (normalPath path) text := by
  unfold run at h
  split at h
  · cases h
  · simp only [job, Journal.outcome_bind_eq_ok, Journal.outcome_liftM, ho] at h
    obtain ⟨-, -, -, -, -, -, -, -, -, -, -, -, written, -, -, -, h⟩ := h
    cases h
    exact ⟨_, rfl⟩

/-- What an execution does to a disk is what its run says. -/
private theorem execute_disk (read : ConfigReader) (o : Options) (disk : Disk) :
    (execute read o : OnDisk Ending) disk =
      (conclude (run (disk.files read o) o).result : OnDisk Ending) disk :=
  (bind_of_ok (readFiles_disk read o disk) _).trans (bind_of_ok (reportAll_disk _ disk) _)

/-- On a disk that accepts the file, an execution that fails changes nothing, for whatever reason it
fails; any other writes the complete text of the selected declarations. -/
theorem execute_all_or_nothing (read : ConfigReader) {o : Options} {path : Text} (ho : o.output = some path)
    {disk : Disk} (haccepts : disk.Accepts (Location.ofPath (normalPath path))) :
    (∃ f, (run (disk.files read o) o).result = .error f ∧
      (execute read o : OnDisk Ending) disk = .ok (.failed f) disk) ∨
    ∃ s table text disk',
      (run (disk.files read o) o).result = .ok (.written (normalPath path) (text ++ "\n")) ∧
      (execute read o : OnDisk Ending) disk = .ok .written disk' ∧
      Completes (disk.files read o) o (.written (normalPath path) (text ++ "\n")) s table ∧
      Holds s.resolver (s.selected o) table ∧ IsTextOf s.config table text ∧
      (∀ c ∈ text, c.isSurrogate = false) ∧
      Written disk disk' (Location.ofPath (normalPath path)) (text ++ "\n") := by
  rw [execute_disk]
  cases hr : (run (disk.files read o) o).result with
  | error f => exact .inl ⟨f, rfl, rfl⟩
  | ok product =>
    right
    obtain ⟨s, table, hc⟩ := run_completes hr
    obtain ⟨whole, rfl⟩ := run_written ho hr
    obtain ⟨text, htext, hwhole⟩ := hc.output
    cases hwhole
    have plainLine : ∀ c ∈ text ++ "\n", c.isSurrogate = false := by
      intro c hm
      rcases List.mem_append.1 hm with hm | hm
      · exact htext.plain c hm
      · rw [List.mem_singleton.1 hm]
        rfl
    obtain ⟨disk', hrun, hwritten⟩ := writeFile_disk haccepts plainLine
    exact ⟨s, table, text, disk', rfl, hrun, hc, hc.holds, htext, htext.plain, hwritten⟩

/-! ## A disk with one document -/

/-- Settings without indentation. -/
def oneLine : Text := "output:\n  indent: null\n"

def oneLineContent : Json.Value := .object [("output", .object [("indent", .null)])]

/-- A document with a malformed declaration, settings, and nothing else. -/
def aroundDisk : Disk := fun l =>
  if l = ⟨[], ["around.json"]⟩ then aroundMalformedText.encode?.map Item.file
  else if l = ⟨[], ["settings.yaml"]⟩ then oneLine.encode?.map Item.file
  else none

/-- The run that converts some names alone, into a new directory. -/
def aroundOutput (names : List Text) : Options :=
  { aroundMalformedOnly names with config := some "settings.yaml", output := some "out/./a.json" }

private theorem bytes?_of_text {disk : Disk} {l : Location} {text : Text}
    (h : disk l = text.encode?.map Item.file) (named : l.names ≠ []) (plain : text.all (!·.isSurrogate)) :
    ∃ bytes, disk.bytes? l = some bytes ∧ Text.decode? bytes = some text := by
  obtain ⟨bytes, hbytes⟩ := Option.isSome_iff_exists.1
    (Text.encode?_isSome fun c hc => by simpa using List.all_eq_true.1 plain c hc)
  refine ⟨bytes, ?_, Text.decode?_encode? hbytes⟩
  rw [Disk.bytes?, Disk.item?, if_neg named, h, hbytes]
  rfl

private theorem aroundDisk_files (names : List Text) :
    aroundDisk.files (readerOf oneLine oneLineContent) (aroundOutput names) =
      ⟨fun _ => some aroundMalformedText, fun _ => some (.ok oneLineContent)⟩ := by
  have first : aroundDisk (Location.ofPath "around.json") = aroundMalformedText.encode?.map Item.file :=
    if_pos rfl
  have second : aroundDisk (Location.ofPath "settings.yaml") = oneLine.encode?.map Item.file := by
    rw [aroundDisk, if_neg (by decide), if_pos (by decide)]
  obtain ⟨document, hd, document_text⟩ :=
    bytes?_of_text first (List.cons_ne_nil _ _) (by decide +kernel)
  obtain ⟨config, hc, config_text⟩ := bytes?_of_text second (List.cons_ne_nil _ _) (by decide +kernel)
  have found : aroundDisk.files (readerOf oneLine oneLineContent) (aroundOutput names) =
      Files.ofBytes (readerOf oneLine oneLineContent)
        (aroundDisk.bytes? (Location.ofPath "around.json"))
        (aroundDisk.bytes? (Location.ofPath "settings.yaml")) := rfl
  rw [found, hd, hc, Files.ofBytes]
  simp only [Option.map_some, document_text, config_text, Option.getD_some, readerOf_self]

private theorem aroundDisk_accepts :
    aroundDisk.Accepts (Location.ofPath (normalPath "out/./a.json")) := by
  have place : Location.ofPath (normalPath "out/./a.json") = ⟨[], ["a.json", "out"]⟩ := rfl
  have vacant : ∀ l : Location, l ≠ ⟨[], ["around.json"]⟩ → l ≠ ⟨[], ["settings.yaml"]⟩ →
      aroundDisk l = none := by
    intro l hd hc
    rw [aroundDisk, if_neg hd, if_neg hc]
  rw [place]
  constructor
  · rw [Disk.item?, if_neg (List.cons_ne_nil _ _), vacant _ (by decide) (by decide)]
    rintro ⟨⟩
  · intro names hs bytes
    rcases List.suffix_cons_iff.1 hs with rfl | hs
    · rw [Disk.item?, if_neg (List.cons_ne_nil _ _), vacant _ (by decide) (by decide)]
      rintro ⟨⟩
    · rw [List.suffix_nil.1 hs]
      rintro ⟨⟩

/-- The text of the variable before the malformed declaration, without indentation. -/
def beforeMalformedLine : Text :=
  "\x7b\"a\": \x7b\"type\": \"primitive\", \"primitiveType\": \"string\"\x7d\x7d"

/-- One run writes its file into a new directory; another one meets the malformed declaration, and
leaves the disk as it was. -/
theorem execute_all_or_nothing_aroundDisk :
    aroundDisk.Accepts (Location.ofPath (normalPath "out/./a.json")) ∧
    (∃ disk', (execute (readerOf oneLine oneLineContent) (aroundOutput ["a"]) : OnDisk Ending) aroundDisk =
        .ok .written disk' ∧
      Written aroundDisk disk' (Location.ofPath (normalPath "out/./a.json"))
        (beforeMalformedLine ++ "\n")) ∧
    (execute (readerOf oneLine oneLineContent) (aroundOutput ["c", "b"]) : OnDisk Ending) aroundDisk =
      .ok (.failed (.malformedDeclaration "b" (.untypedParameter "p" "b"))) aroundDisk := by
  refine ⟨aroundDisk_accepts, ?_, ?_⟩
  · have hrun : (run (aroundDisk.files (readerOf oneLine oneLineContent) (aroundOutput ["a"]))
        (aroundOutput ["a"])).result =
          .ok (.written (normalPath "out/./a.json") (beforeMalformedLine ++ "\n")) := by
      rw [aroundDisk_files]
      exact eq_ok_of_toOption (by decide +kernel)
    rcases execute_all_or_nothing (readerOf oneLine oneLineContent) (o := aroundOutput ["a"]) rfl
      aroundDisk_accepts with ⟨f, hf, -⟩ | ⟨s, table, text, disk', hwritten, hdone, -, -, -, -, written⟩
    · rw [hrun] at hf
      cases hf
    · rw [hrun] at hwritten
      rw [← (Product.written.inj (Except.ok.inj hwritten)).2] at written
      exact ⟨disk', hdone, written⟩
  · have blamed : (run (aroundDisk.files (readerOf oneLine oneLineContent) (aroundOutput ["c", "b"]))
        (aroundOutput ["c", "b"])).result =
          .error (.malformedDeclaration "b" (.untypedParameter "p" "b")) := by
      rw [aroundDisk_files]
      exact eq_error_of_failure? (by decide +kernel)
    rcases execute_all_or_nothing (readerOf oneLine oneLineContent) (o := aroundOutput ["c", "b"]) rfl
      aroundDisk_accepts with ⟨f, hf, hdone⟩ | ⟨s, table, text, disk', hf, -⟩
    · rw [blamed] at hf
      cases hf
      exact hdone
    · rw [blamed] at hf
      cases hf

end DocShape.Command
