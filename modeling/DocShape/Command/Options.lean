import DocShape.Text.Numeral

/-!
# The command line

* `Command.Word.ofText` tells flags, arguments and the separator apart;
* `Command.Options.ofWords` reads the options from the words of a command line.

A flag may be shortened as long as it stays the only one that starts so. The two paths have to stand
together: where a flag follows the first path, there is no second one.
-/

namespace DocShape.Command

inductive Flag
  | help
  | config
  | apiRoot
  | stripPrefix
  | only
  | verbose
  deriving DecidableEq, Repr

namespace Flag

/-- The spellings of the flags, the long ones with two hyphens. -/
def table : List (Text × Flag) :=
  [("-h", .help), ("--help", .help), ("--config", .config), ("--api-root", .apiRoot),
    ("--strip-prefix", .stripPrefix), ("--only", .only), ("--verbose", .verbose), ("-v", .verbose)]

def ofName? (name : Text) : Option Flag := table.lookup name

/-- The spellings that start with a text. -/
def completions (start : Text) : List Flag :=
  (table.filter fun entry => start.isPrefixOf entry.1).map (·.2)

end Flag

/-- How a run ends before it starts. -/
inductive UsageFault
  | misused
  | helpWanted
  deriving DecidableEq, Repr

/-- What is joined to a flag. -/
inductive Joined
  | nothing
  /-- A value behind an equals sign. -/
  | value (t : Text)
  /-- More letters behind the letter of a short flag. -/
  | letters (t : Text)
  deriving DecidableEq, Repr

inductive Word
  | argument (t : Text)
  | flag (f : Flag) (joined : Joined)
  | unknownFlag
  | separator
  deriving DecidableEq, Repr

namespace Word

/-- The text before the first equals sign, and the value behind it, if there is one. -/
def splitEquals (t : Text) : Text × Joined :=
  match t.dropWhile (·.val != 0x3d) with
  | [] => (t, .nothing)
  | _ :: rest => (t.takeWhile (·.val != 0x3d), .value rest)

private def isDecimal (c : CodePoint) : Bool := c.decimalValue?.isSome

/-- A minus sign with digits, or with a point and digits behind it. -/
def isNegativeNumber (t : Text) : Bool :=
  match t with
  | [] => false
  | c :: body =>
    c.val == 0x2d &&
      match body.dropWhile isDecimal with
      | [] => body ≠ []
      | point :: fraction => point.val == 0x2e && fraction ≠ [] && fraction.all isDecimal

/-- The flags that a word may stand for: a long word any flag it starts, a short one the flag of its
first letter with the other letters joined to it. -/
def flags (t : Text) : List Word :=
  if (Text.dropPrefix? "--" t).isSome then
    let (start, joined) := splitEquals t
    (Flag.completions start).map (.flag · joined)
  else
    match Flag.ofName? (t.take 2) with
    | some f => [.flag f (.letters (t.drop 2))]
    | none => []

/-- Classifies a word that starts with a hyphen: a flag by its full name, or by what it may stand for. -/
def ofHyphened (t : Text) : Except UsageFault Word :=
  match Flag.ofName? (splitEquals t).1 with
  | some f => .ok (.flag f (splitEquals t).2)
  | none =>
    match flags t with
    | [w] => .ok w
    | _ :: _ :: _ => .error .misused
    | [] =>
      if isNegativeNumber t || t.contains 0x20 then .ok (.argument t) else .ok .unknownFlag

/-- Classifies a word that stands before any separator. A hyphen alone is an argument. -/
def ofText (t : Text) : Except UsageFault Word :=
  match t with
  | c :: _ :: _ => if c.val = 0x2d then ofHyphened t else .ok (.argument t)
  | _ => .ok (.argument t)

/-- Classifies the words of a command line; behind a separator all are arguments. -/
def ofTexts : List Text → Except UsageFault (List Word)
  | [] => .ok []
  | t :: rest =>
    if t = "--" then .ok (.separator :: rest.map .argument)
    else do
      let word ← ofText t
      return word :: (← ofTexts rest)

end Word

structure Options where
  /-- The document to read. -/
  document : Text
  /-- Where to write; standard output if there is none. -/
  output : Option Text := none
  config : Option Text := none
  apiRoot : Option Text := none
  stripPrefix : Option Text := none
  only : Option (List Text) := none
  verbose : Bool := false
  deriving DecidableEq, Repr

/-- What has been read of a command line. -/
structure Parsed where
  /-- The two paths, once they have been read. -/
  paths : Option (Text × Option Text) := none
  config : Option Text := none
  apiRoot : Option Text := none
  stripPrefix : Option Text := none
  only : Option (List Text) := none
  verbose : Bool := false
  /-- Something was there that has no meaning. -/
  surplus : Bool := false
  deriving DecidableEq, Repr

namespace Parsed

/-- Sets the value of a flag that takes one. -/
def setValue (p : Parsed) (f : Flag) (v : Text) : Parsed :=
  match f with
  | .config => { p with config := some v }
  | .apiRoot => { p with apiRoot := some v }
  | .stripPrefix => { p with stripPrefix := some v }
  | .only => { p with only := some [v] }
  | .help | .verbose => p

/-- The flags that some letters behind a short flag stand for, up to the first letter that stands for
none, and whether there is such a letter. A hyphen or an equals sign cannot be joined so. -/
def lettersFlags : Text → Except UsageFault (List Flag × Bool)
  | [] => .ok ([], false)
  | c :: rest =>
    if c.val = 0x2d ∨ c.val = 0x3d then .error .misused
    else
      match Flag.ofName? [0x2d, c] with
      | none => .ok ([], true)
      | some f => (lettersFlags rest).map fun (fs, isSurplus) => (f :: fs, isSurplus)

/-- A short flag with the letters joined to it; neither it nor they take a value. -/
def setLetters (p : Parsed) (f : Flag) (letters : Text) : Except UsageFault Parsed := do
  let (fs, isSurplus) ← lettersFlags letters
  if (f :: fs).contains .help then throw .helpWanted
  return { p with verbose := true, surplus := p.surplus || isSurplus }

private def isArgument : Word → Bool
  | .argument _ => true
  | _ => false

private def texts : List Word → List Text
  | .argument t :: rest => t :: texts rest
  | _ => []

/-- The first path, which a separator may precede or follow, and the words behind it. -/
private def firstPath? : List Word → Option (Text × List Word)
  | .separator :: .argument t :: rest => some (t, rest)
  | .argument t :: .separator :: rest => some (t, rest)
  | .argument t :: rest => some (t, rest)
  | _ => none

/-- The second path, if it stands here, and the words behind it. -/
private def secondPath : List Word → Option Text × List Word
  | .argument t :: .separator :: rest => (some t, rest)
  | .argument t :: rest => (some t, rest)
  | rest => (none, rest)

/-- A word of two hyphens cannot be the second path. -/
private def realPath (t : Option Text) : Option Text := t.filter (· ≠ "--")

private theorem length_firstPath? {words rest : List Word} {t : Text}
    (h : firstPath? words = some (t, rest)) : rest.length < words.length := by
  unfold firstPath? at h
  split at h <;> grind

private theorem length_secondPath (words : List Word) :
    (secondPath words).2.length ≤ words.length := by
  unfold secondPath
  split <;> grind

/-- Reads the words from left to right. -/
def ofWords (p : Parsed) (words : List Word) : Except UsageFault Parsed :=
  match words with
  | [] => .ok p
  | .flag f (.letters letters) :: rest =>
    match p.setLetters f letters with
    | .ok p => ofWords p rest
    | .error e => .error e
  | .flag f (.value v) :: rest =>
    match f with
    | .help | .verbose => .error .misused
    | _ => ofWords (p.setValue f v) rest
  | .flag .help .nothing :: _ => .error .helpWanted
  | .flag .verbose .nothing :: rest => ofWords { p with verbose := true } rest
  | .flag .only .nothing :: rest =>
    match texts rest with
    | [] => .error .misused
    | names => ofWords { p with only := some names } (rest.dropWhile isArgument)
  | .flag f .nothing :: rest =>
    match rest with
    | .argument t :: rest => ofWords (p.setValue f t) rest
    | _ => .error .misused
  | .unknownFlag :: rest => ofWords { p with surplus := true } rest
  | w :: rest =>
    match p.paths, _h : firstPath? (w :: rest) with
    | none, some (document, behind) =>
      ofWords { p with paths := some (document, realPath (secondPath behind).1) }
        (secondPath behind).2
    | _, _ => ofWords { p with surplus := true } rest
termination_by words.length
decreasing_by
  all_goals try (simp only [List.length_cons]; omega)
  · have := (List.dropWhile_sublist isArgument (l := rest)).length_le
    simp only [List.length_cons]
    omega
  · have h₁ := length_firstPath? _h
    have h₂ := length_secondPath behind
    omega

end Parsed

namespace Options

def ofParsed (p : Parsed) : Except UsageFault Options :=
  match p.paths with
  | none => .error .misused
  | some (document, output) =>
    if p.surplus then .error .misused
    else
      .ok { document, output, config := p.config, apiRoot := p.apiRoot
            stripPrefix := p.stripPrefix, only := p.only, verbose := p.verbose }

def ofWords (words : List Text) : Except UsageFault Options := do
  let words ← Word.ofTexts words
  ofParsed (← Parsed.ofWords {} words)

end Options

end DocShape.Command
