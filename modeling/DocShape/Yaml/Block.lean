import DocShape.Yaml.Flow

/-!
# Configuration files

`Yaml.read` is the reader of configuration files that the program is started with: it reads one mapping, list
or scalar whose nesting is shown by indentation, and an empty file as null. What it does not know, such as
anchors, tags and block scalars, is malformed to it. Runs take any reader, and what is said of them does not
depend on this one.
-/

namespace DocShape.Yaml

open Json (Value Members)

/-- The text is no configuration file. -/
inductive Fault
  | malformed
  deriving DecidableEq, Repr

/-! ## Lines -/

def indentation (line : Text) : Nat := (line.takeWhile isSpace).length

def content (line : Text) : Text := line.dropWhile isSpace

/-- Whether nothing or a comment follows. -/
def isBlankOrComment (s : Text) : Bool :=
  match content s with
  | [] => true
  | c :: _ => c.val == 0x23

/-- The lines from the next one on that is not blank. -/
def skipBlank (ls : List Text) : List Text := ls.dropWhile isBlankOrComment

/-- Three equal marks at the start of a line, as between documents. -/
private def isMarkerOf (mark : Text) (line : Text) : Bool :=
  match Text.dropPrefix? mark line with
  | some rest => atGap rest
  | none => false

def isDocumentStart (line : Text) : Bool := isMarkerOf "---" line

def isDocumentEnd (line : Text) : Bool := isMarkerOf "..." line

def isMarker (line : Text) : Bool := isDocumentStart line || isDocumentEnd line

/-- Whether an item of a list starts here. -/
def isItem (s : Text) : Bool :=
  match s with
  | c :: rest => c.val == 0x2d && atGap rest
  | [] => false

/-! ## Scalars in lines -/

/-- The part of a line that belongs to a plain scalar, and what follows it: nothing, a comment, a colon
that ends a key, or a tab. -/
def plainPart : Bool → Text → Text × Text
  | _, [] => ([], [])
  | gap, c :: rest =>
    if c.val == 0x09 || (c.val == 0x23 && gap) || (c.val == 0x3a && atGap rest) then ([], c :: rest)
    else
      let (t, r) := plainPart (isSpace c) rest
      (c :: t, r)

private def trimSpaces (t : Text) : Text := (t.reverse.dropWhile isSpace).reverse

/-- Whether a plain scalar can start here. -/
def startsPlain (s : Text) : Bool :=
  match s with
  | [] => false
  | c :: rest =>
    if c.val = 0x2d ∨ c.val = 0x3f ∨ c.val = 0x3a then !atGap rest else !isIndicator c

/-- The key that a line starts with, and the text behind its colon. -/
def key? (s : Text) : Option (Value × Text) :=
  match quoted? s with
  | some (t, r) =>
    match content r with
    | c :: r => if c.val = 0x3a && atGap r then some (.text t, r) else none
    | [] => none
  | none =>
    if startsPlain s then
      match plainPart false s with
      | (t, c :: r) => if c.val = 0x3a then some (resolve (trimSpaces t), r) else none
      | _ => none
    else none

/-- The lines that a plain scalar goes on over: those indented by at least `n`. `breaks` counts the
blank lines just before. -/
private def plainLines (n : Nat) : Nat → List Text → Option (Text × List Text)
  | _, [] => some ([], [])
  | breaks, line :: rest =>
    match content line with
    | [] => plainLines n (breaks + 1) rest
    | c :: cs =>
      if indentation line < n || isMarker line || c.val == 0x23 then some ([], line :: rest)
      else
        let fold : Text := if breaks = 0 then " " else List.replicate breaks 0x0a
        match plainPart false (c :: cs) with
        | (t, []) => (plainLines n 0 rest).map fun (more, ls) => (fold ++ trimSpaces t ++ more, ls)
        | (t, d :: _) => if d.val = 0x23 then some (fold ++ trimSpaces t, rest) else none

/-- A plain scalar that starts in a line. -/
def plainValue? (n : Nat) (s : Text) (rest : List Text) : Option (Value × List Text) :=
  match plainPart false s with
  | (t, []) => (plainLines n 0 rest).map fun (more, ls) => (resolve (trimSpaces t ++ more), ls)
  | (t, c :: _) => if c.val = 0x23 then some (resolve (trimSpaces t), rest) else none

/-- A value that starts in a line and is no block mapping or list. -/
def inline? (n : Nat) (s : Text) (rest : List Text) : Option (Value × List Text) :=
  let whole := joinLines (s :: rest)
  let behind (v : Value) (r : Text) : Option (Value × List Text) :=
    match lines r with
    | [] => some (v, [])
    | line :: ls => if isBlankOrComment line then some (v, ls) else none
  match s with
  | [] => none
  | c :: _ =>
    if c.val = 0x5b ∨ c.val = 0x7b then (flow? whole).bind fun (v, r) => behind v r
    else if c.val = 0x27 ∨ c.val = 0x22 then (quoted? whole).bind fun (t, r) => behind (.text t) r
    else if startsPlain s then plainValue? n s rest
    else none

/-! ## Blocks -/

mutual

/-- The value whose lines are indented by at least `n`; null if there are none. -/
def block : Nat → Nat → List Text → Option (Value × List Text)
  | 0, _, _ => none
  | fuel + 1, n, ls =>
    match skipBlank ls with
    | [] => some (.null, [])
    | line :: rest =>
      let i := indentation line
      if i < n || isMarker line then some (.null, line :: rest)
      else if isItem (content line) then
        (items fuel i (line :: rest)).map fun (vs, ls) => (.array vs, ls)
      else if (key? (content line)).isSome then
        (members fuel i [] (line :: rest)).map fun (ms, ls) => (.object ms, ls)
      else inline? n (content line) rest
termination_by structural fuel => fuel

/-- The items of a list at indentation `i`. What stands behind the hyphen is a block of its own. -/
def items : Nat → Nat → List Text → Option (List Value × List Text)
  | 0, _, _ => none
  | fuel + 1, i, ls =>
    match skipBlank ls with
    | [] => some ([], [])
    | line :: rest =>
      if i < indentation line then none
      else if indentation line = i && isItem (content line) && !isMarker line then
        let opened : Text := List.replicate (i + 1) 0x20 ++ (content line).drop 1
        match block fuel (i + 1) (opened :: rest) with
        | none => none
        | some (v, ls) => (items fuel i ls).map fun (vs, ls) => (v :: vs, ls)
      else some ([], line :: rest)
termination_by structural fuel => fuel

/-- The members of a mapping at indentation `i`. -/
def members : Nat → Nat → Members → List Text → Option (Members × List Text)
  | 0, _, _, _ => none
  | fuel + 1, i, before, ls =>
    match skipBlank ls with
    | [] => some (before, [])
    | line :: rest =>
      if i < indentation line then none
      else if indentation line < i || isMarker line then some (before, line :: rest)
      else
        match key? (content line) with
        | none => if isItem (content line) then some (before, line :: rest) else none
        | some (k, behind) =>
          match keyText? k, value fuel i behind rest with
          | some key, some (v, ls) => members fuel i (Table.put before key v) ls
          | _, _ => none
termination_by structural fuel => fuel

/-- The value of a member: in its line, or in the lines below, where a list needs no indentation. -/
def value : Nat → Nat → Text → List Text → Option (Value × List Text)
  | 0, _, _, _ => none
  | fuel + 1, i, behind, rest =>
    if isBlankOrComment behind then
      match skipBlank rest with
      | [] => some (.null, [])
      | next :: ls =>
        if indentation next = i && isItem (content next) && !isMarker next then
          (items fuel i (next :: ls)).map fun (vs, ls) => (.array vs, ls)
        else block fuel (i + 1) (next :: ls)
    else inline? (i + 1) (content behind) rest
termination_by structural fuel => fuel

end

/-! ## Documents -/

/-- The code points that may stand in a configuration file. -/
def isAllowed (c : CodePoint) : Bool :=
  c.val == 0x09 || c.val == 0x0a || c.val == 0x0d || (0x20 ≤ c.val && c.val ≤ 0x7e) ||
    c.val == 0x85 || (0xa0 ≤ c.val && c.val ≤ 0xd7ff) || (0xe000 ≤ c.val && c.val ≤ 0xfffd) ||
    0x10000 ≤ c.val

/-- Line breaks of all forms as line feeds. -/
def normalizeBreaks : Text → Text
  | [] => []
  | c :: rest =>
    if c.val = 0x0d then
      if rest.head? = some 0x0a then normalizeBreaks rest else 0x0a :: normalizeBreaks rest
    else if c.val = 0x85 then 0x0a :: normalizeBreaks rest
    else c :: normalizeBreaks rest

/-- Whether a document may end here. -/
private def isEnd (ls : List Text) : Bool :=
  match skipBlank ls with
  | [] => true
  | line :: rest => isDocumentEnd line && (skipBlank rest).isEmpty

/-- The value of a document, which may start in the line of its marker; only a value that is no block
may do so. -/
def document? (ls : List Text) : Option (Value × List Text) :=
  let fuel := 4 * (joinLines ls).length + 8
  match skipBlank ls with
  | [] => some (.null, [])
  | line :: rest =>
    if isDocumentStart line then
      let behind := line.drop 3
      if isBlankOrComment behind then block fuel 0 rest
      else if isItem (content behind) || (key? (content behind)).isSome then none
      else inline? 0 (content behind) rest
    else block fuel 0 (line :: rest)

/-- Reads a configuration file, which holds one document at most. -/
def read (t : Text) : Except Fault Value :=
  let t := Text.dropPrefix [0xfeff] t
  if t.all isAllowed then
    match document? (lines (normalizeBreaks t)) with
    | some (v, ls) => if isEnd ls then .ok v else .error .malformed
    | none => .error .malformed
  else .error .malformed

end DocShape.Yaml
