import DocShape.Json.Writer
import DocShape.Yaml.Scalar

/-!
# Flow collections

Lists between brackets and mappings between braces, which may go on over several lines.
`Yaml.flow?` reads the one that a text starts with.
-/

namespace DocShape.Yaml

open Json (Value Members)

/-- The key that a value is in a mapping; lists and mappings are no keys. -/
def keyText? : Value → Option Text
  | .text t => some t
  | .array _ => none
  | .object _ => none
  | v => some (v.write ⟨none, true⟩)

/-- The code points that have a meaning of their own in flow collections. -/
def isFlowMark (c : CodePoint) : Bool :=
  c.val == 0x2c || c.val == 0x5b || c.val == 0x5d || c.val == 0x7b || c.val == 0x7d

/-- The code points that a plain scalar cannot start with, the hyphen, the question mark and the colon
apart. -/
def isIndicator (c : CodePoint) : Bool :=
  isFlowMark c || c.val == 0x23 || c.val == 0x26 || c.val == 0x2a || c.val == 0x21 ||
    c.val == 0x7c || c.val == 0x3e || c.val == 0x27 || c.val == 0x22 || c.val == 0x25 ||
    c.val == 0x40 || c.val == 0x60 || c.val == 0x09

/-- Whether a text starts with a gap or is at its end. -/
def atGap (s : Text) : Bool := (s.head?.map isGap).getD true

/-- Skips spaces, line breaks and comments; the first argument bounds the number of comments. -/
private def skipGaps : Nat → Text → Text
  | 0, s => s
  | fuel + 1, s =>
    let s := s.dropWhile fun c => isSpace c || isBreak c
    match s with
    | c :: _ => if c.val = 0x23 then skipGaps fuel (s.dropWhile (!isBreak ·)) else s
    | [] => []

private def skip (s : Text) : Text := skipGaps s.length s

/-- The rest of a plain scalar inside a flow collection, with its line breaks; `gap` says whether a
space or a line break stands before. -/
private def plainRest : Bool → Text → Text × Text
  | _, [] => ([], [])
  | gap, c :: rest =>
    if isFlowMark c || c.val == 0x3f || c.val == 0x09 || (c.val == 0x23 && gap) ||
        (c.val == 0x3a && (atGap rest || (rest.head?.map isFlowMark).getD false)) then
      ([], c :: rest)
    else
      let (t, r) := plainRest (isSpace c || isBreak c) rest
      (c :: t, r)

private def canStartPlain (c : CodePoint) (rest : Text) : Bool :=
  if c.val = 0x2d then !atGap rest else !(isIndicator c || c.val == 0x3f || c.val == 0x3a)

/-- A plain scalar inside a flow collection. -/
def plain? (s : Text) : Option (Value × Text) :=
  match s with
  | c :: rest =>
    if canStartPlain c rest then
      let (t, r) := plainRest false s
      let kept := (t.reverse.dropWhile isGap).reverse
      some (resolve (foldLines false kept), r)
    else none
  | [] => none

mutual

/-- A value inside a flow collection. -/
def node? : Nat → Text → Option (Value × Text)
  | 0, _ => none
  | fuel + 1, s =>
    match skip s with
    | [] => none
    | c :: rest =>
      if c.val = 0x5b then (items? fuel rest).map fun (items, r) => (.array items, r)
      else if c.val = 0x7b then (members? fuel [] rest).map fun (members, r) => (.object members, r)
      else if c.val = 0x27 ∨ c.val = 0x22 then
        (quoted? (c :: rest)).map fun (t, r) => (.text t, r)
      else plain? (c :: rest)

/-- The items of a list up to its closing bracket. A pair stands for a mapping with one member. -/
def items? : Nat → Text → Option (List Value × Text)
  | 0, _ => none
  | fuel + 1, s =>
    match skip s with
    | [] => none
    | c :: rest =>
      if c.val = 0x5d then some ([], rest)
      else
        match node? fuel (c :: rest) with
        | none => none
        | some (v, r) =>
          match entry? fuel v (skip r) with
          | none => none
          | some (v, r) =>
            match skip r with
            | [] => none
            | d :: r =>
              if d.val = 0x2c then (items? fuel r).map fun (items, r) => (v :: items, r)
              else if d.val = 0x5d then some ([v], r)
              else none

/-- An item of a list, which is a pair where a colon follows. -/
def entry? : Nat → Value → Text → Option (Value × Text)
  | 0, _, _ => none
  | fuel + 1, v, s =>
    match s with
    | c :: r =>
      if c.val = 0x3a then
        match keyText? v, value? fuel r with
        | some key, some (w, r) => some (.object [(key, w)], r)
        | _, _ => none
      else some (v, s)
    | [] => none

/-- The value behind a colon; nothing before the next mark is null. -/
def value? : Nat → Text → Option (Value × Text)
  | 0, _ => none
  | fuel + 1, s =>
    match skip s with
    | [] => none
    | c :: rest =>
      if c.val = 0x2c ∨ c.val = 0x5d ∨ c.val = 0x7d then some (.null, c :: rest)
      else node? fuel (c :: rest)

/-- The members of a mapping up to its closing brace. -/
def members? : Nat → Members → Text → Option (Members × Text)
  | 0, _, _ => none
  | fuel + 1, before, s =>
    match skip s with
    | [] => none
    | c :: rest =>
      if c.val = 0x7d then some (before, rest)
      else
        match node? fuel (c :: rest) with
        | none => none
        | some (k, r) =>
          match keyText? k, skip r with
          | some key, d :: r =>
            let pair :=
              if d.val = 0x3a then value? fuel r else some (.null, d :: r)
            match pair with
            | none => none
            | some (v, r) =>
              let members := Table.put before key v
              match skip r with
              | [] => none
              | e :: r =>
                if e.val = 0x2c then members? fuel members r
                else if e.val = 0x7d then some (members, r)
                else none
          | _, _ => none

end

/-- Reads the list or mapping that a text starts with. -/
def flow? (s : Text) : Option (Value × Text) := node? (4 * s.length + 4) s

end DocShape.Yaml
