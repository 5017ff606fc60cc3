import DocShape.Json.Value

/-!
# Scalars of configuration files

* `Yaml.resolve` gives a plain scalar its value: null, a truth value, a number, or text;
* `Yaml.quoted?` reads a scalar between quotes.
-/

namespace DocShape.Yaml

open Json (Value)

/-! ## Lines -/

def isBreak (c : CodePoint) : Bool := c.val == 0x0a

def isSpace (c : CodePoint) : Bool := c.val == 0x20

/-- A space, a tab or a line break. -/
def isGap (c : CodePoint) : Bool := isSpace c || isBreak c || c.val == 0x09

/-- The lines of a text. -/
def lines : Text → List Text
  | [] => [[]]
  | c :: rest =>
    if isBreak c then [] :: lines rest
    else
      match lines rest with
      | [] => [[c]]
      | line :: others => (c :: line) :: others

def joinLines (ls : List Text) : Text := Text.joinWith "\n" ls

/-! ## Plain scalars -/

private def nullWords : List Text := ["", "~", "null", "Null", "NULL"]

private def trueWords : List Text :=
  ["true", "True", "TRUE", "yes", "Yes", "YES", "on", "On", "ON"]

private def falseWords : List Text :=
  ["false", "False", "FALSE", "no", "No", "NO", "off", "Off", "OFF"]

private def infinityWords : List Text := [".inf", ".Inf", ".INF"]

private def nanWords : List Text := [".nan", ".NaN", ".NAN"]

/-- A sign and the text behind it. -/
private def signed (t : Text) : Bool × Text :=
  match t with
  | c :: rest => if c.val = 0x2d then (true, rest) else if c.val = 0x2b then (false, rest) else (false, t)
  | [] => (false, t)

private def withoutUnderscores (t : Text) : Text := t.filter (·.val != 0x5f)

private def isDigitOrUnderscore (c : CodePoint) : Bool := c.isDigit || c.val == 0x5f

/-- The value of digits in a base; the digits are known to be allowed. -/
private def valueInBase (base : Nat) (digits : Text) : Nat :=
  digits.foldl (fun n c => base * n + c.hexValue?.getD 0) 0

private def isOctal (c : CodePoint) : Bool := 0x30 ≤ c.val && c.val ≤ 0x37

private def isBinary (c : CodePoint) : Bool := c.val == 0x30 || c.val == 0x31

/-- The digits of an integer behind its sign: decimal, or with a leading zero octal, or behind `0x` and
`0b` hexadecimal and binary. Underscores may separate digits. -/
private def natural? (t : Text) : Option Nat :=
  let digits := withoutUnderscores t
  match t with
  | [] => none
  | [c] => if c.isDigit then some (valueInBase 10 [c]) else none
  | c :: d :: rest =>
    if c.val = 0x30 then
      if d.val = 0x78 then
        let body := withoutUnderscores rest
        if body ≠ [] && body.all (·.hexValue?.isSome) then some (valueInBase 16 body) else none
      else if d.val = 0x62 then
        let body := withoutUnderscores rest
        if body ≠ [] && body.all isBinary then some (valueInBase 2 body) else none
      else if digits.all isOctal then some (valueInBase 8 digits)
      else none
    else if c.isDigit && (d :: rest).all isDigitOrUnderscore then some (valueInBase 10 digits)
    else none

private def integer? (t : Text) : Option Int :=
  let (negative, digits) := signed t
  (natural? digits).map fun n => if negative then -(n : Int) else n

/-- An exponent with its sign, which must be there. -/
private def exponent? (t : Text) : Option Int :=
  match t with
  | [] => some 0
  | e :: sign :: digits =>
    if (e.val = 0x65 ∨ e.val = 0x45) ∧ (sign.val = 0x2b ∨ sign.val = 0x2d) ∧ digits ≠ [] ∧
        digits.all CodePoint.isDigit then
      let n : Int := Text.digitsValue digits
      some (if sign.val = 0x2d then -n else n)
    else none
  | _ => none

/-- A number with a point. -/
private def float? (t : Text) : Option Binary64 :=
  let (negative, body) := signed t
  if infinityWords.contains body then some (.infinite negative)
  else if nanWords.contains t then some .nan
  else
    let whole := body.takeWhile isDigitOrUnderscore
    match body.dropWhile isDigitOrUnderscore with
    | [] => none
    | point :: rest =>
      let fraction := withoutUnderscores (rest.takeWhile isDigitOrUnderscore)
      let head := (whole.head?.map CodePoint.isDigit).getD (fraction ≠ [] && t == body)
      if point.val = 0x2e && head then
        (exponent? (rest.dropWhile isDigitOrUnderscore)).map fun e =>
          Binary64.ofDecimal negative (Text.digitsValue (withoutUnderscores whole ++ fraction))
            (e - fraction.length)
      else none

/-- The value of a plain scalar. -/
def resolve (t : Text) : Value :=
  if nullWords.contains t then .null
  else if trueWords.contains t then .bool true
  else if falseWords.contains t then .bool false
  else
    match integer? t with
    | some n => .int n
    | none =>
      match float? t with
      | some x => .float x
      | none => .text t

/-! ## Quoted scalars -/

/-- The text up to the closing single quote, and the text behind it. A quote inside is written twice. -/
def untilSingleQuote? : Text → Option (Text × Text)
  | [] => none
  | c :: rest =>
    if c.val = 0x27 then
      match rest with
      | d :: rest' =>
        if d.val = 0x27 then (untilSingleQuote? rest').map fun (t, r) => (c :: t, r)
        else some ([], rest)
      | [] => some ([], [])
    else (untilSingleQuote? rest).map fun (t, r) => (c :: t, r)

/-- The text up to the closing double quote with its escapes still in it, and the text behind it. -/
def untilDoubleQuote? : Text → Option (Text × Text)
  | [] => none
  | c :: rest =>
    if c.val = 0x22 then some ([], rest)
    else if c.val = 0x5c then
      match rest with
      | d :: rest' => (untilDoubleQuote? rest').map fun (t, r) => (c :: d :: t, r)
      | [] => none
    else (untilDoubleQuote? rest).map fun (t, r) => (c :: t, r)

private def isInlineGap (c : CodePoint) : Bool := isSpace c || c.val == 0x09

private def trimGapsEnd (t : Text) : Text := (t.reverse.dropWhile isInlineGap).reverse

/-- Whether a line ends in a backslash that is not escaped itself. -/
private def endsInBackslash (line : Text) : Bool :=
  (line.reverse.takeWhile (·.val == 0x5c)).length % 2 == 1

/-- Joins a line of a quoted scalar and the lines behind it. One break is a space, further ones are
kept, and where there are escapes a break behind a backslash is nothing. -/
def foldOnto (escapes : Bool) (line : Text) : List Text → Text
  | [] => line
  | next :: rest =>
    let tail := foldOnto escapes (next.dropWhile isInlineGap) rest
    if escapes && endsInBackslash line then line.dropLast ++ tail
    else if next.all isInlineGap ∧ rest ≠ [] then trimGapsEnd line ++ "\n" ++ tail.dropWhile isSpace
    else trimGapsEnd line ++ " " ++ tail

/-- Joins the lines of a scalar. -/
def foldLines (escapes : Bool) (t : Text) : Text :=
  match lines t with
  | [] => []
  | line :: rest => foldOnto escapes line rest

/-- The code points of escapes with one letter. -/
private def escapeTable : List (Nat × Nat) :=
  [(0x30, 0x00), (0x61, 0x07), (0x62, 0x08), (0x74, 0x09), (0x09, 0x09), (0x6e, 0x0a), (0x76, 0x0b),
    (0x66, 0x0c), (0x72, 0x0d), (0x65, 0x1b), (0x20, 0x20), (0x22, 0x22), (0x5c, 0x5c),
    (0x2f, 0x2f), (0x4e, 0x85), (0x5f, 0xa0), (0x4c, 0x2028), (0x50, 0x2029)]

/-- The number of hexadecimal digits behind the letter of an escape. -/
private def escapeWidth? (letter : Nat) : Option Nat :=
  if letter = 0x78 then some 2 else if letter = 0x75 then some 4
  else if letter = 0x55 then some 8 else none

/-- Replaces the escapes between double quotes; the first argument bounds the number of steps. -/
private def unescape : Nat → Text → Option Text
  | _, [] => some []
  | 0, _ => none
  | fuel + 1, c :: rest =>
    if c.val = 0x5c then
      match rest with
      | [] => none
      | e :: rest =>
        match escapeWidth? e.val with
        | some width =>
          let digits := rest.take width
          let n := valueInBase 16 digits
          if digits.length = width && digits.all (·.hexValue?.isSome) && n < 0x110000 then
            (unescape fuel (rest.drop width)).map (Fin.ofNat _ n :: ·)
          else none
        | none =>
          match escapeTable.lookup e.val with
          | some n => (unescape fuel rest).map (Fin.ofNat _ n :: ·)
          | none => none
    else (unescape fuel rest).map (c :: ·)

/-- Reads the quoted scalar that a text starts with. -/
def quoted? (s : Text) : Option (Text × Text) :=
  match s with
  | c :: rest =>
    if c.val = 0x27 then (untilSingleQuote? rest).map fun (t, r) => (foldLines false t, r)
    else if c.val = 0x22 then do
      let (t, r) ← untilDoubleQuote? rest
      let folded := foldLines true t
      return (← unescape folded.length folded, r)
    else none
  | [] => none

end DocShape.Yaml
