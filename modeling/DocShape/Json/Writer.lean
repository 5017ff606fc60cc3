import DocShape.Number.Layout
import DocShape.Json.Value

/-!
# Writing JSON

* `Json.Value.write` writes a value on one line or indented, in ASCII or with the text as it is;
* `Json.Value.sortKeys` orders the members of every object by code point;
* `Json.Value.outputText` is the text that leaves the program: non-ASCII text stays, surrogates are
  escaped;
* `Json.outputTextWith` writes under a setting for the indentation, unless an integer is too long.
-/

namespace DocShape.Json

/-- Numbers that are not finite are written as words. -/
def floatLayout : FloatLayout := { infinity := "Infinity", nan := "NaN" }

/-- The form of written JSON: the text of one level of indentation, if any, and whether all but ASCII
is escaped. -/
structure Form where
  indent : Option Text
  ascii : Bool

/-! ## Strings -/

/-- A unit of sixteen bits by its number. -/
def escapeUnit (n : Nat) : Text := "\\u" ++ Text.hex 4 n

/-- One code point of a string. In ASCII, a code point beyond the basic plane is written as a
surrogate pair. -/
def escapePoint (ascii : Bool) (c : CodePoint) : Text :=
  if c.val = 0x22 then "\\\""
  else if c.val = 0x5c then "\\\\"
  else if c.val = 0x0a then "\\n"
  else if c.val = 0x0d then "\\r"
  else if c.val = 0x09 then "\\t"
  else if c.val = 0x08 then "\\b"
  else if c.val = 0x0c then "\\f"
  else if c.val < 0x20 then escapeUnit c.val
  else if ascii && 0x7f ≤ c.val then
    if c.val < 0x10000 then escapeUnit c.val
    else
      escapeUnit (0xd800 + (c.val - 0x10000) / 0x400) ++
        escapeUnit (0xdc00 + (c.val - 0x10000) % 0x400)
  else [c]

def writeText (ascii : Bool) (t : Text) : Text :=
  "\"" ++ t.flatMap (escapePoint ascii) ++ "\""

/-! ## Values -/

namespace Form

/-- The line break before an item at a level; nothing when all stands on one line. -/
def lineBreak (form : Form) (level : Nat) : Text :=
  match form.indent with
  | none => []
  | some indent => "\n" ++ (List.replicate level indent).flatten

/-- What stands between two items at a level. -/
def separator (form : Form) (level : Nat) : Text :=
  match form.indent with
  | none => ", "
  | some _ => "," ++ form.lineBreak level

end Form

namespace Value

mutual

def writeAt (form : Form) (level : Nat) : Value → Text
  | .null => "null"
  | .bool b => if b then "true" else "false"
  | .int n => Text.ofInt n
  | .float x => x.write floatLayout
  | .text t => writeText form.ascii t
  | .array [] => "[]"
  | .array (item :: rest) =>
    "[" ++ form.lineBreak (level + 1) ++ writeAt form (level + 1) item ++
      writeItems form (level + 1) rest ++ form.lineBreak level ++ "]"
  | .object [] => "\x7b\x7d"
  | .object ((key, v) :: rest) =>
    "\x7b" ++ form.lineBreak (level + 1) ++ writeText form.ascii key ++ ": " ++
      writeAt form (level + 1) v ++ writeMembers form (level + 1) rest ++ form.lineBreak level ++
      "\x7d"

/-- The items behind the first one. -/
def writeItems (form : Form) (level : Nat) : List Value → Text
  | [] => []
  | item :: rest => form.separator level ++ writeAt form level item ++ writeItems form level rest

/-- The members behind the first one. -/
def writeMembers (form : Form) (level : Nat) : List (Text × Value) → Text
  | [] => []
  | (key, v) :: rest =>
    form.separator level ++ writeText form.ascii key ++ ": " ++ writeAt form level v ++
      writeMembers form level rest

end

def write (form : Form) (v : Value) : Text := v.writeAt form 0

/-- The text of a value as it is written out; `indent` is the text of one level. -/
def outputText (indent : Option Text) (v : Value) : Text :=
  (v.write ⟨indent, false⟩).escapeSurrogates

/-! ## Sorted keys -/

/-- Puts a member in front of the first one with a greater key. -/
def insertByKey (member : Text × Value) : List (Text × Value) → List (Text × Value)
  | [] => [member]
  | m :: rest => if member.1 < m.1 then member :: m :: rest else m :: insertByKey member rest

mutual

/-- Orders the members of every object by key. -/
def sortKeys : Value → Value
  | .array items => .array (sortKeysItems items)
  | .object members => .object (sortKeysMembers members)
  | v => v

def sortKeysItems : List Value → List Value
  | [] => []
  | item :: rest => sortKeys item :: sortKeysItems rest

def sortKeysMembers : List (Text × Value) → List (Text × Value)
  | [] => []
  | (key, v) :: rest => insertByKey (key, sortKeys v) (sortKeysMembers rest)

end

/-- One line of ASCII with sorted keys. -/
def asciiText (v : Value) : Text := v.sortKeys.write ⟨none, true⟩

end Value

/-! ## Writing under a setting -/

/-- Why a value cannot be written. -/
inductive WriteError
  /-- The indentation is neither a text nor a number of spaces. -/
  | notAWidth
  | tooWide
  | integerTooLong
  deriving DecidableEq, Repr

/-- The text of one level that a setting asks for: null is no indentation, a number is a count of
spaces, a text is taken as it is. A bare text never has levels and takes any setting. -/
def indentOf (setting v : Value) : Except WriteError (Option Text) :=
  match setting with
  | .null => .ok none
  | .text t => .ok (some t)
  | _ =>
    match v with
    | .text _ => .ok none
    | _ =>
      match setting.toInt? with
      | none => .error .notAWidth
      | some n =>
        if twoTo 63 ≤ n ∨ n < -twoTo 63 then .error .tooWide
        else .ok (some (List.replicate n.toNat 0x20))

namespace Value

mutual

/-- Whether an integer inside a value has more digits than are written. -/
def hasOverlongInteger : Value → Bool
  | .int n => integerDigitLimit < (Text.decimal n.natAbs).length
  | .array items => overlongIntegerInItems items
  | .object members => overlongIntegerInMembers members
  | _ => false

def overlongIntegerInItems : List Value → Bool
  | [] => false
  | item :: rest => item.hasOverlongInteger || overlongIntegerInItems rest

def overlongIntegerInMembers : List (Text × Value) → Bool
  | [] => false
  | (_, v) :: rest => v.hasOverlongInteger || overlongIntegerInMembers rest

end

end Value

/-- The text of a value with the indentation that a setting asks for. -/
def outputTextWith (setting v : Value) : Except WriteError Text := do
  let indent ← indentOf setting v
  if v.hasOverlongInteger then throw .integerTooLong
  return v.outputText indent

/-- What is written has no surrogate. -/
theorem outputTextWith_plain {setting v : Value} {text : Text}
    (h : outputTextWith setting v = .ok text) : ∀ c ∈ text, c.isSurrogate = false := by
  unfold outputTextWith at h
  cases hi : indentOf setting v with
  | error e =>
    rw [hi] at h
    cases h
  | ok indent =>
    rw [hi] at h
    by_cases long : v.hasOverlongInteger
    · simp [long, bind, Except.bind, throw, throwThe, MonadExceptOf.throw] at h
    · simp only [long, bind, Except.bind, pure, Except.pure] at h
      cases h
      exact fun c hc => Text.isSurrogate_of_mem_escapeSurrogates hc

end DocShape.Json
