import DocShape.Json.Token

/-!
# Reading JSON

Tokens are read one at a time by a stack machine: `Reading.step` takes one token, and `Json.read`
runs it over the tokens of a text. A later member with the key of an earlier one replaces its value.
-/

namespace DocShape.Json

inductive ReadError
  | malformed
  | integerTooLong
  deriving DecidableEq, Repr

/-- An open array with its items in reverse, or an open object with the key that waits for a value. -/
inductive Frame
  | array (items : List Value)
  | object (members : Members) (key : Text)
  deriving Repr

/-- What may come next. -/
inductive Expectation
  | value
  | firstItem
  | firstKey
  | key (members : Members)
  | colon (members : Members) (key : Text)
  /-- A value has been read; a comma, the end of its container or the end of the text may follow. -/
  | finished (v : Value)
  deriving Repr

/-- What may come next, and the containers that are open, the innermost first. -/
structure Reading where
  next : Expectation
  stack : List Frame
  deriving Repr

namespace Reading

/-- Reads a token where a value may stand. -/
def stepValue (token : Token) (stack : List Frame) : Except ReadError Reading :=
  match token with
  | .scalar v => .ok ⟨.finished v, stack⟩
  | .text t => .ok ⟨.finished (.text t), stack⟩
  | .openArray => .ok ⟨.firstItem, stack⟩
  | .openObject => .ok ⟨.firstKey, stack⟩
  | .overlongInteger => .error .integerTooLong
  | _ => .error .malformed

/-- Reads a token behind a finished value. -/
def stepFinished (token : Token) (v : Value) (stack : List Frame) : Except ReadError Reading :=
  match token, stack with
  | .comma, .array items :: stack => .ok ⟨.value, .array (v :: items) :: stack⟩
  | .comma, .object members key :: stack => .ok ⟨.key (Table.put members key v), stack⟩
  | .closeArray, .array items :: stack => .ok ⟨.finished (.array (v :: items).reverse), stack⟩
  | .closeObject, .object members key :: stack =>
    .ok ⟨.finished (.object (Table.put members key v)), stack⟩
  | _, _ => .error .malformed

/-- Reads one token. -/
def step (r : Reading) (token : Token) : Except ReadError Reading :=
  match r.next, token with
  | .value, token => stepValue token r.stack
  | .firstItem, .closeArray => .ok ⟨.finished (.array []), r.stack⟩
  | .firstItem, token => stepValue token (.array [] :: r.stack)
  | .firstKey, .closeObject => .ok ⟨.finished (.object []), r.stack⟩
  | .firstKey, .text key => .ok ⟨.colon [] key, r.stack⟩
  | .key members, .text key => .ok ⟨.colon members key, r.stack⟩
  | .colon members key, .colon => .ok ⟨.value, .object members key :: r.stack⟩
  | .finished v, token => stepFinished token v r.stack
  | _, _ => .error .malformed

def run : List Token → Reading → Except ReadError Reading
  | [], r => .ok r
  | token :: rest, r =>
    match r.step token with
    | .ok r => run rest r
    | .error e => .error e

/-- The value of a reading that is complete. -/
def value? : Reading → Except ReadError Value
  | ⟨.finished v, []⟩ => .ok v
  | _ => .error .malformed

end Reading

/-- Reads a text that holds one value. -/
def read (s : Text) : Except ReadError Value := do
  let reading ← Reading.run (tokens s) ⟨.value, []⟩
  reading.value?

end DocShape.Json
