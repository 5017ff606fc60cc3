import DocShape.Json.Equality

/-!
# Merging configurations

* `Config.merge` lays an update over a base: objects are merged member by member, every other value
  replaces the old one;
* lists under an additive key are united instead, by `Config.unite`, into a sorted list without
  repeats.
-/

namespace DocShape.Config

open Json

/-- Why two configurations cannot be merged. -/
inductive MergeFault
  /-- Something that has no members is merged. -/
  | noMembers
  /-- A list is asked for a member by its key. -/
  | keyOfList
  /-- The entries of an additive list have no common order. -/
  | noOrder
  deriving DecidableEq, Repr

/-! ## Additive lists -/

/-- The keys whose lists are united. -/
def isAdditive (key : Text) : Bool := key == "skip"

/-- Puts a value into an ascending list, unless an equal one is there. -/
def insertEntry (before : Value → Value → Bool) (v : Value) : List Value → List Value
  | [] => [v]
  | w :: rest =>
    if v.looseEq w then w :: rest
    else if before v w then v :: w :: rest
    else w :: insertEntry before v rest

def isText : Value → Bool
  | .text _ => true
  | _ => false

def isNumber : Value → Bool
  | .int _ | .bool _ | .float _ => true
  | _ => false

def isNull : Value → Bool
  | .null => true
  | _ => false

/-- Text is ordered by code points. -/
def textBefore : Value → Value → Bool
  | .text a, .text b => decide (a < b)
  | _, _ => false

/-- Numbers are ordered by their value; what is no number comes before nothing. -/
def numberBefore (a b : Value) : Bool :=
  match a.linePoint?, b.linePoint? with
  | some a, some b => a.before b
  | _, _ => false

/-- The entries in ascending order without repeats; of equal entries the first one is kept. -/
def sortEntries (entries : List Value) : Except MergeFault (List Value) :=
  if entries.all isText then .ok (entries.foldl (fun l v => insertEntry textBefore v l) [])
  else if entries.all isNumber then .ok (entries.foldl (fun l v => insertEntry numberBefore v l) [])
  else if entries.all isNull then .ok [.null]
  else .error .noOrder

def unite (old new : List Value) : Except MergeFault (List Value) := sortEntries (old ++ new)

/-! ## Objects -/

mutual

/-- Lays the members of an update over those of a base, in order. -/
def mergeMembers (base : Members) : List (Text × Value) → Except MergeFault Members
  | [] => .ok base
  | (key, v) :: rest => do
    let merged ← mergeMember key (member? base key) v
    mergeMembers (Table.put base key merged) rest

/-- The value of a member after an update by the last argument. -/
def mergeMember (key : Text) (old : Option Value) : Value → Except MergeFault Value
  | .object new =>
    match old with
    | some (.object old) => .object <$> mergeMembers old new
    | _ => .ok (.object new)
  | .array new =>
    match old with
    | some (.array old) => if isAdditive key then .array <$> unite old new else .ok (.array new)
    | _ => .ok (.array new)
  | v => .ok v

end

/-- What happens when a member is laid over a list: a key that the list holds is looked up in it, and
an additive list is looked for. -/
def faultOfList (items : List Value) (key : Text) (v : Value) : MergeFault :=
  if items.any (·.isText key) then .keyOfList
  else
    match v with
    | .array _ => if isAdditive key then .noMembers else .keyOfList
    | _ => .keyOfList

/-- Lays an update over a base. A list can be a base as long as nothing is laid over it. -/
def merge (base update : Value) : Except MergeFault Value :=
  match base, update with
  | .object base, .object update => .object <$> mergeMembers base update
  | .array items, .object update =>
    match update with
    | [] => .ok (.array items)
    | (key, v) :: _ => .error (faultOfList items key v)
  | _, _ => .error .noMembers

end DocShape.Config
