import ConditionalForms.Number.Double
import ConditionalForms.Value.Date

/-!
# Answer values

The values that answers, rule operands and saved documents are made of.  The members of a record
stand under keys, in the order in which the keys were first set, and there is at most one member
under a key.  Nearly all keys are names; a document may also have members under other single
values, where a truth value counts as the number one or zero and numbers are the same by their exact
value.

**Results.**
* `Key.same_text`: a key that is the same as a name is that name.
* `Record.get?_set`, `Record.get?_erase`: a record is a map from names to values; the last value set
  for a name is the one found.
-/

namespace ConditionalForms

/-- What a member of a record stands under: a name, or a single value of another kind. -/
inductive Key where
  | text (s : String)
  | null
  | bool (b : Bool)
  | int (n : Int)
  | float (x : Double)
  | date (d : Date)
deriving DecidableEq

instance : Coe String Key := ⟨.text⟩

/-- A value of an answer, an operand or a document. -/
inductive Value where
  | null
  | bool (b : Bool)
  | int (n : Int)
  | float (x : Double)
  | text (s : String)
  | list (items : List Value)
  | object (members : List (Key × Value))
  | date (d : Date)

instance : Inhabited Value := ⟨.null⟩

namespace Key

/-- The integer that a key counts as. -/
def integer? : Key → Option Int
  | .bool b => some (if b then 1 else 0)
  | .int n => some n
  | _ => none

/-- The two keys stand for the same member.  A NaN is the same as itself and as no other key. -/
def same (k l : Key) : Bool :=
  match k.integer?, l.integer? with
  | some m, some n => m = n
  | some m, none => match l with
    | .float y => y.eqInt m
    | _ => false
  | none, some n => match k with
    | .float x => x.eqInt n
    | _ => false
  | none, none => match k, l with
    | .float x, .float y => x = y || x.eq y
    | .date d, .date e => d.same e
    | _, _ => k = l

/-- The key as a value of its own. -/
def toValue : Key → Value
  | .text s => .text s
  | .null => .null
  | .bool b => .bool b
  | .int n => .int n
  | .float x => .float x
  | .date d => .date d

theorem same_text (k : Key) (s : String) : k.same (.text s) = decide (k = .text s) := by
  cases k <;> simp [same, integer?]

theorem text_same (s : String) (k : Key) : same (.text s) k = decide (.text s = k) := by
  cases k <;> simp [same, integer?]

end Key

/-- Values under keys, in the order of the first setting of the keys. -/
abbrev Record := List (Key × Value)

namespace Record

/-- The members of a record all of whose keys are names. -/
def ofNames (members : List (String × Value)) : Record := members.map fun m => (.text m.1, m.2)

/-- The value under a key. -/
def find? : Record → Key → Option Value
  | [], _ => none
  | (k, v) :: rest, key => if k.same key then some v else find? rest key

/-- The value under a name. -/
def get? (r : Record) (name : String) : Option Value := r.find? (.text name)

/-- The value under a name, null when there is none. -/
def get (r : Record) (name : String) : Value := (r.get? name).getD .null

/-- A name has a value. -/
def has (r : Record) (name : String) : Bool := (r.get? name).isSome

/-- Gives a key a value: in place when there is a member under the key, which keeps the key that it
has, and at the end otherwise. -/
def set : Record → Key → Value → Record
  | [], key, v => [(key, v)]
  | (k, w) :: rest, key, v => if k.same key then (k, v) :: rest else (k, w) :: set rest key v

/-- Removes the member under a name. -/
def erase (r : Record) (name : String) : Record := r.filter fun m => m.1 ≠ .text name

/-- Sets every member of the second record in the first one. -/
def merge (r other : Record) : Record := other.foldl (fun acc m => acc.set m.1 m.2) r

theorem get?_nil (name : String) : get? [] name = none := rfl

theorem get?_cons (m : Key × Value) (rest : Record) (name : String) :
    get? (m :: rest) name = if m.1 = .text name then some m.2 else get? rest name := by
  simp [get?, find?, Key.same_text]

theorem get?_set (r : Record) (name other : String) (v : Value) :
    (r.set name v).get? other = if name = other then some v else r.get? other := by
  induction r with
  | nil => simp [set, get?_cons, get?_nil]
  | cons m rest ih =>
    obtain ⟨k, w⟩ := m
    by_cases h : k = .text name
    · subst h
      by_cases h' : name = other <;> simp [set, Key.same_text, get?_cons, h']
    · by_cases h' : name = other
      · subst h'
        simp [set, Key.same_text, get?_cons, h, ih]
      · simp [set, Key.same_text, get?_cons, h, h', ih]

theorem get?_erase (r : Record) (name other : String) :
    (r.erase name).get? other = if name = other then none else r.get? other := by
  induction r with
  | nil => simp [erase, get?_nil]
  | cons m rest ih =>
    obtain ⟨k, w⟩ := m
    unfold erase at ih ⊢
    by_cases h : k = .text name
    · subst h
      by_cases h' : name = other
      · simpa [List.filter_cons, get?_cons, h'] using ih
      · simpa [List.filter_cons, get?_cons, h'] using ih
    · by_cases h' : name = other
      · subst h'
        simpa [List.filter_cons, get?_cons, h] using ih
      · simp only [ne_eq, decide_not, h', if_false] at ih
        simp [get?_cons, h, h', ih]

end Record

namespace Value

/-- A text value that may be missing. -/
def ofText? : Option String → Value
  | some s => .text s
  | none => .null

/-- An integer value that may be missing. -/
def ofInt? : Option Int → Value
  | some n => .int n
  | none => .null

/-- The word for the kind of a value. -/
def kindName : Value → String
  | .null => "NoneType"
  | .bool _ => "bool"
  | .int _ => "int"
  | .float _ => "float"
  | .text _ => "str"
  | .list _ => "list"
  | .object _ => "dict"
  | .date d => if d.clock.isSome then "datetime" else "date"

/-- The name of the kind of a value with what it belongs to, which only dates have. -/
def fullKindName (v : Value) : String :=
  match v with
  | .date _ => "datetime." ++ v.kindName
  | _ => v.kindName

/-- The null value. -/
def isNull : Value → Bool
  | .null => true
  | _ => false

/-- A value that stands for "something": not null, false, zero or empty. -/
def isTruthy : Value → Bool
  | .null => false
  | .bool b => b
  | .int n => n ≠ 0
  | .float x => x.order ≠ some 0
  | .text s => s ≠ ""
  | .list items => !items.isEmpty
  | .object members => !members.isEmpty
  | .date _ => true

/-- A value, or another one when it stands for nothing. -/
def orElse (v w : Value) : Value := if v.isTruthy then v else w

/-- A single value as a key; lists and objects are none. -/
def key? : Value → Option Key
  | .text s => some (.text s)
  | .null => some .null
  | .bool b => some (.bool b)
  | .int n => some (.int n)
  | .float x => some (.float x)
  | .date d => some (.date d)
  | .list _ => none
  | .object _ => none

mutual

/-- Equality of values: single ones as keys, lists item by item, and objects without regard to
order. -/
def same : Value → Value → Bool
  | .list xs, .list ys => sameItems xs ys
  | .object ms, .object ns => ms.length == ns.length && sameMembers ms ns
  | v, w => match v.key?, w.key? with
    | some k, some l => k.same l
    | _, _ => false

/-- Equality of lists, item by item. -/
def sameItems : List Value → List Value → Bool
  | [], [] => true
  | x :: xs, y :: ys => same x y && sameItems xs ys
  | _, _ => false

/-- Every member of the first record has an equal value in the second. -/
def sameMembers : List (Key × Value) → Record → Bool
  | [], _ => true
  | (k, v) :: rest, other => (match other.find? k with
    | some w => same v w
    | none => false) && sameMembers rest other

end

end Value

end ConditionalForms
