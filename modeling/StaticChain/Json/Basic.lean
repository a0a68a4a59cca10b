/-!
# JSON values

`Json` is what a JSON text denotes, with three distinctions that readers of the text need later:

* an integer literal (`Json.int`) is kept apart from every other number (`Json.real`), so that
  `1`, `1.0`, `1e0` and `-0` stay different;
* a string literal with half of a surrogate pair is well formed and denotes no text
  (`Json.unpaired`, and `none` as the name of a member);
* members keep their order and their repetitions.

`Json.record?`, `Json.variant?` and `Json.items?` are the three shapes in which the program's own
types are written: a structure by names or by position, a tagged alternative, and a list.
-/

namespace StaticChain

/-- A JSON value. -/
inductive Json where
  | null
  | bool (value : Bool)
  /-- A number written without point and exponent, other than `-0`. -/
  | int (value : Int)
  /-- Any other number, as written. -/
  | real (lexeme : String)
  | str (text : String)
  /-- A string literal with an unpaired surrogate escape. -/
  | unpaired
  | arr (items : List Json)
  | obj (members : List (Option String × Json))
deriving Inhabited

namespace Json

/-- An object whose member names are all texts. -/
def object (members : List (String × Json)) : Json :=
  .obj (members.map fun (name, value) => (some name, value))

/-- A number of things. -/
def nat (n : Nat) : Json := .int n

/-- The value, or `null` for an absent one. -/
def option (f : α → Json) : Option α → Json
  | none => .null
  | some a => f a

/-- A list of values. -/
def list (f : α → Json) (values : List α) : Json := .arr (values.map f)

/-- The last member of that name. -/
def member? (name : String) : Json → Option Json
  | .obj members => (members.reverse.find? fun m => m.1 == some name).map Prod.snd
  | _ => none

/-- The number, if it is written as an integer. -/
def int? : Json → Option Int
  | .int value => some value
  | _ => none

/-- The number, if it is an integer from zero on. -/
def nat? : Json → Option Nat
  | .int (.ofNat n) => some n
  | _ => none

/-- The number, if it fits in 32 bits without a sign. -/
def word? (value : Json) : Option Nat :=
  value.nat?.filter (· < UInt32.size)

/-- The number, if it fits in 64 bits with a sign. -/
def int64? : Json → Option Int64
  | .int value =>
    if Int64.minValue.toInt ≤ value ∧ value ≤ Int64.maxValue.toInt then some (Int64.ofInt value)
    else none
  | _ => none

def bool? : Json → Option Bool
  | .bool value => some value
  | _ => none

def str? : Json → Option String
  | .str text => some text
  | _ => none

/-- The elements of a list. -/
def items? : Json → Option (List Json)
  | .arr items => some items
  | _ => none

/-- The values of the named fields, in the order of `names`. A structure is written as an object,
where a field may be missing (`none`), no field may stand twice and other members are ignored, or
as the array of all its fields. -/
def record? (names : List String) : Json → Option (List (Option Json))
  | .arr items => if items.length = names.length then some (items.map some) else none
  | .obj members =>
    if members.all (fun m => m.1.isSome) &&
        names.all (fun name => members.countP (fun m => m.1 == some name) ≤ 1) then
      some (names.map fun name => (members.find? fun m => m.1 == some name).map Prod.snd)
    else none
  | _ => none

/-- The tag of an alternative with its content: a bare string has none, an object of one member
has the member's value. -/
def variant? : Json → Option (String × Option Json)
  | .str tag => some (tag, none)
  | .obj [(some tag, content)] => some (tag, some content)
  | _ => none

end Json

end StaticChain
