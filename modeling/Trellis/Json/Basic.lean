import Trellis.Json.Number

/-!
# JSON values

A value keeps the fields of an object in the order in which they are written, repeated ones
included. Text can be well formed and still say nothing: a number beyond every binary64 number, or
half of a surrogate pair in a string. Such a leaf is `flawed`, and the reader of a value decides
whether it needs that leaf.

* `isSound`: the value has no flawed leaf and nests at most `maxDepth` deep.
-/
namespace Trellis

inductive Json where
  | null
  | bool (b : Bool)
  | number (n : Json.Number)
  | string (s : String)
  | array (elements : List Json)
  /-- A field without a name is one whose name is flawed. -/
  | object (fields : List (Option String × Json))
  | flawed

namespace Json

/-- How deep arrays and objects that are read may nest. -/
def maxDepth : Nat := 127

/-- No leaf is flawed, and nesting stays within `depth`. -/
def isSoundWithin (depth : Nat) : Json → Bool
  | .flawed => false
  | .array elements =>
    match depth with
    | 0 => false
    | d + 1 => elements.attach.all fun ⟨e, _⟩ => isSoundWithin d e
  | .object fields =>
    match depth with
    | 0 => false
    | d + 1 => fields.attach.all fun ⟨(name, v), _⟩ => name.isSome && isSoundWithin d v
  | _ => true

/-- The fields of an object under `name`, in order. -/
def fieldsNamed (name : String) : Json → List Json
  | .object fields => (fields.filter fun f => f.1 == some name).map Prod.snd
  | _ => []

end Json

end Trellis
