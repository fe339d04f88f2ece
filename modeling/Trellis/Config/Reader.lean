import Trellis.Config.Basic
import Trellis.Json.Basic

/-!
# Reading descriptions from JSON

Settings are the fields of an object, under the names they have here except that the kind of a
layout is its `type`. Every setting may be left out; `null` is accepted only where a setting may be
without a value. Unknown fields are not looked at, a known field must not be repeated, and nothing
is converted: a number is no string, and a length is written without fraction or exponent.

* `Description.ofJson?`, `LayoutConfig.ofJson?`: what an object describes; `none` when it is
  rejected.
-/
namespace Trellis

namespace Json

/-! ## Single values -/

def toInteger? : Json → Option Int
  | .number (.integer n) => some n
  | _ => none

def toLength? (j : Json) : Option Int := do
  let n ← j.toInteger?
  if Length.Fits n then some n else none

/-- A count: a non-negative integer of 64 bits. -/
def toCount? (j : Json) : Option Nat := do
  let n ← j.toInteger?
  if 0 ≤ n then some n.toNat else none

def toFloat? : Json → Option Float
  | .number (.integer n) => some (Float.ofInt n)
  | .number (.real x) => some x
  | _ => none

def toBool? : Json → Option Bool
  | .bool b => some b
  | _ => none

def toString? : Json → Option String
  | .string s => some s
  | _ => none

def toWord? {α : Type} [Vocabulary α] (j : Json) : Option α := j.toString?.bind Vocabulary.read

/-! ## Fields -/

/-- The fields of an object whose names all have a value. -/
def fields? : Json → Option (List (String × Json))
  | .object fields => fields.mapM fun (name, v) => name.map fun n => (n, v)
  | _ => none

end Json

/-- The fields of an object that settings are read from. -/
abbrev Fields := List (String × Json)

namespace Fields

/-- The field `name`, if it is there. -/
inductive Found where
  | absent
  | once (v : Json)
  | repeated

def find (o : Fields) (name : String) : Found :=
  match o.filter fun f => f.1 == name with
  | [] => .absent
  | [(_, v)] => .once v
  | _ => .repeated

/-- A setting that may be without a value. -/
def optional {α : Type} (o : Fields) (name : String) (read : Json → Option α) :
    Option (Option α) :=
  match o.find name with
  | .absent | .once .null => some none
  | .once v => (read v).map some
  | .repeated => none

/-- A setting that always has a value. -/
def required {α : Type} (o : Fields) (name : String) (otherwise : α) (read : Json → Option α) :
    Option α :=
  match o.find name with
  | .absent => some otherwise
  | .once v => read v
  | .repeated => none

end Fields

namespace Spacing

def ofJson? : Json → Option Spacing
  | .string s => some (.text s)
  | j => j.toFloat?.map .number

end Spacing

namespace ActiveItem

def ofJson? : Json → Option ActiveItem
  | .string s => some (.itemId s)
  | j => j.toCount?.map .position

end ActiveItem

namespace BufferResize

def ofJson? : Json → Option BufferResize
  | .bool b => some (.enabled b)
  | j => j.toCount?.map .millis

end BufferResize

namespace AnchorSize

/-- A width, or an object with a width or height; nothing in the object may be flawed. -/
def ofJson? (depth : Nat) (j : Json) : Option AnchorSize :=
  match j with
  | .object _ => do
    let o ← j.fields?
    if j.isSoundWithin depth then
      return .size (← Fields.optional o "width" Json.toLength?)
        (← Fields.optional o "height" Json.toLength?)
    else none
  | j => j.toLength?.map .width

end AnchorSize

namespace LayoutConfig

/-- The layout that an object nested at most `depth` deep describes. -/
def ofJsonWithin? (depth : Nat) (j : Json) : Option LayoutConfig := do
  let d ← if depth = 0 then none else some (depth - 1)
  let o ← j.fields?
  let standard : LayoutConfig := {}
  return {
    kind := ← Fields.required o "type" standard.kind Json.toWord?
    pack := ← Fields.required o "pack" standard.pack Json.toWord?
    align := ← Fields.required o "align" standard.align Json.toWord?
    padding := ← Fields.optional o "padding" Spacing.ofJson?
    defaultMargins := ← Fields.optional o "defaultMargins" Spacing.ofJson?
    overflowHandler := ← Fields.optional o "overflowHandler" Json.toWord?
    triggerSize := ← Fields.required o "triggerSize" standard.triggerSize Json.toLength?
    scrollerSize := ← Fields.required o "scrollerSize" standard.scrollerSize Json.toLength?
    columns := ← Fields.optional o "columns" Json.toCount?
    anchorSize := ← Fields.optional o "anchorSize" (AnchorSize.ofJson? d)
    labelWidth := ← Fields.required o "labelWidth" standard.labelWidth Json.toLength?
    labelPad := ← Fields.required o "labelPad" standard.labelPad Json.toLength?
    labelAlign := ← Fields.required o "labelAlign" standard.labelAlign Json.toWord?
    labelHeight := ← Fields.required o "labelHeight" standard.labelHeight Json.toLength?
    activeItem := ← Fields.optional o "activeItem" ActiveItem.ofJson?
    headerHeight := ← Fields.required o "headerHeight" standard.headerHeight Json.toLength?
    bufferResize := ← Fields.optional o "bufferResize" BufferResize.ofJson?
  }

def ofJson? (j : Json) : Option LayoutConfig := ofJsonWithin? Json.maxDepth j

end LayoutConfig

namespace ItemConfig

/-- The settings among the fields of an object whose values nest at most `depth` deep. -/
def ofFields? (depth : Nat) (o : Fields) : Option ItemConfig := do
  return {
    itemId := ← Fields.optional o "itemId" Json.toString?
    x := ← Fields.optional o "x" Json.toLength?
    y := ← Fields.optional o "y" Json.toLength?
    width := ← Fields.optional o "width" Json.toLength?
    height := ← Fields.optional o "height" Json.toLength?
    minWidth := ← Fields.optional o "minWidth" Json.toLength?
    minHeight := ← Fields.optional o "minHeight" Json.toLength?
    maxWidth := ← Fields.optional o "maxWidth" Json.toLength?
    maxHeight := ← Fields.optional o "maxHeight" Json.toLength?
    intrinsicWidth := ← Fields.optional o "intrinsicWidth" Json.toLength?
    intrinsicHeight := ← Fields.optional o "intrinsicHeight" Json.toLength?
    flex := ← Fields.optional o "flex" Json.toFloat?
    margins := ← Fields.optional o "margins" Spacing.ofJson?
    cmargins := ← Fields.optional o "cmargins" Spacing.ofJson?
    anchor := ← Fields.optional o "anchor" Json.toString?
    columnWidth := ← Fields.optional o "columnWidth" Json.toFloat?
    rowspan := ← Fields.optional o "rowspan" Json.toCount?
    colspan := ← Fields.optional o "colspan" Json.toCount?
    region := ← Fields.optional o "region" Json.toWord?
    split := ← Fields.required o "split" false Json.toBool?
    splitSize := ← Fields.optional o "splitSize" Json.toLength?
    minSize := ← Fields.optional o "minSize" Json.toLength?
    maxSize := ← Fields.optional o "maxSize" Json.toLength?
    collapsible := ← Fields.required o "collapsible" false Json.toBool?
    collapsed := ← Fields.required o "collapsed" false Json.toBool?
    collapsedSize := ← Fields.optional o "collapsedSize" Json.toLength?
    fieldLabel := ← Fields.optional o "fieldLabel" Json.toString?
    labelWidth := ← Fields.optional o "labelWidth" Json.toLength?
    hideLabel := ← Fields.required o "hideLabel" false Json.toBool?
    hidden := ← Fields.required o "hidden" false Json.toBool?
    layout := ← Fields.optional o "layout" (LayoutConfig.ofJsonWithin? depth)
  }

end ItemConfig

namespace Description

/-- The description that an object gives whose fields nest at most `depth` deep, when `items` reads
the list of children. -/
def ofFields? (depth : Nat) (items : Json → Option (List Description)) (j : Json) :
    Option Description := do
  let o ← j.fields?
  let item ← ItemConfig.ofFields? depth o
  return .node item (← Fields.required o "items" [] items)

/-- The description that an object nested at most `depth` deep gives. -/
def ofJsonWithin? : Nat → Json → Option Description
  | 0, _ => none
  | 1, j => ofFields? 0 (fun _ => none) j
  | depth + 2, j =>
    ofFields? (depth + 1)
      (fun
        | .array elements => elements.mapM (ofJsonWithin? depth)
        | _ => none) j

def ofJson? (j : Json) : Option Description := ofJsonWithin? Json.maxDepth j

end Description

end Trellis
