import Trellis.Engine
import Trellis.Json.Pretty
import Trellis.Text.Quoted

/-!
# Reports of a layout

A layout is reported as an indented tree with marks in color, or as a JSON document; what the host
was told can be listed after it.

* `Report.document`: the JSON document of a component and those in it.
* `Report.treeLines`: the lines of the indented tree.
-/
namespace Trellis.Report

/-! ## Colors -/

/-- `text` between two terminal attributes. -/
def styled (on off : Nat) (text : String) : String := s!"\x1b[{on}m{text}\x1b[{off}m"

def bold (text : String) : String := styled 1 0 text

def dimmed (text : String) : String := styled 2 0 text

def red (text : String) : String := styled 31 39 text

def green (text : String) : String := styled 32 39 text

def yellow (text : String) : String := styled 33 39 text

def cyan (text : String) : String := styled 36 39 text

/-- `text` with blanks before it up to a width. -/
def padded (width : Nat) (text : String) : String :=
  String.ofList (List.replicate (width - text.length) ' ') ++ text

/-! ## Single values -/

def rectText (r : Rect) : String := s!"x={r.x} y={r.y} w={r.width} h={r.height}"

/-- A component's name, or its id if it has none. -/
def displayName (t : Tree) (id : ComponentId) : String :=
  ((t.get? id).bind fun c => c.config.itemId).getD s!"#{id}"

def regionTitle : RegionName → String
  | .north => "North"
  | .south => "South"
  | .east => "East"
  | .west => "West"
  | .center => "Center"

def eventText : Event → String
  | .beforeLayout => "BeforeLayout"
  | .afterLayout => "AfterLayout"
  | .activate => "Activate"
  | .deactivate => "Deactivate"
  | .beforeCollapse r => s!"BeforeCollapse({regionTitle r})"
  | .collapse r => s!"Collapse({regionTitle r})"
  | .beforeExpand r => s!"BeforeExpand({regionTitle r})"
  | .expand r => s!"Expand({regionTitle r})"
  | .overflowChange b => s!"OverflowChange \x7b overflowing: {b} \x7d"

/-- The state of a region of a border container. -/
def regionState? (s : Scene) (container : ComponentId) (name : RegionName) : Option RegionState :=
  match s.kept.get? container with
  | some (.border b) => (name.edge?.bind b.get).map Region.state
  | _ => none

/-- The handler of a line. -/
def handler? (s : Scene) (container : ComponentId) : Option Box.Handler :=
  match s.kept.get? container with
  | some (.linear l) => l.overflow
  | _ => none

/-! ## The JSON document -/

def rectDocument (r : Rect) : Json.Document :=
  .object [("x", .integer r.x), ("y", .integer r.y), ("width", .integer r.width),
    ("height", .integer r.height)]

/-- A field that is left out without a value. -/
def given {α : Type} (name : String) (f : α → Json.Document) (a : Option α) :
    List (String × Json.Document) :=
  (a.map fun a => (name, f a)).toList

/-- The document of a component and of those in it, at most `n` levels deep. -/
def documentWithin (t : Tree) : (n : Nat) → ComponentId → Json.Document
  | 0, id => .object [("id", .integer id)]
  | n + 1, id =>
    match t.get? id with
    | none => .object [("id", .integer id)]
    | some c =>
      let children := c.children.map (documentWithin t n)
      .object ([("id", .integer id)] ++ given "itemId" .text c.config.itemId ++
        given "layout" (fun l => .text (Vocabulary.spelling l.kind)) c.config.layout ++
        [("rect", rectDocument c.state.rect), ("hidden", .bool c.state.hidden)] ++
        given "fieldLabel" .text c.config.fieldLabel ++
        given "labelRect" rectDocument c.state.labelRect ++
        given "children" .list (if children.isEmpty then none else some children))

def document (t : Tree) (id : ComponentId) : Json.Document := documentWithin t t.size id

/-! ## The indented tree -/

/-- The line of a component itself. -/
def componentLine (s : Scene) (dirty : List ComponentId) (id : ComponentId) (c : Component) :
    String :=
  let layout := match c.config.layout with
    | some l => s!" [{cyan (Vocabulary.spelling l.kind)}]"
    | none => ""
  let region := match c.config.region with
    | some name =>
      match c.parent.bind fun p => regionState? s p name with
      | some .expanded | none => s!" ({Vocabulary.spelling name})"
      | some other => s!" ({Vocabulary.spelling name}, {other.name})"
    | none => ""
  let hidden := if c.state.hidden then " " ++ dimmed "hidden" else ""
  let changed := if dirty.contains id then " " ++ yellow "dirty" else ""
  bold (displayName s.tree id) ++ layout ++ region ++ "  " ++ rectText c.state.rect ++ hidden ++
    changed

/-- The line about a label, if the component has one. -/
def labelLines (c : Component) : List String :=
  match c.state.labelRect with
  | some r =>
    let label := Text.quote (c.config.fieldLabel.getD "")
    [s!"  label {label}: {dimmed (rectText r)}"]
  | none => []

/-- The line about children that do not fit, if there are any. -/
def overflowLines (s : Scene) (id : ComponentId) : List String :=
  match (handler? s id).filter Box.Handler.isOverflowing with
  | some h =>
    let mark := red "overflow"
    if h.hiddenItems.isEmpty then [s!"  {mark} scroll={h.offset}"]
    else
      let names := ", ".intercalate (h.hiddenItems.map (displayName s.tree))
      [s!"  {mark} menu: {names}"]
  | none => []

/-- The lines of a component and those in it, at most `n` levels deep. -/
def treeLinesWithin (s : Scene) (dirty : List ComponentId) :
    (n depth : Nat) → ComponentId → List String
  | 0, _, _ => []
  | n + 1, depth, id =>
    match s.tree.get? id with
    | none => []
    | some c =>
      let own := componentLine s dirty id c :: labelLines c ++ overflowLines s id
      own.map (Json.indent depth ++ ·) ++ c.children.flatMap (treeLinesWithin s dirty n (depth + 1))

def treeLines (s : Scene) (dirty : List ComponentId) (id : ComponentId) : List String :=
  treeLinesWithin s dirty s.tree.size 0 id

/-! ## What the host was told -/

def eventLines (s : Scene) : List String :=
  s.events.map fun (id, e) => s!"{green (padded 12 (displayName s.tree id))}  {eventText e}"

end Trellis.Report
