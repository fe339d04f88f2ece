import Trellis.Text.Blank

/-!
# The words of a layout description

Settings that choose among alternatives are written as words. A word is read without the blanks
around it and without regard to the case of ASCII letters; some alternatives have several words,
and the first one listed is the one that is written.

* `LayoutKind.read_spelling`, `RegionName.read_spelling`: every alternative is read back from the
  word that is written for it.
-/
namespace Trellis

/-- How a container arranges its children. -/
inductive LayoutKind where
  | auto | fit | card | anchor | absolute | form | column | table | border | hbox | vbox | accordion
  deriving DecidableEq, Repr, Inhabited

/-- Where a line of children stands when it leaves space free. -/
inductive Pack where
  | start | center | finish
  deriving DecidableEq, Repr, Inhabited

/-- How children stand across the line. -/
inductive Align where
  | start | middle | stretch | stretchMax
  deriving DecidableEq, Repr, Inhabited

/-- The slots of a border layout. -/
inductive RegionName where
  | north | south | east | west | center
  deriving DecidableEq, Repr, Inhabited

inductive LabelAlign where
  | left | right | top
  deriving DecidableEq, Repr, Inhabited

/-- What a line of children does when it does not fit. -/
inductive OverflowKind where
  | menu | scroll
  deriving DecidableEq, Repr, Inhabited

/-- A type whose values are written as words. -/
class Vocabulary (α : Type) where
  /-- Every word in lower case with its meaning. -/
  words : List (String × α)
  /-- The word that is written. -/
  spelling : α → String

namespace Vocabulary

variable {α : Type} [Vocabulary α]

/-- The alternative that `text` names. -/
def read (text : String) : Option α :=
  (words : List (String × α)).lookup (String.ofList (Text.foldCase (Text.trim text.toList)))

end Vocabulary

instance : Vocabulary LayoutKind where
  words := [("auto", .auto), ("fit", .fit), ("card", .card), ("anchor", .anchor),
    ("absolute", .absolute), ("form", .form), ("column", .column), ("table", .table),
    ("border", .border), ("hbox", .hbox), ("vbox", .vbox), ("accordion", .accordion)]
  spelling
    | .auto => "auto" | .fit => "fit" | .card => "card" | .anchor => "anchor"
    | .absolute => "absolute" | .form => "form" | .column => "column" | .table => "table"
    | .border => "border" | .hbox => "hbox" | .vbox => "vbox" | .accordion => "accordion"

instance : Vocabulary Pack where
  words := [("start", .start), ("center", .center), ("end", .finish)]
  spelling
    | .start => "start" | .center => "center" | .finish => "end"

instance : Vocabulary Align where
  words := [("start", .start), ("top", .start), ("left", .start), ("middle", .middle),
    ("center", .middle), ("stretch", .stretch), ("stretchmax", .stretchMax)]
  spelling
    | .start => "start" | .middle => "middle" | .stretch => "stretch" | .stretchMax => "stretchmax"

instance : Vocabulary RegionName where
  words := [("north", .north), ("south", .south), ("east", .east), ("west", .west),
    ("center", .center)]
  spelling
    | .north => "north" | .south => "south" | .east => "east" | .west => "west"
    | .center => "center"

instance : Vocabulary LabelAlign where
  words := [("left", .left), ("right", .right), ("top", .top)]
  spelling
    | .left => "left" | .right => "right" | .top => "top"

instance : Vocabulary OverflowKind where
  words := [("menu", .menu), ("scroll", .scroll)]
  spelling
    | .menu => "menu" | .scroll => "scroll"

theorem LayoutKind.read_spelling (k : LayoutKind) :
    Vocabulary.read (Vocabulary.spelling k) = some k := by
  cases k <;> decide +kernel

theorem RegionName.read_spelling (r : RegionName) :
    Vocabulary.read (Vocabulary.spelling r) = some r := by
  cases r <;> decide +kernel

end Trellis
