import Trellis.Anchor
import Trellis.Binary64
import Trellis.Box.Flex
import Trellis.Box.Overflow
import Trellis.Box.Request
import Trellis.Box.Shrink
import Trellis.Box.Solution
import Trellis.CommandLine
import Trellis.Config.Basic
import Trellis.Config.Reader
import Trellis.Debounce
import Trellis.Engine
import Trellis.Event
import Trellis.Geometry
import Trellis.Grid
import Trellis.IdMap
import Trellis.Json.Basic
import Trellis.Json.Number
import Trellis.Json.Parser
import Trellis.Json.Pretty
import Trellis.Layout.Accordion
import Trellis.Layout.Anchored
import Trellis.Layout.Border
import Trellis.Layout.Columns
import Trellis.Layout.Fill
import Trellis.Layout.Lines
import Trellis.Layout.Member
import Trellis.Layout.Stack
import Trellis.Layout.Table
import Trellis.LayoutError
import Trellis.Length
import Trellis.Main
import Trellis.Notice
import Trellis.Region.State
import Trellis.Report
import Trellis.Scene
import Trellis.Spacing
import Trellis.Text.Blank
import Trellis.Text.Leading
import Trellis.Text.Quoted
import Trellis.Text.Shapeless
import Trellis.Tree
import Trellis.Vocabulary
import Trellis.Proofs.Active.Panels
import Trellis.Proofs.Active.Switching
import Trellis.Proofs.Anchor.Tokens
import Trellis.Proofs.Anchored.Caches
import Trellis.Proofs.Anchored.Rows
import Trellis.Proofs.Anchored.Turns
import Trellis.Proofs.Border.Carving
import Trellis.Proofs.Border.Footing
import Trellis.Proofs.Border.Passes
import Trellis.Proofs.Border.Splitting
import Trellis.Proofs.Border.Tiling
import Trellis.Proofs.Box.Containment
import Trellis.Proofs.Box.Evenness
import Trellis.Proofs.Box.Expanding
import Trellis.Proofs.Box.Fairness
import Trellis.Proofs.Box.Headroom
import Trellis.Proofs.Box.Limits
import Trellis.Proofs.Box.Lines
import Trellis.Proofs.Box.Mirror
import Trellis.Proofs.Box.Narrowness
import Trellis.Proofs.Box.Rounds
import Trellis.Proofs.Box.Sharing
import Trellis.Proofs.Box.Shrinking
import Trellis.Proofs.Box.Weights
import Trellis.Proofs.Columns
import Trellis.Proofs.Descriptions
import Trellis.Proofs.Dirty.Layouts
import Trellis.Proofs.Dirty.Marks
import Trellis.Proofs.Dirty.Passes
import Trellis.Proofs.Dirty.Turns
import Trellis.Proofs.Geometry
import Trellis.Proofs.Hidden.Accounts
import Trellis.Proofs.Hidden.Turns
import Trellis.Proofs.Histories.Forests
import Trellis.Proofs.Histories.Links
import Trellis.Proofs.Histories.Passes
import Trellis.Proofs.Histories.Shown
import Trellis.Proofs.Margins
import Trellis.Proofs.Menu.Forgetting
import Trellis.Proofs.Menu.Lines
import Trellis.Proofs.Menu.Order
import Trellis.Proofs.Menu.Reactions
import Trellis.Proofs.Menu.Turns
import Trellis.Proofs.Overflow.Changes
import Trellis.Proofs.Overflow.Turns
import Trellis.Proofs.Passes.Frame
import Trellis.Proofs.Passes.Levels
import Trellis.Proofs.Passes.Records
import Trellis.Proofs.Passes.Traces
import Trellis.Proofs.Passes.Writes
import Trellis.Proofs.Region.Calls
import Trellis.Proofs.Region.Drawing
import Trellis.Proofs.Region.Evolution
import Trellis.Proofs.Region.Geometry
import Trellis.Proofs.Region.Refusals
import Trellis.Proofs.Region.Sliding
import Trellis.Proofs.Region.Slots
import Trellis.Proofs.Region.Splitters
import Trellis.Proofs.Region.States
import Trellis.Proofs.Region.Strays
import Trellis.Proofs.Region.Turns
import Trellis.Proofs.Relayout.Active
import Trellis.Proofs.Relayout.Agreement
import Trellis.Proofs.Relayout.Anchors
import Trellis.Proofs.Relayout.Handlers
import Trellis.Proofs.Relayout.Kinds
import Trellis.Proofs.Relayout.Lines
import Trellis.Proofs.Relayout.Nesting
import Trellis.Proofs.Relayout.Passes
import Trellis.Proofs.Relayout.Regions
import Trellis.Proofs.Relayout.Settling
import Trellis.Proofs.Relayout.Twice
import Trellis.Proofs.Requests.Ancestors
import Trellis.Proofs.Requests.Destroying
import Trellis.Proofs.Requests.Gathering
import Trellis.Proofs.Requests.Serving
import Trellis.Proofs.Requests.Windows
import Trellis.Proofs.Scroll.Lines
import Trellis.Proofs.Scroll.Turns
import Trellis.Proofs.Shorthand
import Trellis.Proofs.Sizes.Layouts
import Trellis.Proofs.Sizes.Nonneg
import Trellis.Proofs.Sizes.Turns
import Trellis.Proofs.Steps
import Trellis.Proofs.Table.Cells
import Trellis.Proofs.Table.FirstFit
import Trellis.Proofs.Table.Growth
import Trellis.Proofs.Table.Layout
import Trellis.Proofs.Table.Tracks
import Trellis.Proofs.Text.Bytes
import Trellis.Proofs.Text.Numbers
import Trellis.Proofs.Totals
import Trellis.Proofs.Trees
