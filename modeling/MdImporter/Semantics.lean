import MdImporter.Steps

/-!
# What the importer builds

The document the importer returns is a tree of blocks spread over maps:
blocks by id, the children lists and the deltas. This module says which tree
that is, without ids and without maps. A `BlockTree` is a block's type tag and
data, its delta and the trees of its children; for each function of the walk,
the tree semantics gives what the call adds under the block it works for, as
segments of that block's delta and trees of new children. A callout or toggle
that the sibling loop opens is a tree still growing (`OpenTree`) until its
closing sibling or the end of the siblings.

The semantics takes the same fuel as the walk and fails where the walk fails,
with the same fault; `Refinement` proves that the walk's document reads as it.
-/

namespace MdImporter

set_option autoImplicit false

open RustStr

/-- A block with everything under it: its type tag and data, its delta, and
the trees of its children in order. -/
inductive BlockTree where
  | node (ty : String) (data : BlockData) (delta : Delta) (children : List BlockTree)

/-- What a call of the walk adds under the block it works for: segments at the
end of the block's delta, and trees at the end of its children. -/
structure Contribution where
  delta : Delta
  children : List BlockTree

namespace Contribution

/-- A call that adds nothing. -/
def empty : Contribution := ⟨[], []⟩

/-- One new child. -/
def child (tree : BlockTree) : Contribution := ⟨[], [tree]⟩

/-- Two calls in a row. -/
def append (first second : Contribution) : Contribution :=
  ⟨first.delta ++ second.delta, first.children ++ second.children⟩

instance : Append Contribution := ⟨append⟩

@[simp] theorem append_delta (first second : Contribution) :
    (first ++ second).delta = first.delta ++ second.delta := rfl

@[simp] theorem append_children (first second : Contribution) :
    (first ++ second).children = first.children ++ second.children := rfl

/-- The tree of a new block of type `ty` with `data`, and the contribution
of the call that fills it. -/
def tree (contribution : Contribution) (ty : String) (data : BlockData) : BlockTree :=
  .node ty data contribution.delta contribution.children

end Contribution

/-- A tree with a contribution added under its root. -/
def BlockTree.extend : BlockTree → Contribution → BlockTree
  | .node ty data delta children, contribution =>
      .node ty data (delta ++ contribution.delta) (children ++ contribution.children)

/-- The tree semantics' `Pending`: the sibling loop at its top, or with the
tree of the callout or toggle opened last, which the following siblings fill. -/
inductive OpenTree where
  | none
  | callout (tree : BlockTree)
  | toggle (tree : BlockTree) (summaryWritten : Bool)

/-- The data of `create_image_block`'s block. -/
def imageData (url : String) : BlockData :=
  (HashMap.empty.insert urlField (.string url)).insert imageTypeField (.string externalImageType)

/-- The data of an `<aside>`'s callout block. -/
def calloutData (icon : String) : BlockData :=
  if icon.isEmpty then HashMap.empty else HashMap.empty.insert "icon" (.string icon)

/-- The data of `create_simple_table_cell_block`'s block. -/
def cellData (row col : Nat) (alignments : List AlignKind) : BlockData :=
  let cellData := (HashMap.empty.insert rowPositionField (.number row)).insert
    colPositionField (.number col)
  match alignments[col]? with
  | some align => cellData.insert alignField (.string (alignString align))
  | none => cellData

/-- The segments `insertInlineChild` writes for a child of a re-parsed
paragraph or heading. -/
def inlineChildDelta (child : Node) : Delta :=
  if child.isInlineNode then inlineDelta [] child else [⟨child.toString, []⟩]

/-- The segments the fold of `insertMarkdownAsInlineDelta` writes for a node of
a re-parsed fragment. -/
def fragmentNodeDelta : Node → Delta
  | .paragraph inline | .heading _ inline => inline.flatMap inlineChildDelta
  | child => [⟨child.toString, []⟩]

section Semantics

variable (toMdast : String → Option (List Node))

/-- The segments `insertMarkdownAsInlineDelta` appends to its block's delta:
none for blank text, the trimmed text when it does not parse. -/
def markdownDelta (markdown : String) : Delta :=
  let md := trim markdown
  if md.isEmpty then []
  else match toMdast md with
    | none => [⟨md, []⟩]
    | some children => children.flatMap fragmentNodeDelta

/-- The tree of a toggle block whose summary is `summary`. -/
def toggleTree (summary : Delta) : BlockTree :=
  .node BlockType.toggleList.toString HashMap.empty summary []

mutual

/-- What `processMdastNode` adds under its parent: an inline node's segments,
a list's items, an image, a columns layout, or the node's own block. -/
def nodeTrees : Nat → Node → Option Node.ListType → Option Nat → Except Fault Contribution
  | 0, _, _, _ => .error .outOfFuel
  | fuel + 1, node, listType, startNumber =>
    if node.isInlineNode then .ok ⟨inlineDelta [] node, []⟩
    else if isClosingSentinel node then .ok .empty
    else match node.getMdastNodeInfo with
    | some (children, listType, startNumber) =>
        siblingTrees fuel .none children (some listType) startNumber
    | none => do
      match ← imageOf node with
      | some url => .ok (.child (.node BlockType.image.toString (imageData url) [] []))
      | none =>
      match notionColumnsOf node with
      | some info => do
          let columns ← columnTrees fuel info.bodyRows (List.range info.colCount)
          pure (.child (columns.tree BlockType.simpleColumns.toString HashMap.empty))
      | none => do
          let content ← contentTrees fuel node listType startNumber
          pure (.child (content.tree (mdastNodeTypeToBlockType node listType)
            (mdastNodeToBlockData node listType startNumber)))
termination_by structural fuel => fuel

/-- What `processBlockContent` adds under the block just made for `node`. -/
def contentTrees : Nat → Node → Option Node.ListType → Option Nat → Except Fault Contribution
  | 0, _, _, _ => .error .outOfFuel
  | fuel + 1, node, listType, startNumber =>
    match blockContent node with
    | .children children => siblingTrees fuel .none children none startNumber
    | .headed head rest => do
        let first ← match head with
          | some para => siblingTrees fuel .none para none startNumber
          | none => .ok .empty
        let second ← siblingTrees fuel .none rest listType startNumber
        pure (first ++ second)
    | .done => .ok .empty
    | .text value => .ok ⟨[⟨value, []⟩], []⟩
    | .rows align rows => rowTrees fuel align 0 rows
    | .unreachable => .error imageUnreachable
termination_by structural fuel => fuel

/-- What the sibling loop adds under its parent. An open callout or toggle is
added when its closing sibling comes, or at the end of the siblings. -/
def siblingTrees : Nat → OpenTree → List Node → Option Node.ListType → Option Nat →
    Except Fault Contribution
  | 0, _, _, _, _ => .error .outOfFuel
  | _ + 1, .none, [], _, _ => .ok .empty
  | _ + 1, .callout tree, [], _, _ | _ + 1, .toggle tree _, [], _, _ => .ok (.child tree)
  | fuel + 1, .none, node :: rest, listType, startNumber =>
      match classifySibling node with
      | .closing => siblingTrees fuel .none rest listType startNumber
      | .aside callout =>
          siblingTrees fuel (.callout (.node BlockType.callout.toString
            (calloutData callout.icon) (markdownDelta toMdast callout.content) [])) rest
            listType startNumber
      | .details value => do
          let (tree, summaryWritten) ← match ← parseDetailsHtml value with
            | some details => do
                let body ← toggleBodyTrees fuel details.body
                pure ((toggleTree (markdownDelta toMdast details.summary)).extend body, true)
            | none => pure (toggleTree [], false)
          siblingTrees fuel (.toggle tree summaryWritten) rest listType startNumber
      | .other => do
          let first ← nodeTrees fuel node listType startNumber
          let second ← siblingTrees fuel .none rest listType startNumber
          pure (first ++ second)
  | fuel + 1, .callout tree, node :: rest, listType, startNumber =>
      if isHtmlTag "</aside>" node then do
        let after ← siblingTrees fuel .none rest listType startNumber
        pure (.child tree ++ after)
      else do
        let inner ← nodeTrees fuel node listType startNumber
        siblingTrees fuel (.callout (tree.extend inner)) rest listType startNumber
  | fuel + 1, .toggle tree summaryWritten, node :: rest, listType, startNumber =>
      match classifyToggleSibling summaryWritten node with
      | .close => do
          let after ← siblingTrees fuel .none rest listType startNumber
          pure (.child tree ++ after)
      | .summary value => do
          match ← extractTagContent value "summary" with
          | some (summary, after) =>
              let body ← toggleBodyTrees fuel (trim after)
              siblingTrees fuel (.toggle ((tree.extend ⟨markdownDelta toMdast summary, []⟩).extend
                body) true) rest listType startNumber
          | none => siblingTrees fuel (.toggle tree summaryWritten) rest listType startNumber
      | .other => do
          let inner ← nodeTrees fuel node listType startNumber
          siblingTrees fuel (.toggle (tree.extend inner) summaryWritten) rest listType
            startNumber
termination_by structural fuel => fuel

/-- What `processToggleBody` adds under the toggle. -/
def toggleBodyTrees : Nat → String → Except Fault Contribution
  | 0, _ => .error .outOfFuel
  | fuel + 1, body =>
      if (trim body).isEmpty then .ok .empty
      else match toMdast body with
        | some children => siblingTrees fuel .none children none none
        | none => .ok .empty
termination_by structural fuel => fuel

/-- What `processTableRows` adds under the table: a row block per `TableRow`. -/
def rowTrees : Nat → List AlignKind → Nat → List Node → Except Fault Contribution
  | 0, _, _, _ => .error .outOfFuel
  | _ + 1, _, _, [] => .ok .empty
  | fuel + 1, align, rowIndex, row :: rows => do
      let first ← match tableRowOf row with
        | some cells => rowTree fuel cells rowIndex align
        | none => .ok .empty
      let second ← rowTrees fuel align (rowIndex + 1) rows
      pure (first ++ second)
termination_by structural fuel => fuel

/-- What `processTableRow` adds under the table: the row block and its cells. -/
def rowTree : Nat → List Node → Nat → List AlignKind → Except Fault Contribution
  | 0, _, _, _ => .error .outOfFuel
  | fuel + 1, cells, rowIndex, align => do
      let row ← cellTrees fuel cells rowIndex 0 align
      pure (.child (row.tree BlockType.simpleTableRow.toString HashMap.empty))
termination_by structural fuel => fuel

/-- What the loop over a row's cells adds under the row: per `TableCell`, a
cell block holding a paragraph with the cell's content. -/
def cellTrees : Nat → List Node → Nat → Nat → List AlignKind → Except Fault Contribution
  | 0, _, _, _, _ => .error .outOfFuel
  | _ + 1, [], _, _, _ => .ok .empty
  | fuel + 1, cell :: cells, rowIndex, colIndex, align => do
      let first ← match tableCellOf cell with
        | some children => do
            let paragraph ← siblingTrees fuel .none children none none
            pure (.child (.node BlockType.simpleTableCell.toString (cellData rowIndex colIndex align)
              [] [paragraph.tree BlockType.paragraph.toString HashMap.empty]))
        | none => .ok .empty
      let second ← cellTrees fuel cells rowIndex (colIndex + 1) align
      pure (first ++ second)
termination_by structural fuel => fuel

/-- What the columns rewrite adds under the columns block: a column block per
column index. -/
def columnTrees : Nat → List Node → List Nat → Except Fault Contribution
  | 0, _, _ => .error .outOfFuel
  | _ + 1, _, [] => .ok .empty
  | fuel + 1, bodyRows, colIndex :: colIndices => do
      let column ← columnRowTrees fuel colIndex bodyRows
      let rest ← columnTrees fuel bodyRows colIndices
      pure (.child (column.tree BlockType.simpleColumn.toString HashMap.empty) ++ rest)
termination_by structural fuel => fuel

/-- What the columns rewrite adds under a column: a paragraph per non-empty
cell of the column. -/
def columnRowTrees : Nat → Nat → List Node → Except Fault Contribution
  | 0, _, _ => .error .outOfFuel
  | _ + 1, _, [] => .ok .empty
  | fuel + 1, colIndex, row :: rows => do
      let first ← match row with
        | .tableRow cells =>
            match cells[colIndex]? with
            | some (.tableCell children) =>
                if isTableCellEmpty children then .ok .empty
                else do
                  let paragraph ← siblingTrees fuel .none children none none
                  pure (.child (paragraph.tree BlockType.paragraph.toString HashMap.empty))
            | _ => .ok .empty
        | _ => .ok .empty
      let second ← columnRowTrees fuel colIndex rows
      pure (first ++ second)
termination_by structural fuel => fuel

end

/-- The page `import` builds from markdown: the root's block and what its
content adds under it, or the parse error. -/
def importTree (fuel : Nat) (md : String) : Except Fault (Except DocumentError BlockTree) :=
  match toMdast md with
  | none => .ok (.error .parseMarkdownError)
  | some children =>
      match fuel with
      | 0 => .error .outOfFuel
      | fuel + 1 => do
          let page ← contentTrees toMdast fuel (.root children) none none
          pure (.ok (page.tree BlockType.page.toString HashMap.empty))

example : importTree (fun md =>
      if md = "<aside>💡 Note</aside>" then
        some [.html "<aside>💡 Note</aside>", .paragraph [.text "x"]]
      else if md = "Note" then some [.paragraph [.text "Note"]] else none) 10
      "<aside>💡 Note</aside>" =
    .ok (.ok (.node "page" HashMap.empty [] [.node "callout" (calloutData "💡") [⟨"Note", []⟩]
      [.node "paragraph" HashMap.empty [⟨"x", []⟩] []]])) := rfl

end Semantics

end MdImporter
